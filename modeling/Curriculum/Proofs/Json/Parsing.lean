import Curriculum.Json.Reader
import Curriculum.Proofs.Json.Nesting
import Curriculum.Proofs.Json.Scanning

/-!
# Reading what was written

The reader keeps the containers that are open. Reading the tokens of a document where a value may
come gives the document to the innermost of them (`run_tokens`); the items and the fields that follow
are added one by one, and since no object has two fields of one name, each field comes last. Together
with scanning this is the round trip of documents:

> `read?_render`: a document is read from its text as long as it is not nested too deep.

The other way round, the reader keeps the limit on nesting that it is given (`nesting_le_of_read?`):
what stands in the open containers fits into what is left of the limit (`Within`).
-/

namespace Curriculum

namespace Json

variable {limit longest : Nat}

/-- Read some tokens. -/
def run (limit : Nat) (state : List Open × Expected) (ts : List Token) :
    Option (List Open × Expected) :=
  ts.foldlM (step? limit) state

theorem run_cons (state : List Open × Expected) (t : Token) (ts : List Token) :
    run limit state (t :: ts) = (step? limit state t).bind fun s => run limit s ts := rfl

/-! ## From tokens to the document -/

/-- A document begins with a token that closes nothing. -/
theorem exists_tokens_cons (j : Json) :
    ∃ t ts, tokens j = t :: ts ∧ t ≠ .closeArray := by
  cases j with
  | array items => cases items <;> exact ⟨_, _, by rw [tokens], by simp⟩
  | object fields =>
    cases fields with
    | nil => exact ⟨_, _, by rw [tokens], by simp⟩
    | cons field rest =>
      obtain ⟨name, value⟩ := field
      exact ⟨_, _, by rw [tokens], by simp⟩
  | _ => exact ⟨_, _, by rw [tokens], by simp⟩

/-- What begins a value begins the first item of an array, if one more container may be open. -/
theorem step?_firstItem {outer : List Open} {t : Token} (h : outer.length ≤ limit)
    (ht : t ≠ .closeArray) : step? limit (outer, .firstItem) t = step? limit (outer, .value) t := by
  cases t with
  | closeArray => exact absurd rfl ht
  | _ => simp [step?, h]

/-- Where a value may come, the tokens of a document give it to the innermost open container. -/
def Gives (limit : Nat) (j : Json) : Prop :=
  ∀ outer rest, outer.length + j.nesting ≤ limit →
    run limit (outer, .value) (tokens j ++ rest) = run limit (finish j outer) rest

theorem run_firstItem {j : Json} (h : Gives limit j) {outer : List Open} (rest : List Token)
    (hroom : outer.length + j.nesting ≤ limit) :
    run limit (outer, .firstItem) (tokens j ++ rest) = run limit (finish j outer) rest := by
  obtain ⟨t, ts, htokens, ht⟩ := exists_tokens_cons j
  have hvalue := h outer rest hroom
  rw [htokens, List.cons_append, run_cons] at hvalue ⊢
  rw [step?_firstItem (by omega) ht, hvalue]

theorem run_tokensOfItems {items : List Json} (h : ∀ j ∈ items, Gives limit j) {outer : List Open}
    (rest : List Token) (done : List Json)
    (hroom : ∀ j ∈ items, outer.length + 1 + j.nesting ≤ limit) :
    run limit (.array done :: outer, .next) (tokensOfItems items ++ .closeArray :: rest)
      = run limit (finish (.array (done.reverse ++ items)) outer) rest := by
  induction items generalizing done with
  | nil =>
    rw [tokensOfItems, List.append_nil]
    rfl
  | cons item items ih =>
    obtain ⟨hitem, hitems⟩ := List.forall_mem_cons.mp h
    obtain ⟨hroom, hrooms⟩ := List.forall_mem_cons.mp hroom
    have hcomma : step? limit (.array done :: outer, .next) .comma
        = some (.array done :: outer, .value) := rfl
    rw [tokensOfItems, List.cons_append, run_cons, hcomma, Option.bind_some, List.append_assoc,
      hitem (.array done :: outer) _ hroom, finish, ih hitems (item :: done) hrooms, List.reverse_cons,
      List.append_assoc]
    rfl

theorem run_tokensOfFields {fields : Table String Json} (h : ∀ f ∈ fields, Gives limit f.2)
    {outer : List Open} (rest : List Token) (done : Table String Json) (last : String)
    (hnames : (done ++ fields : Table String Json).keys.Nodup)
    (hroom : ∀ f ∈ fields, outer.length + 1 + f.2.nesting ≤ limit) :
    run limit (.object done last :: outer, .next) (tokensOfFields fields ++ .closeObject :: rest)
      = run limit (finish (.object (done ++ fields)) outer) rest := by
  induction fields generalizing done last with
  | nil =>
    rw [tokensOfFields, List.append_nil]
    rfl
  | cons field fields ih =>
    obtain ⟨name, value⟩ := field
    obtain ⟨hvalue, hvalues⟩ := List.forall_mem_cons.mp h
    obtain ⟨hroom, hrooms⟩ := List.forall_mem_cons.mp hroom
    -- a new name goes to the end, so the fields stay in their order
    have hnew : name ∉ done.keys := by
      rw [Table.keys, List.map_append, List.nodup_append] at hnames
      intro hmem
      exact hnames.2.2 name hmem name List.mem_cons_self rfl
    have hname : run limit (.object done last :: outer, .next)
        (.comma :: .text name :: .colon :: (tokens value ++ (tokensOfFields fields
          ++ .closeObject :: rest)))
        = run limit (.object done name :: outer, .value) (tokens value ++ (tokensOfFields fields
          ++ .closeObject :: rest)) := rfl
    rw [tokensOfFields, List.cons_append, List.cons_append, List.cons_append, List.append_assoc,
      hname, hvalue (.object done name :: outer) _ hroom, finish, Table.insert_of_not_mem hnew, ih hvalues]
    · rw [List.append_assoc]
      rfl
    · rw [List.append_assoc]
      exact hnames
    · exact hrooms

/-- **The tokens of a document are read as the document.** -/
theorem run_tokens {j : Json} (h : Proper longest j) : Gives limit j := by
  induction h with
  | null => exact fun _ _ _ => by rw [tokens]; rfl
  | bool b => exact fun _ _ _ => by rw [tokens]; rfl
  | number => exact fun _ _ _ => by rw [tokens]; rfl
  | text s => exact fun _ _ _ => by rw [tokens]; rfl
  | @array items _ ih =>
    intro outer rest hroom
    cases items with
    | nil =>
      rw [tokens]
      rfl
    | cons item items =>
      obtain ⟨hroomItem, hroomItems⟩ :=
        List.forall_mem_cons.mp (add_nesting_array_le_iff.mp hroom).2
      obtain ⟨hitem, hitems⟩ := List.forall_mem_cons.mp ih
      have hroomItem' : (Open.array [] :: outer).length + item.nesting ≤ limit := hroomItem
      have hopen : step? limit (outer, .value) .openArray
          = some (.array [] :: outer, .firstItem) := rfl
      rw [tokens, List.cons_append, run_cons, hopen, Option.bind_some, List.append_assoc,
        List.append_assoc, run_firstItem hitem _ hroomItem', finish, List.singleton_append,
        run_tokensOfItems hitems rest [item] hroomItems]
      rfl
  | @object fields hnames _ ih =>
    intro outer rest hroom
    cases fields with
    | nil =>
      rw [tokens]
      rfl
    | cons field fields =>
      obtain ⟨name, value⟩ := field
      obtain ⟨hroomValue, hroomValues⟩ :=
        List.forall_mem_cons.mp (add_nesting_object_le_iff.mp hroom).2
      obtain ⟨hvalue, hvalues⟩ := List.forall_mem_cons.mp ih
      have hfirst : run limit (outer, .value) (.openObject :: .text name :: .colon
          :: (tokens value ++ (tokensOfFields fields ++ .closeObject :: rest)))
          = run limit (.object [] name :: outer, .value) (tokens value ++ (tokensOfFields fields
            ++ .closeObject :: rest)) := by
        have hlength : outer.length + 1 ≤ limit := by omega
        simp [run_cons, step?, startValue?, name?, hlength]
      simp only [tokens, List.cons_append, List.append_assoc, List.nil_append]
      rw [hfirst, hvalue (.object [] name :: outer) _ hroomValue, finish, Table.insert_nil,
        run_tokensOfFields hvalues rest [(name, value)] name hnames hroomValues]
      rfl

theorem ofTokens?_tokens {j : Json} (h : Proper longest j) (hlimit : j.nesting ≤ limit) :
    ofTokens? limit (tokens j) = some j := by
  have hrun : run limit ([], .value) (tokens j ++ []) = run limit (finish j []) [] :=
    run_tokens h [] [] (by rw [List.length_nil]; omega)
  rw [List.append_nil] at hrun
  rw [ofTokens?, ← run, hrun]
  rfl

/-- **A written document is read as it was.** -/
theorem read?_render {limits : Limits} {j : Json} (h : Proper limits.wholePart j)
    (hlimit : j.nesting ≤ limits.nesting) : read? limits j.render = some j := by
  rw [read?, render, String.toList_ofList, tokens?_write h, Option.bind_some,
    ofTokens?_tokens h hlimit]

/-! ## The limit on nesting -/

/-- No word is a container that holds something. -/
def Flat (ts : List Token) : Prop := ∀ v, Token.word v ∈ ts → v.nesting = 0

theorem nesting_of_ofWord? {cs : List Char} {v : Json} (h : ofWord? longest cs = some v) :
    v.nesting = 0 := by
  unfold ofWord? at h
  split at h
  case h_7 =>
    split at h
    all_goals
      obtain ⟨n, -, rfl⟩ := Option.map_eq_some_iff.mp h
      rfl
  all_goals
    obtain rfl := Option.some.inj h
    rfl

theorem flat_cons {t : Token} {ts : List Token} (ht : ∀ v, t = .word v → v.nesting = 0)
    (h : Flat ts) : Flat (t :: ts) := by
  intro v hv
  rcases List.mem_cons.mp hv with hv | hv
  · exact ht v hv.symm
  · exact h v hv

theorem flat_begin? {done : List Token} {c : Char} {next : Scan × List Token} (h : Flat done)
    (hbegin : begin? done c = some next) : Flat next.2 := by
  unfold begin? at hbegin
  split at hbegin
  · obtain rfl := Option.some.inj hbegin
    exact h
  · split at hbegin
    · obtain rfl := Option.some.inj hbegin
      exact h
    · split at hbegin
      · next mark hmark =>
        obtain rfl := Option.some.inj hbegin
        refine flat_cons ?_ h
        rintro v rfl
        unfold Token.ofMark? at hmark
        split at hmark <;> simp at hmark
      · obtain rfl := Option.some.inj hbegin
        exact h

/-- One character more keeps the words flat. -/
theorem flat_scan? {state next : Scan × List Token} {c : Char} (h : Flat state.2)
    (hscan : scan? longest state c = some next) : Flat next.2 := by
  obtain ⟨scan, done⟩ := state
  -- a word is added only where it ends; a text that ends is no word
  cases scan with
  | gap => exact flat_begin? h hscan
  | word seen =>
    rw [scan?] at hscan
    split at hscan
    · obtain ⟨v, hv, hbegin⟩ := Option.bind_eq_some_iff.mp hscan
      refine flat_begin? (flat_cons ?_ h) hbegin
      rintro w hw
      obtain rfl := Token.word.inj hw
      exact nesting_of_ofWord? hv
    · obtain rfl := Option.some.inj hscan
      exact h
  | text seen =>
    rw [scan?] at hscan
    split at hscan
    · obtain rfl := Option.some.inj hscan
      exact flat_cons (by simp) h
    · split at hscan
      · obtain rfl := Option.some.inj hscan
        exact h
      · split at hscan
        · exact absurd hscan (by simp)
        · obtain rfl := Option.some.inj hscan
          exact h
  | escape seen =>
    rw [scan?] at hscan
    split at hscan
    · obtain rfl := Option.some.inj hscan
      exact h
    · obtain ⟨e, -, rfl⟩ := Option.map_eq_some_iff.mp hscan
      exact h
  | code seen high missing value =>
    rw [scan?] at hscan
    obtain ⟨d, -, hscan⟩ := Option.bind_eq_some_iff.mp hscan
    split at hscan
    · obtain ⟨e, -, rfl⟩ := Option.map_eq_some_iff.mp hscan
      exact h
    · obtain rfl := Option.some.inj hscan
      exact h
  | pair seen high =>
    rw [scan?] at hscan
    split at hscan
    · obtain rfl := Option.some.inj hscan
      exact h
    · exact absurd hscan (by simp)
  | pairCode seen high =>
    rw [scan?] at hscan
    split at hscan
    · obtain rfl := Option.some.inj hscan
      exact h
    · exact absurd hscan (by simp)

theorem flat_feed {state next : Scan × List Token} {cs : List Char} (h : Flat state.2)
    (hfeed : feed longest state cs = some next) : Flat next.2 := by
  induction cs generalizing state with
  | nil =>
    obtain rfl := Option.some.inj hfeed
    exact h
  | cons c cs ih =>
    obtain ⟨middle, hscan, hfeed⟩ := Option.bind_eq_some_iff.mp hfeed
    exact ih (flat_scan? h hscan) hfeed

theorem flat_tokens? {cs : List Char} {ts : List Token} (h : tokens? longest cs = some ts) :
    Flat ts := by
  obtain ⟨⟨scan, done⟩, hfeed, hlast⟩ := Option.bind_eq_some_iff.mp h
  have hstart : Flat (Scan.gap, ([] : List Token)).2 := by simp [Flat]
  have hflat : Flat done := flat_feed hstart hfeed
  have hreverse : ∀ {ts : List Token}, Flat ts → Flat ts.reverse :=
    fun h v hv => h v (List.mem_reverse.mp hv)
  cases scan with
  | gap =>
    obtain rfl := Option.some.inj hlast
    exact hreverse hflat
  | word seen =>
    obtain ⟨v, hv, rfl⟩ := Option.map_eq_some_iff.mp hlast
    refine hreverse (flat_cons ?_ hflat)
    rintro w hw
    obtain rfl := Token.word.inj hw
    exact nesting_of_ofWord? hv
  | _ => exact absurd hlast (by simp)

/-- What stands in the open containers fits into what the limit leaves for it. -/
def Within (limit : Nat) : List Open → Prop
  | [] => True
  | .array done :: outer =>
    (∀ j ∈ done, outer.length + 1 + j.nesting ≤ limit) ∧ Within limit outer
  | .object done _ :: outer =>
    (∀ f ∈ done, outer.length + 1 + f.2.nesting ≤ limit) ∧ Within limit outer

/-- The open containers fit into the limit; one that has just been opened may be one too many, as
long as nothing stands in it. -/
def Holds (limit : Nat) : List Open × Expected → Prop
  | (outer, .firstItem) => Within limit outer ∧ outer.length ≤ limit + 1
  | (outer, .firstField) => Within limit outer ∧ outer.length ≤ limit + 1
  | (_, .nothing document) => document.nesting ≤ limit
  | (outer, _) => Within limit outer ∧ outer.length ≤ limit

theorem holds_finish {j : Json} {outer : List Open} (h : Within limit outer)
    (hroom : outer.length + j.nesting ≤ limit) : Holds limit (finish j outer) := by
  cases outer with
  | nil =>
    rw [List.length_nil, Nat.zero_add] at hroom
    exact hroom
  | cons frame outer =>
    have hlength : (frame :: outer).length = outer.length + 1 := List.length_cons
    cases frame with
    | array done =>
      refine ⟨⟨List.forall_mem_cons.mpr ⟨hroom, h.1⟩, h.2⟩, ?_⟩
      rw [List.length_cons] at hroom ⊢
      omega
    | object done name =>
      refine ⟨⟨?_, h.2⟩, ?_⟩
      · intro f hf
        rcases Table.mem_of_mem_insert hf with hf | rfl
        · exact h.1 f hf
        · exact hroom
      · rw [List.length_cons] at hroom ⊢
        omega

theorem holds_startValue? {outer : List Open} {t : Token} {next : List Open × Expected}
    (ht : ∀ v, t = .word v → v.nesting = 0) (h : Within limit outer) (hlength : outer.length ≤ limit)
    (hstart : startValue? outer t = some next) : Holds limit next := by
  cases t with
  | word v =>
    obtain rfl := Option.some.inj hstart
    exact holds_finish h (by rw [ht v rfl]; omega)
  | text s =>
    obtain rfl := Option.some.inj hstart
    exact holds_finish h (by simpa using hlength)
  | openArray =>
    obtain rfl := Option.some.inj hstart
    exact ⟨⟨by simp, h⟩, by rw [List.length_cons]; omega⟩
  | openObject =>
    obtain rfl := Option.some.inj hstart
    exact ⟨⟨by simp, h⟩, by rw [List.length_cons]; omega⟩
  | _ => exact absurd hstart (by simp [startValue?])

theorem holds_close? {outer : List Open} {t : Token} {next : List Open × Expected}
    (h : Within limit outer) (hlength : outer.length ≤ limit + 1)
    (hclose : close? outer t = some next) : Holds limit next := by
  unfold close? at hclose
  split at hclose
  · next done outer =>
    obtain rfl := Option.some.inj hclose
    have hroom : outer.length ≤ limit := Nat.le_of_succ_le_succ hlength
    refine holds_finish h.2 (add_nesting_array_le_iff.mpr ⟨hroom, fun j hj => ?_⟩)
    exact h.1 j (List.mem_reverse.mp hj)
  · next done name outer =>
    obtain rfl := Option.some.inj hclose
    have hroom : outer.length ≤ limit := Nat.le_of_succ_le_succ hlength
    exact holds_finish h.2 (add_nesting_object_le_iff.mpr ⟨hroom, h.1⟩)
  · exact absurd hclose (by simp)

theorem holds_name? {outer : List Open} {t : Token} {next : List Open × Expected}
    (h : Within limit outer) (hlength : outer.length ≤ limit)
    (hname : name? outer t = some next) : Holds limit next := by
  unfold name? at hname
  split at hname
  · obtain rfl := Option.some.inj hname
    exact ⟨h, hlength⟩
  · exact absurd hname (by simp)

/-- One token more keeps the containers within the limit. -/
theorem holds_step? {state next : List Open × Expected} {t : Token}
    (ht : ∀ v, t = .word v → v.nesting = 0) (h : Holds limit state)
    (hstep : step? limit state t = some next) : Holds limit next := by
  unfold step? at hstep
  -- a container that was just opened is one too many only until something is to stand in it
  split at hstep
  · exact holds_startValue? ht h.1 h.2 hstep
  · exact holds_close? h.1 h.2 hstep
  · split at hstep
    · next hlength => exact holds_startValue? ht h.1 hlength hstep
    · exact absurd hstep (by simp)
  · exact holds_close? h.1 h.2 hstep
  · split at hstep
    · next hlength => exact holds_name? h.1 hlength hstep
    · exact absurd hstep (by simp)
  · exact holds_name? h.1 h.2 hstep
  · obtain rfl := Option.some.inj hstep
    exact h
  · obtain rfl := Option.some.inj hstep
    exact h
  · obtain rfl := Option.some.inj hstep
    exact h
  · exact holds_close? h.1 (Nat.le_succ_of_le h.2) hstep
  · exact absurd hstep (by simp)

theorem holds_run {state next : List Open × Expected} {ts : List Token} (hflat : Flat ts)
    (h : Holds limit state) (hrun : run limit state ts = some next) : Holds limit next := by
  induction ts generalizing state with
  | nil =>
    obtain rfl := Option.some.inj hrun
    exact h
  | cons t ts ih =>
    obtain ⟨middle, hstep, hrun⟩ := Option.bind_eq_some_iff.mp hrun
    have ht : ∀ v, t = .word v → v.nesting = 0 := by
      rintro v rfl
      exact hflat v List.mem_cons_self
    exact ih (fun v hv => hflat v (List.mem_cons_of_mem _ hv)) (holds_step? ht h hstep) hrun

/-- **A document that is read keeps the limit on nesting.** -/
theorem nesting_le_of_read? {limits : Limits} {s : String} {j : Json}
    (h : read? limits s = some j) : j.nesting ≤ limits.nesting := by
  obtain ⟨ts, hts, hread⟩ := Option.bind_eq_some_iff.mp h
  obtain ⟨⟨outer, expected⟩, hrun, hlast⟩ := Option.bind_eq_some_iff.mp hread
  have hstart : Holds limits.nesting ([], .value) := ⟨trivial, Nat.zero_le _⟩
  have hholds : Holds limits.nesting (outer, expected) := holds_run (flat_tokens? hts) hstart hrun
  split at hlast
  · next document hstate =>
    obtain ⟨rfl, rfl⟩ := Prod.mk.inj hstate
    obtain rfl := Option.some.inj hlast
    exact hholds
  · exact absurd hlast (by simp)

end Json

end Curriculum
