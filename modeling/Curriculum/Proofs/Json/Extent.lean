import Curriculum.Proofs.Json.Parsing
import Mathlib.Data.List.Induction

/-!
# Where an object begins and ends

A text that is read as an object is white space, an opening brace, something, a closing brace, and
white space again. Neither the scanner nor the reader can tell what stood before the one brace or
comes behind the other, so the object can be cut out of its text and stays the same object.

The scanner can be stopped between any two characters: what was scanned before is kept and never
looked at again (`feed_done`), and the tokens to come depend on its state alone (`tokensFrom?`). A
mark is one character. So if the first token is a mark, it is the first character that is no white
space (`first_of_tokens?`), for a token that is begun in any other way is no mark; and likewise for
the last (`last_of_tokens?`).

The reader never changes which container is the outermost one (`opener?_run`), it finishes an object
with its brace only (`last_of_step?`), and behind a document it reads nothing.

> `exists_extent_of_read?`: the object stands between two braces, with nothing but white space around
> them; and if anything but white space comes behind it, the text is no document any more.
-/

namespace Curriculum

namespace Json

variable {longest limit : Nat}

/-! ## Pieces of a text -/

theorem feed_append (state : Scan × List Token) (cs cs' : List Char) :
    feed longest state (cs ++ cs') = (feed longest state cs).bind fun s => feed longest s cs' :=
  List.foldlM_append

/-- Tokens that were scanned before are kept, whatever comes next. -/
theorem begin?_append (new done : List Token) (c : Char) :
    begin? (new ++ done) c = (begin? new c).map fun r => (r.1, r.2 ++ done) := by
  unfold begin?
  split
  · rfl
  · split
    · rfl
    · split <;> rfl

theorem scan?_done (s : Scan) (done : List Token) (c : Char) :
    scan? longest (s, done) c = (scan? longest (s, []) c).map fun r => (r.1, r.2 ++ done) := by
  cases s with
  | gap => exact begin?_append [] done c
  | word seen =>
    simp only [scan?]
    split
    · cases ofWord? longest seen.reverse with
      | none => rfl
      | some v => exact begin?_append [.word v] done c
    · rfl
  | text seen =>
    simp only [scan?]
    repeat' split
    all_goals rfl
  | escape seen =>
    simp only [scan?]
    split
    · rfl
    · cases unescape? c <;> rfl
  | code seen high missing value =>
    simp only [scan?]
    cases hexValue? c with
    | none => rfl
    | some d =>
      simp only [Option.bind_some]
      split
      · cases afterCode? seen high (16 * value + d) <;> rfl
      · rfl
  | pair seen high =>
    simp only [scan?]
    split <;> rfl
  | pairCode seen high =>
    simp only [scan?]
    split <;> rfl

theorem feed_done (s : Scan) (done : List Token) (cs : List Char) :
    feed longest (s, done) cs = (feed longest (s, []) cs).map fun r => (r.1, r.2 ++ done) := by
  induction cs generalizing s done with
  | nil => rfl
  | cons c cs ih =>
    rw [feed_cons, feed_cons, scan?_done]
    cases scan? longest (s, []) c with
    | none => rfl
    | some r =>
      obtain ⟨s', new⟩ := r
      simp only [Option.map_some, Option.bind_some]
      rw [ih s' (new ++ done), ih s' new]
      cases feed longest (s', []) cs with
      | none => rfl
      | some r' => simp

/-! ## Tokens from a state -/

/-- The tokens that a text still owes where it ends; none if it ends inside a text. -/
def lastTokens? (longest : Nat) : Scan → Option (List Token)
  | .gap => some []
  | .word seen => (ofWord? longest seen.reverse).map fun v => [.word v]
  | _ => none

/-- The tokens of a text that begins in a state of the scanner. -/
def tokensFrom? (longest : Nat) (s : Scan) (cs : List Char) : Option (List Token) :=
  (feed longest (s, []) cs).bind fun r => (lastTokens? longest r.1).map fun ts => r.2.reverse ++ ts

theorem tokens?_eq (cs : List Char) : tokens? longest cs = tokensFrom? longest .gap cs := by
  rw [tokens?, tokensFrom?, feed]
  cases cs.foldlM (scan? longest) (Scan.gap, []) with
  | none => rfl
  | some r =>
    obtain ⟨s, done⟩ := r
    cases s with
    | gap => simp [lastTokens?]
    | word seen => cases hv : ofWord? longest seen.reverse <;> simp [lastTokens?, hv]
    | _ => rfl

theorem tokensFrom?_append {s s' : Scan} {cs : List Char} {new : List Token}
    (h : feed longest (s, []) cs = some (s', new)) (cs' : List Char) :
    tokensFrom? longest s (cs ++ cs')
      = (tokensFrom? longest s' cs').map fun ts => new.reverse ++ ts := by
  rw [tokensFrom?, feed_append, h, Option.bind_some, feed_done, tokensFrom?]
  cases feed longest (s', []) cs' with
  | none => rfl
  | some r => cases hlast : lastTokens? longest r.1 <;> simp [hlast]

theorem exists_of_tokensFrom?_cons {s : Scan} {c : Char} {cs : List Char} {ts : List Token}
    (h : tokensFrom? longest s (c :: cs) = some ts) :
    ∃ s' new ts', scan? longest (s, []) c = some (s', new) ∧
      tokensFrom? longest s' cs = some ts' ∧ ts = new.reverse ++ ts' := by
  cases hscan : scan? longest (s, []) c with
  | none => exact absurd h (by simp [tokensFrom?, feed_cons, hscan])
  | some r =>
    obtain ⟨s', new⟩ := r
    have hfeed : feed longest (s, []) [c] = some (s', new) := by
      rw [feed_cons, hscan]
      rfl
    have hsplit := tokensFrom?_append hfeed cs
    rw [List.singleton_append, h] at hsplit
    obtain ⟨ts', hts', hts⟩ := Option.map_eq_some_iff.mp hsplit.symm
    exact ⟨s', new, ts', rfl, hts', hts.symm⟩

/-! ## The first and the last token -/

/-- Whether a token is one of the six marks. -/
def Token.IsMark : Token → Prop
  | .text _ => False
  | .word _ => False
  | _ => True

/-- A text of nothing but white space. -/
def Gaps (cs : List Char) : Prop := ∀ c ∈ cs, isGap c = true

theorem closes_gaps {cs : List Char} (h : Gaps cs) : Closes longest cs [] := by
  induction cs with
  | nil => exact fun _ _ => rfl
  | cons c cs ih =>
    obtain ⟨hc, hcs⟩ := List.forall_mem_cons.mp h
    exact (closes_gap hc).closes_append (ih hcs)

/-- What the scanner does at a character that belongs to no earlier token. -/
theorem begin?_cases {done new : List Token} {c : Char} {s : Scan}
    (h : begin? done c = some (s, new)) :
    (isGap c = true ∧ s = .gap ∧ new = done) ∨ (s ≠ .gap ∧ new = done) ∨
      ∃ t, Token.ofMark? c = some t ∧ s = .gap ∧ new = t :: done := by
  unfold begin? at h
  split at h
  · next hgap =>
    obtain ⟨rfl, rfl⟩ := Prod.mk.inj (Option.some.inj h)
    exact Or.inl ⟨hgap, rfl, rfl⟩
  · split at h
    · obtain ⟨rfl, rfl⟩ := Prod.mk.inj (Option.some.inj h)
      exact Or.inr (Or.inl ⟨by simp, rfl⟩)
    · split at h
      · next t ht =>
        obtain ⟨rfl, rfl⟩ := Prod.mk.inj (Option.some.inj h)
        exact Or.inr (Or.inr ⟨t, ht, rfl, rfl⟩)
      · obtain ⟨rfl, rfl⟩ := Prod.mk.inj (Option.some.inj h)
        exact Or.inr (Or.inl ⟨by simp, rfl⟩)

theorem afterCode?_ne_gap {seen : List Char} {high : Option Nat} {value : Nat} {s : Scan}
    (h : afterCode? seen high value = some s) : s ≠ .gap := by
  rintro rfl
  simp only [afterCode?] at h
  split at h
  · split at h
    · exact absurd h (by simp)
    · split at h <;> exact absurd h (by simp)
  · split at h <;> exact absurd h (by simp)

/-- Inside a token, a character leads on inside of it or is the first behind it; the token is no
mark, and a mark behind it is the character. -/
theorem scan?_inside {s s' : Scan} {c : Char} {new : List Token} (hs : s ≠ .gap)
    (h : scan? longest (s, []) c = some (s', new)) :
    (s' ≠ .gap ∧ new = []) ∨ ∃ t, ¬ t.IsMark ∧
      (new = [t] ∨ ∃ t', Token.ofMark? c = some t' ∧ s' = .gap ∧ new = [t', t]) := by
  have hon : ∀ {next : Scan}, next ≠ .gap → some (next, []) = some (s', new) →
      s' ≠ .gap ∧ new = [] := by
    intro next hnext heq
    obtain ⟨rfl, rfl⟩ := Prod.mk.inj (Option.some.inj heq)
    exact ⟨hnext, rfl⟩
  cases s with
  | gap => exact absurd rfl hs
  | word seen =>
    rw [scan?] at h
    split at h
    · obtain ⟨v, -, hbegin⟩ := Option.bind_eq_some_iff.mp h
      refine Or.inr ⟨.word v, id, ?_⟩
      obtain ⟨-, -, hnew⟩ | ⟨-, hnew⟩ | hmark := begin?_cases hbegin
      · exact Or.inl hnew
      · exact Or.inl hnew
      · exact Or.inr hmark
    · exact Or.inl (hon (by simp) h)
  | text seen =>
    rw [scan?] at h
    split at h
    · obtain ⟨-, rfl⟩ := Prod.mk.inj (Option.some.inj h)
      exact Or.inr ⟨_, id, Or.inl rfl⟩
    · split at h
      · exact Or.inl (hon (by simp) h)
      · split at h
        · exact absurd h (by simp)
        · exact Or.inl (hon (by simp) h)
  | escape seen =>
    rw [scan?] at h
    split at h
    · exact Or.inl (hon (by simp) h)
    · obtain ⟨e, -, he⟩ := Option.map_eq_some_iff.mp h
      exact Or.inl (hon (by simp) (congrArg some he))
  | code seen high missing value =>
    rw [scan?] at h
    obtain ⟨d, -, h⟩ := Option.bind_eq_some_iff.mp h
    split at h
    · obtain ⟨next, hnext, he⟩ := Option.map_eq_some_iff.mp h
      exact Or.inl (hon (afterCode?_ne_gap hnext) (congrArg some he))
    · exact Or.inl (hon (by simp) h)
  | pair seen high =>
    rw [scan?] at h
    split at h
    · exact Or.inl (hon (by simp) h)
    · exact absurd h (by simp)
  | pairCode seen high =>
    rw [scan?] at h
    split at h
    · exact Or.inl (hon (by simp) h)
    · exact absurd h (by simp)

/-- A character that leads between two tokens is white space between them or ends a token; a mark
that it ends is the character. -/
theorem scan?_to_gap {s : Scan} {c : Char} {new : List Token}
    (h : scan? longest (s, []) c = some (.gap, new)) :
    (s = .gap ∧ isGap c = true ∧ new = []) ∨
      ∃ t older, new = t :: older ∧ (t.IsMark → Token.ofMark? c = some t) := by
  by_cases hs : s = .gap
  · subst hs
    obtain ⟨hgap, -, hnew⟩ | ⟨hne, -⟩ | ⟨t, ht, -, hnew⟩ := begin?_cases h
    · exact Or.inl ⟨rfl, hgap, hnew⟩
    · exact absurd rfl hne
    · exact Or.inr ⟨t, [], hnew, fun _ => ht⟩
  · obtain ⟨hne, -⟩ | ⟨t, ht, hnew | ⟨t', ht', -, hnew⟩⟩ := scan?_inside hs h
    · exact absurd rfl hne
    · exact Or.inr ⟨t, [], hnew, fun hmark => absurd hmark ht⟩
    · exact Or.inr ⟨t', [t], hnew, fun _ => ht'⟩

/-- The token that a text begins inside of comes first, and it is no mark. -/
theorem exists_of_tokensFrom?_inside {s : Scan} {cs : List Char} {ts : List Token} (hs : s ≠ .gap)
    (h : tokensFrom? longest s cs = some ts) : ∃ t ts', ts = t :: ts' ∧ ¬ t.IsMark := by
  induction cs generalizing s ts with
  | nil =>
    cases s with
    | gap => exact absurd rfl hs
    | word seen =>
      obtain ⟨v, -, rfl⟩ : ∃ v, ofWord? longest seen.reverse = some v ∧ [Token.word v] = ts := by
        simpa [tokensFrom?, feed, lastTokens?] using h
      exact ⟨_, [], rfl, id⟩
    | _ => exact absurd h (by simp [tokensFrom?, feed, lastTokens?])
  | cons c cs ih =>
    obtain ⟨s', new, ts', hscan, hrest, rfl⟩ := exists_of_tokensFrom?_cons h
    obtain ⟨hs', rfl⟩ | ⟨t, ht, rfl | ⟨t', -, -, rfl⟩⟩ := scan?_inside hs hscan
    · exact ih hs' hrest
    · exact ⟨t, ts', rfl, ht⟩
    · exact ⟨t, t' :: ts', rfl, ht⟩

/-- A text is white space, or it has a first token; if this is a mark, it is the first character
that is no white space. -/
theorem first_of_tokens? {cs : List Char} {ts : List Token} (h : tokens? longest cs = some ts) :
    (Gaps cs ∧ ts = []) ∨ ∃ before c rest t ts', cs = before ++ c :: rest ∧ Gaps before ∧
      ts = t :: ts' ∧ (t.IsMark → Token.ofMark? c = some t) := by
  rw [tokens?_eq] at h
  induction cs generalizing ts with
  | nil =>
    obtain rfl : [] = ts := by simpa [tokensFrom?, feed, lastTokens?] using h
    exact Or.inl ⟨by simp [Gaps], rfl⟩
  | cons c cs ih =>
    obtain ⟨s', new, ts', hscan, hrest, rfl⟩ := exists_of_tokensFrom?_cons h
    obtain ⟨hgap, rfl, rfl⟩ | ⟨hs', rfl⟩ | ⟨t, ht, rfl, rfl⟩ := begin?_cases hscan
    · obtain ⟨hgaps, rfl⟩ | ⟨before, c', rest, t, ts'', rfl, hbefore, rfl, ht⟩ := ih hrest
      · exact Or.inl ⟨List.forall_mem_cons.mpr ⟨hgap, hgaps⟩, rfl⟩
      · exact Or.inr ⟨c :: before, c', rest, t, ts'', rfl,
          List.forall_mem_cons.mpr ⟨hgap, hbefore⟩, rfl, ht⟩
    · obtain ⟨t, ts'', rfl, ht⟩ := exists_of_tokensFrom?_inside hs' hrest
      exact Or.inr ⟨[], c, cs, t, ts'', rfl, by simp [Gaps], rfl, fun hmark => absurd hmark ht⟩
    · exact Or.inr ⟨[], c, cs, t, ts', rfl, by simp [Gaps], rfl, fun _ => ht⟩

/-- Scanning one character behind a piece of a text. -/
theorem feed_snoc {cs : List Char} {c : Char} {s s' : Scan} {done new : List Token}
    (hfeed : feed longest (.gap, []) cs = some (s, done))
    (hscan : scan? longest (s, []) c = some (s', new)) :
    feed longest (.gap, []) (cs ++ [c]) = some (s', new ++ done) := by
  rw [feed_append, hfeed, Option.bind_some, feed_cons, scan?_done, hscan]
  rfl

/-- What a text with one character more owes to its last character. -/
theorem exists_of_tokens?_snoc {cs : List Char} {c : Char} {ts : List Token}
    (h : tokens? longest (cs ++ [c]) = some ts) :
    ∃ s done s' new last, feed longest (.gap, []) cs = some (s, done) ∧
      scan? longest (s, []) c = some (s', new) ∧ lastTokens? longest s' = some last ∧
      ts = done.reverse ++ (new.reverse ++ last) := by
  rw [tokens?_eq] at h
  cases hfeed : feed longest (.gap, []) cs with
  | none => exact absurd h (by simp [tokensFrom?, feed_append, hfeed])
  | some r =>
    obtain ⟨s, done⟩ := r
    rw [tokensFrom?_append hfeed] at h
    obtain ⟨ts', hts', rfl⟩ := Option.map_eq_some_iff.mp h
    obtain ⟨s', new, last, hscan, hlast, rfl⟩ := exists_of_tokensFrom?_cons hts'
    refine ⟨s, done, s', new, last, rfl, hscan, ?_, rfl⟩
    simpa [tokensFrom?, feed] using hlast

/-- A mark that is the last token of a text is its last character but for white space. -/
theorem last_of_tokens? {cs : List Char} {ts : List Token} {t : Token}
    (h : tokens? longest cs = some (ts ++ [t])) (ht : t.IsMark) :
    ∃ before c after, cs = before ++ c :: after ∧ Gaps after ∧ Token.ofMark? c = some t ∧
      feed longest (.gap, []) (before ++ [c]) = some (.gap, t :: ts.reverse) := by
  induction cs using List.reverseRecOn with
  | nil => exact absurd h (by simp [tokens?])
  | append_singleton cs c ih =>
    obtain ⟨s, done, s', new, last, hfeed, hscan, hlast, hts⟩ := exists_of_tokens?_snoc h
    have hfeed' := feed_snoc hfeed hscan
    have hinj : ∀ {l : List Token} {u}, ts ++ [t] = l ++ [u] → ts = l ∧ t = u :=
      fun h => by simpa using h
    cases s' with
    | gap =>
      obtain rfl : [] = last := by simpa [lastTokens?] using hlast
      obtain ⟨rfl, hgap, rfl⟩ | ⟨t', older, rfl, hc⟩ := scan?_to_gap hscan
      · have hcs : tokens? longest cs = some (ts ++ [t]) := by
          rw [hts, tokens?, ← feed, hfeed]
          simp
        obtain ⟨before, c', after, rfl, hafter, hc', hbefore⟩ := ih hcs
        refine ⟨before, c', after ++ [c], by simp, ?_, hc', hbefore⟩
        exact List.forall_mem_append.mpr ⟨hafter, by simpa using hgap⟩
      · obtain ⟨rfl, rfl⟩ := hinj (l := done.reverse ++ older.reverse) (by simpa using hts)
        exact ⟨cs, c, [], rfl, by simp [Gaps], hc ht, by simpa using hfeed'⟩
    | word seen =>
      -- the text ends with a word
      obtain ⟨v, -, rfl⟩ := Option.map_eq_some_iff.mp hlast
      rw [← List.append_assoc] at hts
      obtain ⟨-, rfl⟩ := hinj hts
      exact absurd ht id
    | _ => exact absurd hlast (by simp [lastTokens?])

/-! ## Cutting out -/

theorem closes_of_feed {cs : List Char} {done : List Token}
    (h : feed longest (.gap, []) cs = some (.gap, done)) : Closes longest cs done.reverse := by
  intro before rest
  rw [feed_append, feed_done, h, List.reverse_reverse]
  rfl

theorem tokens?_append_of_closes {cs : List Char} {ts : List Token} (h : Closes longest cs ts)
    (rest : List Char) :
    tokens? longest (cs ++ rest) = (tokens? longest rest).map fun ts' => ts ++ ts' := by
  have hfeed : feed longest (.gap, []) cs = some (.gap, ts.reverse) := by
    simpa [feed] using h [] []
  rw [tokens?_eq, tokens?_eq, tokensFrom?_append hfeed, List.reverse_reverse]

theorem tokens?_of_closes {cs : List Char} {ts : List Token} (h : Closes longest cs ts) :
    tokens? longest cs = some ts := by
  have hall := tokens?_append_of_closes h []
  simpa [tokens?] using hall

theorem ofMark?_inj {c c' : Char} {t : Token} (h : Token.ofMark? c = some t)
    (h' : Token.ofMark? c' = some t) : c = c' := by
  unfold Token.ofMark? at h
  split at h
  case h_7 => exact absurd h (by simp)
  all_goals
    obtain rfl := Option.some.inj h
    unfold Token.ofMark? at h'
    split at h' <;> first | rfl | cases h'

/-- If the braces of an object are the first and the last token of a text, it is white space outside
of them. -/
theorem exists_between_braces {cs : List Char} {ts : List Token}
    (h : tokens? longest cs = some (.openObject :: (ts ++ [.closeObject]))) :
    ∃ before inner after, cs = before ++ ('{' :: (inner ++ '}' :: after)) ∧ Gaps before ∧
      Gaps after ∧
      Closes longest ('{' :: (inner ++ ['}'])) (.openObject :: (ts ++ [.closeObject])) := by
  obtain ⟨-, hnil⟩ | ⟨before, c, rest, t, ts', rfl, hbefore, hts, hc⟩ := first_of_tokens? h
  · exact absurd hnil (by simp)
  obtain ⟨rfl, rfl⟩ := List.cons.inj hts
  obtain rfl : c = '{' := ofMark?_inj (hc trivial) rfl
  have hrest : tokens? longest ('{' :: rest) = some ((.openObject :: ts) ++ [.closeObject]) := by
    simpa [tokens?_append_of_closes (closes_gaps hbefore)] using h
  obtain ⟨front, c, after, hsplit, hafter, hc, hfeed⟩ := last_of_tokens? hrest trivial
  obtain rfl : c = '}' := ofMark?_inj hc rfl
  -- the two braces are not the same character
  obtain ⟨-, ⟨⟩⟩ | ⟨inner, rfl, rfl⟩ := List.cons_eq_append_iff.mp hsplit
  refine ⟨before, inner, after, rfl, hbefore, hafter, ?_⟩
  simpa using closes_of_feed hfeed

/-! ## The outermost container -/

/-- The token that opens a container. -/
def Open.opening : Open → Token
  | .array _ => .openArray
  | .object _ _ => .openObject

/-- The token that opened the outermost container, which may be finished. -/
def opener? : List Open × Expected → Option Token
  | ([], .nothing (.array _)) => some .openArray
  | ([], .nothing (.object _)) => some .openObject
  | (outer, _) => outer.getLast?.map Open.opening

/-- A state after some open containers: the outermost one is open or has become the document. -/
structure Follows (outer : List Open) (next : List Open × Expected) : Prop where
  opener : opener? next = outer.getLast?.map Open.opening
  finished : next.1 = [] → ∃ document, next.2 = .nothing document

theorem follows_of_opening {frame frame' : Open} {outer : List Open} {e : Expected}
    (h : frame'.opening = frame.opening) : Follows (frame :: outer) (frame' :: outer, e) := by
  refine ⟨?_, by simp⟩
  cases outer with
  | nil => simp [opener?, h]
  | cons frame'' outer => simp [opener?, List.getLast?_cons_cons]

theorem follows_finish (j : Json) (frame : Open) (outer : List Open) :
    Follows (frame :: outer) (finish j (frame :: outer)) := by
  cases frame with
  | array done => exact follows_of_opening (by rfl)
  | object done name => exact follows_of_opening (by rfl)

theorem follows_startValue? {outer : List Open} {t : Token} {next : List Open × Expected}
    (houter : outer ≠ []) (h : startValue? outer t = some next) : Follows outer next := by
  obtain ⟨frame, outer, rfl⟩ := List.exists_cons_of_ne_nil houter
  cases t with
  | word v =>
    obtain rfl := Option.some.inj h
    exact follows_finish v frame outer
  | text s =>
    obtain rfl := Option.some.inj h
    exact follows_finish (.text s) frame outer
  | openArray =>
    obtain rfl := Option.some.inj h
    exact ⟨by simp [opener?, List.getLast?_cons_cons], by simp⟩
  | openObject =>
    obtain rfl := Option.some.inj h
    exact ⟨by simp [opener?, List.getLast?_cons_cons], by simp⟩
  | _ => exact absurd h (by simp [startValue?])

theorem follows_close? {outer : List Open} {t : Token} {next : List Open × Expected}
    (h : close? outer t = some next) : Follows outer next := by
  have hinner : ∀ (frame : Open) (j : Json) (outer : List Open),
      opener? ([], .nothing j) = some frame.opening →
      Follows (frame :: outer) (finish j outer) := by
    intro frame j outer hj
    cases outer with
    | nil => exact ⟨hj, fun _ => ⟨j, rfl⟩⟩
    | cons frame' outer =>
      obtain ⟨hopener, hfinished⟩ := follows_finish j frame' outer
      exact ⟨by rw [hopener, List.getLast?_cons_cons], hfinished⟩
  unfold close? at h
  split at h
  · next done outer =>
    obtain rfl := Option.some.inj h
    exact hinner (.array done) _ outer rfl
  · next done name outer =>
    obtain rfl := Option.some.inj h
    exact hinner (.object done name) _ outer rfl
  · exact absurd h (by simp)

theorem follows_name? {outer : List Open} {t : Token} {next : List Open × Expected}
    (h : name? outer t = some next) : Follows outer next := by
  unfold name? at h
  split at h
  · obtain rfl := Option.some.inj h
    exact follows_of_opening (by rfl)
  · exact absurd h (by simp)

/-- One token more keeps the outermost container or finishes it. -/
theorem follows_step? {state next : List Open × Expected} {t : Token} (hstate : state.1 ≠ [])
    (h : step? limit state t = some next) : Follows state.1 next := by
  unfold step? at h
  split at h
  · exact follows_startValue? hstate h
  · exact follows_close? h
  · split at h
    · exact follows_startValue? hstate h
    · exact absurd h (by simp)
  · exact follows_close? h
  · split at h
    · exact follows_name? h
    · exact absurd h (by simp)
  · exact follows_name? h
  · next outer =>
    obtain rfl := Option.some.inj h
    obtain ⟨frame, outer, rfl⟩ := List.exists_cons_of_ne_nil hstate
    exact follows_of_opening (by rfl)
  · obtain rfl := Option.some.inj h
    exact follows_of_opening (by rfl)
  · obtain rfl := Option.some.inj h
    exact follows_of_opening (by rfl)
  · exact follows_close? h
  · exact absurd h (by simp)

/-- Behind a finished document no token is read. -/
theorem step?_nothing (document : Json) (t : Token) :
    step? limit ([], .nothing document) t = none := by
  cases t <;> rfl

theorem run_nothing {document : Json} {ts : List Token} {next : List Open × Expected}
    (h : run limit ([], .nothing document) ts = some next) :
    ts = [] ∧ next = ([], .nothing document) := by
  cases ts with
  | nil => exact ⟨rfl, (Option.some.inj h).symm⟩
  | cons t ts =>
    rw [run_cons, step?_nothing] at h
    exact absurd h (by simp)

theorem opener?_run {state next : List Open × Expected} {ts : List Token} (hstate : state.1 ≠ [])
    (h : run limit state ts = some next) : opener? next = state.1.getLast?.map Open.opening := by
  induction ts generalizing state with
  | nil =>
    obtain rfl := Option.some.inj h
    obtain ⟨⟨frame, outer⟩ | _, e⟩ := state
    · exact absurd rfl hstate
    · rfl
  | cons t ts ih =>
    obtain ⟨middle, hstep, hrun⟩ := Option.bind_eq_some_iff.mp h
    obtain ⟨hopener, hfinished⟩ := follows_step? hstate hstep
    rw [← hopener]
    obtain ⟨outer, e⟩ := middle
    cases outer with
    | nil =>
      obtain ⟨document, rfl⟩ := hfinished rfl
      obtain ⟨-, rfl⟩ := run_nothing hrun
      rfl
    | cons frame outer => exact ih (by simp) hrun

/-! ## The tokens of an object -/

theorem ofTokens?_eq_some_iff {ts : List Token} {j : Json} :
    ofTokens? limit ts = some j ↔ run limit ([], .value) ts = some ([], .nothing j) := by
  rw [ofTokens?, ← run]
  cases run limit ([], .value) ts with
  | none => simp
  | some state =>
    obtain ⟨outer, e⟩ := state
    cases outer <;> cases e <;> simp

/-- Nothing is read behind a document. -/
theorem ofTokens?_append {ts ts' : List Token} {j : Json} (h : ofTokens? limit ts = some j)
    (hne : ts' ≠ []) : ofTokens? limit (ts ++ ts') = none := by
  rw [Option.eq_none_iff_forall_ne_some]
  intro j' h'
  rw [ofTokens?_eq_some_iff, run, List.foldlM_append, ← run, ofTokens?_eq_some_iff.mp h] at h'
  exact hne (run_nothing h').1

variable {fields : List (String × Json)}

/-- No word is an object that holds something. -/
theorem not_word_of_flat {ts : List Token} (hflat : Flat ts) (hfields : fields ≠ []) :
    Token.word (.object fields) ∉ ts := by
  intro hmem
  have hzero := hflat _ hmem
  have hpos := nesting_object_pos hfields
  omega

/-- An object that holds something begins with a brace. -/
theorem first_of_ofTokens? {t : Token} {ts : List Token} (hflat : Flat (t :: ts))
    (hfields : fields ≠ []) (h : ofTokens? limit (t :: ts) = some (.object fields)) :
    t = .openObject := by
  obtain ⟨state, hstep, hrun⟩ := Option.bind_eq_some_iff.mp (ofTokens?_eq_some_iff.mp h)
  cases t with
  | word v =>
    obtain rfl := Option.some.inj hstep
    obtain ⟨-, hdocument⟩ := run_nothing hrun
    obtain rfl : Json.object fields = v := by simpa using hdocument
    exact absurd List.mem_cons_self (not_word_of_flat hflat hfields)
  | text s =>
    obtain rfl := Option.some.inj hstep
    obtain ⟨-, hdocument⟩ := run_nothing hrun
    exact absurd hdocument (by simp)
  | openArray =>
    obtain rfl := Option.some.inj hstep
    have hopener := opener?_run (by simp) hrun
    exact absurd hopener (by simp [opener?, Open.opening])
  | openObject => rfl
  | _ => exact absurd hstep (by simp [step?, startValue?])

theorem eq_of_finish {j document : Json} {outer : List Open}
    (h : finish j outer = ([], .nothing document)) : j = document := by
  cases outer with
  | nil => exact Expected.nothing.inj (Prod.mk.inj h).2
  | cons frame outer => cases frame <;> exact absurd h (by simp [finish])

theorem eq_word_of_startValue? {outer : List Open} {t : Token}
    (h : startValue? outer t = some ([], .nothing (.object fields))) :
    t = .word (.object fields) := by
  cases t with
  | word v => rw [eq_of_finish (Option.some.inj h)]
  | text s => exact absurd (eq_of_finish (Option.some.inj h)) (by simp)
  | _ => exact absurd h (by simp [startValue?])

theorem eq_closeObject_of_close? {outer : List Open} {t : Token}
    (h : close? outer t = some ([], .nothing (.object fields))) : t = .closeObject := by
  unfold close? at h
  split at h
  · exact absurd (eq_of_finish (Option.some.inj h)) (by simp)
  · rfl
  · exact absurd h (by simp)

theorem name?_ne_nothing {outer : List Open} {t : Token} {document : Json} :
    name? outer t ≠ some ([], .nothing document) := by
  unfold name?
  split <;> simp

/-- The step that finishes an object is its closing brace, or the object is a word. -/
theorem last_of_step? {state : List Open × Expected} {t : Token}
    (h : step? limit state t = some ([], .nothing (.object fields))) :
    t = .closeObject ∨ t = .word (.object fields) := by
  unfold step? at h
  split at h
  · exact Or.inr (eq_word_of_startValue? h)
  · exact Or.inl (eq_closeObject_of_close? h)
  · split at h
    · exact Or.inr (eq_word_of_startValue? h)
    · exact absurd h (by simp)
  · exact Or.inl (eq_closeObject_of_close? h)
  · split at h
    · exact absurd h name?_ne_nothing
    · exact absurd h (by simp)
  · exact absurd h name?_ne_nothing
  · exact absurd h (by simp)
  · exact absurd h (by simp)
  · exact absurd h (by simp)
  · exact Or.inl (eq_closeObject_of_close? h)
  · exact absurd h (by simp)

/-- An object that holds something ends with a brace. -/
theorem last_of_ofTokens? {t : Token} {ts : List Token} (hflat : Flat (ts ++ [t]))
    (hfields : fields ≠ []) (h : ofTokens? limit (ts ++ [t]) = some (.object fields)) :
    t = .closeObject := by
  rw [ofTokens?_eq_some_iff, run, List.foldlM_append] at h
  obtain ⟨state, -, hlast⟩ := Option.bind_eq_some_iff.mp h
  have hstep : step? limit state t = some ([], .nothing (.object fields)) := by simpa using hlast
  obtain rfl | rfl := last_of_step? hstep
  · rfl
  · exact absurd (by simp) (not_word_of_flat hflat hfields)

/-- The tokens of an object that holds something stand between two braces. -/
theorem exists_between_of_ofTokens? {ts : List Token} (hflat : Flat ts) (hfields : fields ≠ [])
    (h : ofTokens? limit ts = some (.object fields)) :
    ∃ ts', ts = .openObject :: (ts' ++ [.closeObject]) := by
  cases ts with
  | nil => exact absurd h (by simp [ofTokens?])
  | cons t ts =>
    obtain rfl := first_of_ofTokens? hflat hfields h
    obtain rfl | ⟨ts, t, rfl⟩ := List.eq_nil_or_concat ts
    · rw [← List.nil_append [Token.openObject]] at hflat h
      exact absurd (last_of_ofTokens? hflat hfields h) (by simp)
    · rw [List.concat_eq_append, ← List.cons_append] at hflat h
      obtain rfl := last_of_ofTokens? hflat hfields h
      exact ⟨ts, by rw [List.concat_eq_append]⟩

/-! ## The object in its text -/

/-- **A text that is read as an object is white space, the object between its braces, and white
space.** The object stays the same without what is around it, and with anything but white space
behind it the text is no document. -/
theorem exists_extent_of_read? {limits : Limits} {s : String} (hfields : fields ≠ [])
    (h : read? limits s = some (.object fields)) :
    ∃ before inner after, s.toList = before ++ ('{' :: (inner ++ '}' :: after)) ∧ Gaps before ∧
      Gaps after ∧
      read? limits (String.ofList ('{' :: (inner ++ ['}']))) = some (.object fields) ∧
      ∀ rest, ¬ Gaps rest →
        read? limits (String.ofList ('{' :: (inner ++ '}' :: rest))) = none := by
  obtain ⟨ts, hts, hread⟩ := Option.bind_eq_some_iff.mp h
  obtain ⟨ts', rfl⟩ := exists_between_of_ofTokens? (flat_tokens? hts) hfields hread
  obtain ⟨before, inner, after, hs, hbefore, hafter, hcloses⟩ := exists_between_braces hts
  refine ⟨before, inner, after, hs, hbefore, hafter, ?_, fun rest hrest => ?_⟩
  · rw [read?, String.toList_ofList, tokens?_of_closes hcloses, Option.bind_some, hread]
  · have hsplit : '{' :: (inner ++ '}' :: rest) = ('{' :: (inner ++ ['}'])) ++ rest := by simp
    rw [read?, String.toList_ofList, hsplit, tokens?_append_of_closes hcloses]
    cases htokens : tokens? limits.wholePart rest with
    | none => rfl
    | some ts =>
      have hne : ts ≠ [] := by
        obtain ⟨hgaps, -⟩ | ⟨-, -, -, t, ts', -, -, rfl, -⟩ := first_of_tokens? htokens
        · exact absurd hgaps hrest
        · exact List.cons_ne_nil t ts'
      rw [Option.map_some, Option.bind_some, ofTokens?_append hread hne]

end Json

end Curriculum
