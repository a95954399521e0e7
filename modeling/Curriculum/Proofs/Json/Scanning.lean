import Curriculum.Proofs.Json.Word

/-!
# Scanning what was written

A written document is scanned into the tokens of the document (`Json.tokens`). The scanner works
character by character and a word ends only where another token begins, so what holds of one piece of
a text is said with the rest of the text behind it. `Scans cs ts` means that, before any rest where a
word ends, reading `cs` leaves the scanner between tokens with `ts` added; `Closes cs ts` means the
same before any rest at all. Pieces can be put together (`Scans.append`, `Closes.append`), and the
writer puts together nothing else.

> `tokens?_write`: the text of a document scans into its tokens.
-/

namespace Curriculum

namespace Json

/-! ## The tokens of a document -/

mutual

/-- The tokens of a document, in the order in which they are written. -/
def tokens : Json → List Token
  | .null => [.word .null]
  | .bool b => [.word (.bool b)]
  | .number n => [.word (.number n)]
  | .text s => [.text s]
  | .array [] => [.openArray, .closeArray]
  | .array (item :: rest) =>
    .openArray :: (tokens item ++ tokensOfItems rest ++ [.closeArray])
  | .object [] => [.openObject, .closeObject]
  | .object ((name, value) :: rest) =>
    .openObject :: .text name :: .colon :: (tokens value ++ tokensOfFields rest ++ [.closeObject])

/-- The tokens of the items after the first. -/
def tokensOfItems : List Json → List Token
  | [] => []
  | item :: rest => .comma :: (tokens item ++ tokensOfItems rest)

/-- The tokens of the fields after the first. -/
def tokensOfFields : List (String × Json) → List Token
  | [] => []
  | (name, value) :: rest => .comma :: .text name :: .colon :: (tokens value ++ tokensOfFields rest)

end

/-- A document that can be read back: no number is too long, and no object has two fields of one
name. -/
inductive Proper (longest : Nat) : Json → Prop
  | null : Proper longest .null
  | bool (b : Bool) : Proper longest (.bool b)
  | number {n : Number} (fits : n.Fits longest) : Proper longest (.number n)
  | text (s : String) : Proper longest (.text s)
  | array {items : List Json} (proper : ∀ j ∈ items, Proper longest j) : Proper longest (.array items)
  | object {fields : Table String Json} (names : fields.keys.Nodup)
      (proper : ∀ f ∈ fields, Proper longest f.2) : Proper longest (.object fields)

/-! ## Reading characters -/

variable {longest : Nat}

/-- Scan some characters. -/
def feed (longest : Nat) (state : Scan × List Token) (cs : List Char) :
    Option (Scan × List Token) :=
  cs.foldlM (scan? longest) state

theorem feed_cons (state : Scan × List Token) (c : Char) (cs : List Char) :
    feed longest state (c :: cs) = (scan? longest state c).bind fun s => feed longest s cs := rfl

/-- A text that begins with the end of a word. -/
def StartsApart (cs : List Char) : Prop := ∃ c rest, cs = c :: rest ∧ endsWord c = true

/-- A piece of a text that scans into some tokens wherever a word ends behind it. -/
def Scans (longest : Nat) (cs : List Char) (ts : List Token) : Prop :=
  ∀ done rest, StartsApart rest →
    feed longest (.gap, done) (cs ++ rest) = feed longest (.gap, ts.reverse ++ done) rest

/-- A piece of a text that scans into some tokens whatever comes behind it. -/
def Closes (longest : Nat) (cs : List Char) (ts : List Token) : Prop :=
  ∀ done rest, feed longest (.gap, done) (cs ++ rest) = feed longest (.gap, ts.reverse ++ done) rest

/-- A piece behind which a word ends also ends a word before it. -/
def Apart (cs : List Char) : Prop := ∀ rest, StartsApart rest → StartsApart (cs ++ rest)

theorem apart_nil : Apart [] := fun _ h => h

theorem apart_cons {c : Char} (h : endsWord c = true) (cs : List Char) : Apart (c :: cs) :=
  fun rest _ => ⟨c, cs ++ rest, rfl, h⟩

theorem Apart.append {cs cs' : List Char} (h : Apart cs) (h' : Apart cs') : Apart (cs ++ cs') := by
  intro rest hrest
  rw [List.append_assoc]
  exact h _ (h' rest hrest)

section Pieces

variable {cs cs' : List Char} {ts ts' : List Token}

theorem Closes.scans (h : Closes longest cs ts) : Scans longest cs ts :=
  fun done rest _ => h done rest

theorem Scans.append (h : Scans longest cs ts) (h' : Scans longest cs' ts') (hapart : Apart cs') :
    Scans longest (cs ++ cs') (ts ++ ts') := by
  intro done rest hrest
  rw [List.append_assoc, h done _ (hapart rest hrest), h' _ rest hrest, List.reverse_append,
    List.append_assoc]

theorem Closes.append (h : Closes longest cs ts) (h' : Scans longest cs' ts') :
    Scans longest (cs ++ cs') (ts ++ ts') := by
  intro done rest hrest
  rw [List.append_assoc, h done, h' _ rest hrest, List.reverse_append, List.append_assoc]

theorem Closes.closes_append (h : Closes longest cs ts) (h' : Closes longest cs' ts') :
    Closes longest (cs ++ cs') (ts ++ ts') := by
  intro done rest
  rw [List.append_assoc, h done, h' _ rest, List.reverse_append, List.append_assoc]

end Pieces

/-! ## Marks and white space -/

/-- A mark is a token, for it is neither white space nor the beginning of a text. -/
theorem closes_mark {c : Char} {t : Token} (h : Token.ofMark? c = some t) :
    Closes longest [c] [t] := by
  have hother : isGap c = false ∧ c ≠ '"' := by
    unfold Token.ofMark? at h
    split at h <;> first | decide | exact absurd h (by simp)
  obtain ⟨hgap, hquote⟩ := hother
  intro done rest
  rw [List.singleton_append, feed_cons, scan?, begin?, hgap, if_neg (by simp), if_neg hquote, h]
  rfl

theorem closes_gap {c : Char} (h : isGap c = true) : Closes longest [c] [] := by
  intro done rest
  rw [List.singleton_append, feed_cons, scan?, begin?, h, if_pos rfl]
  rfl

theorem closes_spaces (n : Nat) : Closes longest (List.replicate n ' ') [] := by
  induction n with
  | zero => exact fun _ _ => rfl
  | succ n ih => exact (closes_gap (by decide)).closes_append ih

theorem closes_newLine (level : Nat) : Closes longest (newLine level) [] :=
  (closes_gap (by decide)).closes_append (closes_spaces (2 * level))

/-! ## Words -/

theorem scan?_word {c : Char} (h : endsWord c = false) (seen : List Char) (done : List Token) :
    scan? longest (.word seen, done) c = some (.word (c :: seen), done) := by
  rw [scan?, ← endsWord, h, if_neg (by simp)]

theorem scan?_endWord {c : Char} (h : endsWord c = true) (seen : List Char) (done : List Token) :
    scan? longest (.word seen, done) c
      = (ofWord? longest seen.reverse).bind fun v => scan? longest (.gap, .word v :: done) c := by
  rw [scan?, ← endsWord, h, if_pos rfl]
  rfl

theorem feed_word {cs : List Char} (h : ∀ c ∈ cs, endsWord c = false) (seen rest : List Char)
    (done : List Token) : feed longest (.word seen, done) (cs ++ rest)
      = feed longest (.word (cs.reverse ++ seen), done) rest := by
  induction cs generalizing seen with
  | nil => rfl
  | cons c cs ih =>
    obtain ⟨hc, hcs⟩ := List.forall_mem_cons.mp h
    rw [List.cons_append, feed_cons, scan?_word hc, Option.bind_some, ih hcs, List.reverse_cons,
      List.append_assoc]
    rfl

/-- A word scans into its value. -/
theorem scans_word {cs : List Char} {v : Json} (hne : cs ≠ [])
    (hchars : ∀ c ∈ cs, endsWord c = false) (hv : ofWord? longest cs = some v) :
    Scans longest cs [.word v] := by
  rintro done - ⟨d, rest, rfl, hd⟩
  obtain ⟨c, cs, rfl⟩ := List.exists_cons_of_ne_nil hne
  obtain ⟨hc, hcs⟩ := List.forall_mem_cons.mp hchars
  -- the first character begins the word, and the word is read when the character `d` ends it
  have hbegin : scan? longest (.gap, done) c = some (.word [c], done) := by
    simp only [endsWord, Bool.or_eq_false_iff, decide_eq_false_iff_not] at hc
    obtain ⟨⟨hgap, hquote⟩, hmark⟩ := hc
    rw [scan?, begin?, hgap, if_neg (by simp), if_neg hquote]
    cases hm : Token.ofMark? c with
    | none => rfl
    | some t =>
      rw [hm] at hmark
      exact absurd hmark (by simp)
  have hreverse : (cs.reverse ++ [c]).reverse = c :: cs := by
    rw [List.reverse_append, List.reverse_reverse]
    rfl
  rw [List.cons_append, feed_cons, hbegin, Option.bind_some, feed_word hcs, feed_cons,
    scan?_endWord hd, hreverse, hv, Option.bind_some, ← feed_cons]
  rfl

/-! ## Texts -/

theorem hexDigits_lt_32 : ∀ n < 32, (Text.hexDigits 4 n).map hexValue?
    = [some 0, some 0, some (n / 16), some (n % 16)] := by
  decide

theorem scan?_hexDigit {c : Char} {v : Nat} (h : hexValue? c = some v) (seen : List Char)
    (missing value : Nat) (done : List Token) :
    scan? longest (.code seen none (missing + 2) value, done) c
      = some (.code seen none (missing + 1) (16 * value + v), done) := by
  rw [scan?, h]
  rfl

/-- The four digits of a code give the character of the code. -/
theorem feed_code {n : Nat} (hn : n < 32) (seen rest : List Char) (done : List Token) :
    feed longest (.code seen none 4 0, done) (Text.hexDigits 4 n ++ rest)
      = feed longest (.text (Char.ofNat n :: seen), done) rest := by
  have hvalues := hexDigits_lt_32 n hn
  generalize Text.hexDigits 4 n = ds at hvalues ⊢
  obtain ⟨d₁, d₂, d₃, d₄, rfl⟩ : ∃ d₁ d₂ d₃ d₄, ds = [d₁, d₂, d₃, d₄] := by
    have hlength := congrArg List.length hvalues
    rw [List.length_map] at hlength
    match ds, hlength with
    | [d₁, d₂, d₃, d₄], _ => exact ⟨d₁, d₂, d₃, d₄, rfl⟩
  simp only [List.map_cons, List.map_nil, List.cons.injEq, and_true] at hvalues
  obtain ⟨h₁, h₂, h₃, h₄⟩ := hvalues
  have hvalue : 16 * (16 * (16 * (16 * 0 + 0) + 0) + n / 16) + n % 16 = n := by omega
  -- no half of a pair is as small as that
  have hplain : afterCode? seen none n = some (.text (Char.ofNat n :: seen)) := by
    have hhigh : ¬ (0xD800 ≤ n ∧ n ≤ 0xDBFF) := by omega
    have hlow : ¬ (0xDC00 ≤ n ∧ n ≤ 0xDFFF) := by omega
    simp [afterCode?, hhigh, hlow]
  have hlast : ∀ value, 16 * value + n % 16 = n →
      scan? longest (.code seen none 1 value, done) d₄
        = some (.text (Char.ofNat n :: seen), done) := by
    intro value h
    rw [scan?, h₄, Option.bind_some, if_pos (Nat.le_refl 1), h, hplain]
    rfl
  show feed longest (.code seen none 4 0, done) (d₁ :: d₂ :: d₃ :: d₄ :: rest) = _
  rw [feed_cons, scan?_hexDigit h₁ seen 2, Option.bind_some, feed_cons, scan?_hexDigit h₂ seen 1,
    Option.bind_some, feed_cons, scan?_hexDigit h₃ seen 0, Option.bind_some, feed_cons,
    hlast _ hvalue, Option.bind_some]

/-- An escaped character is scanned as the character. -/
theorem feed_escape (c : Char) (seen rest : List Char) (done : List Token) :
    feed longest (.text seen, done) (escape c ++ rest)
      = feed longest (.text (c :: seen), done) rest := by
  -- characters with a letter of their own behind the backslash
  have hletter : ∀ e d, e ≠ 'u' → unescape? e = some d →
      feed longest (.text seen, done) (['\\', e] ++ rest)
        = feed longest (.text (d :: seen), done) rest := by
    intro e d hu he
    simp [feed_cons, scan?, hu, he]
  unfold escape
  split
  · next h => exact h ▸ hletter '"' '"' (by decide) rfl
  split
  · next h => exact h ▸ hletter '\\' '\\' (by decide) rfl
  split
  · next h => exact h ▸ hletter 'n' '\n' (by decide) rfl
  split
  · next h => exact h ▸ hletter 'r' '\r' (by decide) rfl
  split
  · next h => exact h ▸ hletter 't' '\t' (by decide) rfl
  split
  · next h =>
    have hc : Char.ofNat 8 = c := h ▸ Char.ofNat_toNat c
    exact hc ▸ hletter 'b' (Char.ofNat 8) (by decide) rfl
  split
  · next h =>
    have hc : Char.ofNat 12 = c := h ▸ Char.ofNat_toNat c
    exact hc ▸ hletter 'f' (Char.ofNat 12) (by decide) rfl
  split
  · next h =>
    -- other control characters are written as a code
    have hcode : feed longest (.code seen none 4 0, done) (Text.hexDigits 4 c.toNat ++ rest) = _ :=
      feed_code h seen rest done
    rw [Char.ofNat_toNat] at hcode
    rw [← hcode]
    rfl
  · next hquote hslash _ _ _ _ _ hcontrol =>
    simp [feed_cons, scan?, hquote, hslash, hcontrol]

theorem feed_escaped (cs seen rest : List Char) (done : List Token) :
    feed longest (.text seen, done) (cs.flatMap escape ++ rest)
      = feed longest (.text (cs.reverse ++ seen), done) rest := by
  induction cs generalizing seen with
  | nil => rfl
  | cons c cs ih =>
    rw [List.flatMap_cons, List.append_assoc, feed_escape, ih, List.reverse_cons, List.append_assoc]
    rfl

/-- A written text scans into the text. -/
theorem closes_writeText (s : String) : Closes longest (writeText s) [.text s] := by
  intro done rest
  have hopen : scan? longest (.gap, done) '"' = some (.text [], done) := rfl
  have hclose : scan? longest (.text s.toList.reverse, done) '"'
      = some (.gap, .text (String.ofList s.toList.reverse.reverse) :: done) := rfl
  rw [List.reverse_reverse, String.ofList_toList] at hclose
  rw [writeText, List.cons_append, List.append_assoc, feed_cons, hopen, Option.bind_some,
    feed_escaped, List.append_nil, List.singleton_append, feed_cons, hclose]
  rfl

/-! ## Documents -/

theorem apart_writeItems (level : Nat) (items : List Json) : Apart (writeItems level items) := by
  cases items with
  | nil =>
    rw [writeItems]
    exact apart_nil
  | cons item rest =>
    rw [writeItems]
    exact apart_cons (by decide) _

theorem apart_writeFields (level : Nat) (fields : List (String × Json)) :
    Apart (writeFields level fields) := by
  cases fields with
  | nil =>
    rw [writeFields]
    exact apart_nil
  | cons field rest =>
    rw [writeFields]
    exact apart_cons (by decide) _

/-- A container that holds something: its first part on a line of its own, the parts after it, and
its end, again on a line of its own. -/
theorem scans_container {opening closing : Char} {left right : Token} {first rest : List Char}
    {ts ts' : List Token} (level : Nat) (hleft : Token.ofMark? opening = some left)
    (hright : Token.ofMark? closing = some right) (hfirst : Scans longest first ts)
    (hrest : Scans longest rest ts') (hapart : Apart rest) :
    Scans longest (opening :: (newLine (level + 1) ++ first ++ rest ++ newLine level ++ [closing]))
      (left :: (ts ++ ts' ++ [right])) := by
  have hend : Closes longest (newLine level ++ [closing]) [right] :=
    (closes_newLine level).closes_append (closes_mark hright)
  have hapart' : Apart (newLine level ++ [closing]) :=
    apart_cons (by decide) (List.replicate (2 * level) ' ' ++ [closing])
  have hparts := hfirst.append (hrest.append hend.scans hapart') (hapart.append hapart')
  have hall := (closes_mark hleft).append ((closes_newLine (level + 1)).append hparts)
  simpa only [List.append_assoc, List.singleton_append, List.nil_append] using hall

/-- A name, a colon, and the value after a space. -/
theorem scans_field (name : String) {cs : List Char} {ts : List Token} (h : Scans longest cs ts) :
    Scans longest (writeText name ++ ':' :: ' ' :: cs) (.text name :: .colon :: ts) :=
  (closes_writeText name).append ((closes_mark rfl).append
    ((closes_gap (by decide)).append h))

/-- A part of a container that is not the first: a comma, and the part on a line of its own. -/
theorem scans_further {part rest : List Char} {ts ts' : List Token} (level : Nat)
    (hpart : Scans longest part ts) (hrest : Scans longest rest ts') (hapart : Apart rest) :
    Scans longest (',' :: (newLine level ++ part ++ rest)) (.comma :: (ts ++ ts')) := by
  rw [List.append_assoc]
  exact (closes_mark rfl).append ((closes_newLine level).append (hpart.append hrest hapart))

theorem scans_writeItems {items : List Json}
    (h : ∀ j ∈ items, ∀ level, Scans longest (write level j) (tokens j)) (level : Nat) :
    Scans longest (writeItems level items) (tokensOfItems items) := by
  induction items with
  | nil =>
    rw [writeItems, tokensOfItems]
    exact fun _ _ _ => rfl
  | cons item rest ih =>
    obtain ⟨hitem, hrest⟩ := List.forall_mem_cons.mp h
    rw [writeItems, tokensOfItems]
    exact scans_further level (hitem level) (ih hrest) (apart_writeItems level rest)

theorem scans_writeFields {fields : List (String × Json)}
    (h : ∀ f ∈ fields, ∀ level, Scans longest (write level f.2) (tokens f.2)) (level : Nat) :
    Scans longest (writeFields level fields) (tokensOfFields fields) := by
  induction fields with
  | nil =>
    rw [writeFields, tokensOfFields]
    exact fun _ _ _ => rfl
  | cons field rest ih =>
    obtain ⟨name, value⟩ := field
    obtain ⟨hvalue, hrest⟩ := List.forall_mem_cons.mp h
    rw [writeFields, tokensOfFields, List.append_assoc (newLine level)]
    exact scans_further level (scans_field name (hvalue level)) (ih hrest)
      (apart_writeFields level rest)

/-- **The text of a document scans into its tokens.** -/
theorem scans_write {j : Json} (h : Proper longest j) :
    ∀ level, Scans longest (write level j) (tokens j) := by
  induction h with
  | null =>
    intro level
    rw [write, tokens]
    exact scans_word (by decide) (not_endsWord_of_any (by decide)) rfl
  | bool b =>
    intro level
    rw [tokens]
    cases b with
    | false =>
      rw [write]
      exact scans_word (by decide) (not_endsWord_of_any (by decide)) rfl
    | true =>
      rw [write]
      exact scans_word (by decide) (not_endsWord_of_any (by decide)) rfl
  | @number n hfits =>
    intro level
    rw [write, tokens]
    exact scans_word (writeNumber_ne_nil n) (fun _ => not_endsWord_writeNumber)
      (ofWord?_writeNumber hfits)
  | text s =>
    intro level
    rw [write, tokens]
    exact (closes_writeText s).scans
  | @array items _ ih =>
    intro level
    cases items with
    | nil =>
      rw [write, tokens]
      exact (closes_mark rfl).append (closes_mark rfl).scans
    | cons item rest =>
      obtain ⟨hitem, hrest⟩ := List.forall_mem_cons.mp ih
      rw [write, tokens]
      exact scans_container level rfl rfl (hitem (level + 1)) (scans_writeItems hrest (level + 1))
        (apart_writeItems (level + 1) rest)
  | @object fields _ _ ih =>
    intro level
    cases fields with
    | nil =>
      rw [write, tokens]
      exact (closes_mark rfl).append (closes_mark rfl).scans
    | cons field rest =>
      obtain ⟨name, value⟩ := field
      obtain ⟨hvalue, hrest⟩ := List.forall_mem_cons.mp ih
      rw [write, tokens, List.append_assoc (newLine (level + 1))]
      exact scans_container level rfl rfl (scans_field name (hvalue (level + 1)))
        (scans_writeFields hrest (level + 1)) (apart_writeFields (level + 1) rest)

/-- A line feed ends a text between tokens, and no piece of a token. -/
theorem tokens?_of_feed_newLine {cs : List Char} {done : List Token}
    (h : feed longest (.gap, []) (cs ++ ['\n']) = some (.gap, done)) :
    tokens? longest cs = some done.reverse := by
  rw [feed, List.foldlM_append] at h
  rw [tokens?]
  cases hstate : List.foldlM (scan? longest) (Scan.gap, []) cs with
  | none =>
    rw [hstate] at h
    exact absurd h (by simp)
  | some state =>
    rw [hstate] at h
    obtain ⟨scan, found⟩ := state
    have hlast : scan? longest (scan, found) '\n' = some (.gap, done) := by
      simpa using h
    -- inside a text a line feed is no character that may stand there
    cases scan with
    | gap =>
      have hfound : found = done := (Prod.mk.inj (Option.some.inj hlast)).2
      rw [← hfound]
      rfl
    | word seen =>
      rw [scan?_endWord (by decide)] at hlast
      obtain ⟨v, hv, hv'⟩ := Option.bind_eq_some_iff.mp hlast
      have hdone : Token.word v :: found = done := (Prod.mk.inj (Option.some.inj hv')).2
      rw [Option.bind_some]
      dsimp only
      rw [hv, ← hdone]
      rfl
    | text seen => exact absurd hlast (by simp [scan?])
    | escape seen => exact absurd hlast (by simp [scan?, unescape?])
    | code seen high missing value => exact absurd hlast (by simp [scan?, hexValue?])
    | pair seen high => exact absurd hlast (by simp [scan?])
    | pairCode seen high => exact absurd hlast (by simp [scan?])

theorem tokens?_write {j : Json} (h : Proper longest j) (level : Nat) :
    tokens? longest (write level j) = some (tokens j) := by
  have hscans := scans_write h level [] ['\n'] ⟨'\n', [], rfl, by decide⟩
  have hfeed : feed longest (.gap, []) (write level j ++ ['\n'])
      = some (.gap, (tokens j).reverse ++ []) := hscans
  rw [tokens?_of_feed_newLine hfeed, List.append_nil, List.reverse_reverse]

end Json

end Curriculum
