import Curriculum.Json.Token
import Curriculum.Json.Writer
import Curriculum.Proofs.Binary64.Numeral

/-!
# Numbers as words

A number is written as one word: no character of it ends a word (`not_endsWord_writeNumber`). Read as
a word it is the same number again, an integer staying an integer and a floating-point number keeping
every bit:

> `ofWord?_writeNumber`: the word of a number is read as it, unless it is too long to be read.
-/

namespace Curriculum

namespace Json

/-- Whether a character ends the word before it. -/
def endsWord (c : Char) : Bool :=
  isGap c || c = '"' || (Token.ofMark? c).isSome

theorem not_endsWord_of_any {cs : List Char} (h : cs.any endsWord = false) :
    ∀ c ∈ cs, endsWord c = false := by
  intro c hc
  simpa using List.any_eq_false.mp h c hc

theorem not_endsWord_of_isDigit {c : Char} (h : c.isDigit = true) : endsWord c = false := by
  have hne : ∀ d : Char, d.isDigit = false → c ≠ d := by
    rintro d hd rfl
    exact absurd (h.symm.trans hd) (by decide)
  have hmark : Token.ofMark? c = none := by
    unfold Token.ofMark?
    split
    · exact absurd rfl (hne '[' rfl)
    · exact absurd rfl (hne ']' rfl)
    · exact absurd rfl (hne '\x7b' rfl)
    · exact absurd rfl (hne '\x7d' rfl)
    · exact absurd rfl (hne ',' rfl)
    · exact absurd rfl (hne ':' rfl)
    · rfl
  simp [endsWord, isGap, hmark, hne ' ' rfl, hne '\n' rfl, hne '\t' rfl, hne '\r' rfl, hne '"' rfl]

theorem ofList_ne {cs : List Char} {s : String} (h : cs ≠ s.toList) : String.ofList cs ≠ s := by
  rintro rfl
  exact h (by rw [String.toList_ofList])

/-- A word that begins with a digit is a number. -/
theorem ofWord?_of_isDigit (longest : Nat) {c : Char} (h : c.isDigit = true) (rest : List Char) :
    ofWord? longest (c :: rest) = (unsigned? longest false (c :: rest)).map .number := by
  have hne : ∀ d ds, d.isDigit = false → c :: rest ≠ d :: ds := by
    rintro d ds hd he
    rw [(List.cons.inj he).1] at h
    exact absurd (h.symm.trans hd) (by decide)
  unfold ofWord?
  split
  case h_7 =>
    split
    · next he => exact absurd he (hne _ _ rfl)
    · rfl
  -- no name begins with a digit
  all_goals
    next hs => exact absurd hs (ofList_ne (hne _ _ rfl))

/-- A word that begins with a minus sign and a digit is a negative number. -/
theorem ofWord?_of_minus (longest : Nat) {c : Char} (h : c.isDigit = true) (rest : List Char) :
    ofWord? longest ('-' :: c :: rest) = (unsigned? longest true (c :: rest)).map .number := by
  have hne : ∀ d ds, d ≠ '-' → '-' :: c :: rest ≠ d :: ds :=
    fun d ds hd he => hd (List.cons.inj he).1.symm
  unfold ofWord?
  split
  case h_6 hs =>
    -- the name of negative infinity goes on with a letter
    refine absurd hs (ofList_ne fun he => ?_)
    have hc := (List.cons.inj (List.cons.inj he).2).1
    rw [hc] at h
    exact absurd h (by decide)
  case h_7 => rfl
  all_goals
    next hs => exact absurd hs (ofList_ne (hne _ _ (by decide)))

/-- A signed numeral is a number. -/
theorem ofWord?_signed (longest : Nat) (negative : Bool) {cs : List Char} (hne : cs ≠ [])
    (hdigits : ∀ c, cs.head? = some c → c.isDigit = true) :
    ofWord? longest (Binary64.signText negative ++ cs)
      = (unsigned? longest negative cs).map .number := by
  obtain ⟨c, rest, rfl⟩ := List.exists_cons_of_ne_nil hne
  have hc := hdigits c rfl
  cases negative with
  | false => exact ofWord?_of_isDigit longest hc rest
  | true => exact ofWord?_of_minus longest hc rest

/-! ## Integers -/

theorem toList_toString (n : Int) : (toString n).toList
    = Binary64.signText (decide (n < 0)) ++ digitsOf n.natAbs := by
  cases n with
  | ofNat k =>
    show (Nat.repr k).toList = digitsOf k
    rw [Nat.repr_eq_ofList_toDigits, String.toList_ofList]
    rfl
  | negSucc k =>
    have hneg : decide (Int.negSucc k < 0) = true := decide_eq_true (Int.negSucc_lt_zero k)
    have hrepr : toString (Int.negSucc k) = "-" ++ Nat.repr (k + 1) := rfl
    rw [hneg, hrepr, String.toList_append, Nat.repr_eq_ofList_toDigits, String.toList_ofList,
      String.toList_ofList]
    rfl

theorem unsigned?_digitsOf {longest : Nat} (negative : Bool) (n : Nat)
    (hlength : negative.toNat + (digitsOf n).length ≤ longest) :
    unsigned? longest negative (digitsOf n)
      = some (.int (if negative then -(n : Int) else n)) := by
  have hsplit : Numeral.split? (digitsOf n) = some ⟨digitsOf n, none, none⟩ := by
    have h := Numeral.split?_text (n := ⟨digitsOf n, none, none⟩)
      ⟨fun c hc => isDigit_of_mem_digitsOf hc, by simp, by simp⟩
    rwa [Numeral.text, Numeral.fractionText, Numeral.exponentText, List.append_nil,
      List.append_nil] at h
  have hzero : ¬ ((digitsOf n).head? = some '0' ∧ digitsOf n ≠ ['0']) := by
    rintro ⟨hhead, hne⟩
    rcases Nat.eq_zero_or_pos n with rfl | hn
    · exact hne rfl
    · exact head?_digitsOf (Nat.ne_of_gt hn) hhead
  rw [unsigned?, hsplit]
  simp [digitsOf_ne_nil, hzero, Nat.not_lt.mpr hlength, Numeral.digitsValue_digitsOf]

/-! ## Floating-point numbers -/

theorem unsigned?_text {longest : Nat} (negative : Bool) {n : Numeral} {d : Decimal}
    (hn : n.Spells d) (hlongest : 17 ≤ longest) :
    unsigned? longest negative n.text = some (.float (Binary64.ofDecimal negative d)) := by
  have hzero : ¬ (n.whole.head? = some '0' ∧ n.whole ≠ ['0']) :=
    fun h => h.2 (hn.noLeadingZero h.1)
  have hlength : ¬ longest < negative.toNat + n.whole.length := by
    have := hn.short
    have := Bool.toNat_le negative
    omega
  rw [unsigned?, Numeral.split?_text hn.digits]
  -- what is left is to tell integers from other numbers
  simp only [hn.whole, hzero, hlength, hn.fraction, or_self, if_false, hn.value]
  split
  · next hfraction hexponent =>
    rcases hn.notInteger with h | h
    · exact absurd hfraction h
    · exact absurd hexponent h
  · rfl

/-- The decimal with which a magnitude is written. -/
def shortestOrZero (rank : Nat) : Decimal :=
  if rank = 0 then ⟨0, 0⟩ else Binary64.shortest rank

theorem ofDecimal_shortestOrZero (negative : Bool) {rank : Nat} (hbounded : rank ≤ Binary64.top) :
    Binary64.ofDecimal negative (shortestOrZero rank) = .number negative rank hbounded ∧
      ((shortestOrZero rank).digits ≠ 0 ∨ shortestOrZero rank = ⟨0, 0⟩) := by
  rw [shortestOrZero]
  split
  · next h =>
    subst h
    exact ⟨Binary64.ofRank_of_le hbounded, Or.inr rfl⟩
  · next h =>
    obtain ⟨hread, hdigits⟩ :=
      Binary64.ofDecimal_shortest negative (Nat.pos_of_ne_zero h) hbounded
    exact ⟨hread, Or.inl hdigits⟩

theorem exists_numeral_magnitudeText (negative : Bool) {rank : Nat}
    (hbounded : rank ≤ Binary64.top) : ∃ n : Numeral, ∃ d, Binary64.magnitudeText rank = n.text ∧
      n.Spells d ∧ Binary64.ofDecimal negative d = .number negative rank hbounded := by
  obtain ⟨hread, hd⟩ := ofDecimal_shortestOrZero negative hbounded
  obtain ⟨n, htext, hn⟩ := DecimalLayout.exists_numeral hd
  exact ⟨n, _, htext, hn, hread⟩

end Json

/-- A number that is not too long to be read: an integer has at most so many characters, and a
floating-point number never has more than sixteen digits before its point. -/
def Number.Fits (longest : Nat) : Number → Prop
  | .int n => (Json.writeNumber (.int n)).length ≤ longest
  | .float _ => 17 ≤ longest

namespace Json

theorem ofWord?_writeFloat {longest : Nat} (hlongest : 17 ≤ longest) (x : Binary64) :
    ofWord? longest (writeNumber (.float x)) = some (.float x) := by
  cases x with
  | nan => rfl
  | number negative rank bounded =>
    rw [writeNumber]
    split
    · next htop =>
      subst htop
      cases negative <;> rfl
    · obtain ⟨n, d, htext, hn, hread⟩ := exists_numeral_magnitudeText negative bounded
      have hne : n.text ≠ [] := by simp [Numeral.text, hn.whole]
      rw [htext, ofWord?_signed longest negative hne, unsigned?_text negative hn hlongest, hread]
      · rfl
      · intro c hc
        obtain ⟨first, rest, hwhole⟩ := List.exists_cons_of_ne_nil hn.whole
        rw [Numeral.text, hwhole] at hc
        obtain rfl := Option.some.inj hc
        exact hn.digits.whole first (by rw [hwhole]; exact List.mem_cons_self)

theorem ofWord?_writeInt {longest : Nat} {n : Int} (h : (writeNumber (.int n)).length ≤ longest) :
    ofWord? longest (writeNumber (.int n)) = some (.int n) := by
  rw [writeNumber, toList_toString] at h ⊢
  have hlength : (decide (n < 0)).toNat + (digitsOf n.natAbs).length ≤ longest := by
    rw [List.length_append] at h
    cases hneg : decide (n < 0) with
    | true => rw [hneg] at h; exact h
    | false => rw [hneg] at h; exact h
  rw [ofWord?_signed longest _ (digitsOf_ne_nil _), unsigned?_digitsOf _ _ hlength]
  · have hsign : (if decide (n < 0) = true then -((n.natAbs : Nat) : Int) else n.natAbs) = n := by
      split
      · next h => rw [decide_eq_true_eq] at h; omega
      · next h => rw [decide_eq_true_eq] at h; omega
    rw [hsign]
    rfl
  · intro c hc
    exact isDigit_of_mem_digitsOf (List.mem_of_head? hc)

/-- **A written number is read as it was.** -/
theorem ofWord?_writeNumber {longest : Nat} {n : Number} (h : n.Fits longest) :
    ofWord? longest (writeNumber n) = some (.number n) := by
  cases n with
  | int n => exact ofWord?_writeInt h
  | float x => exact ofWord?_writeFloat h x

/-! ## Characters of a word -/

theorem not_endsWord_text {n : Numeral} (h : n.HasDigits) {c : Char} (hc : c ∈ n.text) :
    endsWord c = false := by
  rw [Numeral.text, List.mem_append, List.mem_append] at hc
  rcases hc with hc | hc | hc
  · exact not_endsWord_of_isDigit (h.whole c hc)
  · cases hfraction : n.fraction with
    | none =>
      rw [hfraction] at hc
      exact absurd hc List.not_mem_nil
    | some ds =>
      rw [hfraction] at hc
      rcases List.mem_cons.mp hc with rfl | hc
      · decide
      · exact not_endsWord_of_isDigit (h.fraction ds hfraction c hc)
  · cases hexponent : n.exponent with
    | none =>
      rw [hexponent] at hc
      exact absurd hc List.not_mem_nil
    | some e =>
      obtain ⟨negative, ds⟩ := e
      rw [hexponent] at hc
      rcases List.mem_cons.mp hc with rfl | hc
      · decide
      · rcases List.mem_cons.mp hc with rfl | hc
        · cases negative <;> decide
        · exact not_endsWord_of_isDigit ((h.exponent negative ds hexponent).2 c hc)

theorem not_endsWord_signText {negative : Bool} {c : Char} (hc : c ∈ Binary64.signText negative) :
    endsWord c = false := by
  cases negative with
  | false => exact absurd hc List.not_mem_nil
  | true =>
    rw [List.mem_singleton.mp hc]
    decide

theorem not_endsWord_writeNumber {n : Number} {c : Char} (hc : c ∈ writeNumber n) :
    endsWord c = false := by
  cases n with
  | int n =>
    rw [writeNumber, toList_toString, List.mem_append] at hc
    rcases hc with hc | hc
    · exact not_endsWord_signText hc
    · exact not_endsWord_of_isDigit (isDigit_of_mem_digitsOf hc)
  | float x =>
    cases x with
    | nan =>
      have hword : ['N', 'a', 'N'].any endsWord = false := by decide
      exact not_endsWord_of_any hword c hc
    | number negative rank bounded =>
      rw [writeNumber, List.mem_append] at hc
      rcases hc with hc | hc
      · exact not_endsWord_signText hc
      · split at hc
        · have hword : ['I', 'n', 'f', 'i', 'n', 'i', 't', 'y'].any endsWord = false := by decide
          exact not_endsWord_of_any hword c hc
        · obtain ⟨n, d, htext, hn, -⟩ := exists_numeral_magnitudeText negative bounded
          rw [htext] at hc
          exact not_endsWord_text hn.digits hc

theorem writeNumber_ne_nil (n : Number) : writeNumber n ≠ [] := by
  cases n with
  | int n =>
    rw [writeNumber, toList_toString]
    simp [digitsOf_ne_nil]
  | float x =>
    cases x with
    | nan => simp [writeNumber]
    | number negative rank bounded =>
      obtain ⟨n, d, htext, hn, -⟩ := exists_numeral_magnitudeText negative bounded
      rw [writeNumber, htext]
      split <;> simp [Numeral.text, hn.whole]

end Json

end Curriculum
