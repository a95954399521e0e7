import Curriculum.Proofs.Binary64.Shortest
import Curriculum.Binary64.Text

/-!
# Written numbers are numerals

Whatever the layout of a written number, its text is the text of a numeral: digits, perhaps a point
with digits after it, perhaps an exponent (`Numeral.text`). Taking such a text apart gives the
numeral back (`Numeral.split?_text`), so a number is read from its text as soon as the numeral
denotes the decimal that was written. It does in each of the four forms of the layout, with zeros
filled in between the digits and the point in one of them:

> `DecimalLayout.exists_numeral`: the text of a decimal is that of a numeral of the same value.
-/

namespace Curriculum

/-! ## Digits -/

theorem isDigit_of_mem_digitsOf {n : Nat} {c : Char} (h : c ∈ digitsOf n) : c.isDigit = true :=
  Nat.isDigit_of_mem_toDigits (by decide) (by decide) h

theorem digitsOf_ne_nil (n : Nat) : digitsOf n ≠ [] := Nat.toDigits_ne_nil

theorem isDigit_of_mem_zeros {k : Nat} {c : Char} (h : c ∈ List.replicate k '0') :
    c.isDigit = true := by
  rw [List.eq_of_mem_replicate h]
  decide

/-- A whole number other than zero does not begin with a zero. -/
theorem head?_digitsOf {n : Nat} (hn : n ≠ 0) : (digitsOf n).head? ≠ some '0' := by
  induction n using Nat.strong_induction_on with
  | _ n ih =>
    rw [digitsOf, Nat.toDigits_eq_if (by decide)]
    split
    · next hlt =>
      rw [List.head?_cons, Ne, Option.some.injEq]
      have hdigit : ∀ k < 10, k ≠ 0 → Nat.digitChar k ≠ '0' := by decide
      exact hdigit n hlt hn
    · next hge =>
      -- the last digit taken off, the first digit is still the same
      have hhead := ih (n / 10) (by omega) (by omega)
      obtain ⟨c, cs, hcs⟩ := List.exists_cons_of_ne_nil (digitsOf_ne_nil (n / 10))
      rw [hcs] at hhead
      rw [← digitsOf, hcs]
      exact hhead

namespace Numeral

theorem digitsValue_digitsOf (n : Nat) : digitsValue (digitsOf n) = n :=
  Nat.ofDigitChars_ten_toDigits

theorem digitsValue_zeros_append (k : Nat) (ds : List Char) :
    digitsValue (List.replicate k '0' ++ ds) = digitsValue ds := by
  induction k with
  | zero => rfl
  | succ k ih => exact ih

theorem digitsValue_append_zeros (ds : List Char) (k : Nat) :
    digitsValue (ds ++ List.replicate k '0') = digitsValue ds * 10 ^ k := by
  induction k with
  | zero => rw [List.replicate_zero, List.append_nil, Nat.pow_zero, Nat.mul_one]
  | succ k ih =>
    have hlast : digitsValue (ds ++ List.replicate k '0' ++ ['0'])
        = 10 * digitsValue (ds ++ List.replicate k '0') := by
      rw [digitsValue, List.foldl_append]
      rfl
    rw [List.replicate_succ', ← List.append_assoc, hlast, ih]
    ring

/-! ## The text of a numeral -/

/-- The part of a text from the point on. -/
def fractionText : Option (List Char) → List Char
  | some ds => '.' :: ds
  | none => []

/-- The part of a text from the mark of the exponent on. -/
def exponentText : Option (Bool × List Char) → List Char
  | some (negative, ds) => 'e' :: (if negative then '-' else '+') :: ds
  | none => []

/-- A numeral as it is written. -/
def text (n : Numeral) : List Char :=
  n.whole ++ (fractionText n.fraction ++ exponentText n.exponent)

/-- The parts of a numeral are digits, and an exponent has at least one. -/
structure HasDigits (n : Numeral) : Prop where
  whole : ∀ c ∈ n.whole, c.isDigit = true
  fraction : ∀ ds, n.fraction = some ds → ∀ c ∈ ds, c.isDigit = true
  exponent : ∀ negative ds, n.exponent = some (negative, ds) →
    ds ≠ [] ∧ ∀ c ∈ ds, c.isDigit = true

theorem splitSign_signed (negative : Bool) (ds : List Char) :
    splitSign ((if negative then '-' else '+') :: ds) = (negative, ds) := by
  cases negative <;> rfl

/-- Digits are taken off up to the first character that is none. -/
theorem takeWhile_digits {ds rest : List Char} (hds : ∀ c ∈ ds, c.isDigit = true)
    (hrest : rest.takeWhile Char.isDigit = []) : (ds ++ rest).takeWhile Char.isDigit = ds := by
  rw [List.takeWhile_append_of_pos hds, hrest, List.append_nil]

theorem dropWhile_digits {ds rest : List Char} (hds : ∀ c ∈ ds, c.isDigit = true)
    (hrest : rest.takeWhile Char.isDigit = []) : (ds ++ rest).dropWhile Char.isDigit = rest := by
  rw [List.dropWhile_append_of_pos hds]
  have h := List.takeWhile_append_dropWhile (p := Char.isDigit) (l := rest)
  rwa [hrest, List.nil_append] at h

/-- A numeral is found in its text. -/
theorem split?_text {n : Numeral} (h : n.HasDigits) : split? n.text = some n := by
  obtain ⟨whole, fraction, exponent⟩ := n
  obtain ⟨hwhole, hfraction, hexponent⟩ := h
  -- neither the mark of the exponent nor the point is a digit
  have hmark : ∀ e, (exponentText e).takeWhile Char.isDigit = [] := by
    intro e
    cases e <;> rfl
  have hpoint : (fractionText fraction ++ exponentText exponent).takeWhile Char.isDigit = [] := by
    cases fraction with
    | none => exact hmark exponent
    | some ds => rfl
  have hexponent' : ∀ e, exponent = some e → splitSign
      ((if e.1 then '-' else '+') :: e.2) = e ∧ e.2 ≠ [] ∧ e.2.all Char.isDigit = true := by
    rintro ⟨negative, ds⟩ he
    obtain ⟨hne, hall⟩ := hexponent negative ds he
    exact ⟨splitSign_signed negative ds, hne, List.all_eq_true.mpr hall⟩
  rw [split?, text, takeWhile_digits hwhole hpoint, dropWhile_digits hwhole hpoint]
  cases fraction with
  | none =>
    cases exponent with
    | none => rfl
    | some e =>
      obtain ⟨hsign, hne, hall⟩ := hexponent' e rfl
      simp [fractionText, exponentText, hsign, hne, hall]
  | some ds =>
    have hds := hfraction ds rfl
    simp only [fractionText, List.cons_append, takeWhile_digits hds (hmark exponent),
      dropWhile_digits hds (hmark exponent)]
    cases exponent with
    | none => rfl
    | some e =>
      obtain ⟨hsign, hne, hall⟩ := hexponent' e rfl
      simp [exponentText, hsign, hne, hall]

/-- A numeral that stands for a decimal and keeps to the strict rules of documents: digits on both
sides of a point, no leading zero, at most sixteen digits before the point. It has a point or an
exponent, so it is not the numeral of an integer. -/
structure Spells (n : Numeral) (d : Decimal) : Prop where
  digits : n.HasDigits
  whole : n.whole ≠ []
  noLeadingZero : n.whole.head? = some '0' → n.whole = ['0']
  short : n.whole.length ≤ 16
  fraction : n.fraction ≠ some []
  notInteger : n.fraction ≠ none ∨ n.exponent ≠ none
  value : ∀ negative, Binary64.ofDecimal negative n.decimal = Binary64.ofDecimal negative d

end Numeral

namespace DecimalLayout

open Numeral

/-- The exponent of a number, as a numeral has it. -/
theorem exponentText_eq (e : Int) :
    ∃ ds, amountLayout.exponentText e = Numeral.exponentText (some (decide (e < 0), ds)) ∧
      ds ≠ [] ∧ (∀ c ∈ ds, c.isDigit = true) ∧ digitsValue ds = e.natAbs := by
  refine ⟨_, ?_, ?_, ?_, digitsValue_zeros_append (2 - (digitsOf e.natAbs).length) _ |>.trans
    (digitsValue_digitsOf e.natAbs)⟩
  · simp [exponentText, Numeral.exponentText, amountLayout]
  · simp [digitsOf_ne_nil]
  · intro c hc
    rcases List.mem_append.mp hc with hc | hc
    · exact isDigit_of_mem_zeros hc
    · exact isDigit_of_mem_digitsOf hc

/-- The power of ten of the first digit. -/
def leading (d : Decimal) : Int := d.exponent + (digitsOf d.digits).length - 1

theorem exists_numeral_scientific (d : Decimal) :
    ∃ n : Numeral, (match digitsOf d.digits with
        | first :: [] => first :: amountLayout.exponentText (leading d)
        | first :: rest => first :: '.' :: (rest ++ amountLayout.exponentText (leading d))
        | [] => []) = n.text ∧ n.Spells d := by
  obtain ⟨es, htext, hne, hdigits, hvalue⟩ := exponentText_eq (leading d)
  obtain ⟨first, rest, hds⟩ := List.exists_cons_of_ne_nil (digitsOf_ne_nil d.digits)
  have hall : ∀ c ∈ first :: rest, c.isDigit = true := by
    rw [← hds]
    exact fun c hc => isDigit_of_mem_digitsOf hc
  have hd : digitsValue (first :: rest) = d.digits := by
    rw [← hds, digitsValue_digitsOf]
  have hlength : leading d = d.exponent + rest.length := by
    rw [leading, hds, List.length_cons]
    omega
  have hexponent : (if decide (leading d < 0) = true then -((digitsValue es : Nat) : Int)
      else digitsValue es) = leading d := by
    rw [hvalue]
    split
    · next h => rw [decide_eq_true_eq] at h; omega
    · next h => rw [decide_eq_true_eq] at h; omega
  have hfirst : ∀ c ∈ [first], c.isDigit = true := by
    intro c hc
    exact hall c (List.mem_cons.mpr (Or.inl (List.mem_singleton.mp hc)))
  -- one digit before the point; what is behind it may be left out if there is nothing
  have hspells : ∀ fraction : Option (List Char), fraction.getD [] = rest → fraction ≠ some [] →
      Spells ⟨[first], fraction, some (decide (leading d < 0), es)⟩ d := by
    intro fraction hfraction hnonempty
    refine ⟨⟨hfirst, ?_, ?_⟩, by simp, ?_, by simp, hnonempty, by simp, fun negative => ?_⟩
    · rintro ds rfl c hc
      exact hall c (List.mem_cons_of_mem first (hfraction ▸ hc))
    · rintro negative ds h
      obtain ⟨-, rfl⟩ := Prod.mk.inj (Option.some.inj h)
      exact ⟨hne, hdigits⟩
    · intro h
      rw [Option.some.inj h]
    · simp only [decimal, hfraction, List.singleton_append, hd]
      rw [hexponent, hlength, Int.add_sub_cancel]
  rw [hds]
  cases rest with
  | nil =>
    refine ⟨_, ?_, hspells none rfl (by simp)⟩
    rw [htext]
    rfl
  | cons second rest =>
    refine ⟨_, ?_, hspells (some (second :: rest)) rfl (by simp)⟩
    rw [htext]
    rfl

theorem exists_numeral_small {d : Decimal} (h : leading d < 0) :
    ∃ n : Numeral, '0' :: '.' :: (List.replicate ((leading d).natAbs - 1) '0' ++ digitsOf d.digits)
      = n.text ∧ n.Spells d := by
  refine ⟨⟨['0'], some (List.replicate ((leading d).natAbs - 1) '0' ++ digitsOf d.digits), none⟩,
    ?_, ⟨by simp, ?_, by simp⟩, by simp, fun _ => rfl, by simp, by simp [digitsOf_ne_nil], by simp,
    fun negative => ?_⟩
  · simp [text, fractionText, Numeral.exponentText]
  · rintro ds hds c hc
    obtain rfl := Option.some.inj hds
    rcases List.mem_append.mp hc with hc | hc
    · exact isDigit_of_mem_zeros hc
    · exact isDigit_of_mem_digitsOf hc
  · have hvalue : digitsValue (['0'] ++ (List.replicate ((leading d).natAbs - 1) '0'
        ++ digitsOf d.digits)) = d.digits :=
      (digitsValue_zeros_append 1 _).trans
        ((digitsValue_zeros_append _ _).trans (digitsValue_digitsOf _))
    have hexponent : (0 : Int) - ((List.replicate ((leading d).natAbs - 1) '0'
        ++ digitsOf d.digits).length : Nat) = d.exponent := by
      rw [leading] at h ⊢
      rw [List.length_append, List.length_replicate]
      omega
    simp only [decimal, Option.getD_some, hvalue, hexponent]

theorem exists_numeral_padded {d : Decimal} (hd : d.digits ≠ 0 ∨ d = ⟨0, 0⟩) (hlow : 0 ≤ leading d)
    (hhigh : leading d < 16) (h : (digitsOf d.digits).length ≤ (leading d).toNat + 1) :
    ∃ n : Numeral, digitsOf d.digits
      ++ List.replicate ((leading d).toNat + 1 - (digitsOf d.digits).length) '0' ++ ['.', '0']
      = n.text ∧ n.Spells d := by
  have hk : ((leading d).toNat + 1 - (digitsOf d.digits).length : Nat) = d.exponent := by
    rw [leading] at hlow h ⊢
    omega
  have hlength : (digitsOf d.digits).length + ((leading d).toNat + 1 - (digitsOf d.digits).length)
      ≤ 16 := by omega
  generalize (leading d).toNat + 1 - (digitsOf d.digits).length = k at hk hlength
  refine ⟨⟨digitsOf d.digits ++ List.replicate k '0', some ['0'], none⟩, ?_, ⟨?_, ?_, by simp⟩,
    by simp [digitsOf_ne_nil], ?_, ?_, by simp, by simp, fun negative => ?_⟩
  · simp [text, fractionText, Numeral.exponentText]
  · intro c hc
    rcases List.mem_append.mp hc with hc | hc
    · exact isDigit_of_mem_digitsOf hc
    · exact isDigit_of_mem_zeros hc
  · rintro ds hds c hc
    obtain rfl := Option.some.inj hds
    rw [List.mem_singleton.mp hc]
    decide
  · intro hhead
    -- zero is the only number with a leading zero, and nothing is filled in behind it
    rcases hd with hd | rfl
    · obtain ⟨c, cs, hcs⟩ := List.exists_cons_of_ne_nil (digitsOf_ne_nil d.digits)
      have hne := head?_digitsOf hd
      rw [hcs] at hhead hne
      exact absurd hhead hne
    · have hzero : k = 0 := by
        have : (k : Int) = 0 := hk
        omega
      rw [hzero]
      rfl
  · rw [List.length_append, List.length_replicate]
    exact hlength
  · have hvalue : digitsValue (digitsOf d.digits ++ List.replicate k '0' ++ ['0'])
        = d.digits * 10 ^ (k + 1) := by
      rw [List.append_assoc, ← List.replicate_succ', digitsValue_append_zeros, digitsValue_digitsOf]
    have hexponent : (0 : Int) - (['0'].length : Nat) + (k + 1 : Nat) = d.exponent := by
      rw [List.length_singleton]
      omega
    simp only [decimal, Option.getD_some, hvalue]
    rw [Binary64.ofDecimal_shift, hexponent]

theorem exists_numeral_split {d : Decimal} (hd : d.digits ≠ 0 ∨ d = ⟨0, 0⟩) (hlow : 0 ≤ leading d)
    (hhigh : leading d < 16) (h : (leading d).toNat + 1 < (digitsOf d.digits).length) :
    ∃ n : Numeral, (digitsOf d.digits).take ((leading d).toNat + 1)
      ++ '.' :: (digitsOf d.digits).drop ((leading d).toNat + 1) = n.text ∧ n.Spells d := by
  refine ⟨⟨(digitsOf d.digits).take ((leading d).toNat + 1),
    some ((digitsOf d.digits).drop ((leading d).toNat + 1)), none⟩, ?_,
    ⟨fun c hc => isDigit_of_mem_digitsOf (List.mem_of_mem_take hc), ?_, by simp⟩, ?_, ?_, ?_, ?_,
    by simp, fun negative => ?_⟩
  · simp [text, fractionText, Numeral.exponentText]
  · rintro ds hds c hc
    obtain rfl := Option.some.inj hds
    exact isDigit_of_mem_digitsOf (List.mem_of_mem_drop hc)
  · simp [digitsOf_ne_nil]
  · intro hhead
    rw [List.head?_take, if_neg (by omega)] at hhead
    rcases hd with hd | rfl
    · exact absurd hhead (head?_digitsOf hd)
    · exact absurd h (by decide)
  · rw [List.length_take]
    omega
  · rw [Ne, Option.some.injEq, List.drop_eq_nil_iff]
    omega
  · have hexponent : (0 : Int) - ((digitsOf d.digits).drop ((leading d).toNat + 1)).length
        = d.exponent := by
      rw [leading] at hlow h ⊢
      rw [List.length_drop]
      omega
    simp only [decimal, Option.getD_some, List.take_append_drop, digitsValue_digitsOf, hexponent]

/-- **A written decimal is a numeral of the same value.** -/
theorem exists_numeral {d : Decimal} (hd : d.digits ≠ 0 ∨ d = ⟨0, 0⟩) :
    ∃ n : Numeral, amountLayout.write d = n.text ∧ n.Spells d := by
  show ∃ n : Numeral, (if leading d < -4 ∨ 16 ≤ leading d then _ else _) = n.text ∧ n.Spells d
  split
  · exact exists_numeral_scientific d
  · next hpositional =>
    split
    · next hneg => exact exists_numeral_small hneg
    · next hneg =>
      have hlow : 0 ≤ leading d := Int.not_lt.mp hneg
      show ∃ n : Numeral, (if (digitsOf d.digits).length ≤ (leading d).toNat + 1 then _ else _)
        = n.text ∧ n.Spells d
      split
      · next hle => exact exists_numeral_padded hd hlow (by omega) hle
      · next hgt => exact exists_numeral_split hd hlow (by omega) (by omega)

end DecimalLayout

end Curriculum
