import Curriculum.Proofs.Binary64.Rounding
import Mathlib.Algebra.Order.Field.Basic
import Mathlib.Algebra.Order.Ring.Rat
import Mathlib.Order.WithBot

/-!
# What numbers stand for

The order of numbers is computed on integers: both sides are put on a scale of units of 2⁻¹⁰⁷⁴ first.
What is meant is the order of the rational numbers that they stand for, with the two infinities below
and above them (`toExtended?`), and that is what the computed order is:

> `le_iff_atMost`: a number is computed to be at most another exactly when it stands for at most as
> much.
-/

namespace Curriculum

namespace Number

/-- The rational numbers between two infinities. -/
abbrev Extended : Type := WithBot (WithTop ℚ)

/-- The rational number or the infinity that a number stands for; what is not a number stands for
nothing. -/
def toExtended? : Number → Option Extended
  | .int n => some ((n : ℚ) : WithTop ℚ)
  | .float .nan => none
  | .float (.number negative rank _) =>
    let magnitude : ℚ := Binary64.units rank / Binary64.unit
    if rank = Binary64.top then some (if negative then ⊥ else ⊤)
    else some ((if negative then -magnitude else magnitude : ℚ) : WithTop ℚ)

/-- One number stands for less than another. -/
def Less (x y : Number) : Prop := ∃ a b, x.toExtended? = some a ∧ y.toExtended? = some b ∧ a < b

/-- One number stands for at most as much as another. -/
def AtMost (x y : Number) : Prop := ∃ a b, x.toExtended? = some a ∧ y.toExtended? = some b ∧ a ≤ b

/-! ## The scale -/

/-- What a place on the scale stands for. -/
def Place.value : Place → Extended
  | .belowAll => ⊥
  | .finite u => ((u / Binary64.unit : ℚ) : WithTop ℚ)
  | .aboveAll => ⊤

theorem unit_pos_rat : (0 : ℚ) < Binary64.unit := Nat.cast_pos.mpr Binary64.unit_pos

theorem Place.le_iff_value_le (a b : Place) : a.le b = true ↔ a.value ≤ b.value := by
  cases a with
  | belowAll => exact iff_of_true rfl bot_le
  | finite u =>
    cases b with
    | belowAll => exact iff_of_false Bool.false_ne_true (not_le.mpr (WithBot.bot_lt_coe _))
    | finite v =>
      rw [Place.le, decide_eq_true_iff, Place.value, Place.value, WithBot.coe_le_coe,
        WithTop.coe_le_coe, div_le_div_iff_of_pos_right unit_pos_rat, Int.cast_le]
    | aboveAll => exact iff_of_true rfl (WithBot.coe_le_coe.mpr le_top)
  | aboveAll =>
    cases b with
    | belowAll => exact iff_of_false Bool.false_ne_true (not_le.mpr (WithBot.bot_lt_coe _))
    | finite v =>
      refine iff_of_false Bool.false_ne_true (not_le.mpr ?_)
      exact WithBot.coe_lt_coe.mpr (WithTop.coe_lt_top _)
    | aboveAll => exact iff_of_true rfl le_rfl

/-- The scale is fine enough for every number. -/
theorem toExtended?_eq (x : Number) : x.toExtended? = x.place?.map Place.value := by
  cases x with
  | int n =>
    have hn : (n : ℚ) * Binary64.unit / Binary64.unit = n :=
      mul_div_cancel_right₀ _ unit_pos_rat.ne'
    simp only [toExtended?, place?, Option.map_some, Place.value, Int.cast_mul, Int.cast_natCast, hn]
  | float x =>
    cases x with
    | nan => rfl
    | number negative rank bounded =>
      by_cases htop : rank = Binary64.top
      · cases negative <;> simp only [toExtended?, place?, htop, if_true, Option.map_some,
          Place.value, Bool.false_eq_true, if_false]
      · cases negative <;> simp only [toExtended?, place?, htop, if_true, if_false, Option.map_some,
          Place.value, Bool.false_eq_true, Int.cast_neg, Int.cast_natCast, neg_div]

/-! ## The order -/

variable {x y z : Number}

theorem isNumber_of_ne_nan (h : x ≠ .float .nan) : x.isNumber = true := by
  cases x with
  | int n => rfl
  | float x => exact isNumber_float fun hx => h (congrArg float hx)

/-- **The computed order is that of what numbers stand for.** -/
theorem le_iff_atMost : x.le y = true ↔ x.AtMost y := by
  rw [le_iff, AtMost, toExtended?_eq, toExtended?_eq]
  simp only [Option.map_eq_some_iff]
  constructor
  · rintro ⟨a, b, ha, hb, hab⟩
    exact ⟨_, _, ⟨a, ha, rfl⟩, ⟨b, hb, rfl⟩, (Place.le_iff_value_le a b).mp hab⟩
  · rintro ⟨-, -, ⟨a, ha, rfl⟩, ⟨b, hb, rfl⟩, hab⟩
    exact ⟨a, b, ha, hb, (Place.le_iff_value_le a b).mpr hab⟩

theorem isSome_toExtended? : x.toExtended?.isSome = x.isNumber := by
  rw [toExtended?_eq, Option.isSome_map, isNumber]

/-- Of two numbers, one is less than the other exactly when the other is not at most the one. -/
theorem less_iff (hx : x.isNumber = true) (hy : y.isNumber = true) :
    x.Less y ↔ y.le x = false := by
  rw [← isSome_toExtended?] at hx hy
  obtain ⟨a, ha⟩ := Option.isSome_iff_exists.mp hx
  obtain ⟨b, hb⟩ := Option.isSome_iff_exists.mp hy
  rw [← Bool.not_eq_true, le_iff_atMost]
  simp [Less, AtMost, ha, hb]

theorem Less.not_atMost (h : x.Less y) : ¬ y.AtMost x := by
  obtain ⟨a, b, ha, hb, hab⟩ := h
  rintro ⟨b', a', hb', ha', hle⟩
  obtain rfl := Option.some.inj (ha.symm.trans ha')
  obtain rfl := Option.some.inj (hb.symm.trans hb')
  exact absurd hab (not_lt.mpr hle)

theorem AtMost.trans_less (hxy : x.AtMost y) (hyz : y.Less z) : x.Less z := by
  obtain ⟨a, b, ha, hb, hab⟩ := hxy
  obtain ⟨b', c, hb', hc, hbc⟩ := hyz
  obtain rfl := Option.some.inj (hb.symm.trans hb')
  exact ⟨a, c, ha, hc, hab.trans_lt hbc⟩

end Number

end Curriculum
