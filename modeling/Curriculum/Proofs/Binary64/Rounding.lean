import Curriculum.Number
import Mathlib.Order.Monotone.Basic
import Mathlib.Tactic.Linarith
import Mathlib.Tactic.Ring

/-!
# Where rounding ends

Ranks are only a way to count magnitudes, so two facts are all that later proofs need of them:
magnitudes rise with the rank (`units_strictMono`), and a quotient is rounded to a rank or to one
below it exactly when the quotient lies before the middle between that rank and the next:

> `nearestRank_le_iff`: `nearestRank num den ≤ r` exactly when `num / den` is less than half of
> `units r + units (r + 1)`, or equal to it and `r` is even.

From these follow that rounding keeps the order (`nearestRank_mono`), that what has a rank is kept
(`nearestRank_units`), and which quotients are rounded to a given rank (`nearestRank_eq_iff`).
-/

namespace Curriculum

namespace Binary64

theorem binade_pos : 0 < binade := Nat.pow_pos (by decide)

theorem two_dvd_binade : 2 ∣ binade := Dvd.intro (Nat.pow 2 51) rfl

theorem unit_pos : 0 < unit := by decide +kernel

/-! ## Magnitudes -/

/-- Beyond the lowest binade, a magnitude is a whole number of steps of its binade. -/
theorem units_step {s m : Nat} (hlow : binade ≤ m) (hhigh : m ≤ 2 * binade) :
    units (s * binade + m) = m * 2 ^ s := by
  have hb := binade_pos
  rcases Nat.lt_or_ge m (2 * binade) with hlt | hge
  · have hdiv : (s * binade + m) / binade = s + 1 := by
      refine Nat.div_eq_of_lt_le ?_ ?_
      · rw [Nat.add_mul]; omega
      · rw [Nat.add_mul, Nat.add_mul]; omega
    have hmod : (s * binade + m) % binade = m - binade := by
      rw [Nat.mod_eq_sub_div_mul, hdiv, Nat.add_mul]; omega
    have hnot : ¬ s * binade + m < binade := by omega
    rw [units, if_neg hnot, hdiv, hmod, Nat.add_sub_cancel, Nat.add_sub_cancel' hlow, Nat.pow_eq]
  · -- the last one is the first one of the next binade
    have hm : m = 2 * binade := Nat.le_antisymm hhigh hge
    have hdiv : (s * binade + m) / binade = s + 2 := by
      rw [hm, ← Nat.add_mul]
      exact Nat.mul_div_cancel _ hb
    have hmod : (s * binade + m) % binade = 0 := by
      rw [hm, ← Nat.add_mul]
      exact Nat.mul_mod_left ..
    have hnot : ¬ s * binade + m < binade := by omega
    rw [units, if_neg hnot, hdiv, hmod, hm, Nat.pow_eq, show s + 2 - 1 = s + 1 from rfl,
      Nat.pow_succ]
    ring

/-- Every rank stands in the lowest binade or some steps into a later one. -/
theorem rank_cases (r : Nat) :
    r < binade ∨ ∃ s m, r = s * binade + m ∧ binade ≤ m ∧ m < 2 * binade := by
  have hb := binade_pos
  rcases Nat.lt_or_ge r binade with hlt | hge
  · exact Or.inl hlt
  · have hdiv : 1 ≤ r / binade := (Nat.one_le_div_iff hb).mpr hge
    have hmod : r % binade < binade := Nat.mod_lt r hb
    have hsum : r / binade * binade + r % binade = r := Nat.div_add_mod' r binade
    have hpred : (r / binade - 1) * binade + binade = r / binade * binade := by
      rw [← Nat.succ_mul, Nat.succ_eq_add_one, Nat.sub_add_cancel hdiv]
    exact Or.inr ⟨r / binade - 1, binade + r % binade, by omega, by omega, by omega⟩

theorem units_lt_units_succ (r : Nat) : units r < units (r + 1) := by
  have hb := binade_pos
  rcases rank_cases r with hlt | ⟨s, m, rfl, hlow, hhigh⟩
  · rw [units_of_lt hlt]
    rcases Nat.lt_or_ge (r + 1) binade with h | h
    · rw [units_of_lt h]
      omega
    · have heq : r + 1 = 0 * binade + binade := by omega
      rw [heq, units_step (Nat.le_refl _) (by omega)]
      omega
  · rw [Nat.add_assoc, units_step hlow (by omega), units_step (by omega) (by omega)]
    exact Nat.mul_lt_mul_of_pos_right (Nat.lt_succ_self m) (Nat.pow_pos (by decide))

theorem units_strictMono : StrictMono units :=
  strictMono_nat_of_lt_succ units_lt_units_succ

theorem units_le_units_iff {r r' : Nat} : units r ≤ units r' ↔ r ≤ r' :=
  units_strictMono.le_iff_le

/-! ## The nearest rank -/

/-- A quotient is rounded to `k` or below exactly when it lies before the middle of `k` and
`k + 1`, or there and `k` is even. -/
theorem roundDiv_le_iff {num den k : Nat} (hden : 0 < den) :
    roundDiv num den ≤ k ↔
      2 * num < den * (2 * k + 1) ∨ k % 2 = 0 ∧ 2 * num = den * (2 * k + 1) := by
  have hr : num % den < den := Nat.mod_lt num hden
  have hnum : den * (num / den) + num % den = num := Nat.div_add_mod num den
  rw [roundDiv]
  generalize num / den = q at hnum ⊢
  generalize num % den = r at hr hnum ⊢
  have hk : den * (2 * k + 1) = 2 * (den * k) + den := by ring
  rw [hk, ← hnum]
  -- the remainder decides only if the whole part is `k` itself
  rcases Nat.lt_trichotomy q k with hlt | rfl | hgt
  · have hstep : den * (q + 1) ≤ den * k := Nat.mul_le_mul_left den hlt
    rw [Nat.mul_succ] at hstep
    have hleft : (if 2 * r < den then q else if den < 2 * r then q + 1 else q + q % 2) ≤ k := by
      split
      · omega
      · split <;> omega
    exact iff_of_true hleft (Or.inl (by omega))
  · split
    · omega
    · split <;> omega
  · have hstep : den * (k + 1) ≤ den * q := Nat.mul_le_mul_left den hgt
    rw [Nat.mul_succ] at hstep
    have hleft : ¬ (if 2 * r < den then q else if den < 2 * r then q + 1 else q + q % 2) ≤ k := by
      split
      · omega
      · split <;> omega
    exact iff_of_false hleft (by omega)

/-- How far a quotient is rounded: the step at its size, and where its whole part stands. -/
theorem shift_bounds (q : Nat) :
    q < 2 * binade * 2 ^ (q.log2 - 52) ∧ (q.log2 - 52 ≠ 0 → binade * 2 ^ (q.log2 - 52) ≤ q) := by
  have hbinade : binade = 2 ^ 52 := rfl
  constructor
  · have hlt : q < 2 ^ (q.log2 + 1) := Nat.lt_log2_self
    have hle : 2 ^ (q.log2 + 1) ≤ 2 ^ (53 + (q.log2 - 52)) :=
      Nat.pow_le_pow_right (by decide) (by omega)
    rw [hbinade, show 2 * 2 ^ 52 = 2 ^ 53 from rfl, ← Nat.pow_add]
    omega
  · intro hs
    have hq : q ≠ 0 := by
      rintro rfl
      exact hs rfl
    rw [hbinade, ← Nat.pow_add, Nat.add_sub_cancel' (by omega)]
    exact Nat.log2_self_le hq

/-! Let a quotient be rounded to steps of `2 ^ s`. The ranks of that step are those from `binade` to
`2 * binade` steps, counted from `s * binade`. -/

section Steps

variable {num den s r : Nat}

/-- The middles beyond the ranks of a step are beyond the quotient. -/
theorem lt_middle_of_beyond (hnum : num < den * (2 * binade * 2 ^ s)) (hr : (s + 2) * binade ≤ r) :
    2 * num < den * (units r + units (r + 1)) := by
  have hfirst : units ((s + 2) * binade) = 2 * binade * 2 ^ s := by
    rw [Nat.add_mul]
    exact units_step (by omega) (Nat.le_refl _)
  have hle : 2 * binade * 2 ^ s ≤ units r := by
    rw [← hfirst]
    exact units_le_units_iff.mpr hr
  have hlt := units_lt_units_succ r
  have hmul : den * (2 * binade * 2 ^ s + 2 * binade * 2 ^ s) ≤ den * (units r + units (r + 1)) :=
    Nat.mul_le_mul_left den (by omega)
  rw [Nat.mul_add] at hmul
  omega

/-- The middles before them are before the quotient. -/
theorem middle_lt_of_before (hden : 0 < den) (hnum : den * (binade * 2 ^ s) ≤ num)
    (hr : r < s * binade + binade) : den * (units r + units (r + 1)) < 2 * num := by
  have hfirst : units (s * binade + binade) = binade * 2 ^ s :=
    units_step (Nat.le_refl _) (by have := binade_pos; omega)
  have hle : units (r + 1) ≤ units (s * binade + binade) := units_le_units_iff.mpr hr
  have hlt := units_lt_units_succ r
  have hsum : units r + units (r + 1) < 2 * (binade * 2 ^ s) := by omega
  have hmul : den * (units r + units (r + 1)) < den * (2 * (binade * 2 ^ s)) :=
    Nat.mul_lt_mul_of_pos_left hsum hden
  rw [Nat.mul_left_comm] at hmul
  omega

/-- A quotient within the ranks of a step is rounded to one of them. -/
theorem binade_le_roundDiv (hden : 0 < den) (hnum : den * (binade * 2 ^ s) ≤ num) :
    binade ≤ roundDiv num (den * 2 ^ s) := by
  have hstep : 0 < den * 2 ^ s := Nat.mul_pos hden (Nat.pow_pos (by decide))
  refine Nat.not_lt.mp fun hlt => ?_
  have hmiddle := (roundDiv_le_iff hstep).mp (Nat.le_sub_one_of_lt hlt)
  have hsum : den * 2 ^ s * (2 * (binade - 1) + 1) + den * 2 ^ s
      = 2 * (den * (binade * 2 ^ s)) := by
    obtain ⟨b, hb⟩ : ∃ b, binade = b + 1 := ⟨binade - 1, by have := binade_pos; omega⟩
    rw [hb, Nat.add_sub_cancel]
    ring
  omega

theorem roundDiv_le_two_mul_binade (hden : 0 < den) (hnum : num < den * (2 * binade * 2 ^ s)) :
    roundDiv num (den * 2 ^ s) ≤ 2 * binade := by
  refine (roundDiv_le_iff (Nat.mul_pos hden (Nat.pow_pos (by decide)))).mpr (Or.inl ?_)
  have hsum : den * 2 ^ s * (2 * (2 * binade) + 1)
      = 2 * (den * (2 * binade * 2 ^ s)) + den * 2 ^ s := by ring
  omega

/-- Among the ranks of a step, to compare with a middle of ranks is to compare with a middle of
steps. -/
theorem roundDiv_le_iff_of_step {k : Nat} (hden : 0 < den)
    (hk : units (s * binade + k) = k * 2 ^ s)
    (hk' : units (s * binade + (k + 1)) = (k + 1) * 2 ^ s) :
    s * binade + roundDiv num (den * 2 ^ s) ≤ s * binade + k ↔
      2 * num < den * (units (s * binade + k) + units (s * binade + k + 1)) ∨
        (s * binade + k) % 2 = 0 ∧
          2 * num = den * (units (s * binade + k) + units (s * binade + k + 1)) := by
  have hstep : 0 < den * 2 ^ s := Nat.mul_pos hden (Nat.pow_pos (by decide))
  have heven : s * binade % 2 = 0 := Nat.mod_eq_zero_of_dvd (Dvd.dvd.mul_left two_dvd_binade s)
  have hsum : den * (k * 2 ^ s + (k + 1) * 2 ^ s) = den * 2 ^ s * (2 * k + 1) := by ring
  rw [Nat.add_assoc _ k 1, hk, hk', hsum, Nat.add_le_add_iff_left, roundDiv_le_iff hstep, Nat.add_mod, heven,
    Nat.zero_add, Nat.mod_mod]

end Steps

/-- **What is rounded to a rank or below it.** -/
theorem nearestRank_le_iff {num den r : Nat} (hden : 0 < den) :
    nearestRank num den ≤ r ↔
      2 * num < den * (units r + units (r + 1)) ∨
        r % 2 = 0 ∧ 2 * num = den * (units r + units (r + 1)) := by
  have hb := binade_pos
  obtain ⟨hupper, hlower⟩ := shift_bounds (num / den)
  rw [nearestRank, Nat.pow_eq]
  generalize (num / den).log2 - 52 = s at hupper hlower ⊢
  have hnum : num < den * (2 * binade * 2 ^ s) := by
    rw [Nat.mul_comm]
    exact (Nat.div_lt_iff_lt_mul hden).mp hupper
  have hround := roundDiv_le_two_mul_binade hden hnum
  rcases Nat.lt_or_ge r ((s + 2) * binade) with hr | hr
  · rcases Nat.eq_zero_or_pos s with rfl | hs
    · -- in the two lowest binades a rank is its own magnitude
      have hself : ∀ k, k ≤ 2 * binade → units (0 * binade + k) = k * 2 ^ 0 := by
        intro k hk
        rcases Nat.lt_or_ge k binade with h | h
        · rw [Nat.zero_mul, Nat.zero_add, units_of_lt h, Nat.pow_zero, Nat.mul_one]
        · exact units_step h hk
      have hsame : 0 * binade + roundDiv num (den * 2 ^ 0) ≤ 0 * binade + r ↔ _ :=
        roundDiv_le_iff_of_step hden (hself r (by omega)) (hself (r + 1) (by omega))
      simpa only [Nat.zero_mul, Nat.zero_add] using hsame
    · have hnum' : den * (binade * 2 ^ s) ≤ num := by
        rw [Nat.mul_comm]
        exact (Nat.le_div_iff_mul_le hden).mp (hlower (by omega))
      rcases Nat.lt_or_ge r (s * binade + binade) with hr' | hr'
      · -- before the ranks of the step both sides fail
        have hge := binade_le_roundDiv hden hnum'
        have hmiddle := middle_lt_of_before hden hnum' hr'
        exact iff_of_false (by omega) (by omega)
      · obtain ⟨k, rfl⟩ : ∃ k, r = s * binade + k := ⟨r - s * binade, by omega⟩
        rw [Nat.add_mul] at hr
        exact roundDiv_le_iff_of_step hden (units_step (by omega) (by omega))
          (units_step (by omega) (by omega))
  · -- beyond them both sides hold
    refine iff_of_true ?_ (Or.inl (lt_middle_of_beyond hnum hr))
    rw [Nat.add_mul] at hr
    omega

/-- **Which quotients are rounded to a rank above 0.** They reach to the middles between the rank
and its two neighbours, the middles included if the rank is even. -/
theorem nearestRank_eq_iff {num den r : Nat} (hden : 0 < den) (hr : 0 < r) :
    nearestRank num den = r ↔
      (den * (units (r - 1) + units r) < 2 * num ∧ 2 * num < den * (units r + units (r + 1))) ∨
        r % 2 = 0 ∧ den * (units (r - 1) + units r) ≤ 2 * num ∧
          2 * num ≤ den * (units r + units (r + 1)) := by
  have hupper : nearestRank num den ≤ r ↔ _ := nearestRank_le_iff hden
  have hlower : nearestRank num den ≤ r - 1 ↔ _ := nearestRank_le_iff hden
  rw [Nat.sub_add_cancel hr] at hlower
  have hsum : units (r - 1) + units r < units r + units (r + 1) := by
    have h := units_lt_units_succ (r - 1)
    have h' := units_lt_units_succ r
    rw [Nat.sub_add_cancel hr] at h
    omega
  have hmul := Nat.mul_lt_mul_of_pos_left hsum hden
  have heq : nearestRank num den = r ↔ nearestRank num den ≤ r ∧ ¬ nearestRank num den ≤ r - 1 := by
    omega
  rw [heq, hupper, hlower]
  generalize den * (units (r - 1) + units r) = low at hmul ⊢
  generalize den * (units r + units (r + 1)) = high at hmul ⊢
  omega

/-- What has a rank is kept. -/
theorem nearestRank_units {r den : Nat} (hden : 0 < den) :
    nearestRank (den * units r) den = r := by
  have hlt := units_lt_units_succ r
  have hle : nearestRank (den * units r) den ≤ r := by
    refine (nearestRank_le_iff hden).mpr (Or.inl ?_)
    rw [Nat.mul_left_comm]
    exact Nat.mul_lt_mul_of_pos_left (by omega) hden
  refine Nat.le_antisymm hle (Nat.not_lt.mp fun hbelow => ?_)
  have hpred := (nearestRank_le_iff hden).mp (Nat.le_sub_one_of_lt hbelow)
  have hlt' := units_lt_units_succ (r - 1)
  rw [Nat.sub_add_cancel (by omega)] at hpred hlt'
  have hmul : den * (units (r - 1) + units r) < den * (2 * units r) :=
    Nat.mul_lt_mul_of_pos_left (by omega) hden
  rw [Nat.mul_left_comm] at hmul
  omega

/-- Rounding keeps the order. -/
theorem nearestRank_mono {num den num' den' : Nat} (hden : 0 < den) (hden' : 0 < den')
    (h : num * den' ≤ num' * den) : nearestRank num den ≤ nearestRank num' den' := by
  -- the larger quotient lies before the middle above its rank, and so does the smaller one
  have hself := (nearestRank_le_iff hden').mp (Nat.le_refl (nearestRank num' den'))
  refine (nearestRank_le_iff hden).mpr ?_
  generalize nearestRank num' den' = r at hself ⊢
  have hscale : den' * (2 * num) ≤ den * (2 * num') := by
    calc den' * (2 * num) = 2 * (num * den') := by ring
      _ ≤ 2 * (num' * den) := Nat.mul_le_mul_left 2 h
      _ = den * (2 * num') := by ring
  rcases hself with hlt | ⟨heven, heq⟩
  · left
    refine Nat.lt_of_mul_lt_mul_left (a := den') ?_
    calc den' * (2 * num) ≤ den * (2 * num') := hscale
      _ < den * (den' * (units r + units (r + 1))) := Nat.mul_lt_mul_of_pos_left hlt hden
      _ = den' * (den * (units r + units (r + 1))) := Nat.mul_left_comm ..
  · have hle : 2 * num ≤ den * (units r + units (r + 1)) := by
      refine Nat.le_of_mul_le_mul_left ?_ hden'
      calc den' * (2 * num) ≤ den * (2 * num') := hscale
        _ = den' * (den * (units r + units (r + 1))) := by rw [heq, Nat.mul_left_comm]
    rcases Nat.lt_or_eq_of_le hle with hlt | heq
    · exact Or.inl hlt
    · exact Or.inr ⟨heven, heq⟩

end Binary64

end Curriculum
