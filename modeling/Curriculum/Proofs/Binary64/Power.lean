import Curriculum.Proofs.Binary64.Order

/-!
# Bounds by powers of two

Arithmetic here ends in one rounding, so bounds are cheap only where the bound itself can be held.
The powers of two can: the rank of 2 to the power `k` is `1023 + k` binades (`units_power`). A
number without a sign that is at most that is `AtMostPower k`. Doubling moves it up by one power,
dividing by a count and rounding to some places leave it where it is; and up to the power 1023 all
numbers are finite (`AtMostPower.isFinite`).
-/

namespace Curriculum

namespace Binary64

variable {x : Binary64} {k : Nat}

/-! ## Powers of two -/

/-- The magnitude of a power of two. -/
theorem units_power (k : Nat) : units ((1023 + k) * binade) = 2 ^ k * unit := by
  obtain ⟨s, hs, hunit⟩ : ∃ s, 1022 = s ∧ unit = binade * 2 ^ s := ⟨1022, rfl, by decide +kernel⟩
  have hrank : (1023 + k) * binade = (s + k) * binade + binade := by
    rw [← Nat.succ_mul, ← hs]
    exact congrArg (· * binade) (by omega)
  rw [hrank, units_step (Nat.le_refl _) (by omega), hunit, Nat.pow_add, ← Nat.mul_assoc,
    Nat.mul_comm]

theorem units_one : units (1023 * binade) = unit := by
  rw [← Nat.add_zero 1023, units_power, Nat.pow_zero, Nat.one_mul]

/-- A number without a sign that is at most a power of two. -/
def AtMostPower (k : Nat) (x : Binary64) : Prop :=
  ∃ rank bounded, x = .number false rank bounded ∧ rank ≤ (1023 + k) * binade

theorem AtMostPower.isUnsigned (h : x.AtMostPower k) : x.IsUnsigned := by
  obtain ⟨rank, bounded, hx, -⟩ := h
  exact ⟨rank, bounded, hx⟩

theorem AtMostPower.mono {l : Nat} (h : x.AtMostPower k) (hkl : k ≤ l) : x.AtMostPower l := by
  obtain ⟨rank, bounded, rfl, hrank⟩ := h
  have hle : (1023 + k) * binade ≤ (1023 + l) * binade := Nat.mul_le_mul_right _ (by omega)
  exact ⟨rank, bounded, rfl, Nat.le_trans hrank hle⟩

theorem atMostPower_ofRank {rank : Nat} (h : rank ≤ (1023 + k) * binade) :
    (ofRank false rank).AtMostPower k :=
  ⟨_, _, rfl, Nat.le_trans (Nat.min_le_left _ _) h⟩

/-- A quotient that is at most a power of two is rounded to no more than that. -/
theorem nearestRank_le_power {num den : Nat} (hden : 0 < den) (h : num ≤ 2 ^ k * unit * den) :
    nearestRank num den ≤ (1023 + k) * binade := by
  have hmono : nearestRank num den ≤ nearestRank (units ((1023 + k) * binade)) 1 :=
    nearestRank_mono hden Nat.one_pos (by rwa [units_power, Nat.mul_one])
  rwa [nearestRank_units_one] at hmono

theorem units_le_power {rank : Nat} (h : rank ≤ (1023 + k) * binade) :
    units rank ≤ 2 ^ k * unit := by
  rw [← units_power]
  exact units_le_units_iff.mpr h

theorem one_atMostPower : (ofNat 1).AtMostPower 0 := by
  refine atMostPower_ofRank (nearestRank_le_power Nat.one_pos ?_)
  rw [Nat.pow_zero, Nat.mul_one]

/-- Up to the power 1023 there are only finite numbers. -/
theorem AtMostPower.isFinite (h : x.AtMostPower k) (hk : k ≤ 1023) : x.isFinite = true := by
  obtain ⟨rank, bounded, rfl, hrank⟩ := h
  have hle : (1023 + k) * binade ≤ 2046 * binade := Nat.mul_le_mul_right _ (by omega)
  have htop : 2046 * binade < top := by decide
  exact decide_eq_true (Nat.lt_of_le_of_lt (Nat.le_trans hrank hle) htop)

/-! ## Arithmetic -/

theorem nearestRank_two : nearestRank (2 * unit) 1 = 1024 * binade := by decide +kernel

theorem AtMostPower.double (h : x.AtMostPower k) : (x.mul (.ofNat 2)).AtMostPower (k + 1) := by
  obtain ⟨a, ha, rfl, hrank⟩ := h
  have htwo : min (nearestRank (2 * unit) 1) top = 1024 * binade := by
    rw [nearestRank_two]
    decide
  have hle : (1023 + k) * binade ≤ (1023 + (k + 1)) * binade := Nat.mul_le_mul_right _ (by omega)
  simp only [ofNat, ofRatio, ofRank, mul, htwo]
  split
  · next hinf =>
    -- infinity is doubled to itself
    have hatop : a = top := hinf.resolve_right (by decide)
    have hzero : ¬ (a = 0 ∨ 1024 * binade = 0) := by
      rw [hatop]
      decide
    rw [if_neg hzero]
    exact atMostPower_ofRank (by omega)
  · refine atMostPower_ofRank (nearestRank_le_power unit_pos ?_)
    have htwoUnits : units (1024 * binade) = 2 ^ 1 * unit := units_power 1
    have ha := units_le_power hrank
    rw [htwoUnits, ← Nat.mul_assoc]
    refine Nat.mul_le_mul_right unit ?_
    rw [Nat.pow_one, Nat.pow_succ, Nat.mul_right_comm]
    exact Nat.mul_le_mul_right 2 ha

theorem AtMostPower.divCount (h : x.AtMostPower k) {n : Nat} (hn : 0 < n) :
    (x.div (.ofCount n)).AtMostPower k := by
  obtain ⟨a, ha, rfl, hrank⟩ := h
  have htop : 1023 * binade < top := by decide
  have hone : 1023 * binade ≤ nearestRank (n * unit) 1 := by
    have hrank : nearestRank (units (1023 * binade)) 1 = 1023 * binade := nearestRank_units_one _
    rw [← hrank]
    refine nearestRank_one_mono ?_
    rw [units_one]
    exact Nat.le_mul_of_pos_left unit hn
  obtain ⟨b, hb, hcount, hfinite⟩ : ∃ b, min (min (nearestRank (n * unit) 1) (top - 1)) top = b ∧
      1023 * binade ≤ b ∧ b ≠ top := ⟨_, rfl, by omega, by omega⟩
  simp only [ofCount, ofRank, div, hb, if_neg hfinite]
  split
  · next hinf => exact atMostPower_ofRank (by omega)
  · -- the count is at least one, so the quotient is no larger than the dividend
    have hunits : unit ≤ units b := by
      rw [← units_one]
      exact units_le_units_iff.mpr hcount
    have hquotient : nearestRank (units a * unit) (units b) ≤ nearestRank (units a) 1 := by
      refine nearestRank_mono (Nat.lt_of_lt_of_le unit_pos hunits) Nat.one_pos ?_
      rw [Nat.mul_one]
      exact Nat.mul_le_mul_left _ hunits
    rw [nearestRank_units_one] at hquotient
    exact atMostPower_ofRank (Nat.le_trans hquotient hrank)

/-- Rounding to some places keeps a number below a power of two. -/
theorem AtMostPower.roundTo (h : x.AtMostPower k) (places : Nat) :
    (x.roundTo places).AtMostPower k := by
  obtain ⟨rank, bounded, rfl, hrank⟩ := h
  rw [Binary64.roundTo]
  split
  · exact ⟨rank, bounded, rfl, hrank⟩
  · have hten : 0 < Nat.pow 10 places := Nat.pow_pos (by decide)
    refine atMostPower_ofRank (nearestRank_le_power hten ?_)
    have hsteps : stepsOf places rank ≤ 2 ^ k * Nat.pow 10 places := by
      refine (roundDiv_le_iff unit_pos).mpr (Or.inl ?_)
      have hle : units rank * Nat.pow 10 places ≤ 2 ^ k * unit * Nat.pow 10 places :=
        Nat.mul_le_mul_right _ (units_le_power hrank)
      have hunit := unit_pos
      generalize Nat.pow 10 places = p at hle ⊢
      generalize unit = u at hle hunit ⊢
      have hsum : u * (2 * (2 ^ k * p) + 1) = 2 * (2 ^ k * u * p) + u := by ring
      omega
    have hmul := Nat.mul_le_mul_right unit hsteps
    rwa [Nat.mul_right_comm] at hmul

end Binary64

end Curriculum
