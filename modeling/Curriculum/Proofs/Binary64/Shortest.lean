import Curriculum.Binary64.Decimal
import Curriculum.Proofs.Binary64.Order

/-!
# The shortest decimal reads back

A decimal is read by rounding its exact value once, so two decimals of one value are read alike
(`ofDecimal_shift`), and a decimal is read as a magnitude exactly when its value lies in the interval
of the magnitude (`ofDecimal_of_readsBack`). A grid of seventeen digits is finer than every such
interval: its steps are at most 10⁻¹⁶ of the magnitude, while the next magnitude on either side is
more than that away (`units_le_gap`). So the search for the shortest decimal never fails, and what
it finds reads back:

> `ofDecimal_shortest`: the shortest decimal of a finite magnitude other than zero is read as it.
-/

namespace Curriculum

namespace Binary64

/-! ## Powers of ten as quotients -/

theorem stepsPerOne_natCast (n : Nat) : stepsPerOne n = (1, 10 ^ n) := by
  rw [stepsPerOne, if_pos (Int.natCast_nonneg n), Int.toNat_natCast, Nat.pow_eq]

theorem stepsPerOne_neg_natCast (n : Nat) : stepsPerOne (-(n : Int)) = (10 ^ n, 1) := by
  rcases Nat.eq_zero_or_pos n with rfl | hn
  · rfl
  · have hneg : ¬ (0 : Int) ≤ -(n : Int) := by omega
    rw [stepsPerOne, if_neg hneg, Int.natAbs_neg, Int.natAbs_natCast, Nat.pow_eq]

/-- An integer is a natural number or the opposite of one. -/
theorem exists_natCast (e : Int) : ∃ n : Nat, e = n ∨ e = -(n : Int) :=
  ⟨e.natAbs, by omega⟩

theorem stepsPerOne_pos (e : Int) : 0 < (stepsPerOne e).1 ∧ 0 < (stepsPerOne e).2 := by
  have hpow : ∀ n : Nat, 0 < 10 ^ n := fun n => Nat.pow_pos (by decide)
  obtain ⟨n, rfl | rfl⟩ := exists_natCast e
  · rw [stepsPerOne_natCast]
    exact ⟨Nat.one_pos, hpow n⟩
  · rw [stepsPerOne_neg_natCast]
    exact ⟨hpow n, Nat.one_pos⟩

theorem stepsPerOne_add (e : Int) (k : Nat) :
    10 ^ k * (stepsPerOne e).2 * (stepsPerOne (e + k)).1
      = (stepsPerOne (e + k)).2 * (stepsPerOne e).1 := by
  obtain ⟨n, rfl | rfl⟩ := exists_natCast e
  · rw [← Int.natCast_add, stepsPerOne_natCast, stepsPerOne_natCast, Nat.pow_add]
    ring
  · rcases Nat.le_total n k with h | h
    · obtain ⟨m, rfl⟩ := Nat.exists_eq_add_of_le h
      have hsum : -(n : Int) + ((n + m : Nat) : Int) = (m : Nat) := by omega
      rw [hsum, stepsPerOne_natCast, stepsPerOne_neg_natCast, Nat.pow_add]
      ring
    · obtain ⟨m, rfl⟩ := Nat.exists_eq_add_of_le h
      have hsum : -((k + m : Nat) : Int) + (k : Int) = -(m : Int) := by omega
      rw [hsum, stepsPerOne_neg_natCast, stepsPerOne_neg_natCast, Nat.pow_add]
      ring

/-! ## Decimals are read by their value -/

theorem ofRatio_congr (negative : Bool) {num den num' den' : Nat} (hden : 0 < den) (hden' : 0 < den')
    (h : num * den' = num' * den) : ofRatio negative num den = ofRatio negative num' den' := by
  have hunit : num * unit * den' = num' * unit * den := by
    rw [Nat.mul_right_comm, h, Nat.mul_right_comm]
  have hrank : nearestRank (num * unit) den = nearestRank (num' * unit) den' :=
    Nat.le_antisymm (nearestRank_mono hden hden' (Nat.le_of_eq hunit))
      (nearestRank_mono hden' hden (Nat.le_of_eq hunit.symm))
  rw [ofRatio, ofRatio, hrank]

theorem ofRank_of_top_le {negative : Bool} {rank : Nat} (h : top ≤ rank) :
    ofRank negative rank = infinity negative := by
  simp only [infinity, ofRank, Nat.min_eq_right h, Nat.min_self]

theorem ofRank_of_le {negative : Bool} {rank : Nat} (h : rank ≤ top) :
    ofRank negative rank = .number negative rank h := by
  simp only [ofRank, Nat.min_eq_left h]

theorem units_top_le : ∃ k ≤ 400, units top ≤ 10 ^ k * unit :=
  ⟨400, Nat.le_refl _, by decide +kernel⟩

theorem ofRatio_of_large {negative : Bool} {m n : Nat} (hm : m ≠ 0) (hn : 400 < n) :
    ofRatio negative (m * 10 ^ n) 1 = infinity negative := by
  obtain ⟨k, hk, hlarge⟩ := units_top_le
  have hpow : 10 ^ k ≤ m * 10 ^ n :=
    Nat.le_trans (Nat.pow_le_pow_right (by decide) (by omega))
      (Nat.le_mul_of_pos_left _ (Nat.pos_of_ne_zero hm))
  have hle : units top ≤ m * 10 ^ n * unit :=
    Nat.le_trans hlarge (Nat.mul_le_mul_right unit hpow)
  refine ofRank_of_top_le ?_
  have h := nearestRank_one_mono hle
  rwa [nearestRank_units_one] at h

theorem unit_eq : ∃ k ≤ 1074, unit = 2 ^ k :=
  ⟨1074, Nat.le_refl _, by decide +kernel⟩

theorem ofRatio_of_small {negative : Bool} {m n : Nat} (hn : m.log2 + 1100 < n) :
    ofRatio negative m (10 ^ n) = zero negative := by
  obtain ⟨k, hk, hunit⟩ := unit_eq
  have hm : m < 2 ^ (m.log2 + 1) := Nat.lt_log2_self
  have hsmall : 2 * (m * unit) < 10 ^ n := by
    calc 2 * (m * unit) < 2 * (2 ^ (m.log2 + 1) * unit) := by
          have := Nat.mul_lt_mul_of_pos_right hm unit_pos
          omega
      _ = 2 ^ (m.log2 + 1 + k + 1) := by rw [hunit, ← Nat.pow_add, Nat.pow_succ, Nat.mul_comm]
      _ ≤ 2 ^ n := Nat.pow_le_pow_right (by decide) (by omega)
      _ ≤ 10 ^ n := Nat.pow_le_pow_left (by decide) n
  have hone : units 0 + units 1 = 1 := by
    rw [units_zero, units_of_lt (by decide)]
  have hzero : nearestRank (m * unit) (10 ^ n) ≤ 0 := by
    refine (nearestRank_le_iff (Nat.pow_pos (by decide))).mpr (Or.inl ?_)
    rwa [hone, Nat.mul_one]
  rw [ofRatio, Nat.le_zero.mp hzero, zero]

/-- Reading a decimal rounds its value once; that extreme exponents are decided beforehand makes no
difference. -/
theorem ofDecimal_eq (negative : Bool) {m : Nat} (e : Int) (hm : m ≠ 0) :
    ofDecimal negative ⟨m, e⟩
      = ofRatio negative (m * (stepsPerOne e).2) (stepsPerOne e).1 := by
  -- a shortcut that gives what would be computed anyway may be left out
  have hif : ∀ {p : Prop} [Decidable p] {x y : Binary64}, (p → x = y) →
      (if p then x else y) = y := by
    intro p _ x y h
    split
    · next hp => exact h hp
    · rfl
  obtain ⟨n, rfl | rfl⟩ := exists_natCast e
  · rw [ofDecimal, if_neg hm, if_pos (Int.natCast_nonneg n), stepsPerOne_natCast]
    simp only [Int.toNat_natCast, Nat.pow_eq]
    exact hif fun h => (ofRatio_of_large hm (by omega)).symm
  · rcases Nat.eq_zero_or_pos n with rfl | hn
    · rw [ofDecimal, if_neg hm]
      simp [stepsPerOne]
    · have hneg : ¬ (0 : Int) ≤ -(n : Int) := by omega
      rw [ofDecimal, if_neg hm, if_neg hneg, stepsPerOne_neg_natCast]
      simp only [Int.natAbs_neg, Int.natAbs_natCast, Nat.pow_eq, Nat.mul_one]
      exact hif fun h => (ofRatio_of_small h).symm

/-- Zeros at the end of the digits are as good as a larger exponent. -/
theorem ofDecimal_shift (negative : Bool) (m k : Nat) (e : Int) :
    ofDecimal negative ⟨m * 10 ^ k, e⟩ = ofDecimal negative ⟨m, e + k⟩ := by
  rcases Nat.eq_zero_or_pos m with rfl | hm
  · simp [ofDecimal]
  · have hpow : 0 < 10 ^ k := Nat.pow_pos (by decide)
    have hmul : m * 10 ^ k ≠ 0 := Nat.ne_of_gt (Nat.mul_pos hm hpow)
    rw [ofDecimal_eq negative e hmul, ofDecimal_eq negative (e + k) (Nat.ne_of_gt hm)]
    refine ofRatio_congr negative (stepsPerOne_pos e).1 (stepsPerOne_pos (e + k)).1 ?_
    calc m * 10 ^ k * (stepsPerOne e).2 * (stepsPerOne (e + k)).1
        = m * (10 ^ k * (stepsPerOne e).2 * (stepsPerOne (e + k)).1) := by ring
      _ = m * ((stepsPerOne (e + k)).2 * (stepsPerOne e).1) := by rw [stepsPerOne_add]
      _ = m * (stepsPerOne (e + k)).2 * (stepsPerOne e).1 := by ring

/-! ## Points that read back -/

theorem readsBack_iff {rank point : Nat} {e : Int} (hrank : 0 < rank) :
    readsBack rank e point = true ↔
      nearestRank (point * (stepsPerOne e).2 * unit) (stepsPerOne e).1 = rank := by
  rw [nearestRank_eq_iff (stepsPerOne_pos e).1 hrank, readsBack]
  generalize stepsPerOne e = s
  obtain ⟨a, b⟩ := s
  have hhere : point * (2 * unit * b) = 2 * (point * b * unit) := by ring
  have hlow : a * (units (rank - 1) + units rank) ≤ a * (units rank + units (rank + 1)) := by
    refine Nat.mul_le_mul_left a ?_
    have h := units_le_units_iff.mpr (Nat.sub_le rank 1)
    have h' := units_lt_units_succ rank
    omega
  simp only [roundingInterval, hhere, Nat.mul_comm _ a]
  split
  · next h =>
    simp only [decide_eq_true_eq, h, true_and]
    omega
  · next h =>
    simp only [decide_eq_true_eq, h, false_and, or_false]

theorem point_ne_zero {rank point : Nat} {e : Int} (hrank : 0 < rank)
    (h : readsBack rank e point = true) : point ≠ 0 := by
  rintro rfl
  rw [readsBack_iff hrank, Nat.zero_mul, Nat.zero_mul,
    ← Nat.mul_zero (stepsPerOne e).1, ← units_zero, nearestRank_units (stepsPerOne_pos e).1] at h
  omega

theorem ofDecimal_of_readsBack (negative : Bool) {rank point : Nat} {e : Int} (hrank : 0 < rank)
    (hbounded : rank ≤ top) (h : readsBack rank e point = true) :
    ofDecimal negative ⟨point, e⟩ = .number negative rank hbounded := by
  rw [ofDecimal_eq negative e (point_ne_zero hrank h), ofRatio, (readsBack_iff hrank).mp h,
    ofRank_of_le hbounded]

theorem roundDiv_cases (num den : Nat) :
    roundDiv num den = num / den ∨ roundDiv num den = num / den + 1 := by
  rw [roundDiv]
  generalize num / den = q
  split
  · exact Or.inl rfl
  · split
    · exact Or.inr rfl
    · omega

theorem readsBack_of_onGrid {rank point : Nat} {e : Int} (h : onGrid? rank e = some point) :
    readsBack rank e point = true := by
  rw [onGrid?] at h
  generalize stepsPerOne e = s at h
  obtain ⟨a, b⟩ := s
  dsimp only at h
  split at h
  · next hbelow habove =>
    obtain rfl := Option.some.inj h
    rcases roundDiv_cases (units rank * a) (unit * b) with h | h
    · rw [h]
      exact hbelow
    · rw [h]
      exact habove
  · next hbelow _ =>
    obtain rfl := Option.some.inj h
    exact hbelow
  · next _ habove =>
    obtain rfl := Option.some.inj h
    exact habove
  · exact absurd h (by simp)

/-- What is found with some number of digits reads back. -/
theorem ofDecimal_withDigits (negative : Bool) {rank count : Nat} {d : Decimal} (hrank : 0 < rank)
    (hbounded : rank ≤ top) (h : withDigits? rank count = some d) :
    ofDecimal negative d = .number negative rank hbounded ∧ d.digits ≠ 0 := by
  rw [withDigits?] at h
  generalize leadingExponent rank + 1 - count = e at h
  obtain ⟨point, hpoint, rfl⟩ := Option.map_eq_some_iff.mp h
  have hread := readsBack_of_onGrid hpoint
  have hback := ofDecimal_of_readsBack negative hrank hbounded hread
  split
  · next hpow =>
    rw [hpow, Nat.pow_eq, ← Nat.one_mul (10 ^ count), ofDecimal_shift] at hback
    exact ⟨hback, Nat.one_ne_zero⟩
  · exact ⟨hback, point_ne_zero hrank hread⟩

/-! ## Seventeen digits suffice -/

/-- The next magnitude is more than 2⁻⁵³ of itself away. -/
theorem units_le_gap (rank : Nat) :
    ∃ gap, units (rank + 1) = units rank + gap ∧ units (rank + 1) ≤ 2 * binade * gap := by
  have hb := binade_pos
  rcases rank_cases rank with hlt | ⟨s, m, rfl, hlow, hhigh⟩
  · have hsucc : units (rank + 1) = rank + 1 := by
      rcases Nat.lt_or_ge (rank + 1) binade with h | h
      · exact units_of_lt h
      · have heq : rank + 1 = 0 * binade + binade := by omega
        rw [heq, units_step (Nat.le_refl _) (by omega)]
        omega
    exact ⟨1, by rw [hsucc, units_of_lt hlt], by omega⟩
  · refine ⟨2 ^ s, ?_, ?_⟩
    · rw [Nat.add_assoc, units_step hlow (by omega), units_step (by omega) (by omega)]
      ring
    · rw [Nat.add_assoc, units_step (by omega) (by omega)]
      exact Nat.mul_le_mul_right (2 ^ s) hhigh

/-- A point of a grid that is closer to a magnitude than its two neighbours are reads back as it. -/
theorem readsBack_of_near {rank point below above : Nat} {e : Int} (hrank : 0 < rank)
    (hbelow : units rank = units (rank - 1) + below) (habove : units (rank + 1) = units rank + above)
    (hlow : 2 * (units rank * (stepsPerOne e).1)
      < 2 * (point * (unit * (stepsPerOne e).2)) + below * (stepsPerOne e).1)
    (hhigh : 2 * (point * (unit * (stepsPerOne e).2))
      < 2 * (units rank * (stepsPerOne e).1) + above * (stepsPerOne e).1) :
    readsBack rank e point = true := by
  have hden := (stepsPerOne_pos e).1
  have hl : (stepsPerOne e).1 * (units (rank - 1) + units rank) + below * (stepsPerOne e).1
      = 2 * (units rank * (stepsPerOne e).1) := by
    rw [hbelow]
    ring
  have hh : (stepsPerOne e).1 * (units rank + units (rank + 1))
      = 2 * (units rank * (stepsPerOne e).1) + above * (stepsPerOne e).1 := by
    rw [habove]
    ring
  have hn : point * (stepsPerOne e).2 * unit = point * (unit * (stepsPerOne e).2) := by ring
  rw [readsBack_iff hrank, nearestRank_eq_iff hden hrank]
  left
  omega

theorem not_readsBack_of_onGrid {rank : Nat} {e : Int} (h : onGrid? rank e = none) :
    readsBack rank e (units rank * (stepsPerOne e).1 / (unit * (stepsPerOne e).2)) = false ∧
      readsBack rank e (units rank * (stepsPerOne e).1 / (unit * (stepsPerOne e).2) + 1) = false := by
  rw [onGrid?] at h
  generalize stepsPerOne e = s at h ⊢
  obtain ⟨a, b⟩ := s
  dsimp only at h
  split at h
  · exact absurd h (by simp)
  · exact absurd h (by simp)
  · exact absurd h (by simp)
  · next hbelow habove => exact ⟨hbelow, habove⟩

/-- A grid with steps of at most 10⁻¹⁶ of a magnitude has a point that reads back as it. -/
theorem exists_onGrid {rank : Nat} {e : Int} (hrank : 0 < rank)
    (hfine : unit * (stepsPerOne e).2 * 10 ^ 16 ≤ units rank * (stepsPerOne e).1) :
    ∃ point, onGrid? rank e = some point := by
  obtain ⟨ha, hb⟩ := stepsPerOne_pos e
  obtain ⟨below, hbelow, hle⟩ := units_le_gap (rank - 1)
  obtain ⟨above, habove, hle'⟩ := units_le_gap rank
  rw [Nat.sub_add_cancel hrank] at hbelow hle
  cases hgrid : onGrid? rank e with
  | some point => exact ⟨point, rfl⟩
  | none =>
    obtain ⟨hnot, hnot'⟩ := not_readsBack_of_onGrid hgrid
    have hstep : 0 < unit * (stepsPerOne e).2 := Nat.mul_pos unit_pos hb
    have hmod := Nat.mod_lt (units rank * (stepsPerOne e).1) hstep
    have hdiv := Nat.div_add_mod' (units rank * (stepsPerOne e).1) (unit * (stepsPerOne e).2)
    have hsucc := Nat.add_one_mul
      (units rank * (stepsPerOne e).1 / (unit * (stepsPerOne e).2)) (unit * (stepsPerOne e).2)
    have hpos : 0 < units rank * (stepsPerOne e).1 := Nat.mul_pos (units_pos hrank) ha
    have hbinade : 2 * binade = 9007199254740992 := by decide
    -- both gaps are wider than a step
    have hgap : units rank * (stepsPerOne e).1 ≤ 9007199254740992 * (below * (stepsPerOne e).1) := by
      rw [← Nat.mul_assoc, ← hbinade]
      exact Nat.mul_le_mul_right _ hle
    have hgap' : units rank * (stepsPerOne e).1
        ≤ 9007199254740992 * (above * (stepsPerOne e).1) := by
      rw [← Nat.mul_assoc, ← hbinade]
      exact Nat.mul_le_mul_right _ (Nat.le_trans (by omega) hle')
    -- one of the two points around the magnitude is at most half a step away
    rcases Nat.lt_or_ge (unit * (stepsPerOne e).2)
      (2 * (units rank * (stepsPerOne e).1 % (unit * (stepsPerOne e).2))) with hhalf | hhalf
    · rw [readsBack_of_near hrank hbelow habove (by omega) (by omega)] at hnot'
      exact absurd hnot' (by simp)
    · rw [readsBack_of_near hrank hbelow habove (by omega) (by omega)] at hnot
      exact absurd hnot (by simp)

theorem pow_digitCount_le {n : Nat} (hn : 0 < n) : 10 ^ (digitCount n - 1) ≤ n := by
  rcases Nat.lt_or_ge 1 (digitCount n) with h | h
  · refine Nat.not_lt.mp fun hlt => ?_
    have hle := (Nat.length_toDigits_le_iff (b := 10) (by decide) (by omega)).mpr hlt
    rw [digitCount] at h hle
    omega
  · rw [Nat.sub_eq_zero_of_le h]
    exact hn

/-- The leading digit of a magnitude stands where the grids are laid out from. -/
theorem exists_leadingExponent {rank : Nat} (hrank : 0 < rank) :
    ∃ d k : Nat, leadingExponent rank = (d : Int) - k ∧ unit * 10 ^ d ≤ units rank * 10 ^ k := by
  obtain ⟨k, hk, hone⟩ : ∃ k, k = 350 ∧ unit ≤ 10 ^ k := ⟨350, rfl, by decide +kernel⟩
  have hunits := units_pos hrank
  rw [leadingExponent, ← hk, Nat.pow_eq]
  have hn : 0 < units rank * 10 ^ k / unit :=
    Nat.div_pos (Nat.le_trans hone (Nat.le_mul_of_pos_left _ hunits)) unit_pos
  have hmul : unit * (units rank * 10 ^ k / unit) ≤ units rank * 10 ^ k := Nat.mul_div_le _ _
  generalize units rank * 10 ^ k / unit = n at hn hmul ⊢
  have hlength : 0 < digitCount n := List.length_pos_iff.mpr Nat.toDigits_ne_nil
  exact ⟨digitCount n - 1, k, by omega,
    Nat.le_trans (Nat.mul_le_mul_left unit (pow_digitCount_le hn)) hmul⟩

/-- Sixteen places below the leading digit, a step is at most 10⁻¹⁶ of the magnitude. -/
theorem step_le {u v d k : Nat} {e : Int} (h : u * 10 ^ d ≤ v * 10 ^ k)
    (he : e = -((k + 16 : Nat) : Int) + d) :
    u * (stepsPerOne e).2 * 10 ^ 16 ≤ v * (stepsPerOne e).1 := by
  have hsteps := stepsPerOne_add (-((k + 16 : Nat) : Int)) d
  rw [← he, stepsPerOne_neg_natCast, Nat.mul_one] at hsteps
  refine Nat.le_of_mul_le_mul_left ?_ (Nat.pow_pos (a := 10) (n := k) (by decide))
  calc 10 ^ k * (u * (stepsPerOne e).2 * 10 ^ 16)
      = u * ((stepsPerOne e).2 * 10 ^ (k + 16)) := by rw [Nat.pow_add]; ring
    _ = u * 10 ^ d * (stepsPerOne e).1 := by rw [← hsteps]; ring
    _ ≤ v * 10 ^ k * (stepsPerOne e).1 := Nat.mul_le_mul_right _ h
    _ = 10 ^ k * (v * (stepsPerOne e).1) := by ring

theorem exists_withDigits_seventeen {rank : Nat} (hrank : 0 < rank) :
    (withDigits? rank 17).isSome = true := by
  obtain ⟨d, k, hleading, hd⟩ := exists_leadingExponent hrank
  obtain ⟨point, hpoint⟩ := exists_onGrid (e := leadingExponent rank + 1 - (17 : Nat)) hrank
    (step_le hd (by omega))
  rw [withDigits?, hpoint]
  rfl

/-- **The shortest decimal reads back.** -/
theorem ofDecimal_shortest (negative : Bool) {rank : Nat} (hrank : 0 < rank)
    (hbounded : rank ≤ top) :
    ofDecimal negative (shortest rank) = .number negative rank hbounded ∧
      (shortest rank).digits ≠ 0 := by
  have hsome : ((List.range 17).findSome? fun i => withDigits? rank (i + 1)).isSome = true :=
    List.findSome?_isSome_iff.mpr
      ⟨16, List.mem_range.mpr (by decide), exists_withDigits_seventeen hrank⟩
  obtain ⟨d, hd⟩ := Option.isSome_iff_exists.mp hsome
  obtain ⟨i, -, hi⟩ := List.exists_of_findSome?_eq_some hd
  rw [shortest, hd]
  exact ofDecimal_withDigits negative hrank hbounded hi

end Binary64

end Curriculum
