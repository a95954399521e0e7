import Curriculum.Proofs.Binary64.Rounding

/-!
# Numbers as floating-point numbers

A number of a document is compared exactly and used as the floating-point number nearest to it. The
two agree: a finite number has a signed rank, which is that of its exact place rounded once
(`position?_eq_signedRank`), and rounding keeps the order (`le_of_toBinary64?`). An integer has a
nearest finite number exactly when it is below a bound that lies in the middle between the largest
finite number and the next power of two (`ofInt_isFinite_iff`).
-/

namespace Curriculum

namespace Binary64

theorem units_zero : units 0 = 0 := units_of_lt binade_pos

theorem units_pos {r : Nat} (h : 0 < r) : 0 < units r := by
  have := units_strictMono h
  omega

/-! ## Signed ranks -/

/-- The signed rank nearest to a signed number of units. -/
def signedRank (u : Int) : Int :=
  if u < 0 then -(nearestRank u.natAbs 1 : Int) else nearestRank u.natAbs 1

theorem nearestRank_one_mono {a b : Nat} (h : a ≤ b) : nearestRank a 1 ≤ nearestRank b 1 :=
  nearestRank_mono Nat.one_pos Nat.one_pos (by omega)

theorem nearestRank_units_one (r : Nat) : nearestRank (units r) 1 = r := by
  have h := nearestRank_units (r := r) Nat.one_pos
  rwa [Nat.one_mul] at h

theorem signedRank_mono {u v : Int} (h : u ≤ v) : signedRank u ≤ signedRank v := by
  unfold signedRank
  split
  · split
    · have := nearestRank_one_mono (show v.natAbs ≤ u.natAbs by omega)
      omega
    · omega
  · have hle := nearestRank_one_mono (show u.natAbs ≤ v.natAbs by omega)
    split <;> omega

theorem signedRank_units (negative : Bool) (r : Nat) :
    signedRank (if negative then -(units r : Int) else units r)
      = if negative then -(r : Int) else r := by
  unfold signedRank
  cases negative with
  | false =>
    rw [if_neg (by simp), if_neg (by simp), if_neg (by simp), Int.natAbs_natCast,
      nearestRank_units_one]
  | true =>
    simp only [if_true, Int.natAbs_neg, Int.natAbs_natCast, nearestRank_units_one]
    split
    · rfl
    · next hnot =>
      -- only zero is not negative
      have hzero : r = 0 := by
        rcases Nat.eq_zero_or_pos r with h | h
        · exact h
        · have := units_pos h
          omega
      rw [hzero]
      rfl

theorem signedRank_pos {u : Int} (h : 0 < u) : 0 < signedRank u := by
  have hone : signedRank (units 1 : Int) = 1 := signedRank_units false 1
  have hle : (units 1 : Int) ≤ u := by
    rw [units_of_lt (by decide)]
    exact h
  have := signedRank_mono hle
  omega

/-! ## Numbers without a sign -/

/-- A number without a sign: it is not below zero, nor the zero that has a sign. -/
def IsUnsigned (x : Binary64) : Prop := ∃ rank bounded, x = .number false rank bounded

theorem IsUnsigned.ne_nan {x : Binary64} (h : x.IsUnsigned) : x ≠ .nan := by
  obtain ⟨rank, bounded, rfl⟩ := h
  exact Binary64.noConfusion

/-- Two numbers without a sign that are at most each other are the same; the two zeros are not. -/
theorem IsUnsigned.eq_of_le_of_le {x y : Binary64} (hx : x.IsUnsigned) (hy : y.IsUnsigned)
    (hxy : x.le y = true) (hyx : y.le x = true) : x = y := by
  obtain ⟨a, ha, rfl⟩ := hx
  obtain ⟨b, hb, rfl⟩ := hy
  have hab : (a : Int) ≤ b := of_decide_eq_true hxy
  have hba : (b : Int) ≤ a := of_decide_eq_true hyx
  obtain rfl : a = b := by omega
  rfl

/-! ## Integers -/

theorem ofInt_eq (n : Int) :
    ofInt n = ofRank (decide (n < 0)) (nearestRank (n.natAbs * unit) 1) := rfl

theorem position?_ofInt {n : Int} (h : (ofInt n).isFinite = true) :
    (ofInt n).position? = some (signedRank (n * unit)) := by
  have hunit := unit_pos
  have hneg : n * (unit : Int) < 0 ↔ n < 0 := by
    constructor
    · intro hlt
      by_contra hge
      exact absurd hlt (Int.not_lt.mpr (Int.mul_nonneg (by omega) (by omega)))
    · intro hlt
      exact Int.mul_neg_of_neg_of_pos hlt (by omega)
  rw [ofInt_eq] at h ⊢
  simp only [ofRank, isFinite, decide_eq_true_eq] at h
  have hmin : min (nearestRank (n.natAbs * unit) 1) top = nearestRank (n.natAbs * unit) 1 := by
    omega
  simp only [ofRank, position?, hmin, signedRank, hneg, Int.natAbs_mul, Int.natAbs_natCast,
    decide_eq_true_eq]

/-- Integers below this are nearest to a finite number: half a step more than the largest one. -/
def integerBound : Nat := Nat.pow 2 1024 - Nat.pow 2 970

theorem units_below_top : units (top - 1) + units top = 2 * (integerBound * unit) := by
  decide +kernel

theorem ofInt_isFinite_iff (n : Int) : (ofInt n).isFinite = true ↔ n.natAbs < integerBound := by
  have hunit := unit_pos
  have htop : top - 1 + 1 = top := by decide
  have hodd : ¬ (top - 1) % 2 = 0 := by decide
  have hle : nearestRank (n.natAbs * unit) 1 < top ↔ nearestRank (n.natAbs * unit) 1 ≤ top - 1 := by
    omega
  have hfinite : (ofInt n).isFinite = true ↔ nearestRank (n.natAbs * unit) 1 < top := by
    rw [ofInt_eq, ofRank, isFinite, decide_eq_true_eq]
    omega
  rw [hfinite, hle, nearestRank_le_iff Nat.one_pos, htop, units_below_top, Nat.one_mul,
    or_iff_left (fun h => hodd h.1), Nat.mul_lt_mul_left (by decide)]
  exact Nat.mul_lt_mul_right hunit

/-- A count stands for the number nearest to it, if that is finite. -/
theorem ofCount_eq_ofInt {n : Nat} (hcount : n < integerBound) : ofCount n = ofInt n := by
  have hfinite := (ofInt_isFinite_iff n).mpr (by rwa [Int.natAbs_natCast])
  rw [ofInt_eq, ofRank, isFinite, decide_eq_true_eq, Int.natAbs_natCast] at hfinite
  have hmin : min (nearestRank (n * unit) 1) (top - 1) = nearestRank (n * unit) 1 := by omega
  have hsign : decide ((n : Int) < 0) = false := decide_eq_false (by omega)
  rw [ofCount, hmin, ofInt_eq, hsign, Int.natAbs_natCast]

end Binary64

namespace Number

open Binary64

/-- A number that is neither infinite nor not a number. An integer counts as finite only if it is
nearest to a finite floating-point number. -/
def IsFinite : Number → Prop
  | .int n => n.natAbs < integerBound
  | .float x => x.isFinite = true

theorem toBinary64?_int {n : Int} {x : Binary64} :
    (int n).toBinary64? = some x ↔ (ofInt n).isFinite = true ∧ ofInt n = x := by
  rw [toBinary64?, ofInt?]
  split
  · next h => simp [h]
  · next h => simp [h]

/-- The finite numbers are those that have a nearest finite floating-point number. -/
theorem isFinite_iff {n : Number} :
    n.IsFinite ↔ ∃ x, n.toBinary64? = some x ∧ x.isFinite = true := by
  cases n with
  | float x => simp [IsFinite, toBinary64?]
  | int n =>
    rw [IsFinite, ← ofInt_isFinite_iff]
    constructor
    · intro h
      exact ⟨_, toBinary64?_int.mpr ⟨h, rfl⟩, h⟩
    · rintro ⟨x, hx, -⟩
      exact (toBinary64?_int.mp hx).1

theorem place?_float_of_finite {negative : Bool} {rank : Nat} {bounded : rank ≤ top}
    (h : rank ≠ top) : (float (.number negative rank bounded)).place?
      = some (.finite (if negative then -(units rank : Int) else units rank)) := by
  simp only [place?, if_neg h]

/-- What the place of a number says about the position of the nearest floating-point number. -/
theorem position?_of_place? {n : Number} {x : Binary64} {p : Place} (hx : n.toBinary64? = some x)
    (hp : n.place? = some p) : x.position? = some (match p with
      | .belowAll => -(top : Int)
      | .finite u => signedRank u
      | .aboveAll => top) := by
  cases n with
  | int n =>
    obtain ⟨hfinite, rfl⟩ := toBinary64?_int.mp hx
    obtain rfl := Option.some.inj hp
    exact position?_ofInt hfinite
  | float y =>
    obtain rfl := Option.some.inj hx
    cases y with
    | nan => exact absurd hp (by simp [place?])
    | number negative rank bounded =>
      by_cases htop : rank = top
      · subst htop
        simp only [place?, if_true, Option.some.injEq] at hp
        subst hp
        cases negative <;> rfl
      · rw [place?_float_of_finite htop] at hp
        obtain rfl := Option.some.inj hp
        exact congrArg some (signedRank_units negative rank).symm

theorem signedRank_bounds {n : Number} {x : Binary64} {u : Int} (hx : n.toBinary64? = some x)
    (hu : n.place? = some (.finite u)) : -(top : Int) ≤ signedRank u ∧ signedRank u ≤ top := by
  have hpos := position?_of_place? hx hu
  cases x with
  | nan => exact absurd hpos (by simp [position?])
  | number negative rank bounded =>
    have hrank := Option.some.inj hpos
    dsimp only at hrank
    rw [← hrank]
    split <;> omega

/-- **Rounding keeps the order.** -/
theorem le_of_toBinary64? {n m : Number} {x y : Binary64} (hx : n.toBinary64? = some x)
    (hy : m.toBinary64? = some y) (h : n.le m = true) : x.le y = true := by
  obtain ⟨p, q, hp, hq, hpq⟩ := le_iff.mp h
  have htop : (0 : Int) ≤ top := Int.natCast_nonneg _
  rw [Binary64.le, position?_of_place? hx hp, position?_of_place? hy hq]
  refine decide_eq_true ?_
  cases p with
  | belowAll =>
    cases q with
    | finite v => exact (signedRank_bounds hy hq).1
    | _ => dsimp only; omega
  | finite u =>
    cases q with
    | belowAll => exact absurd hpq (by simp [Place.le])
    | finite v => exact signedRank_mono (by simpa [Place.le] using hpq)
    | aboveAll => exact (signedRank_bounds hx hp).2
  | aboveAll =>
    cases q with
    | aboveAll => exact Int.le_refl _
    | _ => exact absurd hpq (by simp [Place.le])

theorem place?_zero : (int 0).place? = some (.finite 0) := by
  rw [place?, Int.zero_mul]

/-- A number greater than zero stays so when it is rounded, however small it is. -/
theorem zero_lt_of_toBinary64? {n : Number} {x : Binary64} (hx : n.toBinary64? = some x)
    (h : (int 0).lt n = true) : (Binary64.zero false).lt x = true := by
  have hposition : (Binary64.zero false).position? = some 0 := rfl
  rw [lt, place?_zero] at h
  cases hp : n.place? with
  | none => exact absurd h (by simp [hp])
  | some p =>
    rw [hp] at h
    rw [Binary64.lt, hposition, position?_of_place? hx hp]
    refine decide_eq_true ?_
    cases p with
    | belowAll => exact absurd h (by simp [Place.le])
    | finite u => exact signedRank_pos (by simpa [Place.le] using h)
    | aboveAll => exact Int.natCast_pos.mpr (by decide)

/-! ## Floating-point numbers among all numbers -/

theorem place?_int_zero : (int 0).place? = (float (.zero false)).place? := by
  have hrank : (0 : Nat) ≠ top := by decide
  rw [Binary64.zero, ofRank, place?_float_of_finite (by rwa [Nat.zero_min]), Nat.zero_min,
    units_zero, place?_zero]
  rfl

theorem nearestRank_hundred : nearestRank (100 * unit) 1 = 1029 * binade + 2533274790395904 := by
  decide +kernel

theorem units_hundred : units (1029 * binade + 2533274790395904) = 100 * unit := by
  decide +kernel

theorem place?_int_hundred : (int 100).place? = (float (.ofNat 100)).place? := by
  have hmin : min (1029 * binade + 2533274790395904) top
      = 1029 * binade + 2533274790395904 := by decide
  have hrank : 1029 * binade + 2533274790395904 ≠ top := by decide
  have hnear : min (nearestRank (100 * unit) 1) top = 1029 * binade + 2533274790395904 := by
    rw [nearestRank_hundred, hmin]
  rw [ofNat, ofRatio, ofRank, place?_float_of_finite (by rwa [hnear]), hnear, units_hundred, place?,
    if_neg (by decide), Int.natCast_mul]
  rfl

/-- Signed magnitudes rise with signed ranks. -/
theorem signed_units_le {s t : Bool} {a b : Nat}
    (h : (if s then -(a : Int) else a) ≤ if t then -(b : Int) else b) :
    (if s then -(units a : Int) else units a) ≤ if t then -(units b : Int) else units b := by
  have hmono : ∀ {c d : Nat}, c ≤ d → (units c : Int) ≤ units d := fun hcd =>
    Int.ofNat_le.mpr (units_le_units_iff.mpr hcd)
  cases s with
  | false =>
    cases t with
    | false => exact hmono (Int.ofNat_le.mp h)
    | true =>
      -- both are zero
      have ha : a = 0 := by simp at h; omega
      have hb : b = 0 := by simp at h; omega
      rw [ha, hb, units_zero]
      exact Int.le_refl _
  | true =>
    cases t with
    | false =>
      simp
    | true =>
      have hba : b ≤ a := by simp at h; omega
      have := hmono hba
      simp
      omega

/-- Between floating-point numbers the exact order is that of their positions. -/
theorem le_float_float {x y : Binary64} (h : x.le y = true) : (float x).le (float y) = true := by
  cases x with
  | nan => exact absurd h (by simp [Binary64.le, position?])
  | number s a ha =>
    cases y with
    | nan => exact absurd h (by simp [Binary64.le, position?])
    | number t b hb =>
      have hab : (if s then -(a : Int) else a) ≤ if t then -(b : Int) else b := by
        simpa [Binary64.le, position?] using h
      have htop : 0 < top := by decide
      by_cases hat : a = top
      · cases s with
        | true =>
          obtain ⟨q, hq⟩ := Option.isSome_iff_exists.mp
            (isNumber_float (x := .number t b hb) Binary64.noConfusion)
          exact le_iff.mpr ⟨.belowAll, q, by simp [place?, hat], hq, by cases q <;> rfl⟩
        | false =>
          -- nothing but infinity is at least infinity
          have hbt : b = top ∧ t = false := by cases t <;> simp at hab <;> simp <;> omega
          simp [le, place?, hat, hbt.1, hbt.2, Place.le]
      · by_cases hbt : b = top
        · cases t with
          | false => simp [le, place?, hat, hbt, Place.le]
          | true => simp [hbt] at hab; split at hab <;> omega
        · rw [le_iff]
          exact ⟨_, _, place?_float_of_finite hat, place?_float_of_finite hbt,
            decide_eq_true (signed_units_le hab)⟩

/-! ## Bounds -/

theorem toBinary64?_hundred : (int 100).toBinary64? = some (.ofNat 100) :=
  toBinary64?_int.mpr ⟨(ofInt_isFinite_iff 100).mpr (by decide +kernel), rfl⟩

theorem toBinary64?_zero : (int 0).toBinary64? = some (.zero false) :=
  toBinary64?_int.mpr ⟨(ofInt_isFinite_iff 0).mpr (by decide +kernel), by decide +kernel⟩

/-- What lies between zero and a finite number is finite. -/
theorem isFinite_of_le {x y : Binary64} (hy : y.isFinite = true)
    (hlow : (Binary64.zero false).le x = true) (hhigh : x.le y = true) : x.isFinite = true := by
  have htop : 0 < top := by decide
  cases x with
  | nan => exact absurd hhigh (by simp [Binary64.le, position?])
  | number s a ha =>
    cases y with
    | nan => exact absurd hhigh (by simp [Binary64.le, position?])
    | number t b hb =>
      have hzero : (0 : Int) ≤ if s = true then -(a : Int) else a := of_decide_eq_true hlow
      have hle : (if s = true then -(a : Int) else a) ≤ if t = true then -(b : Int) else b :=
        of_decide_eq_true hhigh
      have hb : b < top := of_decide_eq_true hy
      refine decide_eq_true ?_
      split at hzero
      · omega
      · next hs =>
        rw [if_neg hs] at hle
        split at hle <;> omega

theorem float_le_hundred {x : Binary64} (h : x.le (.ofNat 100) = true) :
    (float x).le (int 100) = true := by
  have hle := le_float_float h
  rwa [le, ← place?_int_hundred, ← le] at hle

theorem zero_le_float {x : Binary64} (h : (Binary64.zero false).le x = true) :
    (int 0).le (float x) = true := by
  have hle := le_float_float h
  rwa [le, ← place?_int_zero, ← le] at hle

theorem zero_lt_float {x : Binary64} (h : (Binary64.zero false).lt x = true) :
    (int 0).lt (float x) = true := by
  have hnan : x ≠ .nan := by
    rintro rfl
    exact absurd h (by simp [Binary64.lt, position?])
  obtain ⟨q, hq⟩ := Option.isSome_iff_exists.mp (isNumber_float hnan)
  -- were it at most zero, so would be its nearest floating-point number
  have hnot : ¬ (float x).le (int 0) = true := by
    intro hle
    have hle' := le_of_toBinary64? rfl toBinary64?_zero hle
    rw [Binary64.lt] at h
    rw [Binary64.le] at hle'
    split at h
    · next a b ha hb =>
      rw [ha, hb] at hle'
      simp at h hle'
      omega
    · exact absurd h (by simp)
  rw [le, hq, place?_zero] at hnot
  rw [lt, hq, place?_zero]
  simpa using hnot

end Number

end Curriculum
