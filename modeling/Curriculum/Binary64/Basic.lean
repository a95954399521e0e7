/-!
# Binary floating-point numbers of 64 bits

The non-negative numbers of the binary64 format, infinity included, are ordered without gaps: the
smallest is 0, the next is 2⁻¹⁰⁷⁴, and so on up to infinity. A magnitude is therefore held as its
*rank* in that order, and comparing two numbers is comparing two ranks. Every finite magnitude is a
whole number of units of 2⁻¹⁰⁷⁴ (`units`), so all arithmetic here is exact arithmetic on `Nat`
followed by one rounding (`nearestRank`): to the nearest number, a tie to the even rank.

A binade holds 2⁵² ranks. In the lowest one the step is one unit; each later one doubles the step.
Infinity stands where the number 2¹⁰²⁴ would stand, so rounding reaches it by the same rule as any
other rank.
-/

namespace Curriculum

namespace Binary64

/-- How many ranks share one step. -/
def binade : Nat := Nat.pow 2 52

/-- The rank of infinity. -/
def top : Nat := 2047 * binade

/-- How many units make one. -/
def unit : Nat := Nat.pow 2 1074

/-- The magnitude of a rank, in units. -/
def units (rank : Nat) : Nat :=
  if rank < binade then rank else (binade + rank % binade) * Nat.pow 2 (rank / binade - 1)

/-- The whole number nearest to a quotient; of two equally near ones the even one. -/
def roundDiv (num den : Nat) : Nat :=
  let q := num / den
  let r := num % den
  if 2 * r < den then q else if den < 2 * r then q + 1 else q + q % 2

/-- The rank whose magnitude is nearest to `num / den` units; of two equally near ones the even
rank. The step at that size is 2 to the power `shift`. -/
def nearestRank (num den : Nat) : Nat :=
  let shift := (num / den).log2 - 52
  shift * binade + roundDiv num (den * Nat.pow 2 shift)

end Binary64

/-- A binary floating-point number of 64 bits: not a number, or a sign and the rank of a
magnitude. -/
inductive Binary64 where
  | nan
  | number (negative : Bool) (rank : Nat) (bounded : rank ≤ Binary64.top)
  deriving DecidableEq

namespace Binary64

/-- The number of a sign and a rank; ranks beyond infinity are infinity. -/
def ofRank (negative : Bool) (rank : Nat) : Binary64 :=
  .number negative (min rank top) (Nat.min_le_right _ _)

/-- Zero, of either sign. -/
def zero (negative : Bool) : Binary64 := ofRank negative 0

/-- Infinity, of either sign. -/
def infinity (negative : Bool) : Binary64 := ofRank negative top

instance : Inhabited Binary64 := ⟨zero false⟩

/-- The number nearest to the quotient of two whole numbers. -/
def ofRatio (negative : Bool) (num den : Nat) : Binary64 :=
  ofRank negative (nearestRank (num * unit) den)

/-- The number nearest to a whole number. -/
def ofNat (n : Nat) : Binary64 := ofRatio false n 1

/-- The number nearest to a count. Nothing is so numerous that its count lies beyond the finite
numbers; such a count stands for the largest of them. -/
def ofCount (n : Nat) : Binary64 :=
  ofRank false (min (nearestRank (n * unit) 1) (top - 1))

/-- The number nearest to an integer. -/
def ofInt (n : Int) : Binary64 := ofRatio (decide (n < 0)) n.natAbs 1

/-- Whether a number is neither infinite nor not a number. -/
def isFinite : Binary64 → Bool
  | .nan => false
  | .number _ rank _ => decide (rank < top)

/-- The number nearest to an integer, unless the integer is beyond the range of finite numbers. -/
def ofInt? (n : Int) : Option Binary64 :=
  if (ofInt n).isFinite then some (ofInt n) else none

/-! ## Order -/

/-- Where a number stands in the order of all numbers; both zeros stand at 0. -/
def position? : Binary64 → Option Int
  | .nan => none
  | .number negative rank _ => some (if negative then -(rank : Int) else rank)

/-- Whether one number is at most another; nothing is at most or at least what is not a number. -/
def le (x y : Binary64) : Bool :=
  match x.position?, y.position? with
  | some a, some b => decide (a ≤ b)
  | _, _ => false

/-- Whether one number is less than another. -/
def lt (x y : Binary64) : Bool :=
  match x.position?, y.position? with
  | some a, some b => decide (a < b)
  | _, _ => false

/-- Whether a number is zero, of either sign. -/
def isZero (x : Binary64) : Bool := x.position? = some 0

/-! ## Arithmetic -/

/-- The product: exact, then rounded once. Zero times infinity is not a number. -/
def mul : Binary64 → Binary64 → Binary64
  | .number s a _, .number t b _ =>
    let negative := s != t
    if a = top ∨ b = top then
      if a = 0 ∨ b = 0 then .nan else infinity negative
    else
      ofRank negative (nearestRank (units a * units b) unit)
  | _, _ => .nan

/-- The quotient by a number other than zero: exact, then rounded once. Infinity over infinity is
not a number. -/
def div : Binary64 → Binary64 → Binary64
  | .number s a _, .number t b _ =>
    let negative := s != t
    if a = top then
      if b = top then .nan else infinity negative
    else if b = top then
      zero negative
    else
      ofRank negative (nearestRank (units a * unit) (units b))
  | _, _ => .nan

/-- The quotient of two whole numbers, the second not zero. -/
def ofQuotient (part whole : Nat) : Binary64 := ofRatio false part whole

/-- Whether a number is a whole number. -/
def isWhole : Binary64 → Bool
  | .nan => false
  | .number _ rank _ => decide (rank < top) && units rank % unit == 0

/-- The whole number below the magnitude of a finite number, with the sign of the number. -/
def truncate : Binary64 → Int
  | .nan => 0
  | .number negative rank _ =>
    let n : Int := units rank / unit
    if negative then -n else n

/-! ## Small facts -/

/-- Within the lowest binade a rank is its own number of units. -/
theorem units_of_lt {rank : Nat} (h : rank < binade) : units rank = rank := by
  simp [units, h]

end Binary64

end Curriculum
