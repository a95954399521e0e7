import Curriculum.Binary64.Basic

/-!
# Decimals and binary numbers

How a decimal becomes a binary number and back. Reading rounds the exact value of the decimal once
(`ofDecimal`). Writing takes the fewest digits that read back (`shortest`): the reals that round to
a magnitude form an interval, and the first grid of 1, 2, … 17 digits that has a point in it is
used. If a grid has a point in the interval, one of the two grid points next to the magnitude is in
it, so only these two are tried.
-/

namespace Curriculum

/-- The decimal `digits * 10 ^ exponent`. -/
structure Decimal where
  digits : Nat
  exponent : Int
  deriving DecidableEq, Repr

namespace Binary64

/-! ## Reading -/

/-- The number nearest to a decimal. Exponents beyond any finite number are decided without
computing the power. -/
def ofDecimal (negative : Bool) (d : Decimal) : Binary64 :=
  if d.digits = 0 then zero negative
  else if 0 ≤ d.exponent then
    if 400 < d.exponent then infinity negative
    else ofRatio negative (d.digits * Nat.pow 10 d.exponent.toNat) 1
  else if d.digits.log2 + 1100 < d.exponent.natAbs then zero negative
  else ofRatio negative d.digits (Nat.pow 10 d.exponent.natAbs)

/-! ## The fewest digits that read back -/

/-- How many decimal digits a whole number has. -/
def digitCount (n : Nat) : Nat :=
  (Nat.toDigits 10 n).length

/-- The power of ten of the first digit of a magnitude other than zero. -/
def leadingExponent (rank : Nat) : Int :=
  (digitCount (units rank * Nat.pow 10 350 / unit) : Int) - 351

/-- The power of ten as a quotient of whole numbers, inverted: a magnitude is that many times as
many steps of a grid as it has ones. -/
def stepsPerOne (exponent : Int) : Nat × Nat :=
  if 0 ≤ exponent then (1, Nat.pow 10 exponent.toNat)
  else (Nat.pow 10 exponent.natAbs, 1)

/-- The two ends of the reals that round to a rank, in half units. -/
def roundingInterval (rank : Nat) : Nat × Nat :=
  (units (rank - 1) + units rank, units rank + units (rank + 1))

/-- Whether `point` steps of 10 to the power `exponent` round to the rank: strictly inside its
interval, or at an end if the rank is even. -/
def readsBack (rank : Nat) (exponent : Int) (point : Nat) : Bool :=
  let (a, b) := stepsPerOne exponent
  let (low, high) := roundingInterval rank
  let here := point * (2 * unit * b)
  if rank % 2 = 0 then decide (low * a ≤ here ∧ here ≤ high * a)
  else decide (low * a < here ∧ here < high * a)

/-- The point of the grid with steps of 10 to the power `exponent` that reads back as the rank, if
there is one: the nearer of the two next to the magnitude, or the even one when both are equally
near. -/
def onGrid? (rank : Nat) (exponent : Int) : Option Nat :=
  let (a, b) := stepsPerOne exponent
  let whole := units rank * a
  let step := unit * b
  let below := whole / step
  match readsBack rank exponent below, readsBack rank exponent (below + 1) with
  | true, true => some (roundDiv whole step)
  | true, false => some below
  | false, true => some (below + 1)
  | false, false => none

/-- The decimal of `count` digits that reads back as the rank, if there is one. -/
def withDigits? (rank count : Nat) : Option Decimal :=
  let exponent := leadingExponent rank + 1 - count
  (onGrid? rank exponent).map fun point =>
    if point = Nat.pow 10 count then ⟨1, exponent + count⟩ else ⟨point, exponent⟩

/-- The decimal with the fewest digits that reads back as a rank other than zero; seventeen always
suffice. -/
def shortest (rank : Nat) : Decimal :=
  ((List.range 17).findSome? fun i => withDigits? rank (i + 1)).getD ⟨0, 0⟩

/-! ## A fixed number of places -/

/-- The magnitude in steps of 10 to the power minus `places`, rounded to a whole number of steps,
a tie to the even one. -/
def stepsOf (places rank : Nat) : Nat :=
  roundDiv (units rank * Nat.pow 10 places) unit

/-- The number nearest to the decimal of `places` places nearest to a number. -/
def roundTo (places : Nat) : Binary64 → Binary64
  | .nan => .nan
  | .number negative rank bounded =>
    if rank = top then .number negative rank bounded
    else ofRatio negative (stepsOf places rank) (Nat.pow 10 places)

end Binary64

end Curriculum
