import Curriculum.Binary64.Decimal

/-!
# The text of a number

A number is written with the fewest digits that read back, positionally if its leading digit
stands between 10⁻⁴ and 10¹⁵ and with an exponent otherwise; there is always a digit after a
decimal point that stands without exponent. `fixed` writes a given number of places instead.

Numerals are taken apart into their digits first (`Numeral.split?`), so that a strict and a lenient
reader share one notion of a numeral.
-/

namespace Curriculum

/-- Where a decimal is written positionally and how its exponent is written otherwise. -/
structure DecimalLayout where
  /-- The least leading exponent that is written positionally. -/
  positionalFrom : Int
  /-- The least leading exponent beyond that is written with an exponent again. -/
  positionalBelow : Int
  /-- The mark before the exponent. -/
  mark : Char
  /-- The least number of digits of the exponent. -/
  exponentDigits : Nat

/-- Amounts and weights are positional from 0.0001 up to sixteen digits before the point. -/
def amountLayout : DecimalLayout := ⟨-4, 16, 'e', 2⟩

/-- The decimal digits of a whole number. -/
def digitsOf (n : Nat) : List Char := Nat.toDigits 10 n

namespace DecimalLayout

/-- An exponent with its sign and at least the least number of digits. -/
def exponentText (l : DecimalLayout) (e : Int) : List Char :=
  let ds := digitsOf e.natAbs
  l.mark :: (if e < 0 then '-' else '+')
    :: (List.replicate (l.exponentDigits - ds.length) '0' ++ ds)

/-- A decimal in this layout. -/
def write (l : DecimalLayout) (d : Decimal) : List Char :=
  let ds := digitsOf d.digits
  let leading : Int := d.exponent + ds.length - 1
  if leading < l.positionalFrom ∨ l.positionalBelow ≤ leading then
    match ds with
    | first :: [] => first :: l.exponentText leading
    | first :: rest => first :: '.' :: (rest ++ l.exponentText leading)
    | [] => []
  else if leading < 0 then
    '0' :: '.' :: (List.replicate (leading.natAbs - 1) '0' ++ ds)
  else
    let whole := leading.toNat + 1
    if ds.length ≤ whole then
      ds ++ List.replicate (whole - ds.length) '0' ++ ['.', '0']
    else
      ds.take whole ++ '.' :: ds.drop whole

end DecimalLayout

namespace Binary64

/-- The sign of a number, as it is written. -/
def signText (negative : Bool) : List Char :=
  if negative then ['-'] else []

/-- A finite magnitude with the fewest digits that read back. -/
def magnitudeText (rank : Nat) : List Char :=
  amountLayout.write (if rank = 0 then ⟨0, 0⟩ else shortest rank)

/-- A number with the fewest digits that read back. -/
def text : Binary64 → String
  | .nan => "nan"
  | .number negative rank _ =>
    String.ofList (signText negative
      ++ if rank = top then ['i', 'n', 'f'] else magnitudeText rank)

/-- A number with a fixed number of places. -/
def fixed (places : Nat) : Binary64 → String
  | .nan => "nan"
  | .number negative rank _ =>
    String.ofList (signText negative
      ++ if rank = top then ['i', 'n', 'f'] else
        let ds := digitsOf (stepsOf places rank)
        let padded := List.replicate (places + 1 - ds.length) '0' ++ ds
        let whole := padded.take (padded.length - places)
        if places = 0 then whole else whole ++ '.' :: padded.drop (padded.length - places))

end Binary64

/-! ## Numerals -/

/-- The digits of a numeral: before the point, after it, and those of a signed exponent. -/
structure Numeral where
  whole : List Char
  fraction : Option (List Char)
  exponent : Option (Bool × List Char)

namespace Numeral

/-- Take a leading sign off. -/
def splitSign : List Char → Bool × List Char
  | '-' :: cs => (true, cs)
  | '+' :: cs => (false, cs)
  | cs => (false, cs)

/-- The value of a list of decimal digits. -/
def digitsValue (ds : List Char) : Nat :=
  ds.foldl (fun n c => 10 * n + (c.toNat - '0'.toNat)) 0

/-- Take an unsigned numeral apart: digits, a point and digits, an exponent of at least one digit.
Which digits may be missing is left to the reader of the numeral. -/
def split? (cs : List Char) : Option Numeral :=
  let whole := cs.takeWhile Char.isDigit
  let rest := cs.dropWhile Char.isDigit
  let (fraction, rest) :=
    match rest with
    | '.' :: more => (some (more.takeWhile Char.isDigit), more.dropWhile Char.isDigit)
    | _ => (none, rest)
  match rest with
  | [] => some ⟨whole, fraction, none⟩
  | c :: more =>
    let (negative, ds) := splitSign more
    if (c = 'e' ∨ c = 'E') ∧ ds ≠ [] ∧ ds.all Char.isDigit then
      some ⟨whole, fraction, some (negative, ds)⟩
    else none

/-- The decimal that a numeral denotes. -/
def decimal (n : Numeral) : Decimal :=
  let fraction := n.fraction.getD []
  let exponent : Int :=
    match n.exponent with
    | some (negative, ds) => if negative then -(digitsValue ds : Int) else digitsValue ds
    | none => 0
  ⟨digitsValue (n.whole ++ fraction), exponent - fraction.length⟩

end Numeral

namespace Binary64

/-- The number that a text denotes: a sign if any, then infinity or not a number by name in any
case, or a numeral with at least one digit before or after its point. -/
def ofText? (cs : List Char) : Option Binary64 :=
  let (negative, rest) := Numeral.splitSign cs
  let name := String.ofList (rest.map Char.toLower)
  if name = "inf" ∨ name = "infinity" then some (infinity negative)
  else if name = "nan" then some .nan
  else
    match Numeral.split? rest with
    | some n =>
      if n.whole = [] ∧ n.fraction.getD [] = [] then none
      else some (ofDecimal negative n.decimal)
    | none => none

end Binary64

end Curriculum
