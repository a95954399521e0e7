import Curriculum.Reading.Basic
import Curriculum.Text.Integer

/-!
# Reading single values

Texts are taken as they are. Numbers and truth values are read leniently: a truth value counts as
the number 1 or 0, a text may spell a number, and a number or a text may spell a truth value.
-/

namespace Curriculum

namespace Reading

variable {α : Type}

/-- A text. -/
def text : Json → Reading String
  | .text s => .ok s
  | _ => fault .notText

/-- The number that a text spells. Underscores between the characters of a text are left out, but
only of a text that neither begins nor ends with one and has no two of them side by side; white
space around a number is left out only of a text without underscores. -/
def spelledNumber? (s : String) : Option Binary64 :=
  match Binary64.ofText? (Text.trim s.toList) with
  | some x => some x
  | none =>
    let cs := s.toList
    if '_' ∈ cs ∧ Text.underscoresPart cs then Binary64.ofText? (cs.filter (· ≠ '_')) else none

/-- The floating-point number nearest to an integer. An integer beyond the range of finite numbers
has none in a value and infinity in a text. -/
def nearest? (source : Source) (n : Int) : Option Binary64 :=
  match source with
  | .value => Binary64.ofInt? n
  | .text => some (Binary64.ofInt n)

/-- A floating-point number. -/
def number (source : Source) : Json → Reading Binary64
  | .number (.int n) => ofOption .notNumber (nearest? source n)
  | .number (.float x) => .ok x
  | .bool b => .ok (.ofNat b.toNat)
  | .text s => ofOption .unreadableNumber (spelledNumber? s)
  | _ => fault .notNumber

/-- The truth value that a text spells, in any case of its letters. -/
def spelledFlag? (s : String) : Option Bool :=
  let name := String.ofList (s.toList.map Char.toLower)
  if name ∈ ["1", "t", "true", "y", "yes", "on"] then some true
  else if name ∈ ["0", "f", "false", "n", "no", "off"] then some false
  else none

/-- The truth value that a whole number spells. -/
def wholeFlag (n : Int) : Reading Bool :=
  if n = 1 then .ok true else if n = 0 then .ok false else fault .unreadableFlag

/-- The range of integers of 64 bits: from its negative up to below it. -/
def wordRange : Int := 9223372036854775808

/-- Whether an integer is small enough to be looked at as a truth value: in a value it must be one
of 64 bits, in a text it may have 18 digits. -/
def isSmall (source : Source) (n : Int) : Bool :=
  match source with
  | .value => decide (-wordRange ≤ n ∧ n < wordRange)
  | .text => decide (n.natAbs < 1000000000000000000)

/-- A truth value. Numbers that are not whole or not small are not looked at. -/
def flag (source : Source) : Json → Reading Bool
  | .bool b => .ok b
  | .number (.int n) => if isSmall source n then wholeFlag n else fault .notFlag
  | .number (.float x) =>
    if x.isWhole ∧ x.truncate.natAbs < wordRange.natAbs then wholeFlag x.truncate
    else fault .notFlag
  | .text s => ofOption .unreadableFlag (spelledFlag? s)
  | _ => fault .notFlag

/-- A text that must be one of a set of names. -/
def named (ofName? : String → Option α) : Json → Reading α
  | .text s => ofOption .notAllowed (ofName? s)
  | _ => fault .notAllowed

end Reading

end Curriculum
