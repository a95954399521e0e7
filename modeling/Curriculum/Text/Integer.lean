import Curriculum.Text.Blank

/-!
# Integers typed by a person

A whole number in a setting or on the command line may have white space around it, a sign,
leading zeros, single underscores between digits, and decimal digits of any script. It may have
only so many digits; they are counted before what follows them is looked at.
-/

namespace Curriculum

namespace Text

/-- The zeros of the scripts that have decimal digits; the other nine digits follow each zero. -/
def zeroDigits : List Nat :=
  [0x30, 0x660, 0x6F0, 0x7C0, 0x966, 0x9E6, 0xA66, 0xAE6, 0xB66, 0xBE6, 0xC66, 0xCE6, 0xD66,
   0xDE6, 0xE50, 0xED0, 0xF20, 0x1040, 0x1090, 0x17E0, 0x1810, 0x1946, 0x19D0, 0x1A80, 0x1A90,
   0x1B50, 0x1BB0, 0x1C40, 0x1C50, 0xA620, 0xA8D0, 0xA900, 0xA9D0, 0xA9F0, 0xAA50, 0xABF0, 0xFF10,
   0x104A0, 0x10D30, 0x11066, 0x110F0, 0x11136, 0x111D0, 0x112F0, 0x11450, 0x114D0, 0x11650,
   0x116C0, 0x11730, 0x118E0, 0x11950, 0x11C50, 0x11D50, 0x11DA0, 0x16A60, 0x16AC0, 0x16B50,
   0x1D7CE, 0x1D7D8, 0x1D7E2, 0x1D7EC, 0x1D7F6, 0x1E140, 0x1E2F0, 0x1E950, 0x1FBF0]

/-- The value of a decimal digit of any script. -/
def digitValue? (c : Char) : Option Nat :=
  (zeroDigits.find? fun z => decide (z ≤ c.toNat ∧ c.toNat ≤ z + 9)).map fun z => c.toNat - z

/-- Whether the underscores of a text stand one by one between other characters. -/
def underscoresPart (cs : List Char) : Bool :=
  cs.head? ≠ some '_' && cs.getLast? ≠ some '_' &&
    !(cs.zip (cs.drop 1)).any fun p => p.1 = '_' && p.2 = '_'

/-- How many digits an integer may have. -/
def mostDigits : Nat := 4300

/-- Why a text denotes no integer. -/
inductive IntegerFault where
  | malformed
  | tooLong (digits : Nat)
  deriving DecidableEq, Repr

/-- The whole number that a text without a sign denotes. -/
def readNat (cs : List Char) : Except IntegerFault Nat :=
  let run := cs.takeWhile fun c => c = '_' || (digitValue? c).isSome
  let digits := run.filterMap digitValue?
  if !underscoresPart run then .error .malformed
  else if mostDigits < digits.length then .error (.tooLong digits.length)
  else if digits = [] ∨ run ≠ cs then .error .malformed
  else .ok (digits.foldl (fun n d => 10 * n + d) 0)

/-- The integer that a text denotes. -/
def readInteger (s : String) : Except IntegerFault Int :=
  match trim s.toList with
  | '-' :: cs => (readNat cs).map fun n => -(n : Int)
  | '+' :: cs => (readNat cs).map fun n => (n : Int)
  | cs => (readNat cs).map fun n => (n : Int)

/-- The integer that a text denotes, if it denotes one. -/
def integer? (s : String) : Option Int := (readInteger s).toOption

end Text

end Curriculum
