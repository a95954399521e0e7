import Curriculum.Text.Printable

/-!
# Quoted text

How a text is shown inside a message: between quotation marks, with a backslash before the mark
and before a backslash, with short escapes for line feed, return and tab, and with the code in
hexadecimal digits for every other character that is not printable.
-/

namespace Curriculum

namespace Text

/-- The single quotation mark. -/
def apostrophe : Char := Char.ofNat 39

/-- The last `width` hexadecimal digits of a number. -/
def hexDigits (width n : Nat) : List Char :=
  let ds := Nat.toDigits 16 n
  List.replicate (width - ds.length) '0' ++ ds

/-- A character inside a text quoted with `mark`. -/
def quoteChar (mark c : Char) : List Char :=
  if c = mark ∨ c = '\\' then ['\\', c]
  else if c = '\n' then ['\\', 'n']
  else if c = '\r' then ['\\', 'r']
  else if c = '\t' then ['\\', 't']
  else if isPrintable c then [c]
  else if c.toNat ≤ 0xFF then '\\' :: 'x' :: hexDigits 2 c.toNat
  else if c.toNat ≤ 0xFFFF then '\\' :: 'u' :: hexDigits 4 c.toNat
  else '\\' :: 'U' :: hexDigits 8 c.toNat

/-- The mark that a text is quoted with: single, unless only the single mark occurs in it. -/
def quoteMark (s : String) : Char :=
  if apostrophe ∈ s.toList ∧ '"' ∉ s.toList then '"' else apostrophe

/-- A text between quotation marks. -/
def quoted (s : String) : String :=
  let mark := quoteMark s
  String.ofList (mark :: (s.toList.flatMap (quoteChar mark) ++ [mark]))

end Text

end Curriculum
