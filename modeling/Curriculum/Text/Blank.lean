/-!
# White space

Two classes of characters. `isWhite` is the Unicode property White_Space. `isBlank` adds the four
information separators U+001C to U+001F; it decides whether a text says anything, and where the
words of a course id end.
-/

namespace Curriculum

namespace Text

/-- The ranges of the property White_Space. -/
def whiteRanges : List (Nat × Nat) :=
  [(0x09, 0x0D), (0x20, 0x20), (0x85, 0x85), (0xA0, 0xA0), (0x1680, 0x1680), (0x2000, 0x200A),
   (0x2028, 0x2029), (0x202F, 0x202F), (0x205F, 0x205F), (0x3000, 0x3000)]

/-- Whether a character stands in one of the ranges. -/
def inRanges (ranges : List (Nat × Nat)) (c : Char) : Bool :=
  ranges.any fun r => decide (r.1 ≤ c.toNat ∧ c.toNat ≤ r.2)

/-- Whether a character has the property White_Space. -/
def isWhite (c : Char) : Bool := inRanges whiteRanges c

/-- Whether a character is white space or an information separator. -/
def isBlank (c : Char) : Bool :=
  isWhite c || decide (0x1C ≤ c.toNat ∧ c.toNat ≤ 0x1F)

/-- A text without the white space at its two ends. -/
def trim (cs : List Char) : List Char :=
  ((cs.dropWhile isWhite).reverse.dropWhile isWhite).reverse

/-- Whether a text has a character that is not blank. -/
def saysSomething (s : String) : Bool :=
  s.toList.any fun c => !isBlank c

/-- The first word of a text, words being parted by blanks. -/
def firstWord? (s : String) : Option String :=
  match s.toList.dropWhile isBlank with
  | [] => none
  | cs => some (String.ofList (cs.takeWhile fun c => !isBlank c))

end Text

end Curriculum
