/-!
# Lines

A text of several lines is its lines joined by line feeds.
-/

namespace Curriculum

namespace Text

/-- Lines joined by line feeds. -/
def joinLines (lines : List String) : String :=
  "\n".intercalate lines

/-- A number of spaces; none for a number below one. -/
def spaces (n : Int) : String :=
  String.ofList (List.replicate n.toNat ' ')

/-- A text with spaces after it, up to a width. -/
def padEnd (width : Nat) (s : String) : String :=
  s ++ spaces (width - s.length)

/-- A text with spaces before it, up to a width. -/
def padStart (width : Nat) (s : String) : String :=
  spaces (width - s.length) ++ s

/-- The first characters of a text, with three dots if some were left out. -/
def shorten (limit : Nat) (s : String) : String :=
  if limit < s.length then String.ofList (s.toList.take limit) ++ "..." else s

end Text

end Curriculum
