/-!
# Paths

A path is a row of names, counted from the folder that one stands in or from the root. Empty names
and single dots say nothing and are left out; two dots lead to the folder around. A path from the
root begins with one slash, or with exactly two, which is kept as a root of its own.
-/

namespace Curriculum

/-- A path. -/
structure Path where
  /-- How many slashes the path begins with: 0, 1 or 2. -/
  slashes : Nat
  names : List String
  deriving DecidableEq, Repr

namespace Path

/-- The names between the slashes of a text. -/
def split : List Char → List (List Char)
  | [] => [[]]
  | c :: cs =>
    match split cs with
    | [] => [[c]]
    | name :: names => if c = '/' then [] :: name :: names else (c :: name) :: names

/-- The path that a text denotes. -/
def ofText (s : String) : Path :=
  let cs := s.toList
  let leading := (cs.takeWhile (· = '/')).length
  { slashes := if leading ≤ 2 then leading else 1
    names := ((split cs).map String.ofList).filter fun name => name ≠ "" ∧ name ≠ "." }

/-- The path as text; the folder that one stands in is a single dot. -/
def text (p : Path) : String :=
  if p.slashes = 0 ∧ p.names = [] then "."
  else String.ofList (List.replicate p.slashes '/') ++ "/".intercalate p.names

/-- The path of a name inside a folder. -/
def child (p : Path) (name : String) : Path :=
  { p with names := p.names ++ [name] }

/-- The folder that a path lies in. -/
def parent (p : Path) : Path :=
  { p with names := p.names.dropLast }

end Path

end Curriculum
