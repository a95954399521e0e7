import Curriculum.Json.Basic
import Curriculum.Text.Quoted

/-!
# Writing documents

A document is written with one item or field a line, indented by two spaces for each level; an
empty array is `[]` and an empty object is a pair of braces. Characters stand for themselves,
except quotation marks, backslashes and control characters. The three values that are no finite
number are written by name.
-/

namespace Curriculum

namespace Json

/-- A character inside a written text. -/
def escape (c : Char) : List Char :=
  if c = '"' then ['\\', '"']
  else if c = '\\' then ['\\', '\\']
  else if c = '\n' then ['\\', 'n']
  else if c = '\r' then ['\\', 'r']
  else if c = '\t' then ['\\', 't']
  else if c.toNat = 8 then ['\\', 'b']
  else if c.toNat = 12 then ['\\', 'f']
  else if c.toNat < 32 then '\\' :: 'u' :: Text.hexDigits 4 c.toNat
  else [c]

/-- A text in quotation marks. -/
def writeText (s : String) : List Char :=
  '"' :: (s.toList.flatMap escape ++ ['"'])

/-- A number; what is not finite is written by name. -/
def writeNumber : Number → List Char
  | .int n => (toString n).toList
  | .float .nan => ['N', 'a', 'N']
  | .float (.number negative rank _) =>
    Binary64.signText negative
      ++ if rank = Binary64.top then ['I', 'n', 'f', 'i', 'n', 'i', 't', 'y']
        else Binary64.magnitudeText rank

/-- The start of a line at a level. -/
def newLine (level : Nat) : List Char :=
  '\n' :: List.replicate (2 * level) ' '

mutual

/-- A document that starts at a level. -/
def write (level : Nat) : Json → List Char
  | .null => ['n', 'u', 'l', 'l']
  | .bool true => ['t', 'r', 'u', 'e']
  | .bool false => ['f', 'a', 'l', 's', 'e']
  | .number n => writeNumber n
  | .text s => writeText s
  | .array [] => ['[', ']']
  | .array (item :: rest) =>
    '[' :: (newLine (level + 1) ++ write (level + 1) item ++ writeItems (level + 1) rest
      ++ newLine level ++ [']'])
  | .object [] => ['{', '}']
  | .object ((name, value) :: rest) =>
    '{' :: (newLine (level + 1) ++ writeText name ++ ':' :: ' ' :: write (level + 1) value
      ++ writeFields (level + 1) rest ++ newLine level ++ ['}'])

/-- The items after the first, each after a comma and on a line of its own. -/
def writeItems (level : Nat) : List Json → List Char
  | [] => []
  | item :: rest => ',' :: (newLine level ++ write level item ++ writeItems level rest)

/-- The fields after the first, each after a comma and on a line of its own. -/
def writeFields (level : Nat) : List (String × Json) → List Char
  | [] => []
  | (name, value) :: rest =>
    ',' :: (newLine level ++ writeText name ++ ':' :: ' ' :: write level value
      ++ writeFields level rest)

end

/-- The written form of a document. -/
def render (j : Json) : String := String.ofList (write 0 j)

end Json

end Curriculum
