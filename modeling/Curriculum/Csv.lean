/-!
# Rows of fields, parted by commas

A field is written as it is unless it holds a comma, a quotation mark or a line feed; then it stands
in quotation marks, with the marks inside it doubled. Fields are parted by commas and each row ends
with a line feed.

Releases of the writer differ on the carriage return. To the earlier ones it is a character like any
other; the later ones take it for a line break, which puts its field in quotation marks. What is
written therefore depends on the release that is installed (`Release`).
-/

namespace Curriculum

namespace Csv

/-- The releases of the writer of rows. -/
inductive Release where
  /-- A carriage return may stand outside quotation marks. -/
  | earlier
  /-- A carriage return forces its field into quotation marks. -/
  | later
  deriving DecidableEq, Repr

/-- Whether a character forces its field into quotation marks. -/
def needsQuotes (release : Release) (c : Char) : Bool :=
  c = ',' || c = '"' || c = '\n' || (c = '\r' && release = .later)

/-- A character inside quotation marks. -/
def double (c : Char) : List Char :=
  if c = '"' then ['"', '"'] else [c]

/-- A field. -/
def field (release : Release) (s : String) : List Char :=
  let cs := s.toList
  if cs.any (needsQuotes release) then '"' :: (cs.flatMap double ++ ['"']) else cs

/-- The fields after the first. -/
def moreFields (release : Release) (fields : List String) : List Char :=
  fields.flatMap fun s => ',' :: field release s

/-- A row. -/
def row (release : Release) : List String → List Char
  | [] => ['\n']
  | s :: rest => field release s ++ moreFields release rest ++ ['\n']

/-- A table of rows. -/
def render (release : Release) (rows : List (List String)) : String :=
  String.ofList (rows.flatMap (row release))

end Csv

end Curriculum
