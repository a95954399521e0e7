import Curriculum.Json.Token

/-!
# Reading documents

The tokens of a document are fed one by one to a state: the containers that are open, and what may
come next. A closed container becomes an item or a field of the container around it. A field that is
written twice keeps its first place and takes the later value.

The caller limits how deep containers may be nested and how long numbers may be (`Limits`). A
container counts when its first item or field begins, so an empty one never counts.
-/

namespace Curriculum

namespace Json

/-- What a text may hold. -/
structure Limits where
  /-- How many containers may be nested in each other. -/
  nesting : Nat
  /-- How many characters a number may have before its point, its sign included. -/
  wholePart : Nat

/-- A container that is still open. -/
inductive Open where
  /-- An array with the items read so far, in reverse. -/
  | array (done : List Json)
  /-- An object with the fields read so far and the name of the field being read. -/
  | object (done : Table String Json) (name : String)

/-- What may come next. -/
inductive Expected where
  /-- A value. -/
  | value
  /-- The first item of an array, or its end. -/
  | firstItem
  /-- The name of the first field of an object, or the end of the object. -/
  | firstField
  /-- The name of a further field. -/
  | field
  /-- The colon after the name of a field. -/
  | colon
  /-- A comma or the end of the innermost container. -/
  | next
  /-- Nothing more: this is the document. -/
  | nothing (document : Json)

/-- Give a finished value to the innermost open container. -/
def finish (value : Json) : List Open → List Open × Expected
  | [] => ([], .nothing value)
  | .array done :: outer => (.array (value :: done) :: outer, .next)
  | .object done name :: outer => (.object (Table.insert done name value) name :: outer, .next)

/-- Begin a value with a token. -/
def startValue? (outer : List Open) : Token → Option (List Open × Expected)
  | .word value => some (finish value outer)
  | .text s => some (finish (.text s) outer)
  | .openArray => some (.array [] :: outer, .firstItem)
  | .openObject => some (.object [] "" :: outer, .firstField)
  | _ => none

/-- Close the innermost container with a token. -/
def close? : List Open → Token → Option (List Open × Expected)
  | .array done :: outer, .closeArray => some (finish (.array done.reverse) outer)
  | .object done _ :: outer, .closeObject => some (finish (.object done) outer)
  | _, _ => none

/-- Take the name of a field. -/
def name? : List Open → Token → Option (List Open × Expected)
  | .object done _ :: outer, .text s => some (.object done s :: outer, .colon)
  | _, _ => none

/-- Read one token more, with at most `nesting` containers nested. -/
def step? (nesting : Nat) : List Open × Expected → Token → Option (List Open × Expected)
  | (outer, .value), t => startValue? outer t
  | (outer, .firstItem), .closeArray => close? outer .closeArray
  | (outer, .firstItem), t => if outer.length ≤ nesting then startValue? outer t else none
  | (outer, .firstField), .closeObject => close? outer .closeObject
  | (outer, .firstField), t => if outer.length ≤ nesting then name? outer t else none
  | (outer, .field), t => name? outer t
  | (outer, .colon), .colon => some (outer, .value)
  | (.array done :: outer, .next), .comma => some (.array done :: outer, .value)
  | (.object done name :: outer, .next), .comma => some (.object done name :: outer, .field)
  | (outer, .next), t => close? outer t
  | _, _ => none

/-- The document that a row of tokens denotes, with at most `nesting` containers nested. -/
def ofTokens? (nesting : Nat) (ts : List Token) : Option Json :=
  (ts.foldlM (step? nesting) (([] : List Open), Expected.value)).bind fun
    | ([], .nothing document) => some document
    | _ => none

/-- The document that a text denotes, within limits. -/
def read? (limits : Limits) (s : String) : Option Json :=
  (tokens? limits.wholePart s.toList).bind (ofTokens? limits.nesting)

end Json

end Curriculum
