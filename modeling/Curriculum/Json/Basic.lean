import Curriculum.Number
import Curriculum.Table

/-!
# JSON documents

A document is a tree of objects and arrays with texts, numbers, truth values and null at its
leaves. The fields of an object stand in the order in which they were first written, each name
once.

Texts are sequences of characters. One that holds half of a surrogate pair without the other half is
outside what is described here, although an escape can spell it, and no reader here takes such an
escape. Documents may be nested to any depth: readers have their limits, but the stack on which a
machine goes through a document is not described, so nothing breaks off for want of it.
-/

namespace Curriculum

/-- A JSON document. -/
inductive Json where
  | null
  | bool (value : Bool)
  | number (value : Number)
  | text (value : String)
  | array (items : List Json)
  | object (fields : List (String × Json))

namespace Json

instance : Inhabited Json := ⟨.null⟩

/-- An integer as a document. -/
def int (n : Int) : Json := .number (.int n)

/-- A floating-point number as a document. -/
def float (x : Binary64) : Json := .number (.float x)

/-- The value of a field of an object; nothing for other documents. -/
def field? (name : String) : Json → Option Json
  | .object fields => Table.find? fields name
  | _ => none

/-- Whether a value says nothing: null, false, zero, or an empty text, array or object. -/
def isVoid : Json → Bool
  | .null => true
  | .bool b => !b
  | .number n => n.isZero
  | .text s => s.isEmpty
  | .array items => items.isEmpty
  | .object fields => fields.isEmpty

mutual

/-- How many arrays and objects that hold something are nested in each other at most. -/
def nesting : Json → Nat
  | .array (item :: rest) => max item.nesting (nestingOfItems rest) + 1
  | .object ((_, value) :: rest) => max value.nesting (nestingOfFields rest) + 1
  | _ => 0

/-- The largest nesting among the items of an array. -/
def nestingOfItems : List Json → Nat
  | [] => 0
  | item :: rest => max item.nesting (nestingOfItems rest)

/-- The largest nesting among the fields of an object. -/
def nestingOfFields : List (String × Json) → Nat
  | [] => 0
  | (_, value) :: rest => max value.nesting (nestingOfFields rest)

end

end Json

end Curriculum
