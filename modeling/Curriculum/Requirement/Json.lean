import Curriculum.Json.Basic
import Curriculum.Requirement.Basic

/-!
# Requirements as documents

The document of a requirement is an object whose field `type` names the kind of the node. Fields
stand in a fixed order, and what is absent is left out.
-/

namespace Curriculum

/-- A field that is written only if there is something to write. -/
def Json.fieldIfAny {α : Type} (name : String) (write : α → Json) : Option α → List (String × Json)
  | some a => [(name, write a)]
  | none => []

/-- The document of one thing, or the array of several. -/
def OneOrMany.toJson {α : Type} (write : α → Json) : OneOrMany α → Json
  | .one a => write a
  | .many as => .array (as.map write)

/-- The document of a grade. -/
def Grade.toJson (g : Grade) : Json := .float g.percent

/-- The fields that say which courses count. -/
def Scope.fields (s : Scope) : List (String × Json) :=
  Json.fieldIfAny "department" (OneOrMany.toJson .text) s.department
    ++ Json.fieldIfAny "level" (OneOrMany.toJson fun l => .text l.name) s.level
    ++ Json.fieldIfAny "minGrade" Grade.toJson s.minGrade

namespace Requirement

/-- The field that names the kind of a node. -/
def typeField (k : Kind) : String × Json := ("type", .text k.name)

mutual

/-- The document of a requirement. -/
def toJson : Requirement → Json
  | group logic first rest =>
    .object [typeField .group, ("logic", .text logic.name),
      ("children", .array (toJson first :: listToJson rest))]
  | course id minGrade mayOverlap mustOverlap =>
    .object (typeField .course :: ("course", .text id.text)
      :: (Json.fieldIfAny "minGrade" Grade.toJson minGrade
        ++ Json.fieldIfAny "canBeTakenConcurrently" .bool mayOverlap
        ++ Json.fieldIfAny "mustBeTakenConcurrently" .bool mustOverlap))
  | credits amount scope =>
    .object (typeField .creditCount :: ("credits", .float amount.value) :: scope.fields)
  | courses amount scope =>
    .object (typeField .courseCount :: ("count", .float amount.value) :: scope.fields)
  | standing year => .object [typeField .standing, ("standing", .text year.name)]
  | program name => .object [typeField .program, ("program", .text name.text)]
  | permission note => .object [typeField .permission, ("note", .text note.text)]
  | other note => .object [typeField .other, ("note", .text note.text)]

/-- The documents of some requirements. -/
def listToJson : List Requirement → List Json
  | [] => []
  | t :: rest => toJson t :: listToJson rest

end

end Requirement

end Curriculum
