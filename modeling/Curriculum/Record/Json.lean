import Curriculum.Record.Basic
import Curriculum.Requirement.Json

/-!
# Records as documents

Fields stand in a fixed order and what is absent is left out, with one exception: the two texts of
the catalog are always written, as null at the end of the document if they are absent.
-/

namespace Curriculum

/-- The document of the requirements of a course. -/
def CourseRequirements.toJson (r : CourseRequirements) : Json :=
  .object (("department", .text r.department) :: ("code", .text r.code)
    :: Section.all.flatMap fun s => Json.fieldIfAny s.key Requirement.toJson (r.tree s))

namespace Record

/-- The fields of a record that are there. -/
def fields (r : Record) : List (String × Json) :=
  ("schemaVersion", .text r.schemaVersion) :: ("course", .text r.course)
    :: (Json.fieldIfAny "originalPrerequisite" .text r.prerequisiteText
      ++ Json.fieldIfAny "originalCorequisite" .text r.corequisiteText
      ++ [("status", .text r.status.name)]
      ++ Json.fieldIfAny "parsedRequirements" CourseRequirements.toJson r.requirements
      ++ Json.fieldIfAny "blacklistReason" .text r.blacklistReason
      ++ Json.fieldIfAny "errorMessage" .text r.errorMessage
      ++ [("lastUpdated", .text r.lastUpdated)])

/-- A field with null, if there is nothing to write. -/
def nullIfNone (name : String) : Option String → List (String × Json)
  | some _ => []
  | none => [(name, .null)]

/-- The document of a record. -/
def toJson (r : Record) : Json :=
  .object (r.fields ++ nullIfNone "originalPrerequisite" r.prerequisiteText
    ++ nullIfNone "originalCorequisite" r.corequisiteText)

end Record

end Curriculum
