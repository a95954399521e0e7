import Curriculum.Record.Basic
import Curriculum.Requirement.Reading

/-!
# Reading records

Records and the requirements of a course are read field by field in the order in which they are
written. Fields that a record does not have are not looked at.
-/

namespace Curriculum

open Reading

/-- Read the requirements of a course. -/
def CourseRequirements.read (source : Source) : Json → Reading CourseRequirements
  | .object fields =>
    let tree (s : Section) := optional fields s.key (Requirement.read source 0)
    apply (apply (apply (apply (combine CourseRequirements.mk
              (required fields "department" text)
              (required fields "code" text))
            (tree .prerequisites))
          (tree .corequisites))
        (tree .recommendedPrerequisites))
      (tree .recommendedCorequisites)
  | _ => fault .notRecord

namespace Record

/-- The version of the record format; the current one if none is given. -/
def readSchema (fields : Table String Json) : Reading String :=
  match fields.find? "schemaVersion" with
  | none => .ok currentSchema
  | some j => inside (.field "schemaVersion") (text j)

/-- Read a record. -/
def read (source : Source) : Json → Reading Record
  | .object fields =>
    apply (apply (apply (apply (apply (apply (apply (combine Record.mk
                    (readSchema fields)
                    (required fields "course" text))
                  (optional fields "originalPrerequisite" text))
                (optional fields "originalCorequisite" text))
              (required fields "status" (named Status.ofName?)))
            (optional fields "parsedRequirements" (CourseRequirements.read source)))
          (optional fields "blacklistReason" text))
        (optional fields "errorMessage" text))
      (required fields "lastUpdated" text)
  | _ => fault .notRecord

/-- The record that a document given as a value denotes. -/
def ofValue (j : Json) : Reading Record := read .value j

/-- The record that a text denotes. -/
def ofText (s : String) : Reading Record :=
  match Json.read? Requirement.textLimits s with
  | some j => read .text j
  | none => fault .notADocument

end Record

end Curriculum
