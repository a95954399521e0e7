import Curriculum.Record.Reading
import Curriculum.Requirement.Candidate

/-!
# Checking candidates for the requirements of a course

A candidate must be an object with a department and a code that say something, and each of its
trees that is not null must pass the check for requirements. A candidate that passes is read; the
check is the stricter of the two, except that reading limits how deep groups may be nested.
-/

namespace Curriculum

namespace Candidate

/-- Why a candidate is refused. -/
inductive Refusal where
  | notAnObject
  | noDepartment
  | noCode
  /-- A tree has a flaw. -/
  | tree (s : Section) (rejection : Rejection)
  /-- Every rule holds, yet the candidate cannot be read. -/
  | unreadable (faults : List Fault)

/-- The wording of a refusal; `report` words the faults of a candidate that cannot be read. -/
def Refusal.message (report : List Fault → String) : Refusal → String
  | notAnObject => "Data must be an object"
  | noDepartment => "Missing or invalid department field"
  | noCode => "Missing or invalid code field"
  | tree s r => "Invalid " ++ s.label ++ ": " ++ r.message
  | unreadable faults => "Validation error: " ++ report faults

/-- The wording of a refusal, the faults of an unreadable candidate being counted. -/
def Refusal.text : Refusal → String :=
  message fun faults => toString faults.length ++ " faults"

/-- The first tree that has a flaw; null trees are passed over. -/
def firstBadTree? (fields : Table String Json) : List Section → Option Refusal
  | [] => none
  | s :: rest =>
    match fields.find? s.key with
    | none | some .null => firstBadTree? fields rest
    | some j =>
      match check j with
      | some r => some (.tree s r)
      | none => firstBadTree? fields rest

/-- The first rule that a candidate breaks, if it breaks one. -/
def refusal? : Json → Option Refusal
  | .object fields =>
    if !isTelling (Table.find? fields "department") then some .noDepartment
    else if !isTelling (Table.find? fields "code") then some .noCode
    else firstBadTree? fields Section.all
  | _ => some .notAnObject

/-- The requirements that a candidate denotes, or why it is refused. -/
def accept (j : Json) : Except Refusal CourseRequirements :=
  match refusal? j with
  | some r => .error r
  | none =>
    match CourseRequirements.read .value j with
    | .ok reqs => .ok reqs
    | .faulty faults => .error (.unreadable faults)

end Candidate

end Curriculum
