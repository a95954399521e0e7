import Curriculum.Requirement.Basic
import Curriculum.Text.Blank

/-!
# Course records

There is one record per course: the texts of the catalog, how far they have been turned into
requirements, and the requirements once they are known. The requirements of a course are up to four
trees (`Section`): two that bind and two that are recommended.
-/

namespace Curriculum

/-- The four trees of a course. -/
inductive Section where
  | prerequisites
  | corequisites
  | recommendedPrerequisites
  | recommendedCorequisites
  deriving DecidableEq, Repr

namespace Section

/-- All four, in the order in which they are read, written and checked. -/
def all : List Section :=
  [prerequisites, corequisites, recommendedPrerequisites, recommendedCorequisites]

/-- The name of the field that holds the tree. -/
def key : Section → String
  | prerequisites => "prerequisites"
  | corequisites => "corequisites"
  | recommendedPrerequisites => "recommendedPrerequisites"
  | recommendedCorequisites => "recommendedCorequisites"

/-- The name in messages. -/
def label : Section → String
  | prerequisites => "prerequisites"
  | corequisites => "corequisites"
  | recommendedPrerequisites => "recommended prerequisites"
  | recommendedCorequisites => "recommended corequisites"

/-- The title in outlines. -/
def title : Section → String
  | prerequisites => "Prerequisite"
  | corequisites => "Corequisite"
  | recommendedPrerequisites => "Recommended Prerequisite"
  | recommendedCorequisites => "Recommended Corequisite"

end Section

/-- The requirements of a course. -/
structure CourseRequirements where
  department : String
  code : String
  prerequisites : Option Requirement
  corequisites : Option Requirement
  recommendedPrerequisites : Option Requirement
  recommendedCorequisites : Option Requirement

namespace CourseRequirements

/-- One of the four trees. -/
def tree (r : CourseRequirements) : Section → Option Requirement
  | .prerequisites => r.prerequisites
  | .corequisites => r.corequisites
  | .recommendedPrerequisites => r.recommendedPrerequisites
  | .recommendedCorequisites => r.recommendedCorequisites

/-- The trees that are there. -/
def trees (r : CourseRequirements) : List Requirement :=
  Section.all.filterMap r.tree

/-- The trees that bind: prerequisites, then corequisites. -/
def bindingTrees (r : CourseRequirements) : List Requirement :=
  [Section.prerequisites, .corequisites].filterMap r.tree

/-- Whether any tree is there. -/
def hasAny (r : CourseRequirements) : Bool :=
  Section.all.any fun s => (r.tree s).isSome

end CourseRequirements

/-- How far a record has come. -/
inductive Status where
  | parsed
  | unparsed
  | blacklisted
  | error
  deriving DecidableEq, Repr

namespace Status

/-- The name of a status. -/
def name : Status → String
  | parsed => "parsed"
  | unparsed => "unparsed"
  | blacklisted => "blacklisted"
  | error => "error"

/-- All statuses. -/
def all : List Status := [parsed, unparsed, blacklisted, error]

/-- The status of a name. -/
def ofName? : String → Option Status := memberNamed? all name

theorem ofName?_name (s : Status) : ofName? s.name = some s := by cases s <;> decide

end Status

/-- The department of a course: the first word of its id. -/
def departmentOf (course : String) : String :=
  (Text.firstWord? course).getD "UNKNOWN"

/-- The version of the record format that new records have. -/
def currentSchema : String := "UBCv0.1"

/-- The record of one course. -/
structure Record where
  schemaVersion : String
  course : String
  prerequisiteText : Option String
  corequisiteText : Option String
  status : Status
  requirements : Option CourseRequirements
  blacklistReason : Option String
  errorMessage : Option String
  lastUpdated : String

namespace Record

/-- The department of the course. -/
def department (r : Record) : String := departmentOf r.course

/-- Whether the catalog has a text to parse. -/
def hasText (r : Record) : Bool :=
  [r.prerequisiteText, r.corequisiteText].any fun t => t.getD "" ≠ ""

/-- The requirements of a record that was parsed. -/
def parsed? (r : Record) : Option CourseRequirements :=
  if r.status = .parsed then r.requirements else none

end Record

/-- A course with its requirements. -/
abbrev ParsedCourse : Type := String × CourseRequirements

/-- The courses of the records that were parsed, in the order of the records. -/
def parsedCourses (records : List Record) : List ParsedCourse :=
  records.filterMap fun r => r.parsed?.map fun reqs => (r.course, reqs)

end Curriculum
