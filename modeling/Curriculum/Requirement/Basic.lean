import Curriculum.Binary64.Basic

/-!
# Requirements

What a student must have done before a course, or do along with it, is a tree. Its inner nodes are
groups that ask for all, one or two of their parts; its leaves ask for a course, for an amount of
credits or courses, for a year of study, for a program or a permission, or for something told in
words. A group has a first part, so no group is empty, and grades, amounts and labels carry the
bounds that they are read with.
-/

namespace Curriculum

/-- How many parts of a group must be met. -/
inductive Logic where
  | allOf
  | oneOf
  | twoOf
  deriving DecidableEq, Repr

/-- The year level of a course. -/
inductive Level where
  | first
  | second
  | third
  | fourth
  deriving DecidableEq, Repr

/-- The year of study that a student has reached. -/
inductive Standing where
  | first
  | second
  | third
  | fourth
  | graduate
  deriving DecidableEq, Repr

/-- The eight kinds of nodes. -/
inductive Kind where
  | group
  | course
  | creditCount
  | courseCount
  | standing
  | program
  | permission
  | other
  deriving DecidableEq, Repr

/-- The member of a list that has a name, if any. -/
def memberNamed? {α : Type} (all : List α) (name : α → String) (s : String) : Option α :=
  all.find? fun a => name a = s

namespace Logic

/-- The name of a logic. -/
def name : Logic → String
  | allOf => "ALL_OF"
  | oneOf => "ONE_OF"
  | twoOf => "TWO_OF"

/-- All logics. -/
def all : List Logic := [allOf, oneOf, twoOf]

/-- The logic of a name. -/
def ofName? : String → Option Logic := memberNamed? all name

theorem ofName?_name (l : Logic) : ofName? l.name = some l := by cases l <;> decide

end Logic

namespace Level

/-- The name of a level. -/
def name : Level → String
  | first => "100"
  | second => "200"
  | third => "300"
  | fourth => "400"

/-- All levels. -/
def all : List Level := [first, second, third, fourth]

/-- The level of a name. -/
def ofName? : String → Option Level := memberNamed? all name

theorem ofName?_name (l : Level) : ofName? l.name = some l := by cases l <;> decide

end Level

namespace Standing

/-- The name of a standing. -/
def name : Standing → String
  | first => "1st"
  | second => "2nd"
  | third => "3rd"
  | fourth => "4th"
  | graduate => "graduate"

/-- All standings. -/
def all : List Standing := [first, second, third, fourth, graduate]

/-- The standing of a name. -/
def ofName? : String → Option Standing := memberNamed? all name

theorem ofName?_name (s : Standing) : ofName? s.name = some s := by cases s <;> decide

end Standing

namespace Kind

/-- The name of a kind. -/
def name : Kind → String
  | group => "group"
  | course => "course"
  | creditCount => "credit_count"
  | courseCount => "course_count"
  | standing => "standing"
  | program => "program"
  | permission => "permission"
  | other => "other"

/-- All kinds. -/
def all : List Kind :=
  [group, course, creditCount, courseCount, standing, program, permission, other]

/-- The kind of a name. -/
def ofName? : String → Option Kind := memberNamed? all name

theorem ofName?_name (k : Kind) : ofName? k.name = some k := by cases k <;> decide

end Kind

/-! ## Bounded parts -/

/-- A text that is not empty. -/
structure Label where
  text : String
  nonempty : text ≠ ""
  deriving DecidableEq

/-- A percentage from 0 to 100. -/
structure Grade where
  percent : Binary64
  atMost : percent.le (.ofNat 100) = true
  atLeast : (Binary64.zero false).le percent = true
  deriving DecidableEq

/-- A number of credits or courses greater than zero. -/
structure Amount where
  value : Binary64
  positive : (Binary64.zero false).lt value = true
  deriving DecidableEq

/-- One of something, or a list of them. -/
inductive OneOrMany (α : Type) where
  | one (a : α)
  | many (as : List α)
  deriving DecidableEq, Repr

/-- Which courses count towards an amount. -/
structure Scope where
  department : Option (OneOrMany String)
  level : Option (OneOrMany Level)
  minGrade : Option Grade
  deriving DecidableEq

/-! ## Trees -/

/-- A requirement. -/
inductive Requirement where
  /-- As many of the parts as the logic says. -/
  | group (logic : Logic) (first : Requirement) (rest : List Requirement)
  /-- A course, perhaps with a grade, and whether it may or must be taken at the same time. -/
  | course (id : Label) (minGrade : Option Grade) (mayOverlap mustOverlap : Option Bool)
  /-- An amount of credits. -/
  | credits (amount : Amount) (scope : Scope)
  /-- An amount of courses. -/
  | courses (amount : Amount) (scope : Scope)
  /-- A year of study. -/
  | standing (year : Standing)
  /-- Being in a program. -/
  | program (name : Label)
  /-- The permission of somebody. -/
  | permission (note : Label)
  /-- Anything else, in words. -/
  | other (note : Label)

namespace Requirement

/-- The kind of the root. -/
def kind : Requirement → Kind
  | group .. => .group
  | course .. => .course
  | credits .. => .creditCount
  | courses .. => .courseCount
  | standing _ => .standing
  | program _ => .program
  | permission _ => .permission
  | other _ => .other

/-- The parts of a group; a leaf has none. -/
def parts : Requirement → List Requirement
  | group _ first rest => first :: rest
  | _ => []

mutual

/-- How many groups are nested in each other at most. -/
def groupNesting : Requirement → Nat
  | group _ first rest => max first.groupNesting (groupNestingOfList rest) + 1
  | _ => 0

/-- The largest nesting of groups among some trees. -/
def groupNestingOfList : List Requirement → Nat
  | [] => 0
  | t :: rest => max t.groupNesting (groupNestingOfList rest)

end

end Requirement

end Curriculum
