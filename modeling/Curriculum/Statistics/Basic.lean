import Curriculum.Record.Basic
import Curriculum.Tally

/-!
# Statistics of records

How many records there are of each status, department and kind of requirement, how often each kind
of error and each reason for a blacklisting occurs, and how deep requirements are nested. The
statistics of a list are built record by record (`Statistics.addRecord`), and every part of them is
a count, a sum or a maximum.
-/

namespace Curriculum

namespace Requirement

mutual

/-- How many nodes lie on the longest way down: a leaf is 1, a group one more than its deepest
part. -/
def nodeNesting : Requirement → Nat
  | group _ first rest => 1 + max first.nodeNesting (nodeNestingOfList rest)
  | _ => 1

/-- The largest nesting among some trees. -/
def nodeNestingOfList : List Requirement → Nat
  | [] => 0
  | t :: rest => max t.nodeNesting (nodeNestingOfList rest)

end

mutual

/-- The kinds of all nodes, from top to bottom. -/
def kinds : Requirement → List Kind
  | group _ first rest => .group :: (first.kinds ++ kindsOfList rest)
  | t => [t.kind]

/-- The kinds of all nodes of some trees. -/
def kindsOfList : List Requirement → List Kind
  | [] => []
  | t :: rest => t.kinds ++ kindsOfList rest

end

end Requirement

/-- The words by which errors are sorted, with the names of the sorts. -/
def errorSorts : List (String × String) :=
  [("validation", "Validation Error"), ("schema", "Schema Error"), ("JSON", "JSON Parse Error"),
    ("prerequisites", "Prerequisites Error"), ("corequisites", "Corequisites Error")]

/-- Whether a text occurs in another. -/
def occursIn (part whole : List Char) : Bool :=
  match whole with
  | [] => part.isEmpty
  | c :: rest => part.isPrefixOf (c :: rest) || occursIn part rest

/-- The sort of an error: that of the first word that occurs in its message. -/
def errorSort (message : String) : String :=
  match errorSorts.find? fun s => occursIn s.1.toList message.toList with
  | some s => s.2
  | none => "Other Error"

/-- How many records of a department there are, in all and of each status. -/
structure Breakdown where
  total : Nat
  byStatus : Tally Status

/-- The statistics of a list of records. -/
structure Statistics where
  total : Nat
  statuses : Tally Status
  departments : Tally String
  breakdowns : Table String Breakdown
  /-- How many parsed records have each of the four trees. -/
  sections : Tally Section
  /-- How many parsed records have no tree. -/
  withoutAny : Nat
  kinds : Tally Kind
  /-- The nesting of every tree that binds. -/
  nestings : List Nat
  errors : Tally String
  blacklistReasons : Tally String

namespace Statistics

/-- The statistics of no records. -/
def empty : Statistics := ⟨0, [], [], [], [], 0, [], [], [], []⟩

/-- Count a record in the breakdown of its department. -/
def addToBreakdown (t : Table String Breakdown) (department : String) (s : Status) :
    Table String Breakdown :=
  let b := (t.find? department).getD ⟨0, []⟩
  t.insert department ⟨b.total + 1, b.byStatus.add s⟩

/-- Count a text if it is there and not empty. -/
def addText (t : Tally String) (sort : String → String) : Option String → Tally String
  | some s => if s = "" then t else t.add (sort s)
  | none => t

/-- Count the requirements of a parsed record. -/
def addRequirements (s : Statistics) (r : CourseRequirements) : Statistics :=
  { s with
    sections := (Section.all.filter fun part => (r.tree part).isSome).foldl Tally.add s.sections
    withoutAny := s.withoutAny + if r.hasAny then 0 else 1
    kinds := (r.trees.flatMap Requirement.kinds).foldl Tally.add s.kinds
    nestings := s.nestings ++ r.bindingTrees.map Requirement.nodeNesting }

/-- Count a record. -/
def addRecord (s : Statistics) (r : Record) : Statistics :=
  let s := { s with
    total := s.total + 1
    statuses := s.statuses.add r.status
    departments := s.departments.add r.department
    breakdowns := addToBreakdown s.breakdowns r.department r.status
    errors := if r.status = .error then addText s.errors errorSort r.errorMessage else s.errors
    blacklistReasons :=
      if r.status = .blacklisted then addText s.blacklistReasons id r.blacklistReason
      else s.blacklistReasons }
  match r.parsed? with
  | some reqs => s.addRequirements reqs
  | none => s

/-- The statistics of a list of records. -/
def ofRecords (records : List Record) : Statistics :=
  records.foldl addRecord empty

/-- The deepest nesting of a tree that binds; 0 if there is none. -/
def maxNesting (s : Statistics) : Nat :=
  s.nestings.foldl max 0

/-- The mean nesting of the trees that bind; 0 if there is none. -/
def meanNesting (s : Statistics) : Binary64 :=
  if s.nestings = [] then .zero false
  else Binary64.ofQuotient (s.nestings.foldr (· + ·) 0) s.nestings.length

end Statistics

end Curriculum
