import Curriculum.Number
import Curriculum.Record.Basic
import Curriculum.Text.Lines

/-!
# Outlines of requirements

A requirement is shown with one line for each node, from top to bottom; the parts of a group stand
below it, indented by two spaces more. Grades are shown as letters.
-/

namespace Curriculum

/-- The least percentage of each letter grade, from the best down. -/
def gradeScale : List (Int × String) :=
  [(85, "A"), (80, "A-"), (77, "B+"), (73, "B"), (70, "B-"), (67, "C+"), (64, "C"), (60, "C-"),
    (57, "D+"), (53, "D"), (50, "D-")]

/-- The letter grade of a percentage: the best one whose least percentage is reached, or F. -/
def letterGrade (percent : Number) : String :=
  match gradeScale.find? fun g => (Number.int g.1).le percent with
  | some g => g.2
  | none => "F"

/-- A grade as a qualification; a grade of 0 says nothing. -/
def Grade.outline (g : Grade) : String :=
  if g.percent.isZero then ""
  else " (minimum \"" ++ letterGrade (.float g.percent) ++ "\")"

/-- A grade as a qualification, if there is one. -/
def gradeOutline (g : Option Grade) : String :=
  (g.map Grade.outline).getD ""

/-- An amount: in whole numbers if it is one. -/
def Amount.outline (a : Amount) : String :=
  if a.value.isWhole then toString a.value.truncate else a.value.text

/-- One thing, or several with commas between them; nothing if there is nothing to show. -/
def OneOrMany.outline? : OneOrMany String → Option String
  | .one s => if s = "" then none else some s
  | .many [] => none
  | .many ss => some (", ".intercalate ss)

/-- The names of one thing or of several. -/
def OneOrMany.map {α β : Type} (f : α → β) : OneOrMany α → OneOrMany β
  | .one a => .one (f a)
  | .many as => .many (as.map f)

/-- Which courses count, in words. -/
def Scope.outline (s : Scope) : String :=
  (match s.department.bind OneOrMany.outline? with
    | some d => " in " ++ d
    | none => "")
  ++ (match (s.level.map (OneOrMany.map Level.name)).bind OneOrMany.outline? with
    | some l => " (level " ++ l ++ ")"
    | none => "")
  ++ gradeOutline s.minGrade

/-- A remark that is made only of what is so. -/
def remark (holds : Option Bool) (text : String) : String :=
  if holds = some true then text else ""

namespace Requirement

/-- The words of a node, without those of its parts. -/
def headline : Requirement → String
  | group logic .. => "Group (" ++ logic.name ++ "):"
  | course id minGrade mayOverlap mustOverlap =>
    id.text ++ gradeOutline minGrade ++ remark mayOverlap " (can be concurrent)"
      ++ remark mustOverlap " (must be concurrent)"
  | credits amount scope => amount.outline ++ " credits" ++ scope.outline
  | courses amount scope => amount.outline ++ " courses" ++ scope.outline
  | standing year => "Standing: " ++ year.name
  | program name => "Program: " ++ name.text
  | permission note => "Permission: " ++ note.text
  | other note => "Other: " ++ note.text

/-- A line at a level; there is no indentation below level 0. -/
def lineAt (level : Int) (words : String) : String :=
  Text.spaces (2 * level) ++ words

mutual

/-- The lines of a requirement that starts at a level. -/
def lines (level : Int) : Requirement → List String
  | t@(group _ first rest) =>
    lineAt level t.headline :: (lines (level + 1) first ++ linesOfList (level + 1) rest)
  | t => [lineAt level t.headline]

/-- The lines of some requirements, one after the other. -/
def linesOfList (level : Int) : List Requirement → List String
  | [] => []
  | t :: rest => lines level t ++ linesOfList level rest

end

/-- The outline of a requirement that starts at a level. -/
def outline (level : Int) (t : Requirement) : String :=
  Text.joinLines (t.lines level)

end Requirement

/-- The outline of the requirements of a course: a title and an outline for each tree. -/
def CourseRequirements.outline (level : Int) (r : CourseRequirements) : String :=
  Text.joinLines (Section.all.flatMap fun s =>
    match r.tree s with
    | some t => [Requirement.lineAt level (s.title ++ ":"), t.outline level]
    | none => [])

end Curriculum
