import Curriculum.Binary64.Text
import Curriculum.Statistics.Basic
import Curriculum.Text.Lines

/-!
# The report of statistics

The statistics in lines: overall status, requirements, how complex they are, their kinds, the
largest departments, errors, reasons for a blacklisting, and a breakdown by department.
-/

namespace Curriculum

/-- A part of a whole in percent with one place; nothing is 0 percent of nothing. -/
def percentText (part whole : Nat) : String :=
  if whole = 0 then "0.0%"
  else ((Binary64.ofQuotient part whole).mul (.ofNat 100)).fixed 1 ++ "%"

/-- The name of a status at the start of a line. -/
def Status.title : Status → String
  | parsed => "Parsed"
  | unparsed => "Unparsed"
  | blacklisted => "Blacklisted"
  | error => "Error"

namespace Statistics

/-- How many departments are listed. -/
def departmentsShown : Nat := 10

/-- How many reasons for a blacklisting are listed. -/
def reasonsShown : Nat := 5

/-- How many characters of a reason are shown. -/
def reasonLength : Nat := 80

/-- The lines about the status of all records. -/
def statusLines (s : Statistics) : List String :=
  ["OVERALL STATUS:", "Total courses: " ++ toString s.total]
    ++ Status.all.map fun status =>
      let count := s.statuses.count status
      status.title ++ ": " ++ toString count ++ " (" ++ percentText count s.total ++ ")"

/-- The lines about the trees that records have. -/
def sectionLines (s : Statistics) : List String :=
  "REQUIREMENTS ANALYSIS:"
    :: Section.all.map (fun part =>
        "Courses with " ++ part.label ++ ": " ++ toString (s.sections.count part))
    ++ ["Courses with no requirements: " ++ toString s.withoutAny]

/-- The lines about nesting. -/
def nestingLines (s : Statistics) : List String :=
  ["COMPLEXITY ANALYSIS:",
    "Maximum requirement depth: " ++ toString s.maxNesting,
    "Average requirement depth: " ++ s.meanNesting.fixed 2]

/-- A line of a ranking. -/
def countLine (name : String) (count : Nat) : String := name ++ ": " ++ toString count

/-- The departments with the most records. -/
def topDepartments (s : Statistics) : List (String × Nat) :=
  s.departments.top departmentsShown

/-- The breakdowns of the departments with the most records. -/
def topBreakdowns (s : Statistics) : List (String × Breakdown) :=
  (s.breakdowns.mergeSort fun a b => decide (b.2.total ≤ a.2.total)).take departmentsShown

/-- The line of a department in the breakdown. -/
def breakdownLine (department : String) (b : Breakdown) : String :=
  let parsed := b.byStatus.count .parsed
  Text.padEnd 8 department ++ ": " ++ Text.padStart 3 (toString b.total) ++ " total, "
    ++ Text.padStart 3 (toString parsed) ++ " parsed (" ++ percentText parsed b.total ++ "), "
    ++ toString (b.byStatus.count .blacklisted) ++ " blacklisted, "
    ++ toString (b.byStatus.count .error) ++ " errors"

/-- Lines after an empty line and a title, if there are any. -/
def block (title : String) : List String → List String
  | [] => []
  | lines => "" :: title :: lines

/-- The report of statistics. -/
def report (s : Statistics) : String :=
  Text.joinLines (
    ["COURSE PREREQUISITES PARSING STATISTICS", String.ofList (List.replicate 50 '='), ""]
    ++ s.statusLines ++ [""] ++ s.sectionLines ++ [""] ++ s.nestingLines
    ++ ["", "REQUIREMENT TYPES:"] ++ s.kinds.ranked.map (fun k => countLine k.1.name k.2)
    ++ ["", "TOP DEPARTMENTS:"] ++ s.topDepartments.map (fun d => countLine d.1 d.2)
    ++ block "ERROR TYPES:" (s.errors.ranked.map fun e => countLine e.1 e.2)
    ++ block "BLACKLIST REASONS (top 5):"
        ((s.blacklistReasons.top reasonsShown).map fun r =>
          toString r.2 ++ "x: " ++ Text.shorten reasonLength r.1)
    ++ ["", "DEPARTMENT BREAKDOWN (top 10):"]
    ++ s.topBreakdowns.map fun d => breakdownLine d.1 d.2)

end Statistics

end Curriculum
