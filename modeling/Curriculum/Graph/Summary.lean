import Curriculum.Graph.Basic
import Curriculum.Tally
import Curriculum.Text.Lines

/-!
# The summary of a graph

A few lines about a graph: its departments, the courses that most others need, the courses that
need most others, how its depths are spread, and the deepest courses.
-/

namespace Curriculum

/-- The first members of a list; a limit below zero leaves out that many at the end. -/
def takeUpTo {α : Type} (limit : Int) (xs : List α) : List α :=
  if 0 ≤ limit then xs.take limit.toNat else xs.take (xs.length - limit.natAbs)

/-- Number the members of a list from 1. -/
def numbered {α : Type} (xs : List α) : List (Nat × α) :=
  (List.range xs.length).map (· + 1) |>.zip xs

namespace Graph

/-- How many of the deepest courses are listed. -/
def deepestShown : Nat := 5

/-- The lines about departments. -/
def departmentLines (g : Graph) (top : Int) : List String :=
  let departments := Tally.ranked (Tally.ofList (g.nodes.map Node.department))
  let more : Int := departments.length - top
  "Node Statistics by Department:"
    :: (takeUpTo top departments).map (fun d =>
        "   " ++ d.1 ++ ": " ++ toString d.2 ++ " courses")
    ++ if 0 < more then ["   ... and " ++ toString more ++ " more departments"] else []

/-- The lines about courses that many others need. -/
def neededLines (g : Graph) (top : Int) : List String :=
  let sources := Tally.top (Tally.ofList (g.edges.map Edge.source)) top
  ["", "Top " ++ toString top ++ " Courses (Prerequisites for most courses):"]
    ++ (numbered sources).map fun (i, course, count) =>
      "   " ++ toString i ++ ". " ++ course ++ " (prerequisite for " ++ toString count
        ++ " courses)"

/-- Nodes by one of their numbers, the largest first, equal ones in the order of the graph. -/
def largestFirst (key : Node → Int) (nodes : List Node) : List Node :=
  nodes.mergeSort fun a b => decide (key b ≤ key a)

/-- The lines about courses that need many others. -/
def needingLines (g : Graph) (top : Int) : List String :=
  ["", "Top " ++ toString top ++ " Courses (Most prerequisites required):"]
    ++ (numbered (takeUpTo top (largestFirst Node.size g.nodes))).map fun (i, n) =>
      "   " ++ toString i ++ ". " ++ n.id ++ " (" ++ toString n.size ++ " prerequisites, depth "
        ++ toString n.depth ++ ")"

/-- The lines about the spread of depths. -/
def depthLines (g : Graph) : List String :=
  let spread := (Tally.ofList (g.nodes.map Node.depth)).mergeSort fun a b => decide (a.1 ≤ b.1)
  ["", "Prerequisite Depth Distribution:"]
    ++ spread.map fun d => "   Depth " ++ toString d.1 ++ ": " ++ toString d.2 ++ " courses"

/-- The lines about the deepest courses. -/
def deepestLines (g : Graph) : List String :=
  let deep := g.nodes.filter fun n => decide (0 < n.depth)
  match (largestFirst Node.depth deep).take deepestShown with
  | [] => []
  | deepest =>
    ["", "Top " ++ toString deepestShown ++ " Deepest Courses:"]
      ++ (numbered deepest).map fun (i, n) =>
        "   " ++ toString i ++ ". " ++ n.id ++ " (depth " ++ toString n.depth ++ ", "
          ++ toString n.size ++ " prerequisites)"

/-- The lines about depths that are not settled. -/
def unsettledLines (g : Graph) : List String :=
  match g.resolution with
  | some r =>
    if r.converged then []
    else
      ["", "WARNING: depths did not settle after " ++ toString r.passes
        ++ " passes; still growing: " ++ ", ".intercalate r.unstableSorted]
  | none => []

/-- The summary of a graph, with lists of at most `top` entries. -/
def summary (g : Graph) (top : Int) : String :=
  Text.joinLines (g.departmentLines top ++ g.neededLines top ++ g.needingLines top ++ g.depthLines
    ++ g.deepestLines ++ g.unsettledLines)

/-- The length of the lists of a summary when none is given. -/
def defaultTop : Int := 10

end Graph

end Curriculum
