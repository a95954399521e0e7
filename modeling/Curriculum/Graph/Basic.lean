import Curriculum.Depth.Relaxation
import Curriculum.Number

/-!
# Course graphs

The nodes of the graph are courses; an edge runs from a course to a course that needs it. There is
at most one edge from one course to another: of several offers the largest is kept, and of equally
large ones the first (`EdgeMap.offer`).
-/

namespace Curriculum

/-- A course in the graph. -/
structure Node where
  id : String
  department : String
  /-- How many edges lead to the course. -/
  size : Int
  depth : Int

/-- An edge from a course to a course that needs it, and how strongly it is needed. -/
structure Edge where
  source : String
  target : String
  value : Number

/-- A graph, and how its depths were settled. -/
structure Graph where
  nodes : List Node
  edges : List Edge
  resolution : Option Resolution

/-- The values of edges by source and target, in the order in which edges were first offered. -/
abbrev EdgeMap : Type := Table (String × String) Number

namespace EdgeMap

/-- Whether an offered value is stored: there is no edge yet, or its value is not as large. -/
def accepts (edges : EdgeMap) (source target : String) (value : Number) : Bool :=
  match Table.find? edges (source, target) with
  | some current => !value.le current
  | none => true

/-- Offer an edge. -/
def offer (edges : EdgeMap) (source target : String) (value : Number) : EdgeMap :=
  if edges.accepts source target value then Table.insert edges (source, target) value else edges

/-- The edges, in order. -/
def toEdges (edges : EdgeMap) : List Edge :=
  edges.map fun e => ⟨e.1.1, e.1.2, e.2⟩

end EdgeMap

end Curriculum
