import Curriculum.Csv
import Curriculum.Graph.Basic
import Curriculum.Json.Writer

/-!
# Graphs as files

A graph is written to two files, one for its nodes and one for its edges, either as rows or as JSON
documents. The values of edges are rounded to two places here; both formats write the same digits.

How rows are written depends on the release of their writer. Unless another is named it is an
earlier one, as the oldest surroundings that the programs run in have it.
-/

namespace Curriculum

/-- The formats of graph files. -/
inductive GraphFormat where
  | csv
  | json
  deriving DecidableEq, Repr

namespace GraphFormat

/-- The name of a format. -/
def name : GraphFormat → String
  | csv => "csv"
  | json => "json"

/-- All formats. -/
def all : List GraphFormat := [csv, json]

/-- The format of a name. -/
def ofName? : String → Option GraphFormat := memberNamed? all name

end GraphFormat

/-- To how many places the values of edges are rounded. -/
def valuePlaces : Nat := 2

/-- The value of an edge as it is written. -/
def Edge.shownValue (e : Edge) : Number := e.value.roundTo valuePlaces

namespace Node

/-- The columns of the node file. -/
def columns : List String := ["id", "department", "size", "depth"]

/-- The row of a node. -/
def row (n : Node) : List String := [n.id, n.department, toString n.size, toString n.depth]

/-- The document of a node. -/
def toJson (n : Node) : Json :=
  .object [("id", .text n.id), ("department", .text n.department), ("size", .int n.size),
    ("depth", .int n.depth)]

end Node

namespace Edge

/-- The columns of the edge file. -/
def columns : List String := ["source", "target", "value"]

/-- The row of an edge. -/
def row (e : Edge) : List String := [e.source, e.target, e.shownValue.text]

/-- The document of an edge. -/
def toJson (e : Edge) : Json :=
  .object [("source", .text e.source), ("target", .text e.target), ("value", .number e.shownValue)]

end Edge

namespace Graph

/-- The two files of a graph, their names and texts, if a release of the writer of rows is
installed. -/
def files (g : Graph) (format : GraphFormat) (release : Csv.Release := .earlier) :
    List (String × String) :=
  match format with
  | .csv =>
    [("nodes.csv", Csv.render release (Node.columns :: g.nodes.map Node.row)),
      ("links.csv", Csv.render release (Edge.columns :: g.edges.map Edge.row))]
  | .json =>
    [("nodes.json", (Json.array (g.nodes.map Node.toJson)).render),
      ("links.json", (Json.array (g.edges.map Edge.toJson)).render)]

end Graph

end Curriculum
