import Curriculum.Graph.Basic
import Curriculum.Weight

/-!
# The graph of a list of records

Only records that were parsed take part. Each course becomes a node when it is first named, by its
own record or by another, and that decides its department. A prerequisite gives an edge to the
course that needs it; a corequisite gives edges in both directions. Recommended trees give none. In
the end courses without edges are left out.
-/

namespace Curriculum

namespace Graph

/-- A graph in the making. -/
structure Draft where
  /-- The department of each course that was named, in the order of first mention. -/
  departments : Table String String
  edges : EdgeMap

namespace Draft

/-- Name a course; its department is decided when it is first named. -/
def mention (d : Draft) (course department : String) : Draft :=
  { d with departments := d.departments.insertIfNew course department }

/-- Offer an edge. -/
def offer (d : Draft) (source target : String) (value : Binary64) : Draft :=
  { d with edges := d.edges.offer source target (.float value) }

/-- Add a course that `target` has as a prerequisite. -/
def addPrerequisite (target : String) (d : Draft) (dep : String × Binary64) : Draft :=
  (d.mention dep.1 (departmentOf dep.1)).offer dep.1 target dep.2

/-- Add a course that `target` has as a corequisite. -/
def addCorequisite (target : String) (d : Draft) (dep : String × Binary64) : Draft :=
  ((d.mention dep.1 (departmentOf dep.1)).offer dep.1 target dep.2).offer target dep.1 dep.2

/-- The courses with weights that a tree names, if it is there. -/
def dependenciesOf (tree : Option Requirement) : List (String × Binary64) :=
  (tree.map Requirement.dependencies).getD []

/-- Add a course with what it requires. -/
def addCourse (d : Draft) (c : ParsedCourse) : Draft :=
  let d := d.mention c.1 c.2.department
  let d := (dependenciesOf c.2.prerequisites).foldl (addPrerequisite c.1) d
  (dependenciesOf c.2.corequisites).foldl (addCorequisite c.1) d

end Draft

/-- The draft of some courses. -/
def draft (courses : List ParsedCourse) : Draft :=
  courses.foldl Draft.addCourse ⟨[], []⟩

/-- How many edges lead to a course. -/
def inDegree (edges : List Edge) (course : String) : Nat :=
  edges.countP fun e => e.target = course

/-- Whether a course is an end of an edge. -/
def isLinked (edges : List Edge) (course : String) : Bool :=
  edges.any fun e => e.source = course || e.target = course

/-- The nodes of a draft: the courses that are ends of edges. -/
def nodesOf (departments : Table String String) (edges : List Edge) (depths : DepthTable) :
    List Node :=
  (departments.filter fun c => isLinked edges c.1).map fun c =>
    ⟨c.1, c.2, inDegree edges c.1, depths.depthOf c.1⟩

/-- The graph of some courses whose depths are settled with at most `ceiling` passes. -/
def ofCourses (courses : List ParsedCourse) (ceiling : Int) : Graph :=
  let resolution := Resolution.ofCourses courses ceiling
  let d := draft courses
  let edges := d.edges.toEdges
  ⟨nodesOf d.departments edges resolution.depths, edges, some resolution⟩

/-- The graph of a list of records. -/
def ofRecords (records : List Record) (ceiling : Int) : Graph :=
  ofCourses (parsedCourses records) ceiling

/-- The warnings that come with a graph. -/
def warnings (g : Graph) : List String :=
  (g.resolution.map Resolution.warnings).getD []

end Graph

end Curriculum
