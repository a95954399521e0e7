import Curriculum.Record.Basic
import Curriculum.Table

/-!
# The depth of a requirement

The depth of a course says how many levels of courses stand between a student and the course. Given
a table of depths, a leaf that asks for a course is one deeper than that course, and a group is as
deep as its logic asks for: its least deep part, its second least deep part, or its deepest part.
Only parts deeper than 0 are counted, since a part of depth 0 asks for no course.
-/

namespace Curriculum

/-- The depths known so far. -/
abbrev DepthTable : Type := Table String Int

namespace DepthTable

/-- The depth of a course; a course that is not in the table has depth 0. -/
def depthOf (t : DepthTable) (course : String) : Int :=
  (Table.find? t course).getD 0

/-- Entering a depth changes the depth of that course and of no other. -/
theorem depthOf_insert (t : DepthTable) (c c' : String) (d : Int) :
    depthOf (Table.insert t c d) c' = if c = c' then d else depthOf t c' := by
  unfold depthOf
  rw [Table.find?_insert]
  split <;> rfl

end DepthTable

/-- The depth at which enough of some parts are met; the depths of the parts are in ascending
order. A group that asks for two parts and has one asks for that one. -/
def Logic.depthOf : Logic → List Int → Int
  | _, [] => 0
  | .oneOf, d :: _ => d
  | .twoOf, [d] => d
  | .twoOf, _ :: d :: _ => d
  | .allOf, d :: ds => (d :: ds).getLast (List.cons_ne_nil _ _)

/-- The depths above 0, in ascending order. -/
def countedDepths (ds : List Int) : List Int :=
  (ds.filter fun d => decide (0 < d)).mergeSort fun a b => decide (a ≤ b)

namespace Requirement

mutual

/-- The depth of a requirement, given the depths of courses. -/
def depth (known : DepthTable) : Requirement → Int
  | course id .. => known.depthOf id.text + 1
  | group logic first rest =>
    logic.depthOf (countedDepths (first.depth known :: depths known rest))
  | _ => 0

/-- The depths of some requirements. -/
def depths (known : DepthTable) : List Requirement → List Int
  | [] => []
  | t :: rest => t.depth known :: depths known rest

end

/-- The depths of a list are the depths of its members. -/
theorem depths_eq_map (known : DepthTable) (ts : List Requirement) :
    depths known ts = ts.map (depth known) := by
  induction ts with
  | nil => rfl
  | cons t rest ih => rw [depths, ih, List.map_cons]

end Requirement

/-- The depth that the binding trees of a course ask for; at least 0. -/
def CourseRequirements.depth (r : CourseRequirements) (known : DepthTable) : Int :=
  r.bindingTrees.foldl (fun d t => max d (t.depth known)) 0

end Curriculum
