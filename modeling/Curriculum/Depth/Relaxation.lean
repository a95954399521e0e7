import Curriculum.Depth.Requirement
import Curriculum.Text.Order

/-!
# Settling the depths of all courses

The depths of courses hang on each other, so they are settled by passes over one table. Every
course starts at 0; a pass computes the depth of each course in turn from the table as it stands,
and raises the entry if the depth is larger. Passes are made until one raises nothing, or until the
ceiling is reached, which happens when courses ask for each other. The table is then the best that
is known, and the courses raised in the last pass are reported as unstable.
-/

namespace Curriculum

/-- What a pass has done so far: the table, and the courses whose entries it has raised. -/
structure Pass where
  depths : DepthTable
  grown : List String

namespace Pass

/-- Note that a course has grown. -/
def noteGrown (grown : List String) (course : String) : List String :=
  if course ∈ grown then grown else grown ++ [course]

/-- Compute the depth of one course and raise its entry if the depth is larger. -/
def visit (p : Pass) (c : ParsedCourse) : Pass :=
  let d := c.2.depth p.depths
  if p.depths.depthOf c.1 < d then ⟨p.depths.insert c.1 d, noteGrown p.grown c.1⟩ else p

/-- One pass over all courses. -/
def run (courses : List ParsedCourse) (depths : DepthTable) : Pass :=
  courses.foldl visit ⟨depths, []⟩

end Pass

/-- The depths of all courses, as far as they are settled. -/
structure Resolution where
  depths : DepthTable
  passes : Int
  converged : Bool
  /-- The courses raised in the last pass, if the depths are not settled. -/
  unstable : List String

namespace Resolution

/-- Make passes until one raises nothing; `left` more are allowed and `made` were made. -/
def settle (courses : List ParsedCourse) (left made : Nat) (p : Pass) : Resolution :=
  if p.grown = [] then ⟨p.depths, made, true, []⟩
  else
    match left with
    | 0 => ⟨p.depths, made, false, p.grown⟩
    | left + 1 => settle courses left (made + 1) (Pass.run courses p.depths)

/-- The table to start from: courses that have no depth yet stand at 0. -/
def start (courses : List ParsedCourse) (depths : DepthTable) : DepthTable :=
  courses.foldl (fun t c => Table.insertIfNew t c.1 0) depths

/-- Settle the depths of courses, starting from a table, with at most `ceiling` passes. All courses
count as raised at first. -/
def startingFrom (courses : List ParsedCourse) (ceiling : Int) (depths : DepthTable) : Resolution :=
  settle courses ceiling.toNat 0
    ⟨start courses depths, courses.foldl (fun g c => Pass.noteGrown g c.1) []⟩

/-- Settle the depths of courses with at most `ceiling` passes. -/
def ofCourses (courses : List ParsedCourse) (ceiling : Int) : Resolution :=
  startingFrom courses ceiling []

/-- The warning about depths that are not settled. -/
def warnings (r : Resolution) : List String :=
  if r.converged then []
  else
    ["Depth resolution did not converge after " ++ toString r.passes ++ " passes; "
      ++ toString r.unstable.length ++ " courses still growing"]

/-- The unstable courses, in the order of their texts. -/
def unstableSorted (r : Resolution) : List String := Text.sorted r.unstable

end Resolution

/-- The ceiling on passes when none is given. -/
def defaultCeiling : Int := 10

end Curriculum
