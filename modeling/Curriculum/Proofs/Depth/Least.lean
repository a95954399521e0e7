import Curriculum.Proofs.Depth.Rounds
import Mathlib.Data.Int.Order.Basic
import Mathlib.Data.List.Permutation
import Mathlib.Order.Bounds.Defs

/-!
# What the table says

Two readings of the table that settling ends with.

If the depths are settled, the table is the *least solution* of the depth equations
(`converged_isLeastSolution`): no entry is below what its course asks for, every table with that
property is nowhere lower, and the entry of a course is exactly the most that a record of the course
asks for.

If they are not, part of the table can be trusted all the same (`depth_final_below_ceiling`): an
entry that is less than the number of passes allowed stays as it is however many more are allowed.
-/

namespace Curriculum

open DepthTable

/-- The least table, no entry being below 0, that gives every course what it asks for. -/
structure DepthTable.IsLeastSolution (courses : List ParsedCourse) (t : DepthTable) : Prop where
  nonneg : t.Nonneg
  covers : ∀ c ∈ courses, c.2.depth t ≤ t.depthOf c.1
  least : ∀ T : DepthTable, T.Nonneg → (∀ c ∈ courses, c.2.depth T ≤ T.depthOf c.1) →
    ∀ id, t.depthOf id ≤ T.depthOf id
  exact : ∀ id ∈ courses.map (·.1),
    IsGreatest {d | ∃ r, (id, r) ∈ courses ∧ r.depth t = d} (t.depthOf id)

/-- Where every record has what it asks for and every entry is asked for, the entry of a course is
the most that a record of the course asks for. -/
theorem isGreatest_asked {courses : List ParsedCourse} {t : DepthTable} (hc : t.Covers courses)
    (hn : t.Nonneg) (hs : t.Supported courses) {id : String} (hid : id ∈ courses.map (·.1)) :
    IsGreatest {d | ∃ r, (id, r) ∈ courses ∧ r.depth t = d} (t.depthOf id) := by
  have hbound : ∀ r, (id, r) ∈ courses → r.depth t ≤ t.depthOf id := fun r hr => hc (id, r) hr
  constructor
  · by_cases hpos : 0 < t.depthOf id
    · obtain ⟨r, hr, hle⟩ := hs id hpos
      exact ⟨r, hr, Int.le_antisymm (hbound r hr) hle⟩
    · -- an entry of 0 is what any record of the course asks for
      obtain ⟨c, hmem, hcid⟩ := List.mem_map.mp hid
      have hr : (id, c.2) ∈ courses := hcid ▸ hmem
      have hasked := hbound c.2 hr
      have hzero := c.2.depth_nonneg t
      have hentry := hn id
      exact ⟨c.2, hr, by omega⟩
  · rintro d ⟨r, hr, rfl⟩
    exact hbound r hr

/-- A course of which only a prerequisite is known. -/
def askingFor (t : Requirement) : CourseRequirements := ⟨"MATH", "", some t, none, none, none⟩

/-- A course without further conditions. -/
def plainCourse (id : String) (h : id ≠ "") : Requirement := .course ⟨id, h⟩ none none none

/-- A chain in the wrong order, and two courses that ask for each other. If `wayOut` is there, one
of the two may be replaced by it. -/
def loopCatalog (wayOut : List Requirement) : List ParsedCourse :=
  [("MATH 3", askingFor (plainCourse "MATH 2" (by decide))),
    ("MATH 2", askingFor (plainCourse "MATH 1" (by decide))),
    ("PHYS 1", askingFor (.group .oneOf (plainCourse "PHYS 2" (by decide)) wayOut)),
    ("PHYS 2", askingFor (plainCourse "PHYS 1" (by decide)))]

namespace Resolution

variable (courses : List ParsedCourse) (ceiling : Int)

theorem ofCourses_nonneg : (ofCourses courses ceiling).depths.Nonneg := by
  rw [ofCourses_depths]
  exact rounds_nonneg courses (start_nil_allZero courses).nonneg _

theorem ofCourses_supported : (ofCourses courses ceiling).depths.Supported courses := by
  rw [ofCourses_depths]
  have h0 := start_nil_allZero courses
  exact rounds_supported h0.nonneg h0.supported _

/-- No entry is above that of a table that covers the courses, settled or not. -/
theorem ofCourses_below {T : DepthTable} (hn : T.Nonneg) (hT : T.Covers courses) :
    (ofCourses courses ceiling).depths.Below T := by
  rw [ofCourses_depths]
  have h0 := start_nil_allZero courses
  refine rounds_below hT h0.nonneg (fun id => ?_) _
  rw [h0 id]
  exact hn id

/-- **Settled depths are the least solution.** -/
theorem converged_isLeastSolution (h : (ofCourses courses ceiling).converged = true) :
    IsLeastSolution courses (ofCourses courses ceiling).depths := by
  have hc := covers_of_converged h
  have hn := ofCourses_nonneg courses ceiling
  exact {
    nonneg := hn
    covers := hc
    least := fun T hT hcT => ofCourses_below courses ceiling hT hcT
    exact := fun _ hid => isGreatest_asked hc hn (ofCourses_supported courses ceiling) hid }

theorem loopCatalog_isLeastSolution :
    (ofCourses (loopCatalog [plainCourse "MATH 1" (by decide)]) 10).converged = true ∧
      IsLeastSolution (loopCatalog [plainCourse "MATH 1" (by decide)])
        (ofCourses (loopCatalog [plainCourse "MATH 1" (by decide)]) 10).depths := by
  have h : (ofCourses (loopCatalog [plainCourse "MATH 1" (by decide)]) 10).converged = true := by
    cbv
  exact ⟨h, converged_isLeastSolution _ 10 h⟩

/-- **Depths below the ceiling are final.** A higher ceiling lowers no depth, and keeps every depth
that is less than the lower ceiling, whether or not any of the depths are settled. -/
theorem depth_final_below_ceiling {a b : Int} (hab : a ≤ b) (id : String) :
    (ofCourses courses a).depths.depthOf id ≤ (ofCourses courses b).depths.depthOf id ∧
      ((ofCourses courses a).depths.depthOf id < a →
        (ofCourses courses b).depths.depthOf id = (ofCourses courses a).depths.depthOf id) := by
  simp only [ofCourses_depths]
  have hmono : a.toNat ≤ b.toNat := Int.toNat_le_toNat hab
  have hle := rounds_mono courses (start courses []) hmono id
  have hreach := min_rounds_le courses (start_nil_allZero courses) hmono id
  refine ⟨hle, fun hlt => ?_⟩
  omega

/-- The chain is final after three passes although the two other courses keep growing. -/
theorem loopCatalog_final_below_ceiling :
    (3 : Int) ≤ 8 ∧ (ofCourses (loopCatalog []) 8).converged = false ∧
      (ofCourses (loopCatalog []) 3).depths.depthOf "MATH 3" < 3 ∧
      (ofCourses (loopCatalog []) 8).depths.depthOf "MATH 3"
        = (ofCourses (loopCatalog []) 3).depths.depthOf "MATH 3" := by
  have hlt : (ofCourses (loopCatalog []) 3).depths.depthOf "MATH 3" < 3 := by decide_cbv
  have hconv : (ofCourses (loopCatalog []) 8).converged = false := by cbv
  exact ⟨by decide, hconv, hlt,
    (depth_final_below_ceiling (loopCatalog []) (by decide) "MATH 3").2 hlt⟩

end Resolution

end Curriculum
