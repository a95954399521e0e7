import Curriculum.Requirement.Basic

/-!
# The courses that a requirement names

Depths, weights and edges all hang on the courses at the leaves of a tree, so the leaves are listed
once (`Requirement.namedCourses`), from left to right and as often as they stand there. A tree
*counts* in its group when it names a course at all.

Facts about trees are shown by `inductionOnParts`: what holds of a tree as soon as it holds of its
parts holds of every tree. A function that recurses over a tree and its list of parts gets one
equation for groups (`namedCourses_group` and `groupNesting_group` here), so that no later
proof runs over lists of trees again.
-/

namespace Curriculum

namespace Requirement

mutual

/-- The courses that a requirement names, from left to right. -/
def namedCourses : Requirement → List String
  | course id .. => [id.text]
  | group _ first rest => namedCourses first ++ namedCoursesOfList rest
  | _ => []

/-- The courses that some requirements name. -/
def namedCoursesOfList : List Requirement → List String
  | [] => []
  | t :: rest => namedCourses t ++ namedCoursesOfList rest

end

/-- Whether a requirement names a course. -/
def counts (t : Requirement) : Bool := !t.namedCourses.isEmpty

/-! ## Induction -/

/-- What holds of a tree as soon as it holds of its parts holds of every tree. -/
theorem inductionOnParts {motive : Requirement → Prop}
    (step : ∀ t, (∀ p ∈ t.parts, motive p) → motive t) (t : Requirement) : motive t := by
  refine step t fun p hp => ?_
  cases t with
  | group _ first rest =>
    -- a group is larger than the list of its parts, and that than each of them
    have hlt : sizeOf p < sizeOf (first :: rest) := List.sizeOf_lt_of_mem hp
    exact inductionOnParts step p
  | _ => exact absurd hp List.not_mem_nil
termination_by sizeOf t
decreasing_by
  simp only [List.cons.sizeOf_spec, group.sizeOf_spec] at hlt ⊢
  omega

/-! ## One equation for groups -/

theorem namedCoursesOfList_eq (ts : List Requirement) :
    namedCoursesOfList ts = ts.flatMap namedCourses := by
  induction ts with
  | nil => rfl
  | cons t rest ih => rw [namedCoursesOfList, ih, List.flatMap_cons]

theorem namedCourses_group (logic : Logic) (first : Requirement) (rest : List Requirement) :
    (group logic first rest).namedCourses = (first :: rest).flatMap namedCourses := by
  rw [namedCourses, namedCoursesOfList_eq, List.flatMap_cons]

theorem mem_namedCourses_group {logic : Logic} {first : Requirement} {rest : List Requirement}
    {c : String} :
    c ∈ (group logic first rest).namedCourses ↔ ∃ p ∈ first :: rest, c ∈ p.namedCourses := by
  rw [namedCourses_group, List.mem_flatMap]

theorem counts_iff {t : Requirement} : t.counts = true ↔ ∃ c, c ∈ t.namedCourses := by
  rw [counts, Bool.not_eq_true', List.isEmpty_eq_false_iff_exists_mem]

/-- A group counts when one of its parts does. -/
theorem counts_group {logic : Logic} {first : Requirement} {rest : List Requirement} :
    (group logic first rest).counts = true ↔ ∃ p ∈ first :: rest, p.counts = true := by
  simp only [counts_iff, mem_namedCourses_group]
  constructor
  · rintro ⟨c, p, hp, hc⟩
    exact ⟨p, hp, c, hc⟩
  · rintro ⟨p, hp, c, hc⟩
    exact ⟨c, p, hp, hc⟩

theorem groupNestingOfList_le_iff {ts : List Requirement} {k : Nat} :
    groupNestingOfList ts ≤ k ↔ ∀ t ∈ ts, t.groupNesting ≤ k := by
  induction ts with
  | nil => simp [groupNestingOfList]
  | cons t rest ih => rw [groupNestingOfList, Nat.max_le, ih, List.forall_mem_cons]

theorem groupNesting_group (logic : Logic) (first : Requirement) (rest : List Requirement) :
    (group logic first rest).groupNesting = groupNestingOfList (first :: rest) + 1 := rfl

theorem groupNesting_group_le_iff {logic : Logic} {first : Requirement} {rest : List Requirement}
    {k : Nat} : (group logic first rest).groupNesting ≤ k + 1 ↔
      ∀ t ∈ first :: rest, t.groupNesting ≤ k := by
  rw [groupNesting_group, Nat.succ_le_succ_iff, groupNestingOfList_le_iff]

theorem groupNesting_lt_of_mem {logic : Logic} {first p : Requirement} {rest : List Requirement}
    (hp : p ∈ first :: rest) : p.groupNesting < (group logic first rest).groupNesting := by
  rw [groupNesting_group]
  exact Nat.lt_succ_of_le (groupNestingOfList_le_iff.mp (Nat.le_refl _) p hp)

end Requirement

end Curriculum
