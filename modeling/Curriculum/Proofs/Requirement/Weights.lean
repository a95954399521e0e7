import Curriculum.Proofs.Binary64.Power
import Curriculum.Proofs.Requirement.Named
import Curriculum.Weight
import Mathlib.Data.List.Basic

/-!
# Weights are numbers, and finite

The weights of an edge are compared, so each of them has to be a number, and of two that are equally
large it must not matter which is kept. The weight that a tree hands down starts at 1 and never gets
a sign: it is only doubled and divided by counts (`AtMostPower.share`). A share is at most twice
what is shared, so a course that stands in `k` groups has a weight of at most 2 to the power `k`
(`dependencies_atMostPower`), which is finite up to 1023 groups.

The weights stand in the order of the courses that the tree names, one for each
(`map_fst_dependencies`).
-/

namespace Curriculum

namespace Binary64

/-- A share is at most twice what is shared. -/
theorem AtMostPower.share (logic : Logic) {x : Binary64} {k n : Nat} (h : x.AtMostPower k)
    (hn : 0 < n) : (Binary64.share logic x n).AtMostPower (k + 1) := by
  cases logic with
  | allOf => exact h.mono (Nat.le_succ k)
  | oneOf => exact (h.divCount hn).mono (Nat.le_succ k)
  | twoOf => exact h.double.divCount hn

end Binary64

namespace Requirement

variable {α : Type} (share : Sharing Id α)

theorem weightsOfList_eq (w : α) (ts : List Requirement) :
    weightsOfList share w ts = ts.flatMap fun t => Id.run (weights share w t) := by
  induction ts with
  | nil => rfl
  | cons t rest ih =>
    rw [List.flatMap_cons, ← ih]
    rfl

/-- A group hands the same share to each part. -/
theorem weights_group (w : α) (logic : Logic) (first : Requirement) (rest : List Requirement) :
    weights share w (group logic first rest)
      = (first :: rest).flatMap fun t =>
          Id.run (weights share (share logic w (rest.length + 1)) t) := by
  rw [List.flatMap_cons, ← weightsOfList_eq]
  rfl

/-- A course that stands in some groups has a weight below that power of two. -/
theorem weights_atMostPower {t : Requirement} {w : Binary64} {k limit : Nat}
    (hw : w.AtMostPower k) (hlimit : k + t.groupNesting ≤ limit) {dep : String × Binary64}
    (hdep : dep ∈ Id.run (weights Binary64.share w t)) : dep.2.AtMostPower limit := by
  induction t using inductionOnParts generalizing w k with
  | step t ih =>
    cases t with
    | course id =>
      rw [List.mem_singleton.mp hdep]
      exact hw.mono (by omega)
    | group logic first rest =>
      rw [weights_group] at hdep
      obtain ⟨p, hp, hmem⟩ := List.mem_flatMap.mp hdep
      -- the part has one group less around its courses and a weight of one power more
      have hpart : p.groupNesting < (group logic first rest).groupNesting :=
        groupNesting_lt_of_mem hp
      exact ih p hp (hw.share logic (Nat.succ_pos _)) (by omega) hmem
    | _ => exact absurd hdep List.not_mem_nil

/-- **A weight is at most 2 to the power of the groups that are nested.** -/
theorem dependencies_atMostPower {t : Requirement} {dep : String × Binary64}
    (h : dep ∈ t.dependencies) : dep.2.AtMostPower t.groupNesting :=
  weights_atMostPower Binary64.one_atMostPower (Nat.le_of_eq (Nat.zero_add _)) h

theorem dependencies_isUnsigned {t : Requirement} {dep : String × Binary64}
    (h : dep ∈ t.dependencies) : dep.2.IsUnsigned :=
  (dependencies_atMostPower h).isUnsigned

/-- Whatever sharing does, the weights stand in the order of the courses that a tree names, one for
each. -/
theorem map_fst_weights (t : Requirement) (w : α) :
    (Id.run (weights share w t)).map (·.1) = t.namedCourses := by
  induction t using inductionOnParts generalizing w with
  | step t ih =>
    cases t with
    | group logic first rest =>
      rw [weights_group, namedCourses_group]
      show ((first :: rest).flatMap _).map _ = _
      rw [List.map_flatMap]
      exact List.flatMap_congr fun p hp => ih p hp _
    | _ => rfl

theorem map_fst_dependencies (t : Requirement) : t.dependencies.map (·.1) = t.namedCourses :=
  map_fst_weights Binary64.share t _

end Requirement

end Curriculum
