import Curriculum.Proofs.Requirement.Reading
import Curriculum.Record.Reading

/-!
# When a record is read

Records and the requirements of a course are rows of fields, so they are read exactly when each of
their fields is, and then they hold what the fields gave.
-/

namespace Curriculum

open Reading

variable {source : Source} {fields : Table String Json}

theorem Section.mem_all (s : Section) : s ∈ Section.all := by
  cases s <;> decide

/-- The requirements of a course are read when their two texts and the four trees are. -/
theorem CourseRequirements.read_eq_ok_iff {r : CourseRequirements} :
    CourseRequirements.read source (.object fields) = .ok r ↔
      required fields "department" text = .ok r.department ∧
        required fields "code" text = .ok r.code ∧
          ∀ s, optional fields (Section.key s) (Requirement.read source 0) = .ok (r.tree s) := by
  simp only [CourseRequirements.read, apply_eq_ok_iff, combine_eq_ok_iff]
  constructor
  · rintro ⟨_, rc, ⟨_, rp, ⟨_, c, ⟨_, p, ⟨d, k, hd, hk, rfl⟩, hp, rfl⟩, hc, rfl⟩, hrp, rfl⟩, hrc,
      rfl⟩
    refine ⟨hd, hk, fun s => ?_⟩
    cases s with
    | prerequisites => exact hp
    | corequisites => exact hc
    | recommendedPrerequisites => exact hrp
    | recommendedCorequisites => exact hrc
  · rintro ⟨hd, hk, htree⟩
    exact ⟨_, _, ⟨_, _, ⟨_, _, ⟨_, _, ⟨_, _, hd, hk, rfl⟩, htree .prerequisites, rfl⟩,
      htree .corequisites, rfl⟩, htree .recommendedPrerequisites, rfl⟩,
      htree .recommendedCorequisites, rfl⟩

theorem CourseRequirements.exists_fields_of_read {j : Json} {r : CourseRequirements}
    (h : CourseRequirements.read source j = .ok r) : ∃ fields, j = .object fields := by
  cases j with
  | object fields => exact ⟨fields, rfl⟩
  | _ => exact absurd h (by simp [CourseRequirements.read])

namespace Record

/-- A record is read when each of its fields is. -/
theorem read_eq_ok_iff {r : Record} :
    Record.read source (.object fields) = .ok r ↔
      readSchema fields = .ok r.schemaVersion ∧
        required fields "course" text = .ok r.course ∧
        optional fields "originalPrerequisite" text = .ok r.prerequisiteText ∧
        optional fields "originalCorequisite" text = .ok r.corequisiteText ∧
        required fields "status" (named Status.ofName?) = .ok r.status ∧
        optional fields "parsedRequirements" (CourseRequirements.read source) = .ok r.requirements ∧
        optional fields "blacklistReason" text = .ok r.blacklistReason ∧
        optional fields "errorMessage" text = .ok r.errorMessage ∧
        required fields "lastUpdated" text = .ok r.lastUpdated := by
  simp only [Record.read, apply_eq_ok_iff, combine_eq_ok_iff]
  constructor
  · rintro ⟨_, lu, ⟨_, em, ⟨_, br, ⟨_, pr, ⟨_, st, ⟨_, oc, ⟨_, op, ⟨sv, c, hsv, hc, rfl⟩, hop, rfl⟩,
      hoc, rfl⟩, hst, rfl⟩, hpr, rfl⟩, hbr, rfl⟩, hem, rfl⟩, hlu, rfl⟩
    exact ⟨hsv, hc, hop, hoc, hst, hpr, hbr, hem, hlu⟩
  · rintro ⟨hsv, hc, hop, hoc, hst, hpr, hbr, hem, hlu⟩
    exact ⟨_, _, ⟨_, _, ⟨_, _, ⟨_, _, ⟨_, _, ⟨_, _, ⟨_, _, ⟨_, _, hsv, hc, rfl⟩, hop, rfl⟩, hoc, rfl⟩,
      hst, rfl⟩, hpr, rfl⟩, hbr, rfl⟩, hem, rfl⟩, hlu, rfl⟩

theorem exists_fields_of_read {j : Json} {r : Record} (h : Record.read source j = .ok r) :
    ∃ fields, j = .object fields := by
  cases j with
  | object fields => exact ⟨fields, rfl⟩
  | _ => exact absurd h (by simp [Record.read])

end Record

end Curriculum
