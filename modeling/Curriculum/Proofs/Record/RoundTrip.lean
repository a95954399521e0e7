import Curriculum.CourseFolder.Basic
import Curriculum.Proofs.Record.Document

/-!
# Record files

A saved record is loaded as it was, and saving it once more changes nothing. The one bound is that of
the reader, 200 containers nested in each other; a record that was itself loaded from a file keeps
it, since its document is not nested deeper than the file that it came from.

> `saved_record_is_loaded`: this for every record, and for every folder in which it can be saved.
-/

namespace Curriculum

namespace Record

open Reading

/-- A record is read from its text if its document is not nested too deep. -/
theorem ofText_written {r : Record} (h : r.toJson.nesting ≤ 200) : ofText r.written = .ok r := by
  have hproper : r.toJson.Proper Requirement.textLimits.wholePart := r.proper_toJson (by decide)
  rw [ofText, written, Json.read?_render hproper h]
  exact r.read_toJson

/-- What is loaded from a text can be written out and loaded again. -/
theorem nesting_le_of_ofText {s : String} {r : Record} (h : ofText s = .ok r) :
    r.toJson.nesting ≤ 200 := by
  rw [ofText] at h
  split at h
  · next j hj => exact Nat.le_trans (nesting_toJson_le h) (Json.nesting_le_of_read? hj)
  · exact absurd h (by simp)

end Record

namespace CourseFolder

theorem recordOf_eq_ok_iff {text : String} {r : Record} :
    recordOf text = .ok r ↔ Record.ofText text = .ok r := by
  unfold recordOf
  cases Record.ofText text <;> simp

theorem save_eq_ok_iff {folder saved : CourseFolder} {room : Nat} {r : Record} :
    save folder room r = .ok saved ↔ (fileName r.course).utf8ByteSize ≤ room ∧
      (∀ entries, Table.find? folder (fileName r.course) ≠ some (.folder entries)) ∧
        saved = folder.put (fileName r.course) r := by
  unfold save
  dsimp only
  split
  · next h => simp [Nat.not_le.mpr h]
  · next h =>
    split
    · next entries hfolder => simp [hfolder]
    · next hnone =>
      have hne : ∀ entries, Table.find? folder (fileName r.course) ≠ some (.folder entries) := hnone
      simp [hne, Nat.not_lt.mp h, eq_comm]

/-- **A saved record is loaded as it was**, and saving it again leaves the folder as it is. -/
theorem saved_record_is_loaded {r : Record}
    (h : r.toJson.nesting ≤ 200 ∨ ∃ text, recordOf text = .ok r) :
    recordOf r.written = .ok r ∧ ∀ folder room saved, save folder room r = .ok saved →
      ∃ file, Table.find? saved (fileName r.course) = some file ∧ recordIn file = .ok r ∧
        save saved room r = .ok saved := by
  have hnesting : r.toJson.nesting ≤ 200 := by
    rcases h with h | ⟨text, htext⟩
    · exact h
    · exact Record.nesting_le_of_ofText (recordOf_eq_ok_iff.mp htext)
  have hload : recordOf r.written = .ok r := recordOf_eq_ok_iff.mpr (Record.ofText_written hnesting)
  refine ⟨hload, fun folder room saved hsave => ?_⟩
  obtain ⟨hroom, -, rfl⟩ := save_eq_ok_iff.mp hsave
  have hfile : Table.find? (folder.put (fileName r.course) r) (fileName r.course)
      = some (.file (some r.written)) := by
    rw [put, Table.find?_insert, if_pos rfl]
  refine ⟨_, hfile, hload, save_eq_ok_iff.mpr ⟨hroom, ?_, ?_⟩⟩
  · rw [hfile]
    simp
  · rw [put, put, Table.insert_insert]

/-- A record with marks, control characters, a line separator and an infinite amount. -/
def sampleRecord : Record where
  schemaVersion := currentSchema
  course := "MATH 200"
  prerequisiteText := some (String.ofList ['"', '\\', '\n', Char.ofNat 1, Char.ofNat 0x2028])
  corequisiteText := none
  status := .parsed
  requirements := some
    { department := "MATH"
      code := "200"
      prerequisites := some (.group .oneOf (.program ⟨"Honours", by decide⟩)
        [.credits ⟨.infinity false, by decide +kernel⟩ ⟨some (.many ["MATH", "STAT"]), none, none⟩])
      corequisites := none
      recommendedPrerequisites := none
      recommendedCorequisites := none }
  blacklistReason := none
  errorMessage := none
  lastUpdated := ""

theorem sampleRecord_nesting : sampleRecord.toJson.nesting ≤ 200 := by decide +kernel

theorem sampleRecord_is_loaded : sampleRecord.toJson.nesting ≤ 200 ∧
    recordOf sampleRecord.written = .ok sampleRecord ∧
      ∃ saved file, save [] 255 sampleRecord = .ok saved ∧
        Table.find? saved "MATH_200.json" = some file ∧ recordIn file = .ok sampleRecord ∧
          save saved 255 sampleRecord = .ok saved := by
  obtain ⟨hload, hfolder⟩ := saved_record_is_loaded (Or.inl sampleRecord_nesting)
  have hsave : save [] 255 sampleRecord = .ok (put [] "MATH_200.json" sampleRecord) := by
    refine save_eq_ok_iff.mpr ⟨by decide, by simp, ?_⟩
    rfl
  obtain ⟨file, hfile, hrecord, hagain⟩ := hfolder _ _ _ hsave
  exact ⟨sampleRecord_nesting, hload, _, file, hsave, hfile, hrecord, hagain⟩

end CourseFolder

end Curriculum
