import Curriculum.Proofs.Reading.Success
import Curriculum.Record.Listing

/-!
# What entries of the listing state

An entry states a course if the code that it gives is a text, and each of its two texts is a text or
says nothing (`Listing.States`). Those are the entries that give a record, and the record is that of a
new course with what the entry states (`record?_eq_ok_some_iff`). What says nothing counts as absent,
so no text of a stated course is empty.
-/

namespace Curriculum

namespace Listing

open Reading

/-- A course as it is listed. -/
structure Course where
  code : String
  prerequisite : Option String
  corequisite : Option String

/-- The value of a text that may be absent. -/
def textOrNull : Option String → Json
  | some s => .text s
  | none => .null

/-- An entry states a course, all of it in texts. -/
def States (entry : Json) (c : Course) : Prop :=
  ∃ fields, entry = .object fields ∧ code? fields = some (.text c.code) ∧
    telling fields "prer" = textOrNull c.prerequisite ∧
    telling fields "crer" = textOrNull c.corequisite

/-- An empty text tells nothing. -/
theorem telling_ne_empty (fields : Table String Json) (name : String) :
    telling fields name ≠ .text "" := by
  unfold telling
  split
  · next j hfind =>
    split
    · exact Json.noConfusion
    · next hvoid =>
      rintro rfl
      exact hvoid rfl
  · exact Json.noConfusion

theorem States.prerequisite_ne {entry : Json} {c : Course} (h : States entry c) :
    c.prerequisite ≠ some "" := by
  obtain ⟨fields, -, -, htext, -⟩ := h
  intro hempty
  rw [hempty] at htext
  exact telling_ne_empty fields _ htext

theorem States.corequisite_ne {entry : Json} {c : Course} (h : States entry c) :
    c.corequisite ≠ some "" := by
  obtain ⟨fields, -, -, -, htext⟩ := h
  intro hempty
  rw [hempty] at htext
  exact telling_ne_empty fields _ htext

/-- A text of a course is read if it is a text or null. -/
theorem optional_text_eq_ok_iff {fields : Table String Json} {name : String} {j : Json}
    (hfind : fields.find? name = some j) {o : Option String} :
    optional fields name text = .ok o ↔ j = textOrNull o := by
  cases o with
  | none => simp [optional_eq_ok_none_iff, hfind, textOrNull]
  | some s =>
    rw [optional_eq_ok_some_iff, hfind]
    constructor
    · rintro ⟨j', hj, -, htext⟩
      rw [Option.some.inj hj]
      exact text_eq_ok_iff.mp htext
    · rintro rfl
      exact ⟨_, rfl, Json.noConfusion, rfl⟩

/-- The entries that give a record are those that state a course. -/
theorem record?_eq_ok_some_iff {now : String} {entry : Json} {r : Record} :
    record? now entry = .ok (some r) ↔
      ∃ c, States entry c ∧ r = newRecord now c.code c.prerequisite c.corequisite := by
  constructor
  · intro h
    cases entry with
    | object fields =>
      rw [record?] at h
      split at h
      · exact absurd h (by simp)
      · next code hcode =>
        split at h
        · next found hread =>
          obtain rfl := Option.some.inj (Except.ok.inj h)
          simp only [readRecord, apply_eq_ok_iff, combine_eq_ok_iff] at hread
          obtain ⟨_, corequisite, ⟨course, prerequisite, hcourse, hp, rfl⟩, hc, rfl⟩ := hread
          have hcourse : some code = some (.text course) := required_text_eq_ok_iff.mp hcourse
          refine ⟨⟨course, prerequisite, corequisite⟩, ⟨fields, rfl, hcode.trans hcourse, ?_, ?_⟩, rfl⟩
          · exact (optional_text_eq_ok_iff rfl).mp hp
          · exact (optional_text_eq_ok_iff rfl).mp hc
        · exact absurd h (by simp)
    | _ => exact absurd h (by simp [record?])
  · rintro ⟨c, ⟨fields, rfl, hcode, hp, hc⟩, rfl⟩
    have hread : readRecord now fields (.text c.code)
        = .ok (newRecord now c.code c.prerequisite c.corequisite) := by
      simp only [readRecord, apply_eq_ok_iff, combine_eq_ok_iff]
      exact ⟨_, _, ⟨_, _, required_text_eq_ok_iff.mpr rfl,
        (optional_text_eq_ok_iff rfl).mpr hp, rfl⟩, (optional_text_eq_ok_iff rfl).mpr hc, rfl⟩
    simp only [record?, hcode, hread]

end Listing

end Curriculum
