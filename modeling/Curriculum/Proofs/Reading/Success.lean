import Curriculum.Reading.Scalar
import Mathlib.Data.List.Forall2

/-!
# When reading succeeds

Reading a document put together from parts succeeds exactly when reading each part does, and then
gives what is put together from the values of the parts. There is one such equation for each way in
which parts are put together, so later proofs never look at the faults of a reading that succeeds.
-/

namespace Curriculum

namespace Reading

variable {α β γ : Type}

@[simp] theorem map_eq_ok_iff {f : α → β} {x : Reading α} {b : β} :
    x.map f = .ok b ↔ ∃ a, x = .ok a ∧ f a = b := by
  cases x <;> simp [map]

@[simp] theorem combine_eq_ok_iff {f : α → β → γ} {x : Reading α} {y : Reading β} {c : γ} :
    combine f x y = .ok c ↔ ∃ a b, x = .ok a ∧ y = .ok b ∧ f a b = c := by
  cases x <;> cases y <;> simp [combine, both, map]

@[simp] theorem apply_eq_ok_iff {f : Reading (α → β)} {x : Reading α} {b : β} :
    apply f x = .ok b ↔ ∃ g a, f = .ok g ∧ x = .ok a ∧ g a = b :=
  combine_eq_ok_iff

@[simp] theorem inside_eq_ok_iff {step : Step} {x : Reading α} {a : α} :
    inside step x = .ok a ↔ x = .ok a := by
  cases x <;> simp [inside]

@[simp] theorem fault_ne_ok {kind : FaultKind} {a : α} : (fault kind : Reading α) = .ok a ↔ False := by
  simp [fault]

@[simp] theorem ofOption_eq_ok_iff {kind : FaultKind} {o : Option α} {a : α} :
    ofOption kind o = .ok a ↔ o = some a := by
  cases o <;> simp [ofOption, fault]

@[simp] theorem required_eq_ok_iff {fields : Table String Json} {name : String}
    {read : Json → Reading α} {a : α} :
    required fields name read = .ok a ↔ ∃ j, fields.find? name = some j ∧ read j = .ok a := by
  rw [required, inside_eq_ok_iff]
  cases fields.find? name <;> simp

@[simp] theorem text_eq_ok_iff {j : Json} {s : String} : text j = .ok s ↔ j = .text s := by
  cases j <;> simp [text]

theorem required_text_eq_ok_iff {fields : Table String Json} {name s : String} :
    required fields name text = .ok s ↔ fields.find? name = some (.text s) := by
  simp

/-- A field that may be absent gives nothing when it is absent or null. -/
theorem optional_eq_ok_none_iff {fields : Table String Json} {name : String}
    {read : Json → Reading α} :
    optional fields name read = .ok none ↔
      fields.find? name = none ∨ fields.find? name = some .null := by
  unfold optional
  split
  · next h => simp [h]
  · next h => simp [h]
  · next j hnull h => simp_all

theorem optional_eq_ok_some_iff {fields : Table String Json} {name : String}
    {read : Json → Reading α} {a : α} :
    optional fields name read = .ok (some a) ↔
      ∃ j, fields.find? name = some j ∧ j ≠ .null ∧ read j = .ok a := by
  unfold optional
  split
  · next h => simp [h]
  · next h => simp [h]
  · next j hnull h =>
    have hne : j ≠ .null := hnull
    simp [h, hne]

/-- In two rows related item by item, each item on the left has one on the right. -/
theorem exists_rel_of_mem {R : α → β → Prop} {as : List α} {bs : List β}
    (h : List.Forall₂ R as bs) {a : α} (ha : a ∈ as) : ∃ b ∈ bs, R a b := by
  induction h with
  | nil => exact absurd ha List.not_mem_nil
  | cons hab _ ih =>
    rcases List.mem_cons.mp ha with rfl | ha
    · exact ⟨_, List.mem_cons_self, hab⟩
    · obtain ⟨b, hb, hab⟩ := ih ha
      exact ⟨b, List.mem_cons_of_mem _ hb, hab⟩

/-- A row of items is read when each of them is. -/
theorem items_eq_ok_iff {read : Json → Reading α} {js : List Json} {index : Nat} {as : List α} :
    items read index js = .ok as ↔ List.Forall₂ (fun j a => read j = .ok a) js as := by
  induction js generalizing index as with
  | nil =>
    rw [items]
    cases as <;> simp
  | cons j rest ih =>
    rw [items, combine_eq_ok_iff]
    simp only [inside_eq_ok_iff, ih]
    constructor
    · rintro ⟨a, as', ha, has', rfl⟩
      exact .cons ha has'
    · intro h
      cases h with
      | cons ha has' => exact ⟨_, _, ha, has', rfl⟩

end Reading

end Curriculum
