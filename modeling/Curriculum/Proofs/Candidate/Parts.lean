import Curriculum.Requirement.Candidate

/-!
# The parts of a candidate

A candidate is any document at all, so its parts are read off without trusting it: the items of the
array in its field `children`, if it is an object with such a field (`Candidate.parts`). They are
smaller than the candidate, hence `inductionOnParts`. The check of a candidate is the check of the
node itself, and for a group the check of its parts one after the other (`check_object`), so it
passes exactly when the node has no flaw of its own and all parts pass (`check_group_eq_none_iff`).
-/

namespace Curriculum

namespace Candidate

/-- The items of the array in the field `children`. -/
def parts (j : Json) : List Json :=
  match j.field? "children" with
  | some (.array items) => items
  | _ => []

theorem sizeOf_lt_of_find? {fields : Table String Json} {name : String} {j : Json}
    (h : fields.find? name = some j) : sizeOf j < sizeOf fields := by
  have hlt := List.sizeOf_lt_of_mem (Table.mem_of_find? h)
  simp only [Prod.mk.sizeOf_spec] at hlt
  omega

theorem mem_parts {j p : Json} (h : p ∈ parts j) :
    ∃ fields items, j = .object fields ∧ Table.find? fields "children" = some (.array items) ∧
      p ∈ items := by
  cases j with
  | object fields =>
    unfold parts Json.field? at h
    split at h
    · next items hitems => exact ⟨fields, items, rfl, hitems, h⟩
    · exact absurd h List.not_mem_nil
  | _ => exact absurd h List.not_mem_nil

theorem sizeOf_lt_of_mem_parts {j p : Json} (h : p ∈ parts j) : sizeOf p < sizeOf j := by
  obtain ⟨fields, items, rfl, hitems, hp⟩ := mem_parts h
  have hfields := sizeOf_lt_of_find? hitems
  have hitem := List.sizeOf_lt_of_mem hp
  simp only [Json.object.sizeOf_spec, Json.array.sizeOf_spec] at hfields ⊢
  omega

/-- What holds of a candidate as soon as it holds of its parts holds of every candidate. -/
theorem inductionOnParts {motive : Json → Prop}
    (step : ∀ j, (∀ p ∈ parts j, motive p) → motive j) (j : Json) : motive j :=
  step j fun p hp =>
    have := sizeOf_lt_of_mem_parts hp
    inductionOnParts step p
termination_by sizeOf j

theorem parts_of_children {fields : Table String Json} {items : List Json}
    (h : fields.find? "children" = some (.array items)) : parts (.object fields) = items := by
  simp only [parts, Json.field?, h]

/-! ## Checking node by node -/

theorem parts_cons (name : String) (value : Json) (rest : Table String Json) :
    parts (.object ((name, value) :: rest))
      = if name = "children" then parts (.object [("children", value)])
        else parts (.object rest) := by
  by_cases h : name = "children"
  · simp [parts, Json.field?, h]
  · simp [parts, Json.field?, h]

theorem checkChildren_eq (fields : Table String Json) :
    checkChildren fields = checkItems 0 (parts (.object fields)) := by
  induction fields with
  | nil => rfl
  | cons entry rest ih =>
    obtain ⟨name, value⟩ := entry
    rw [checkChildren, parts_cons]
    split
    · cases value <;> rfl
    · exact ih

/-- The check of an object: its type, its own rules, then the parts of a group. -/
theorem check_object (fields : Table String Json) :
    check (.object fields) =
      match kind fields with
      | .error flaw => some (here flaw)
      | .ok k =>
        match ownFlaw? fields k with
        | some flaw => some (here flaw)
        | none => if k = .group then checkItems 0 (parts (.object fields)) else none := by
  cases hkind : kind fields with
  | error flaw => simp [check, hkind]
  | ok k =>
    cases hown : ownFlaw? fields k with
    | some flaw => simp [check, hkind, hown]
    | none => simp [check, hkind, hown, checkChildren_eq]

theorem checkItems_eq_none_iff (items : List Json) (index : Nat) :
    checkItems index items = none ↔ ∀ j ∈ items, check j = none := by
  induction items generalizing index with
  | nil => simp [checkItems]
  | cons j rest ih =>
    rw [checkItems, List.forall_mem_cons, ← ih (index + 1)]
    cases check j with
    | none => simp
    | some r => simp

/-- An object passes when its type is known, it has no flaw of its own and, if it is a group, its
parts pass. -/
theorem check_object_eq_none_iff {fields : Table String Json} :
    check (.object fields) = none ↔ ∃ k, kind fields = .ok k ∧ ownFlaw? fields k = none ∧
      (k = .group → ∀ p ∈ parts (.object fields), check p = none) := by
  rw [check_object]
  cases hk : kind fields with
  | error flaw => simp
  | ok k =>
    by_cases hgroup : k = .group
    · subst hgroup
      cases hflaw : ownFlaw? fields .group <;> simp [hflaw, checkItems_eq_none_iff]
    · cases hflaw : ownFlaw? fields k <;> simp [hflaw, hgroup]

theorem exists_fields_of_check_eq_none {j : Json} (h : check j = none) :
    ∃ fields, j = .object fields := by
  cases j with
  | object fields => exact ⟨fields, rfl⟩
  | _ => exact absurd h (by simp [check])

end Candidate

end Curriculum
