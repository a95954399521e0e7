import Curriculum.Json.Basic

/-!
# How deep documents are nested

The nesting of an array or an object is one more than the largest nesting inside it. It is used only
through the bounds that it gives on what is inside.
-/

namespace Curriculum

namespace Json

variable {k : Nat}

@[simp] theorem nesting_text (s : String) : (text s).nesting = 0 := rfl

@[simp] theorem nesting_array_nil : (array []).nesting = 0 := rfl

@[simp] theorem nesting_object_nil : (object []).nesting = 0 := rfl

theorem nesting_array_cons (item : Json) (rest : List Json) :
    (array (item :: rest)).nesting = max item.nesting (nestingOfItems rest) + 1 := rfl

theorem nesting_object_cons (field : String × Json) (rest : List (String × Json)) :
    (object (field :: rest)).nesting = max field.2.nesting (nestingOfFields rest) + 1 := rfl

theorem nestingOfItems_le_iff {items : List Json} :
    nestingOfItems items ≤ k ↔ ∀ j ∈ items, j.nesting ≤ k := by
  induction items with
  | nil => exact iff_of_true (Nat.zero_le k) (by simp)
  | cons item rest ih =>
    have hcons : nestingOfItems (item :: rest) = max item.nesting (nestingOfItems rest) := rfl
    rw [hcons, Nat.max_le, ih, List.forall_mem_cons]

theorem nestingOfFields_le_iff {fields : List (String × Json)} :
    nestingOfFields fields ≤ k ↔ ∀ f ∈ fields, f.2.nesting ≤ k := by
  induction fields with
  | nil => exact iff_of_true (Nat.zero_le k) (by simp)
  | cons field rest ih =>
    have hcons : nestingOfFields (field :: rest) = max field.2.nesting (nestingOfFields rest) := rfl
    rw [hcons, Nat.max_le, ih, List.forall_mem_cons]

theorem nesting_array_le_iff {items : List Json} :
    (array items).nesting ≤ k + 1 ↔ ∀ j ∈ items, j.nesting ≤ k := by
  cases items with
  | nil => simp
  | cons item rest =>
    rw [nesting_array_cons, Nat.succ_le_succ_iff, Nat.max_le, nestingOfItems_le_iff,
      List.forall_mem_cons]

theorem nesting_object_le_iff {fields : List (String × Json)} :
    (object fields).nesting ≤ k + 1 ↔ ∀ f ∈ fields, f.2.nesting ≤ k := by
  cases fields with
  | nil => simp
  | cons field rest =>
    rw [nesting_object_cons, Nat.succ_le_succ_iff, Nat.max_le, nestingOfFields_le_iff,
      List.forall_mem_cons]

theorem nesting_array_pos {items : List Json} (h : items ≠ []) : 0 < (array items).nesting := by
  obtain ⟨item, rest, rfl⟩ := List.exists_cons_of_ne_nil h
  exact Nat.succ_pos _

theorem nesting_object_pos {fields : List (String × Json)} (h : fields ≠ []) :
    0 < (object fields).nesting := by
  obtain ⟨field, rest, rfl⟩ := List.exists_cons_of_ne_nil h
  exact Nat.succ_pos _

theorem nesting_lt_of_mem_items {items : List Json} {j : Json} (h : j ∈ items) :
    j.nesting < (array items).nesting := by
  obtain ⟨n, hn⟩ := Nat.exists_eq_succ_of_ne_zero
    (Nat.ne_of_gt (nesting_array_pos (List.ne_nil_of_mem h)))
  rw [hn]
  exact Nat.lt_succ_of_le (nesting_array_le_iff.mp (Nat.le_of_eq hn) j h)

theorem nesting_lt_of_mem_fields {fields : List (String × Json)} {f : String × Json}
    (h : f ∈ fields) : f.2.nesting < (object fields).nesting := by
  obtain ⟨n, hn⟩ := Nat.exists_eq_succ_of_ne_zero
    (Nat.ne_of_gt (nesting_object_pos (List.ne_nil_of_mem h)))
  rw [hn]
  exact Nat.lt_succ_of_le (nesting_object_le_iff.mp (Nat.le_of_eq hn) f h)

theorem nesting_array_le {items : List Json} {n : Nat} (hn : 0 < n)
    (h : ∀ j ∈ items, j.nesting < n) : (array items).nesting ≤ n := by
  obtain ⟨k, rfl⟩ := Nat.exists_eq_succ_of_ne_zero (Nat.ne_of_gt hn)
  exact nesting_array_le_iff.mpr fun j hj => Nat.le_of_lt_succ (h j hj)

theorem nesting_object_le {fields : List (String × Json)} {n : Nat} (hn : 0 < n)
    (h : ∀ f ∈ fields, f.2.nesting < n) : (object fields).nesting ≤ n := by
  obtain ⟨k, rfl⟩ := Nat.exists_eq_succ_of_ne_zero (Nat.ne_of_gt hn)
  exact nesting_object_le_iff.mpr fun f hf => Nat.le_of_lt_succ (h f hf)

/-! ### Inside open containers

A container inside `n` others keeps a limit exactly when it may be opened and each of its parts,
now inside `n + 1`, keeps the limit.
-/

theorem add_nesting_array_le_iff {n limit : Nat} {items : List Json} :
    n + (array items).nesting ≤ limit ↔
      n ≤ limit ∧ ∀ j ∈ items, n + 1 + j.nesting ≤ limit := by
  constructor
  · intro h
    refine ⟨by omega, fun j hj => ?_⟩
    have hlt := nesting_lt_of_mem_items hj
    omega
  · rintro ⟨hn, h⟩
    rcases items with _ | ⟨item, rest⟩
    · rwa [nesting_array_nil]
    · have hitem := h item List.mem_cons_self
      have hle : (array (item :: rest)).nesting ≤ limit - n := by
        refine nesting_array_le (by omega) fun j hj => ?_
        have hj := h j hj
        omega
      omega

theorem add_nesting_object_le_iff {n limit : Nat} {fields : List (String × Json)} :
    n + (object fields).nesting ≤ limit ↔
      n ≤ limit ∧ ∀ f ∈ fields, n + 1 + f.2.nesting ≤ limit := by
  constructor
  · intro h
    refine ⟨by omega, fun f hf => ?_⟩
    have hlt := nesting_lt_of_mem_fields hf
    omega
  · rintro ⟨hn, h⟩
    rcases fields with _ | ⟨field, rest⟩
    · rwa [nesting_object_nil]
    · have hfield := h field List.mem_cons_self
      have hle : (object (field :: rest)).nesting ≤ limit - n := by
        refine nesting_object_le (by omega) fun f hf => ?_
        have hf := h f hf
        omega
      omega

theorem nesting_lt_of_find? {fields : Table String Json} {name : String} {j : Json}
    (h : fields.find? name = some j) : j.nesting < (object fields).nesting :=
  nesting_lt_of_mem_fields (Table.mem_of_find? h)

end Json

end Curriculum
