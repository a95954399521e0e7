import Curriculum.Table
import Mathlib.Data.List.Basic
import Mathlib.Data.List.Induction

/-!
# Keys in the order of first sight

A table in which keys are entered one by one holds them in the order in which they came up first: the
list of keys with repetitions left out (`List.eraseDups`). One more key is a repetition, or it comes
last (`keys_eq_eraseDups_append_singleton`). In that list, keys stand in the order of their first
positions among all that were entered (`pairwise_idxOf_eraseDups`).

What is entered may be looked at under a function (`mapValues`): entering commutes with it.
-/

namespace Curriculum

namespace Table

/-! ## Repetitions -/

section Repetitions

variable {κ : Type} [BEq κ] [LawfulBEq κ] {seen : List κ} {k : κ}

theorem eraseDups_append_of_mem (h : k ∈ seen) : (seen ++ [k]).eraseDups = seen.eraseDups := by
  rw [List.eraseDups_append]
  simp [h, List.removeAll]

theorem eraseDups_append_of_not_mem (h : k ∉ seen) :
    (seen ++ [k]).eraseDups = seen.eraseDups ++ [k] := by
  have hone : [k].eraseDups = [k] := rfl
  rw [List.eraseDups_append]
  simp [h, List.removeAll, hone]

/-- An entry that leaves a known key in its place, and puts a new one last, keeps the keys in the
order of first sight. -/
theorem keys_eq_eraseDups_append_singleton {α : Type} {t t' : Table κ α}
    {_ : Decidable (k ∈ t.keys)} (h : t.keys = seen.eraseDups)
    (hentry : t'.keys = if k ∈ t.keys then t.keys else t.keys ++ [k]) :
    t'.keys = (seen ++ [k]).eraseDups := by
  have hseen : k ∈ t.keys ↔ k ∈ seen := by rw [h, List.mem_eraseDups]
  by_cases hk : k ∈ seen
  · rw [hentry, if_pos (hseen.mpr hk), eraseDups_append_of_mem hk, h]
  · rw [hentry, if_neg (mt hseen.mp hk), eraseDups_append_of_not_mem hk, h]

/-- Without repetitions, keys stand in the order of their first positions. -/
theorem pairwise_idxOf_eraseDups (ks : List κ) :
    ks.eraseDups.Pairwise fun k k' => ks.idxOf k < ks.idxOf k' := by
  induction ks using List.reverseRecOn with
  | nil => exact List.Pairwise.nil
  | append_singleton seen k ih =>
    -- what was seen keeps its first position
    have hold : ∀ k' ∈ seen.eraseDups, (seen ++ [k]).idxOf k' = seen.idxOf k' :=
      fun k' hk' => List.idxOf_append_of_mem (List.mem_eraseDups.mp hk')
    have hbefore : seen.eraseDups.Pairwise
        fun k₁ k₂ => (seen ++ [k]).idxOf k₁ < (seen ++ [k]).idxOf k₂ := by
      refine ih.imp_of_mem fun h₁ h₂ hlt => ?_
      rwa [hold _ h₁, hold _ h₂]
    by_cases hk : k ∈ seen
    · rwa [eraseDups_append_of_mem hk]
    · rw [eraseDups_append_of_not_mem hk]
      refine List.pairwise_append.mpr ⟨hbefore, List.pairwise_singleton _ k, fun k' hk' k₂ hk₂ => ?_⟩
      rw [List.mem_singleton.mp hk₂, hold k' hk', List.idxOf_append_of_notMem hk]
      have hlt : seen.idxOf k' < seen.length :=
        List.idxOf_lt_length_iff.mpr (List.mem_eraseDups.mp hk')
      omega

end Repetitions

/-! ## Values under a function -/

section Values

variable {κ : Type} {α β : Type} (f : α → β)

/-- The same keys, with a function of their values. -/
def mapValues (t : Table κ α) : Table κ β :=
  t.map fun e => (e.1, f e.2)

variable [DecidableEq κ] (t : Table κ α) (k : κ)

theorem find?_mapValues : (mapValues f t).find? k = (t.find? k).map f := by
  induction t with
  | nil => rfl
  | cons entry rest ih =>
    obtain ⟨k₀, a₀⟩ := entry
    show find? ((k₀, f a₀) :: mapValues f rest) k = _
    rw [find?_cons, find?_cons, ih]
    split <;> rfl

theorem mapValues_insert (a : α) : mapValues f (t.insert k a) = (mapValues f t).insert k (f a) := by
  induction t with
  | nil => rfl
  | cons entry rest ih =>
    obtain ⟨k₀, a₀⟩ := entry
    show _ = insert ((k₀, f a₀) :: mapValues f rest) k (f a)
    rw [insert_cons, insert_cons, ← ih]
    split <;> rfl

end Values

end Table

end Curriculum
