import Curriculum.Tally

/-!
# What counting adds up to

A tally that counts the keys of a list one by one has, for each key, how often it occurs in the list
(`count_foldl_add`), and in all as much as the list is long (`total_foldl_add`). Both follow from what
one more count does.
-/

namespace Curriculum

namespace Tally

variable {κ : Type} [DecidableEq κ]

@[simp] theorem count_nil (k : κ) : count ([] : Tally κ) k = 0 := rfl

omit [DecidableEq κ] in
@[simp] theorem total_nil : total ([] : Tally κ) = 0 := rfl

theorem count_cons (k' : κ) (n : Nat) (rest : Tally κ) (k : κ) :
    count ((k', n) :: rest) k = if k' = k then n else count rest k := by
  unfold count
  rw [Table.find?_cons]
  split <;> rfl

omit [DecidableEq κ] in
theorem total_cons (k : κ) (n : Nat) (rest : Tally κ) : total ((k, n) :: rest) = n + total rest := rfl

/-- One more count of a key. -/
theorem count_add (t : Tally κ) (k k' : κ) :
    count (t.add k) k' = count t k' + if k = k' then 1 else 0 :=
  count_addTimes t k k' 1

/-- Counting keys one by one adds how often each of them occurs. -/
theorem count_foldl_add (ks : List κ) (t : Tally κ) (k : κ) :
    count (ks.foldl add t) k = count t k + ks.count k := by
  induction ks generalizing t with
  | nil => rfl
  | cons k' ks ih =>
    rw [List.foldl_cons, ih, count_add, List.count_cons]
    by_cases h : k' = k
    · rw [if_pos h, if_pos (beq_iff_eq.mpr h)]
      omega
    · rw [if_neg h, if_neg fun hk => h (beq_iff_eq.mp hk)]
      omega

/-- Counting a key more often adds as much to the sum of all counts. -/
theorem total_addTimes (t : Tally κ) (k : κ) (n : Nat) : total (t.addTimes k n) = total t + n := by
  unfold addTimes
  induction t with
  | nil =>
    show total [(k, 0 + n)] = 0 + n
    rw [total_cons, total_nil]
    omega
  | cons entry rest ih =>
    obtain ⟨k', m⟩ := entry
    rw [Table.insert_cons, count_cons]
    by_cases h : k' = k
    · rw [if_pos h, if_pos h, total_cons, total_cons]
      omega
    · rw [if_neg h, if_neg h, total_cons, total_cons, ih]
      omega

theorem total_foldl_add (ks : List κ) (t : Tally κ) :
    total (ks.foldl add t) = total t + ks.length := by
  induction ks generalizing t with
  | nil => rfl
  | cons k ks ih =>
    have hstep : total (t.add k) = total t + 1 := total_addTimes t k 1
    rw [List.foldl_cons, ih, hstep, List.length_cons]
    omega

end Tally

end Curriculum
