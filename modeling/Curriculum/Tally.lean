import Curriculum.Table

/-!
# Counting

A tally says how often each key was counted, in the order in which the keys were first seen. Its
ranking puts the larger counts first and leaves equal counts in the order of first sight.
-/

namespace Curriculum

universe u

/-- How often each key was counted, in the order of first sight. -/
abbrev Tally (κ : Type u) : Type u := Table κ Nat

namespace Tally

variable {κ : Type u} [DecidableEq κ]

/-- How often a key was counted. -/
def count (t : Tally κ) (k : κ) : Nat :=
  (Table.find? t k).getD 0

/-- Count a key `n` times more. -/
def addTimes (t : Tally κ) (k : κ) (n : Nat) : Tally κ :=
  Table.insert t k (count t k + n)

/-- Count a key once more. -/
def add (t : Tally κ) (k : κ) : Tally κ :=
  addTimes t k 1

/-- Count every key of a list. -/
def ofList (ks : List κ) : Tally κ :=
  ks.foldl add []

/-- The sum of all counts. -/
def total (t : Tally κ) : Nat :=
  (Table.values t).foldr (· + ·) 0

/-- All keys, the most frequent first, equal counts in the order of first sight. -/
def ranked (t : Tally κ) : Tally κ :=
  t.mergeSort fun a b => decide (b.2 ≤ a.2)

/-- The `limit` most frequent keys; none for a limit below one. -/
def top (t : Tally κ) (limit : Int) : Tally κ :=
  (ranked t).take limit.toNat

/-- A count touches the count of its own key and of no other. -/
theorem count_addTimes (t : Tally κ) (k k' : κ) (n : Nat) :
    count (addTimes t k n) k' = count t k' + if k = k' then n else 0 := by
  unfold count addTimes
  rw [Table.find?_insert]
  by_cases h : k = k'
  · subst h; simp [count]
  · simp [h]

end Tally

end Curriculum
