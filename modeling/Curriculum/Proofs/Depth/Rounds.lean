import Curriculum.Proofs.Depth.Pass
import Mathlib.Logic.Function.Iterate

/-!
# Pass after pass

`rounds courses k t` is the table after `k` passes from `t`, whether or not they raise anything.
Settling makes the same passes and stops early when one raises nothing, so it ends with the same
table (`ofCourses_depths`); it reports that the depths are settled only if the table covers the
courses (`covers_of_converged`), and surely does so when a table that covers them comes up before
the last pass (`settle_of_covers_rounds`).

The measure behind everything said about the number of passes is `min_rounds_le`:

> after `k` passes every entry has reached the smaller of `k` and of what it will ever be.

It holds although entries of courses that ask for each other grow forever while others are final,
and needs no limit: a later entry is asked for by a record of its course (`Supported`), so what it
will be after one pass more is one more than what the courses of that record have reached.
-/

namespace Curriculum

open DepthTable

/-- The table after a number of passes. -/
def rounds (courses : List ParsedCourse) (k : Nat) (t : DepthTable) : DepthTable :=
  (fun t => (Pass.run courses t).depths)^[k] t

section Rounds

variable {courses : List ParsedCourse} {t : DepthTable}

theorem rounds_succ (courses : List ParsedCourse) (k : Nat) (t : DepthTable) :
    rounds courses (k + 1) t = rounds courses k (Pass.run courses t).depths :=
  Function.iterate_succ_apply _ k t

/-- The last pass instead of the first taken apart. -/
theorem rounds_succ' (courses : List ParsedCourse) (k : Nat) (t : DepthTable) :
    rounds courses (k + 1) t = (Pass.run courses (rounds courses k t)).depths :=
  Function.iterate_succ_apply' _ k t

theorem rounds_of_covers (h : t.Covers courses) (k : Nat) : rounds courses k t = t :=
  Function.iterate_fixed (congrArg Pass.depths (Pass.run_of_covers h)) k

theorem below_rounds (courses : List ParsedCourse) (k : Nat) (t : DepthTable) :
    t.Below (rounds courses k t) := by
  induction k with
  | zero => exact Below.refl t
  | succ k ih =>
    rw [rounds_succ']
    exact ih.trans (Pass.below_run courses _)

theorem rounds_nonneg (courses : List ParsedCourse) (hn : t.Nonneg) (k : Nat) :
    (rounds courses k t).Nonneg :=
  hn.of_below (below_rounds courses k t)

/-- More passes leave no entry lower. -/
theorem rounds_mono (courses : List ParsedCourse) (t : DepthTable) {k m : Nat} (h : k ≤ m) :
    (rounds courses k t).Below (rounds courses m t) := by
  obtain ⟨j, rfl⟩ := Nat.exists_eq_add_of_le' h
  have hsplit : rounds courses (j + k) t = rounds courses j (rounds courses k t) :=
    Function.iterate_add_apply _ j k t
  rw [hsplit]
  exact below_rounds courses j _

/-- What each pass keeps of a table without entries below 0, any number of passes keeps. -/
theorem rounds_induction {I : DepthTable → Prop}
    (step : ∀ t, t.Nonneg → I t → I (Pass.run courses t).depths) (hn : t.Nonneg) (h : I t)
    (k : Nat) : I (rounds courses k t) := by
  induction k with
  | zero => exact h
  | succ k ih =>
    rw [rounds_succ']
    exact step _ (rounds_nonneg courses hn k) ih

/-- No number of passes leads past a table that covers the courses. -/
theorem rounds_below {T : DepthTable} (hT : T.Covers courses) (hn : t.Nonneg) (hb : t.Below T)
    (k : Nat) : (rounds courses k t).Below T :=
  rounds_induction (I := fun t => t.Below T) (fun _ hn' hb' => Pass.run_below hT hn' hb') hn hb k

theorem rounds_supported (hn : t.Nonneg) (hs : t.Supported courses) (k : Nat) :
    (rounds courses k t).Supported courses :=
  rounds_induction (I := fun t => t.Supported courses)
    (fun _ hn' hs' => Pass.run_supported hn' hs') hn hs k

/-! ## The measure -/

/-- A table in which every course stands at 0. -/
def DepthTable.AllZero (t : DepthTable) : Prop := ∀ c, t.depthOf c = 0

theorem DepthTable.AllZero.nonneg (h : t.AllZero) : t.Nonneg :=
  fun c => Int.le_of_eq (h c).symm

theorem DepthTable.AllZero.supported (h : t.AllZero) : t.Supported courses :=
  fun c hpos => absurd (h c) (Int.ne_of_gt hpos)

/-- After `k` passes from nothing, every entry has reached the smaller of `k` and of what it is
after any larger number of passes. -/
theorem min_rounds_le (courses : List ParsedCourse) (h0 : t.AllZero) {k m : Nat} (hkm : k ≤ m)
    (c : String) :
    min ((rounds courses m t).depthOf c) k ≤ (rounds courses k t).depthOf c := by
  have hn : ∀ j, (rounds courses j t).Nonneg := rounds_nonneg courses h0.nonneg
  induction k generalizing c with
  | zero =>
    have := hn 0 c
    omega
  | succ k ih =>
    by_cases hpos : 0 < (rounds courses m t).depthOf c
    · -- the record that asks for the later entry asks for as much already now, up to `k + 1`
      obtain ⟨r, hr, hle⟩ := rounds_supported h0.nonneg h0.supported m c hpos
      have hreach : min (r.depth (rounds courses m t)) (k + 1) ≤ r.depth (rounds courses k t) :=
        r.min_depth_le_depth (hn k) (hn m) (ih (by omega))
      have hasked : r.depth (rounds courses k t) ≤ (rounds courses (k + 1) t).depthOf c := by
        rw [rounds_succ']
        exact Pass.asked_le_run (hn k) hr
      omega
    · have := hn (k + 1) c
      omega

end Rounds

/-! ## Settling -/

namespace Resolution

variable {courses : List ParsedCourse} {p : Pass}

theorem settle_of_grown_nil (left made : Nat) (h : p.grown = []) :
    settle courses left made p = ⟨p.depths, made, true, []⟩ := by
  unfold settle
  exact if_pos h

theorem settle_zero (made : Nat) (h : p.grown ≠ []) :
    settle courses 0 made p = ⟨p.depths, made, false, p.grown⟩ := by
  unfold settle
  exact if_neg h

theorem settle_succ (left made : Nat) (h : p.grown ≠ []) :
    settle courses (left + 1) made p
      = settle courses left (made + 1) (Pass.run courses p.depths) := by
  rw [settle.eq_def]
  exact if_neg h

/-- Settling ends with the table that as many passes as are allowed lead to, if it starts from a
pass that raised nothing only when its table covers the courses. -/
theorem settle_depths (left made : Nat) (hp : p.grown = [] → p.depths.Covers courses) :
    (settle courses left made p).depths = rounds courses left p.depths := by
  induction left generalizing made p with
  | zero =>
    by_cases hg : p.grown = []
    · rw [settle_of_grown_nil 0 made hg]
      rfl
    · rw [settle_zero made hg]
      rfl
  | succ left ih =>
    by_cases hg : p.grown = []
    · -- the passes that are saved would all have left the table as it is
      rw [settle_of_grown_nil _ made hg, rounds_of_covers (hp hg)]
    · rw [settle_succ left made hg, ih (made + 1) Pass.run_covers_of_grown, rounds_succ]

/-- Depths are reported as settled only if the table covers the courses. -/
theorem settle_covers (left made : Nat) (hp : p.grown = [] → p.depths.Covers courses)
    (h : (settle courses left made p).converged = true) :
    (settle courses left made p).depths.Covers courses := by
  induction left generalizing made p with
  | zero =>
    by_cases hg : p.grown = []
    · rw [settle_of_grown_nil 0 made hg]
      exact hp hg
    · rw [settle_zero made hg] at h
      exact absurd h Bool.false_ne_true
  | succ left ih =>
    by_cases hg : p.grown = []
    · rw [settle_of_grown_nil _ made hg]
      exact hp hg
    · rw [settle_succ left made hg] at h ⊢
      exact ih (made + 1) Pass.run_covers_of_grown h

/-- Once a table covers the courses, one pass more shows it: the depths are reported as settled,
after no more passes than that. -/
theorem settle_of_covers_rounds {k left : Nat} (made : Nat) (hk : k < left)
    (h : (rounds courses k p.depths).Covers courses) :
    (settle courses left made p).converged = true ∧
      (settle courses left made p).passes ≤ made + (k + 1) := by
  induction k generalizing left made p with
  | zero =>
    obtain ⟨left, rfl⟩ : ∃ n, left = n + 1 := ⟨left - 1, by omega⟩
    by_cases hg : p.grown = []
    · rw [settle_of_grown_nil _ made hg]
      exact ⟨rfl, by show (made : Int) ≤ _; omega⟩
    · -- the one pass that is made raises nothing
      have hrun : Pass.run courses p.depths = ⟨p.depths, []⟩ := Pass.run_of_covers h
      rw [settle_succ left made hg, hrun, settle_of_grown_nil left (made + 1) rfl]
      exact ⟨rfl, by show ((made + 1 : Nat) : Int) ≤ _; omega⟩
  | succ k ih =>
    obtain ⟨left, rfl⟩ : ∃ n, left = n + 1 := ⟨left - 1, by omega⟩
    by_cases hg : p.grown = []
    · rw [settle_of_grown_nil _ made hg]
      exact ⟨rfl, by show (made : Int) ≤ _; omega⟩
    · rw [rounds_succ] at h
      obtain ⟨hconv, hpasses⟩ := ih (made + 1) (Nat.lt_of_succ_lt_succ hk) h
      rw [settle_succ left made hg]
      exact ⟨hconv, by omega⟩

/-! ## From nothing -/

theorem start_allZero {t : DepthTable} (h : t.AllZero) : (start courses t).AllZero := by
  induction courses generalizing t with
  | nil => exact h
  | cons c cs ih =>
    refine ih fun id => ?_
    have hid := h id
    unfold depthOf at hid ⊢
    rw [Table.find?_insertIfNew]
    cases hf : Table.find? t id with
    | some d =>
      rw [hf] at hid
      exact hid
    | none =>
      rw [Option.none_or]
      split <;> rfl

/-- The table from which the depths of courses are settled. -/
theorem start_nil_allZero (courses : List ParsedCourse) : (start courses []).AllZero :=
  start_allZero fun _ => rfl

/-- Only if there are no courses does nothing count as raised at first. -/
theorem covers_of_grown_start {t : DepthTable}
    (h : courses.foldl (fun g c => Pass.noteGrown g c.1) [] = []) : t.Covers courses := by
  have hne : ∀ (cs : List ParsedCourse) (g : List String), g ≠ [] →
      cs.foldl (fun g c => Pass.noteGrown g c.1) g ≠ [] := by
    intro cs
    induction cs with
    | nil => intro g hg; exact hg
    | cons c cs ih => intro g _; exact ih _ (Pass.noteGrown_ne_nil g c.1)
  cases courses with
  | nil => exact fun c hc => absurd hc List.not_mem_nil
  | cons c cs => exact absurd h (hne cs _ (Pass.noteGrown_ne_nil [] c.1))

theorem ofCourses_depths (courses : List ParsedCourse) (ceiling : Int) :
    (ofCourses courses ceiling).depths = rounds courses ceiling.toNat (start courses []) :=
  settle_depths _ 0 covers_of_grown_start

theorem covers_of_converged {ceiling : Int}
    (h : (ofCourses courses ceiling).converged = true) :
    (ofCourses courses ceiling).depths.Covers courses :=
  settle_covers _ 0 covers_of_grown_start h

theorem converged_of_covers_rounds {k : Nat} {ceiling : Int} (hk : k < ceiling.toNat)
    (h : (rounds courses k (start courses [])).Covers courses) :
    (ofCourses courses ceiling).converged = true ∧ (ofCourses courses ceiling).passes ≤ k + 1 := by
  obtain ⟨hconv, hpasses⟩ := settle_of_covers_rounds (p := ⟨start courses [],
    courses.foldl (fun g c => Pass.noteGrown g c.1) []⟩) 0 hk h
  exact ⟨hconv, Int.le_trans hpasses (by omega)⟩

end Resolution

end Curriculum
