import Curriculum.Proofs.Depth.Least

/-!
# Stopping and resuming

A run that is stopped at its ceiling and resumed from the table that it left ends where one run with
both ceilings together ends. That is not quite the same passes over again: a resumed run forgets
which courses were raised last and counts all of them as raised. It makes no difference, since the
courses that were raised only say whether one pass more is made (`settle_congr`). Where the first
run had settled, the resumed one makes one pass more, which raises nothing (`settle_of_covers`).

> `startingFrom_resumed`: the resumed run has the table, the verdict and the unstable courses of the
> whole run, and its passes are those that the whole run makes after the first.

If a run does not settle, it makes all passes that it may, and its unstable courses are those on
which the last two tables differ.
-/

namespace Curriculum

open DepthTable

/-! ## The courses of the table -/

namespace DepthTable

/-- Every course has an entry. -/
def Enters (courses : List ParsedCourse) (t : DepthTable) : Prop := ∀ c ∈ courses, c.1 ∈ t.keys

end DepthTable

section Entries

variable {courses : List ParsedCourse} {t : DepthTable}

theorem mem_keys_run {id : String} (h : id ∈ t.keys) : id ∈ (Pass.run courses t).depths.keys := by
  rw [Pass.newLast_run courses t]
  exact List.mem_append_left _ h

theorem enters_rounds (h : t.Enters courses) (k : Nat) : (rounds courses k t).Enters courses := by
  induction k with
  | zero => exact h
  | succ k ih =>
    rw [rounds_succ']
    exact fun c hc => mem_keys_run (ih c hc)

end Entries

namespace Resolution

variable {courses : List ParsedCourse} {p : Pass}

theorem mem_keys_start (courses : List ParsedCourse) {t : DepthTable} {id : String}
    (h : id ∈ t.keys) : id ∈ (start courses t).keys := by
  induction courses generalizing t with
  | nil => exact h
  | cons c cs ih => exact ih (Table.mem_keys_insertIfNew.mpr (Or.inl h))

theorem enters_start (courses : List ParsedCourse) (t : DepthTable) :
    (start courses t).Enters courses := by
  induction courses generalizing t with
  | nil => exact fun c hc => absurd hc List.not_mem_nil
  | cons c cs ih =>
    intro x hx
    rcases List.mem_cons.mp hx with rfl | hx
    · -- the first course is entered first, and nothing is taken out
      exact mem_keys_start cs (Table.mem_keys_insertIfNew.mpr (Or.inr rfl))
    · exact ih _ x hx

/-- Where every course has an entry there is nothing to enter. -/
theorem start_of_enters {t : DepthTable} (h : t.Enters courses) : start courses t = t := by
  induction courses with
  | nil => rfl
  | cons c cs ih =>
    obtain ⟨hc, hcs⟩ := List.forall_mem_cons.mp h
    have hnew : t.insertIfNew c.1 0 = t := by
      obtain ⟨d, hd⟩ := Option.isSome_iff_exists.mp ((Table.find?_isSome_iff t c.1).mpr hc)
      rw [Table.insertIfNew, hd]
    show start cs (t.insertIfNew c.1 0) = t
    rw [hnew]
    exact ih hcs

/-! ## Settling in two parts -/

/-- What a run goes on from: its table, and the courses that it raised last. -/
def asPass (r : Resolution) : Pass := ⟨r.depths, r.unstable⟩

/-- The same resolution after some passes more were made before it. -/
def after (r : Resolution) (k : Nat) : Resolution := { r with passes := r.passes + k }

theorem settle_add_made (courses : List ParsedCourse) (p : Pass) (left made k : Nat) :
    settle courses left (made + k) p = (settle courses left made p).after k := by
  fun_induction settle courses left made p with
  | case1 left made p hg => rw [settle_of_grown_nil left _ hg, after, Int.natCast_add]
  | case2 made p hg => rw [settle_zero _ hg, after, Int.natCast_add]
  | case3 made p hg left ih => rw [settle_succ left _ hg, Nat.add_right_comm, ih]

/-- A run settles with nothing left unstable, or it makes all passes that it may and raises
something in the last one. -/
theorem settle_converged_or (courses : List ParsedCourse) (p : Pass) (left made : Nat) :
    ((settle courses left made p).converged = true ∧ (settle courses left made p).unstable = []) ∨
      ((settle courses left made p).converged = false ∧
        (settle courses left made p).unstable ≠ [] ∧
        (settle courses left made p).passes = ((made + left : Nat) : Int)) := by
  fun_induction settle courses left made p with
  | case1 left made p hg => exact Or.inl ⟨rfl, rfl⟩
  | case2 made p hg => exact Or.inr ⟨rfl, hg, rfl⟩
  | case3 made p hg left ih =>
    rw [Nat.succ_add_eq_add_succ] at ih
    exact ih

/-- **Settling in two parts.** Once settled, a run stays as it is; otherwise it goes on from where
it was. -/
theorem settle_add (courses : List ParsedCourse) (p : Pass) (m n made : Nat) :
    settle courses (m + n) made p
      = if (settle courses m made p).converged = true then settle courses m made p
        else settle courses n (made + m) (settle courses m made p).asPass := by
  fun_induction settle courses m made p with
  | case1 m made p hg => rw [settle_of_grown_nil _ made hg, if_pos rfl]
  | case2 made p hg =>
    rw [Nat.zero_add, if_neg Bool.false_ne_true]
    rfl
  | case3 made p hg m ih =>
    rw [Nat.succ_add, settle_succ _ made hg, ih, Nat.succ_add_eq_add_succ]

/-- Which courses were raised last is forgotten with the next pass. -/
theorem settle_congr {p q : Pass} (n made : Nat) (hp : p.grown ≠ []) (hq : q.grown ≠ [])
    (h : p.depths = q.depths) :
    settle courses (n + 1) made p = settle courses (n + 1) made q := by
  rw [settle_succ n made hp, settle_succ n made hq, h]

/-- From a table that covers the courses a run settles at once, and leaves the table as it is. -/
theorem settle_of_covers (n made : Nat) (h : p.depths.Covers courses) :
    (settle courses (n + 1) made p).depths = p.depths ∧
      (settle courses (n + 1) made p).converged = true ∧
      (settle courses (n + 1) made p).unstable = [] := by
  by_cases hg : p.grown = []
  · rw [settle_of_grown_nil _ made hg]
    exact ⟨rfl, rfl, rfl⟩
  · rw [settle_succ n made hg, Pass.run_of_covers h, settle_of_grown_nil n (made + 1) rfl]
    exact ⟨rfl, rfl, rfl⟩

/-- A run that did not settle ends with a pass from the table that it had before, and its unstable
courses are those whose entries that pass raised. -/
theorem mem_unstable_iff {left made : Nat}
    (h : (settle courses (left + 1) made p).converged = false) {id : String} :
    id ∈ (settle courses (left + 1) made p).unstable ↔
      (settle courses left made p).depths.depthOf id
        ≠ (settle courses (left + 1) made p).depths.depthOf id := by
  rw [settle_add courses p left 1 made] at h ⊢
  by_cases hconv : (settle courses left made p).converged = true
  · rw [if_pos hconv, hconv] at h
    exact absurd h.symm Bool.false_ne_true
  · rw [if_neg hconv] at h ⊢
    obtain hsettled | ⟨-, hne, -⟩ := settle_converged_or courses p left made
    · exact absurd hsettled.1 hconv
    · -- the last pass raised something, or the run would have settled with it
      rw [settle_succ 0 _ hne] at h ⊢
      have hraised : (Pass.run courses (settle courses left made p).asPass.depths).grown ≠ [] := by
        intro hg
        rw [settle_of_grown_nil 0 _ hg] at h
        exact Bool.false_ne_true h.symm
      rw [settle_zero _ hraised, Pass.mem_run_grown_iff]
      have hle := Pass.below_run courses (settle courses left made p).depths id
      constructor
      · exact fun hlt => Int.ne_of_lt hlt
      · exact fun hne => Int.lt_iff_le_and_ne.mpr ⟨hle, hne⟩

theorem nodup_unstable (left made : Nat) (h : p.grown.Nodup) :
    (settle courses left made p).unstable.Nodup := by
  fun_induction settle courses left made p with
  | case1 => exact List.nodup_nil
  | case2 => exact h
  | case3 made p _ left ih => exact ih (Pass.nodup_run_grown courses p.depths)

/-! ## From a table -/

/-- What is known before the first pass: the table to start from, and all courses as raised. -/
def outset (courses : List ParsedCourse) (t : DepthTable) : Pass :=
  ⟨start courses t, courses.foldl (fun g c => Pass.noteGrown g c.1) []⟩

theorem startingFrom_natCast (courses : List ParsedCourse) (k : Nat) (t : DepthTable) :
    startingFrom courses k t = settle courses k 0 (outset courses t) := rfl

theorem nodup_grown_outset (courses : List ParsedCourse) (t : DepthTable) :
    (outset courses t).grown.Nodup := by
  have hfold : ∀ (cs : List ParsedCourse) (g : List String), g.Nodup →
      (cs.foldl (fun g c => Pass.noteGrown g c.1) g).Nodup := by
    intro cs
    induction cs with
    | nil => exact fun _ hg => hg
    | cons c cs ih => exact fun g hg => ih _ (Pass.nodup_noteGrown hg c.1)
  exact hfold courses [] List.nodup_nil

/-- A run from a table settles with nothing left unstable, or it makes all passes that it may and
raises something in the last one. -/
theorem startingFrom_converged_or (courses : List ParsedCourse) (k : Nat) (t : DepthTable) :
    ((startingFrom courses k t).converged = true ∧ (startingFrom courses k t).unstable = []) ∨
      ((startingFrom courses k t).converged = false ∧ (startingFrom courses k t).unstable ≠ [] ∧
        (startingFrom courses k t).passes = k) := by
  have h := settle_converged_or courses (outset courses t) k 0
  rwa [Nat.zero_add] at h

theorem startingFrom_add (courses : List ParsedCourse) (m n : Nat) (t : DepthTable) :
    startingFrom courses ((m + n : Nat) : Int) t
      = if (startingFrom courses m t).converged = true then startingFrom courses m t
        else settle courses n m (startingFrom courses m t).asPass := by
  have h := settle_add courses (outset courses t) m n 0
  rwa [Nat.zero_add] at h

/-- A run leaves every course with an entry, so nothing is entered when it is resumed. -/
theorem startingFrom_startingFrom (courses : List ParsedCourse) (m n : Nat) (t : DepthTable) :
    startingFrom courses n (startingFrom courses m t).depths
      = settle courses n 0 ⟨(startingFrom courses m t).depths, (outset courses t).grown⟩ := by
  have hdepths : (startingFrom courses m t).depths = rounds courses m (start courses t) :=
    settle_depths m 0 covers_of_grown_start
  have hstart : start courses (startingFrom courses m t).depths
      = (startingFrom courses m t).depths := by
    rw [hdepths]
    exact start_of_enters (enters_rounds (enters_start courses t) m)
  rw [startingFrom_natCast, outset, hstart]
  rfl

/-- What a run that was resumed has in common with a run that was not stopped. -/
structure Resumes (whole first second : Resolution) : Prop where
  depths : second.depths = whole.depths
  converged : second.converged = whole.converged
  unstable : second.unstable = whole.unstable
  passes : whole.passes
    = if first.converged = true then first.passes else first.passes + second.passes

theorem resumes_natCast (courses : List ParsedCourse) (m n : Nat) (t : DepthTable) :
    Resumes (startingFrom courses ((m + (n + 1) : Nat) : Int) t) (startingFrom courses m t)
      (startingFrom courses ((n + 1 : Nat) : Int) (startingFrom courses m t).depths) := by
  rw [startingFrom_startingFrom, startingFrom_add]
  rcases startingFrom_converged_or courses m t with ⟨hconv, hnothing⟩ | ⟨hconv, hraised, hpasses⟩
  · -- the first run settled, so the second one begins with a table that covers the courses
    have hcovers : (startingFrom courses m t).depths.Covers courses :=
      settle_covers m 0 covers_of_grown_start hconv
    obtain ⟨hdepths, hsettled, hunstable⟩ := settle_of_covers n 0
      (p := ⟨(startingFrom courses m t).depths, (outset courses t).grown⟩) hcovers
    rw [if_pos hconv]
    exact {
      depths := hdepths
      converged := hsettled.trans hconv.symm
      unstable := hunstable.trans hnothing.symm
      passes := by rw [if_pos hconv] }
  · -- there is a course, or the first run would have settled; so both go on with the same pass
    have hne : ¬ (startingFrom courses m t).converged = true := by
      rw [hconv]
      exact Bool.false_ne_true
    have hall : (outset courses t).grown ≠ [] := by
      intro hnil
      exact hne (congrArg converged (settle_of_grown_nil m 0 hnil))
    have hlater : settle courses (n + 1) m (startingFrom courses m t).asPass
        = (settle courses (n + 1) 0
            ⟨(startingFrom courses m t).depths, (outset courses t).grown⟩).after m := by
      rw [← settle_add_made, Nat.zero_add]
      exact settle_congr n m hraised hall rfl
    rw [if_neg hne, hlater]
    exact {
      depths := rfl
      converged := rfl
      unstable := rfl
      passes := by rw [if_neg hne, hpasses, after, Int.add_comm] }

/-- **A run can be stopped and resumed.** The resumed run has the table, the verdict and the unstable
courses of the whole run; the passes are shared between the two parts, unless the first one settled.
A run that does not settle makes all its passes, and unstable are the courses that the last one
raised. -/
theorem startingFrom_resumed (courses : List ParsedCourse) (t : DepthTable) {a b : Int}
    (ha : 0 ≤ a) (hb : 1 ≤ b) :
    Resumes (startingFrom courses (a + b) t) (startingFrom courses a t)
        (startingFrom courses b (startingFrom courses a t).depths) ∧
      ((startingFrom courses (a + b) t).converged = false →
        (startingFrom courses (a + b) t).passes = a + b ∧
        (startingFrom courses (a + b) t).unstable.Nodup ∧
        ∀ id, id ∈ (startingFrom courses (a + b) t).unstable ↔
          (startingFrom courses (a + b - 1) t).depths.depthOf id
            ≠ (startingFrom courses (a + b) t).depths.depthOf id) := by
  obtain ⟨m, rfl⟩ := Int.eq_ofNat_of_zero_le ha
  obtain ⟨n, hn⟩ := Int.eq_ofNat_of_zero_le (show 0 ≤ b - 1 by omega)
  obtain rfl : b = ((n + 1 : Nat) : Int) := by omega
  have hlast : (m : Int) + ((n + 1 : Nat) : Int) - 1 = ((m + n : Nat) : Int) := by omega
  rw [hlast, ← Int.natCast_add]
  refine ⟨resumes_natCast courses m n t, fun hconv => ⟨?_, ?_, fun id => mem_unstable_iff hconv⟩⟩
  · rcases startingFrom_converged_or courses (m + (n + 1)) t with hdone | hdone
    · exact absurd (hconv.symm.trans hdone.1) Bool.false_ne_true
    · exact hdone.2.2
  · exact nodup_unstable _ 0 (nodup_grown_outset courses t)

/-- Two courses that ask for each other, and a chain, part of which stands too deep at the start. -/
theorem loopCatalog_resumed :
    (0 : Int) ≤ 2 ∧ (1 : Int) ≤ 3 ∧
      Resumes (startingFrom (loopCatalog []) (2 + 3) [("MATH 1", 4), ("MATH 2", -7)])
        (startingFrom (loopCatalog []) 2 [("MATH 1", 4), ("MATH 2", -7)])
        (startingFrom (loopCatalog []) 3
          (startingFrom (loopCatalog []) 2 [("MATH 1", 4), ("MATH 2", -7)]).depths) ∧
      (startingFrom (loopCatalog []) (2 + 3) [("MATH 1", 4), ("MATH 2", -7)]).converged = false ∧
      (startingFrom (loopCatalog []) (2 + 3) [("MATH 1", 4), ("MATH 2", -7)]).passes = 2 + 3 := by
  obtain ⟨hresumes, hunsettled⟩ :=
    startingFrom_resumed (loopCatalog []) [("MATH 1", 4), ("MATH 2", -7)] (a := 2) (b := 3)
      (by decide) (by decide)
  have hconv : (startingFrom (loopCatalog []) (2 + 3)
      [("MATH 1", 4), ("MATH 2", -7)]).converged = false := by
    cbv
  exact ⟨by decide, by decide, hresumes, hconv, (hunsettled hconv).1⟩

end Resolution

end Curriculum
