import Curriculum.CourseFolder.Parsing
import Curriculum.Proofs.CourseFolder.Loading
import Mathlib.Data.List.Perm.Basic

/-!
# Noting what records come to

What processing a record comes to is an outcome and the record after it, or no reply (`Result`). A
run notes such results one after the other, each under the name of a file (`Run.take`,
`Run.takeAll`), and nothing else that a run does touches the folder or the counts.

Noting a result changes at most the file of its name. So after any results for different files each
of these files is as its own result has it (`find?_takeAll_of_mem`), all others are as they were
(`find?_takeAll_of_not_mem`), and each outcome was counted as often as it came up
(`count_takeAll`). In particular

> `folder_takeAll_perm`: the same results in another order lead to the same folder.
-/

namespace Curriculum

/-- What processing a record comes to. -/
abbrev Result : Type := Except ModelFault (Outcome × Record)

namespace Result

/-- Whether the model gave a reply, if it was asked. -/
def isSettled : Result → Bool
  | .ok _ => true
  | .error _ => false

/-- Whether processing ended with an outcome. -/
def hasOutcome (outcome : Outcome) : Result → Bool
  | .ok settled => settled.1 = outcome
  | .error _ => false

/-- What the file of a record is afterwards. -/
def entryAfter (before : Option Entry) : Result → Option Entry
  | .ok (outcome, r) => if outcome = .skipped then before else some (.file (some r.written))
  | .error _ => before

/-- Each result that is settled has one of the four outcomes. -/
theorem countP_isSettled (results : List (String × Result)) :
    results.countP (fun x => isSettled x.2)
      = results.countP (fun x => hasOutcome .parsed x.2)
        + results.countP (fun x => hasOutcome .blacklisted x.2)
        + results.countP (fun x => hasOutcome .errored x.2)
        + results.countP (fun x => hasOutcome .skipped x.2) := by
  induction results with
  | nil => rfl
  | cons x rest ih =>
    obtain ⟨name, result⟩ := x
    simp only [List.countP_cons, ih]
    cases result with
    | error fault => rfl
    | ok settled =>
      obtain ⟨outcome, r⟩ := settled
      cases outcome <;> simp only [hasOutcome, isSettled, decide_true, decide_false, reduceCtorEq,
        Bool.false_eq_true, if_true, if_false] <;> omega

end Result

namespace Run

/-- Note what the record in a file came to; nothing is saved if the model gave no reply. -/
def take (run : Run) (name : String) : Result → Run
  | .ok (outcome, r) => run.note name outcome r
  | .error fault => { run with failure := some fault }

/-- Note what the records in some files came to, one after the other. -/
def takeAll (run : Run) (results : List (String × Result)) : Run :=
  results.foldl (fun run x => run.take x.1 x.2) run

/-- As many records were processed as there are outcomes other than being skipped. -/
def IsBalanced (run : Run) : Prop :=
  run.processed = run.outcomes.count .parsed + run.outcomes.count .blacklisted
    + run.outcomes.count .errored

theorem takeAll_cons (run : Run) (x : String × Result) (rest : List (String × Result)) :
    run.takeAll (x :: rest) = (run.take x.1 x.2).takeAll rest := rfl

theorem takeAll_append (run : Run) (xs ys : List (String × Result)) :
    run.takeAll (xs ++ ys) = (run.takeAll xs).takeAll ys :=
  List.foldl_append ..

/-- Processing the record in a file is finding out what it comes to and noting that. -/
theorem visit_eq {m : Type → Type} [Monad m] (ask : Record → m Answer) (now : String) (run : Run)
    (file : String × Record) :
    visit ask now run file
      = file.2.process ask now >>= fun result => pure (run.take file.1 result) := by
  unfold visit
  congr 1
  funext result
  cases result with
  | error fault => rfl
  | ok settled => rfl

/-! ## One result -/

variable {run : Run} {results results' : List (String × Result)} {name : String}

theorem find?_take (run : Run) (name : String) (result : Result) (name' : String) :
    Table.find? (run.take name result).folder name'
      = if name = name' then Result.entryAfter (Table.find? run.folder name') result
        else Table.find? run.folder name' := by
  cases result with
  | error fault => exact (ite_self _).symm
  | ok settled =>
    obtain ⟨outcome, r⟩ := settled
    show Table.find? (if outcome = .skipped then run.folder else run.folder.put name r) name'
      = if name = name' then
          (if outcome = .skipped then Table.find? run.folder name'
            else some (.file (some r.written)))
        else Table.find? run.folder name'
    by_cases h : outcome = .skipped
    · rw [if_pos h, if_pos h, ite_self]
    · rw [if_neg h, if_neg h, CourseFolder.put, Table.find?_insert]

/-- A file that is there keeps its place. -/
theorem keys_take (h : name ∈ Table.keys run.folder) (result : Result) :
    Table.keys (run.take name result).folder = Table.keys run.folder := by
  cases result with
  | error fault => rfl
  | ok settled =>
    show Table.keys (if settled.1 = .skipped then run.folder else run.folder.put name settled.2) = _
    split
    · rfl
    · rw [CourseFolder.put, Table.keys_insert, if_pos h]

theorem count_take (run : Run) (name : String) (result : Result) (outcome : Outcome) :
    (run.take name result).outcomes.count outcome
      = run.outcomes.count outcome + if Result.hasOutcome outcome result then 1 else 0 := by
  cases result with
  | error fault => rfl
  | ok settled =>
    show (run.outcomes.addTimes settled.1 1).count outcome = _
    rw [Tally.count_addTimes]
    simp only [Result.hasOutcome, decide_eq_true_eq]

theorem isBalanced_take (h : run.IsBalanced) (name : String) (result : Result) :
    (run.take name result).IsBalanced := by
  unfold IsBalanced at h ⊢
  simp only [count_take]
  cases result with
  | error fault => exact h
  | ok settled =>
    obtain ⟨outcome, r⟩ := settled
    show run.processed + (if outcome = .skipped then 0 else 1) = _
    rw [h]
    cases outcome <;> simp only [Result.hasOutcome, decide_true, decide_false, reduceCtorEq,
      Bool.false_eq_true, if_true, if_false] <;> omega

/-! ## All results -/

/-- A file for which there is no result is as it was. -/
theorem find?_takeAll_of_not_mem (h : name ∉ results.map (·.1)) :
    Table.find? (run.takeAll results).folder name = Table.find? run.folder name := by
  induction results generalizing run with
  | nil => rfl
  | cons x rest ih =>
    have hname : name ≠ x.1 := fun he => h (he ▸ List.mem_cons_self)
    have hrest : name ∉ rest.map (·.1) := fun hmem => h (List.mem_cons_of_mem _ hmem)
    rw [takeAll_cons, ih hrest, find?_take, if_neg hname.symm]

/-- The file of a result is as the result has it. -/
theorem find?_takeAll_of_mem (hnames : (results.map (·.1)).Nodup) {x : String × Result}
    (hx : x ∈ results) :
    Table.find? (run.takeAll results).folder x.1
      = Result.entryAfter (Table.find? run.folder x.1) x.2 := by
  induction results generalizing run with
  | nil => exact absurd hx List.not_mem_nil
  | cons y rest ih =>
    obtain ⟨hout, hrest⟩ := List.nodup_cons.mp hnames
    rw [takeAll_cons]
    by_cases hname : y.1 = x.1
    · -- no later result is for this file
      have hxy : x = y := by
        rcases List.mem_cons.mp hx with hxy | hx
        · exact hxy
        · exact absurd (List.mem_map.mpr ⟨x, hx, hname.symm⟩) hout
      rw [hxy, find?_takeAll_of_not_mem hout, find?_take, if_pos rfl]
    · have hx : x ∈ rest := (List.mem_cons.mp hx).resolve_left fun hxy => hname (hxy ▸ rfl)
      rw [ih hrest hx, find?_take, if_neg hname]

/-- The files keep their places. -/
theorem keys_takeAll (h : ∀ x ∈ results, x.1 ∈ Table.keys run.folder) :
    Table.keys (run.takeAll results).folder = Table.keys run.folder := by
  induction results generalizing run with
  | nil => rfl
  | cons x rest ih =>
    have hkeys := keys_take (h x List.mem_cons_self) x.2
    rw [takeAll_cons, ih, hkeys]
    intro y hy
    rw [hkeys]
    exact h y (List.mem_cons_of_mem _ hy)

/-- Each outcome was counted as often as it came up. -/
theorem count_takeAll (run : Run) (results : List (String × Result)) (outcome : Outcome) :
    (run.takeAll results).outcomes.count outcome
      = run.outcomes.count outcome
        + results.countP fun x => Result.hasOutcome outcome x.2 := by
  induction results generalizing run with
  | nil => rfl
  | cons x rest ih =>
    rw [takeAll_cons, ih, count_take, List.countP_cons, Nat.add_assoc, Nat.add_comm (ite _ _ _)]

theorem isBalanced_takeAll (h : run.IsBalanced) (results : List (String × Result)) :
    (run.takeAll results).IsBalanced := by
  induction results generalizing run with
  | nil => exact h
  | cons x rest ih => exact ih (isBalanced_take h x.1 x.2)

/-- Nothing failed if every result is settled. -/
theorem failure_takeAll_eq_none_iff :
    (run.takeAll results).failure = none ↔
      run.failure = none ∧ ∀ x ∈ results, Result.isSettled x.2 = true := by
  induction results generalizing run with
  | nil => simp [takeAll]
  | cons x rest ih =>
    have htake : (run.take x.1 x.2).failure = none ↔
        run.failure = none ∧ Result.isSettled x.2 = true := by
      cases x.2 with
      | error fault => simp [take, Result.isSettled]
      | ok settled => simp [take, note, Result.isSettled]
    rw [takeAll_cons, ih, htake, List.forall_mem_cons, and_assoc]

/-- **The order in which results are noted does not matter for the folder.** -/
theorem folder_takeAll_perm (h : results.Perm results') (hnames : (results.map (·.1)).Nodup)
    (hfiles : ∀ x ∈ results, x.1 ∈ Table.keys run.folder)
    (hfolder : (Table.keys run.folder).Nodup) :
    (run.takeAll results).folder = (run.takeAll results').folder := by
  have hnames' : (results'.map (·.1)).Nodup := (h.map _).nodup_iff.mp hnames
  have hkeys := keys_takeAll hfiles
  have hkeys' : Table.keys (run.takeAll results').folder = Table.keys run.folder :=
    keys_takeAll fun x hx => hfiles x (h.mem_iff.mpr hx)
  refine Table.eq_of_find?_eq (hkeys.trans hkeys'.symm) (hkeys ▸ hfolder) fun name _ => ?_
  by_cases hname : name ∈ results.map (·.1)
  · obtain ⟨x, hx, rfl⟩ := List.mem_map.mp hname
    rw [find?_takeAll_of_mem hnames hx, find?_takeAll_of_mem hnames' (h.mem_iff.mp hx)]
  · have hname' : name ∉ results'.map (·.1) := fun hmem => hname ((h.map _).mem_iff.mpr hmem)
    rw [find?_takeAll_of_not_mem hname, find?_takeAll_of_not_mem hname']

end Run

end Curriculum
