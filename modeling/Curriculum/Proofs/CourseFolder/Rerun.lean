import Curriculum.Proofs.CourseFolder.Workers
import Mathlib.Data.List.Nodup

/-!
# Processing a folder again

A folder all of whose records came to an outcome (`Pool.Completes`), with one worker
(`Pool.completes_parseInTurn`) or several, may be processed again. What that does depends on what is
loaded from it, which is what the first time has left there (`Pool.Completes.records_perm`):
a record that was loaded can be saved and loaded again, and so can what processing makes of it, as
the requirements that a reply proposes are not nested deeper than a file may be
(`Record.nesting_le_of_processed`).

Of these records only those in error are still open (`Record.isOpen_of_processed`), so the model is
asked about them once more and all others are skipped.

> `rerun_retries_errors`: the second time the model is asked about the records that were in error,
> and about no other; all other files stay as they are, and the numbers of both times fit.
-/

namespace Curriculum

namespace Record

variable {answer : Answer} {now : String} {r r' : Record} {outcome : Outcome}

/-- What processing makes of a record that was loaded can be loaded again. -/
theorem nesting_le_of_processed (h : Processed answer now r outcome r')
    (hr : r.toJson.nesting ≤ 200) : r'.toJson.nesting ≤ 200 := by
  rw [nesting_toJson_le_iff (by decide)] at hr ⊢
  cases h with
  | skipped _ => exact hr
  | untold _ _ => exact hr
  | told _ _ hanswer hsettled =>
    cases hsettled with
    | declined reason => exact hr
    | refused _ => exact hr
    | accepted haccept =>
      intro reqs hreqs
      obtain rfl := Option.some.inj hreqs
      obtain ⟨-, hread⟩ := Candidate.accept_eq_ok_iff.mp haccept
      exact Nat.lt_of_le_of_lt (CourseRequirements.nesting_toJson_le hread)
        (Answer.nesting_lt_of_proposed hanswer)

/-- A record is skipped if it is not open. -/
theorem eq_skipped_iff (h : Processed answer now r outcome r') :
    outcome = .skipped ↔ r.isOpen = false := by
  cases h with
  | skipped shut => exact iff_of_true rfl shut
  | untold opened _ => simp [opened]
  | told opened _ _ hsettled => cases hsettled <;> simp [opened]

/-- A record that is skipped stays as it is. -/
theorem eq_of_skipped (h : Processed answer now r .skipped r') : r' = r := by
  cases h with
  | skipped _ => rfl
  | told _ _ _ hsettled => cases hsettled

/-- Only a record in error is still open after it was processed. -/
theorem isOpen_of_processed (h : Processed answer now r outcome r') :
    r'.isOpen = decide (outcome = .errored) := by
  cases h with
  | skipped shut => exact shut
  | untold _ _ => rfl
  | told _ _ _ hsettled => cases hsettled <;> rfl

/-- The model is asked again about a record in error. -/
theorem questions_of_processed (h : Processed answer now r outcome r') :
    r'.questions = if outcome = .errored then [r'] else [] := by
  have hopen := isOpen_of_processed h
  unfold questions needsModel
  by_cases herrored : outcome = .errored
  · have htext : r'.hasText = true := by
      cases h with
      | skipped _ => exact absurd herrored (by decide)
      | untold _ _ => exact absurd herrored (by decide)
      | told _ htext _ hsettled => cases hsettled <;> exact htext
    rw [hopen, htext, if_pos herrored, decide_eq_true herrored]
    rfl
  · rw [hopen, if_neg herrored, decide_eq_false herrored]
    rfl

end Record

/-- A record that is in a file can be saved and loaded again. -/
theorem CourseFolder.nesting_le_of_recordAt? {folder : CourseFolder} {name : String} {r : Record}
    (h : folder.recordAt? name = some r) : r.toJson.nesting ≤ 200 := by
  obtain ⟨e, -, hrecord⟩ := Option.bind_eq_some_iff.mp h
  cases e with
  | folder entries => exact absurd hrecord (by simp [recordIn, Except.toOption])
  | file text =>
    cases text with
    | none => exact absurd hrecord (by simp [recordIn, Except.toOption])
    | some text =>
      have hof : (recordOf text).toOption = some r := hrecord
      unfold recordOf at hof
      split at hof
      · next r' hread =>
        obtain rfl : r' = r := Option.some.inj hof
        exact Record.nesting_le_of_ofText hread
      · exact absurd hof (by simp [Except.toOption])

/-- The record after a turn. -/
def Turn.after (a : Turn) : Record :=
  match a.result with
  | .ok (_, r) => r
  | .error _ => a.file.2

/-- Whether the record of a turn is in error after it. -/
def Turn.hasErred (a : Turn) : Bool :=
  Result.hasOutcome .errored a.result

namespace Pool

variable {may : Record → Answer → Prop} {now : String} {folder : CourseFolder} {p : Pool} {a : Turn}

namespace Completes

theorem accounts (h : Completes may now folder p) : Accounts may now folder p :=
  accounts_of_reaches h.reaches

theorem file_mem (h : Completes may now folder p) (ha : a ∈ p.finished) :
    a.file ∈ folder.records :=
  h.accounts.file_mem (List.mem_append_right _ ha)

/-- Each file of the folder had its turn. -/
theorem exists_turn (h : Completes may now folder p) {file : String × Record}
    (hfile : file ∈ folder.records) : ∃ a ∈ p.finished, a.file = file :=
  List.mem_map.mp ((h.accounts.perm_of_isDone h.done).mem_iff.mpr hfile)

/-- In each turn the record was processed, with some answer of the model. -/
theorem exists_processed (h : Completes may now folder p) (ha : a ∈ p.finished) :
    ∃ answer outcome r, may a.file.2 answer ∧ a.result = .ok (outcome, r) ∧
      Record.Processed answer now a.file.2 outcome r := by
  obtain ⟨answer, hmay, hresult⟩ := h.accounts.results a (List.mem_append_right _ ha)
  have hsettled := h.accounts.failure_eq_none_iff.mp h.went a ha
  cases hok : a.result with
  | error fault =>
    rw [hok] at hsettled
    exact absurd hsettled Bool.false_ne_true
  | ok settled =>
    obtain ⟨outcome, r⟩ := settled
    exact ⟨answer, outcome, r, hmay, rfl, Record.processed_cases (hresult.symm.trans hok)⟩

/-! ## What is left in the folder -/

/-- The files keep their places. -/
theorem keys_folder (h : Completes may now folder p) :
    Table.keys p.run.folder = Table.keys folder := by
  rw [h.accounts.run]
  refine Run.keys_takeAll fun x hx => ?_
  obtain ⟨a, ha, rfl⟩ := List.mem_map.mp hx
  exact CourseFolder.name_mem_of_mem_records (h.file_mem ha)

/-- After a turn the file holds what the record came to. -/
theorem recordAt?_file (h : Completes may now folder p) (hfolder : (Table.keys folder).Nodup)
    (ha : a ∈ p.finished) : p.run.folder.recordAt? a.file.1 = some a.after := by
  have hbefore : folder.recordAt? a.file.1 = some a.file.2 :=
    ((CourseFolder.mem_records_iff hfolder).mp (h.file_mem ha)).2
  have hafter : Table.find? p.run.folder a.file.1
      = Result.entryAfter (Table.find? folder a.file.1) a.result := by
    rw [h.accounts.run]
    exact Run.find?_takeAll_of_mem (h.accounts.nodup hfolder) (List.mem_map_of_mem ha)
  obtain ⟨answer, outcome, r, -, hresult, hprocessed⟩ := h.exists_processed ha
  have hr : a.after = r := by
    unfold Turn.after
    rw [hresult]
  rw [CourseFolder.recordAt?, hafter, hresult, hr]
  by_cases hskipped : outcome = .skipped
  · obtain rfl := hskipped
    obtain rfl := Record.eq_of_skipped hprocessed
    exact hbefore
  · have hload : CourseFolder.recordOf r.written = .ok r :=
      CourseFolder.recordOf_eq_ok_iff.mpr (Record.ofText_written
        (Record.nesting_le_of_processed hprocessed (CourseFolder.nesting_le_of_recordAt? hbefore)))
    rw [Result.entryAfter, if_neg hskipped, Option.bind_some, CourseFolder.recordIn, hload]
    rfl

/-- Any other file is as it was. -/
theorem find?_of_not_mem (h : Completes may now folder p) {name : String}
    (hname : ∀ a ∈ p.finished, a.file.1 ≠ name) :
    Table.find? p.run.folder name = Table.find? folder name := by
  rw [h.accounts.run]
  refine Run.find?_takeAll_of_not_mem fun hmem => ?_
  obtain ⟨x, hx, rfl⟩ := List.mem_map.mp hmem
  obtain ⟨a, ha, rfl⟩ := List.mem_map.mp hx
  exact hname a ha rfl

/-- The same files are loaded afterwards. -/
theorem keys_records (h : Completes may now folder p) (hfolder : (Table.keys folder).Nodup) :
    Table.keys p.run.folder.records = Table.keys folder.records := by
  refine CourseFolder.names_records_eq hfolder h.keys_folder fun name => ?_
  by_cases hname : ∃ a ∈ p.finished, a.file.1 = name
  · obtain ⟨a, ha, rfl⟩ := hname
    rw [h.recordAt?_file hfolder ha, ((CourseFolder.mem_records_iff hfolder).mp (h.file_mem ha)).2]
    rfl
  · have hother : ∀ a ∈ p.finished, a.file.1 ≠ name := fun a ha he => hname ⟨a, ha, he⟩
    rw [CourseFolder.recordAt?, CourseFolder.recordAt?, h.find?_of_not_mem hother]

/-- **What is loaded afterwards** are the records as they were left. -/
theorem records_perm (h : Completes may now folder p) (hfolder : (Table.keys folder).Nodup) :
    p.run.folder.records.Perm (p.finished.map fun a => (a.file.1, a.after)) := by
  have hfolder' : (Table.keys p.run.folder).Nodup := h.keys_folder ▸ hfolder
  have hloaded : p.run.folder.records.Nodup :=
    List.Nodup.of_map Prod.fst (CourseFolder.nodup_names_records hfolder')
  have hleft : (p.finished.map fun a => (a.file.1, a.after)).Nodup := by
    have hnames := h.accounts.nodup hfolder
    rw [List.map_map] at hnames
    refine List.Nodup.of_map Prod.fst ?_
    rwa [List.map_map]
  refine (List.perm_ext_iff_of_nodup hloaded hleft).mpr fun file => ?_
  constructor
  · intro hfile
    have hname : file.1 ∈ Table.keys folder.records :=
      h.keys_records hfolder ▸ List.mem_map_of_mem hfile
    obtain ⟨before, hbefore, hname⟩ := List.mem_map.mp hname
    obtain ⟨a, ha, rfl⟩ := h.exists_turn hbefore
    have hload := ((CourseFolder.mem_records_iff hfolder').mp hfile).2
    rw [← hname, h.recordAt?_file hfolder ha] at hload
    exact List.mem_map.mpr ⟨a, ha, Prod.ext hname (Option.some.inj hload)⟩
  · intro hfile
    obtain ⟨a, ha, rfl⟩ := List.mem_map.mp hfile
    have hcourse := ((CourseFolder.mem_records_iff hfolder).mp (h.file_mem ha)).1
    exact (CourseFolder.mem_records_iff hfolder').mpr ⟨hcourse, h.recordAt?_file hfolder ha⟩

/-! ## Counting -/

/-- Each outcome was counted once for each file that came to it. -/
theorem count_outcomes (h : Completes may now folder p) (outcome : Outcome) :
    p.run.outcomes.count outcome
      = p.finished.countP fun a => Result.hasOutcome outcome a.result := by
  have hstart : (Run.start folder).outcomes.count outcome = 0 := rfl
  rw [h.accounts.run, Run.count_takeAll, hstart, Nat.zero_add, List.countP_map]
  rfl

theorem length_finished (h : Completes may now folder p) :
    p.finished.length = folder.records.length := by
  rw [← (h.accounts.perm_of_isDone h.done).length_eq, List.length_map]

/-- Every file that is loaded was counted. -/
theorem sum_outcomes (h : Completes may now folder p) :
    p.run.outcomes.count .parsed + p.run.outcomes.count .blacklisted
        + p.run.outcomes.count .errored + p.run.outcomes.count .skipped
      = folder.records.length := by
  have hsettled : (p.finished.map Turn.noted).countP (fun x => Result.isSettled x.2)
      = p.finished.length := by
    rw [List.countP_map, List.countP_eq_length]
    exact h.accounts.failure_eq_none_iff.mp h.went
  have hsum := Result.countP_isSettled (p.finished.map Turn.noted)
  simp only [List.countP_map] at hsum
  rw [← h.length_finished, ← hsettled, List.countP_map, hsum]
  simp only [h.count_outcomes]
  rfl

/-! ## What is still open -/

theorem isOpen_after (h : Completes may now folder p) (ha : a ∈ p.finished) :
    a.after.isOpen = a.hasErred := by
  obtain ⟨answer, outcome, r, -, hresult, hprocessed⟩ := h.exists_processed ha
  unfold Turn.after Turn.hasErred
  rw [hresult]
  exact Record.isOpen_of_processed hprocessed

theorem questions_after (h : Completes may now folder p) (ha : a ∈ p.finished) :
    a.after.questions = if a.hasErred then [a.after] else [] := by
  obtain ⟨answer, outcome, r, -, hresult, hprocessed⟩ := h.exists_processed ha
  unfold Turn.after Turn.hasErred Result.hasOutcome
  rw [hresult]
  simp only [decide_eq_true_eq]
  exact Record.questions_of_processed hprocessed

/-- The model is asked about what is left in the folder only where the record is in error. -/
theorem questions_perm (h : Completes may now folder p) (hfolder : (Table.keys folder).Nodup) :
    (Conversation.questions p.run.folder.records).Perm
      ((p.finished.filter Turn.hasErred).map Turn.after) := by
  refine ((h.records_perm hfolder).flatMap_right _).trans (List.Perm.of_eq ?_)
  have hafter : ∀ as : List Turn, (∀ a ∈ as, a ∈ p.finished) →
      (as.map fun a => (a.file.1, a.after)).flatMap (fun file => file.2.questions)
        = (as.filter Turn.hasErred).map Turn.after := by
    intro as has
    induction as with
    | nil => rfl
    | cons a rest ih =>
      have hrest := ih fun b hb => has b (List.mem_cons_of_mem _ hb)
      rw [List.map_cons, List.flatMap_cons, h.questions_after (has a List.mem_cons_self), hrest,
        List.filter_cons]
      split <;> rfl
  exact hafter p.finished fun _ ha => ha

/-- All that the model is asked about. -/
theorem asked_perm (h : Completes may now folder p) :
    p.asked.Perm (Conversation.questions folder.records) := by
  have hasked := h.accounts.asked
  rw [begun_of_isDone h.done] at hasked
  exact hasked.trans ((h.accounts.perm_of_isDone h.done).flatMap_right _)

/-- A file is as it was unless its record is open. -/
theorem find?_of_shut (h : Completes may now folder p) (hfolder : (Table.keys folder).Nodup)
    {name : String} (hshut : ∀ r, (name, r) ∈ folder.records → r.isOpen = false) :
    Table.find? p.run.folder name = Table.find? folder name := by
  rcases h.accounts.find?_folder hfolder name with hsame | ⟨a, ha, rfl, hafter⟩
  · exact hsame
  · obtain ⟨answer, outcome, r, -, hresult, hprocessed⟩ := h.exists_processed ha
    have hskipped := (Record.eq_skipped_iff hprocessed).mpr (hshut a.file.2 (h.file_mem ha))
    rw [hafter, hresult, Result.entryAfter, if_pos hskipped]

/-- The records that are not open are skipped. -/
theorem count_skipped (h : Completes may now folder p) :
    p.run.outcomes.count .skipped = folder.records.countP fun file => !file.2.isOpen := by
  rw [h.count_outcomes, ← (h.accounts.perm_of_isDone h.done).countP_eq, List.countP_map]
  refine List.countP_congr fun a ha => ?_
  obtain ⟨answer, outcome, r, -, hresult, hprocessed⟩ := h.exists_processed ha
  rw [hresult, Result.hasOutcome, decide_eq_true_eq, Record.eq_skipped_iff hprocessed,
    Function.comp_apply, Bool.not_eq_true']

end Completes

/-- **Processing a folder again only retries the errors.** If every file came to an outcome, the
outcomes are as many as the files that were loaded. If the folder is then processed again, with a
model that gives a reply whenever it is asked, then the same files are loaded, each comes to an
outcome, the model is asked once about each record that was in error and about no other, all other
files are as the first time has left them, and the records that were not in error are skipped. -/
theorem rerun_retries_errors {now' : String} {p' : Pool} (hfolder : (Table.keys folder).Nodup)
    (h : Completes may now folder p)
    (hreaches : Reaches (fun _ answer => ∃ verdict, answer.verdict = .ok verdict) now'
      (start p.run.folder) p') (hdone : p'.IsDone) :
    p.run.processed = p.run.outcomes.count .parsed + p.run.outcomes.count .blacklisted
        + p.run.outcomes.count .errored ∧
      p.run.processed + p.run.outcomes.count .skipped = folder.records.length ∧
      p'.run.failure = none ∧
      Table.keys p.run.folder.records = Table.keys folder.records ∧
      p'.asked.Perm ((p.finished.filter Turn.hasErred).map Turn.after) ∧
      (∀ name, (∀ a ∈ p.finished, a.file.1 = name → a.hasErred = false) →
        Table.find? p'.run.folder name = Table.find? p.run.folder name) ∧
      p'.run.outcomes.count .skipped = p.run.outcomes.count .parsed
        + p.run.outcomes.count .blacklisted + p.run.outcomes.count .skipped := by
  have hfolder' : (Table.keys p.run.folder).Nodup := h.keys_folder ▸ hfolder
  have haccounts := accounts_of_reaches hreaches
  have hwent : p'.run.failure = none := by
    refine haccounts.failure_eq_none_iff.mpr fun a ha => ?_
    obtain ⟨answer, ⟨verdict, hverdict⟩, hresult⟩ :=
      haccounts.results a (List.mem_append_right _ ha)
    cases hfault : a.result with
    | ok settled => rfl
    | error fault =>
      obtain ⟨-, hfailed⟩ := Record.processed_eq_error_iff.mp (hresult.symm.trans hfault)
      exact absurd (hverdict.symm.trans hfailed) (by simp)
  have h' : Completes _ now' p.run.folder p' := ⟨hreaches, hdone, hwent⟩
  have hbalanced : p.run.IsBalanced := h.accounts.isBalanced
  refine ⟨hbalanced, hbalanced ▸ h.sum_outcomes, hwent, h.keys_records hfolder,
    h'.asked_perm.trans (h.questions_perm hfolder), fun name hname => ?_, ?_⟩
  · -- a file that is changed was open, so its record was in error
    refine h'.find?_of_shut hfolder' fun r hr => ?_
    obtain ⟨a, ha, hfile⟩ := List.mem_map.mp ((h.records_perm hfolder).mem_iff.mp hr)
    obtain ⟨rfl, rfl⟩ := Prod.mk.inj hfile
    rw [h.isOpen_after ha]
    exact hname a ha rfl
  · have hsum := h.sum_outcomes
    have herred : p.run.outcomes.count .errored = p.finished.countP Turn.hasErred :=
      h.count_outcomes .errored
    have hparts : p.finished.length
        = p.finished.countP Turn.hasErred + p.finished.countP fun a => ¬a.hasErred :=
      List.length_eq_countP_add_countP _
    have hskipped : p'.run.outcomes.count .skipped = p.finished.countP fun a => ¬a.hasErred := by
      rw [h'.count_skipped, (h.records_perm hfolder).countP_eq, List.countP_map]
      refine List.countP_congr fun a ha => ?_
      rw [Function.comp_apply, h.isOpen_after ha, Bool.not_eq_true', decide_eq_true_eq,
        Bool.not_eq_true]
    rw [h.length_finished] at hparts
    omega

/-- A model that proposes nothing at first, and then declines. -/
def sampleFirst (calls : List Record) : Answer :=
  if calls.length = 1 then .content (some "\x7b\"success\": true\x7d")
  else .content (some "\x7b\"success\": false\x7d")

/-- A model that declines. -/
def sampleSecond (_ : List Record) : Answer :=
  .content (some "\x7b\"success\": false\x7d")

theorem sampleFolder_rerun :
    (Table.keys CourseFolder.sampleFolder).Nodup ∧ ∃ p p',
      Completes (fun _ _ => True) "now" CourseFolder.sampleFolder p ∧
        Reaches (fun _ answer => ∃ verdict, answer.verdict = .ok verdict) "then"
          (start p.run.folder) p' ∧ p'.IsDone ∧
        p.asked.length = 2 ∧ p.run.outcomes.count .errored = 1 ∧
        p'.asked.length = 1 ∧ p'.run.outcomes.count .skipped = 2 := by
  have hfolder : (Table.keys CourseFolder.sampleFolder).Nodup := by decide
  have hwent : (CourseFolder.sampleFolder.parseInTurn sampleFirst "now").1.failure = none := by
    rw [CourseFolder.sampleFolder_parseInTurn]
    decide +kernel
  have hcompletes : ∃ p, Completes (fun _ _ => True) "now" CourseFolder.sampleFolder p ∧
      CourseFolder.sampleFolder.parseInTurn sampleFirst "now" = (p.run, p.asked) :=
    completes_parseInTurn (fun _ _ => trivial) hwent
  obtain ⟨p, h, hp⟩ := hcompletes
  have hreadable : ∀ calls r, ∃ verdict,
      (sampleSecond (calls ++ [r])).verdict = .ok verdict := fun _ _ => ⟨.declined none, rfl⟩
  have hcompletes' : ∃ p', Completes (fun _ answer => ∃ verdict, answer.verdict = .ok verdict)
      "then" p.run.folder p' ∧
        p.run.folder.parseInTurn sampleSecond "then" = (p'.run, p'.asked) :=
    completes_parseInTurn hreadable (CourseFolder.failure_parseInTurn_eq_none hreadable)
  obtain ⟨p', h', -⟩ := hcompletes'
  obtain ⟨-, -, -, -, hasked, -, hskipped⟩ :=
    rerun_retries_errors hfolder h h'.reaches h'.done
  have hrun : p.run = (CourseFolder.sampleFolder.parseInTurn sampleFirst "now").1 := by rw [hp]
  have herrored : p.run.outcomes.count .errored = 1 := by
    rw [hrun, CourseFolder.sampleFolder_parseInTurn]
    decide +kernel
  refine ⟨hfolder, p, p', h, h'.reaches, h'.done, ?_, herrored, ?_, ?_⟩
  · have hlength : p.asked = (CourseFolder.sampleFolder.parseInTurn sampleFirst "now").2 := by
      rw [hp]
    rw [hlength, CourseFolder.sampleFolder_parseInTurn]
    decide +kernel
  · rw [hasked.length_eq, List.length_map, ← List.countP_eq_length_filter, ← herrored]
    exact (h.count_outcomes .errored).symm
  · rw [hskipped, hrun, CourseFolder.sampleFolder_parseInTurn]
    decide +kernel

end Pool

end Curriculum
