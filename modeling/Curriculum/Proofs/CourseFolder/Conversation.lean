import Curriculum.Proofs.CourseFolder.Results
import Curriculum.Proofs.Record.Processing

/-!
# A conversation with the model

A single worker takes the files of a folder in the order of their names and asks the model about one
record after the other. The model may answer each question by all that it was asked before, so what
a record comes to depends on the questions before it (`Conversation.results`); these are the records
before it that need the model (`Conversation.questions`).

Such a conversation goes in one of two ways (`Conversation.Went`): every record comes to an outcome,
or there is a first one about which the model gives no reply, and nothing happens after that.

> `failure_stops_run`: if any call of the model fails, it is the last call, its failure is that of
> the run, the files before it are as their records came out, and its own file and all later ones
> are as they were.
-/

namespace Curriculum

namespace Record

/-- Whether the model is asked about a record. -/
def needsModel (r : Record) : Bool :=
  r.isOpen && r.hasText

/-- What the model is asked when a record is processed. -/
def questions (r : Record) : List Record :=
  if r.needsModel then [r] else []

/-- The model is asked in vain about a record exactly if it is asked and gives no reply. -/
theorem processed_eq_error_iff {answer : Answer} {now : String} {r : Record} {fault : ModelFault} :
    r.processed answer now = .error fault ↔
      r.needsModel = true ∧ answer.verdict = .error fault := by
  unfold processed process needsModel
  cases r.isOpen with
  | false => simp [pure]
  | true =>
    cases r.hasText with
    | false => simp [pure]
    | true =>
      cases hverdict : answer.verdict <;> simp [bind, pure, Except.map, hverdict]

end Record

namespace Conversation

/-- Ask about a record, and keep in mind what was asked. -/
def ask (model : List Record → Answer) (r : Record) : StateM (List Record) Answer := do
  modify (· ++ [r])
  return model (← get)

/-- What the model is asked about some files. -/
def questions (files : List (String × Record)) : List Record :=
  files.flatMap fun file => file.2.questions

/-- What the records in some files come to, one after the other, with what was asked before. -/
def results (model : List Record → Answer) (now : String) (asked : List Record) :
    List (String × Record) → List (String × Result)
  | [] => []
  | file :: rest =>
    (file.1, file.2.processed (model (asked ++ [file.2])) now)
      :: results model now (asked ++ file.2.questions) rest

variable {model : List Record → Answer} {now : String} {asked calls : List Record} {run : Run}
  {files : List (String × Record)}

theorem questions_cons (file : String × Record) (rest : List (String × Record)) :
    questions (file :: rest) = file.2.questions ++ questions rest := rfl

theorem questions_append (xs ys : List (String × Record)) :
    questions (xs ++ ys) = questions xs ++ questions ys :=
  List.flatMap_append

theorem questions_concat (before : List (String × Record)) {file : String × Record}
    (h : file.2.needsModel = true) :
    questions before ++ [file.2] = questions (before ++ [file]) := by
  rw [questions_append, questions_cons, Record.questions, if_pos h]
  rfl

theorem results_append (model : List Record → Answer) (now : String) (asked : List Record)
    (xs ys : List (String × Record)) :
    results model now asked (xs ++ ys)
      = results model now asked xs ++ results model now (asked ++ questions xs) ys := by
  induction xs generalizing asked with
  | nil => rw [List.nil_append, questions, List.flatMap_nil, List.append_nil]; rfl
  | cons file rest ih =>
    rw [List.cons_append, results, ih, questions_cons, List.append_assoc]
    rfl

/-- There is one result for each file, under its name. -/
theorem names_results (model : List Record → Answer) (now : String) (asked : List Record)
    (files : List (String × Record)) :
    (results model now asked files).map (·.1) = files.map (·.1) := by
  induction files generalizing asked with
  | nil => rfl
  | cons file rest ih => exact congrArg (file.1 :: ·) (ih (asked ++ file.2.questions))

/-- The result for a file that stands somewhere among others. -/
theorem mem_results (model : List Record → Answer) (now : String) (asked : List Record)
    (before after : List (String × Record)) (file : String × Record) :
    (file.1, file.2.processed (model (asked ++ questions before ++ [file.2])) now)
      ∈ results model now asked (before ++ file :: after) := by
  rw [results_append]
  exact List.mem_append_right _ List.mem_cons_self

/-- A conversation that is not over may end at any of its questions. -/
theorem exists_file_of_prefix (h : calls <+: questions files) (hcalls : calls ≠ []) :
    ∃ before file after, files = before ++ file :: after ∧ file.2.needsModel = true ∧
      calls = questions before ++ [file.2] := by
  induction files generalizing calls with
  | nil => exact absurd (List.prefix_nil.mp h) hcalls
  | cons file rest ih =>
    rw [questions_cons, Record.questions] at h
    by_cases hneeds : file.2.needsModel = true
    · rw [if_pos hneeds] at h
      obtain ⟨r, others, rfl⟩ := List.exists_cons_of_ne_nil hcalls
      obtain ⟨rfl, hothers⟩ := List.cons_prefix_cons.mp h
      by_cases hlast : others = []
      · exact ⟨[], file, rest, rfl, hneeds, by rw [hlast]; rfl⟩
      · obtain ⟨before, file', after, rfl, hneeds', rfl⟩ := ih hothers hlast
        refine ⟨file :: before, file', after, rfl, hneeds', ?_⟩
        rw [questions_cons, Record.questions, if_pos hneeds]
        rfl
    · rw [if_neg hneeds] at h
      obtain ⟨before, file', after, rfl, hneeds', rfl⟩ := ih h hcalls
      refine ⟨file :: before, file', after, rfl, hneeds', ?_⟩
      rw [questions_cons, Record.questions, if_neg hneeds]
      rfl

/-! ## One record -/

theorem process_ask (model : List Record → Answer) (now : String) (r : Record)
    (asked : List Record) :
    (r.process (ask model) now).run asked
      = (r.processed (model (asked ++ [r])) now, asked ++ r.questions) := by
  unfold Record.processed Record.process Record.questions Record.needsModel
  cases r.isOpen with
  | false => exact congrArg (Prod.mk _) (List.append_nil asked).symm
  | true =>
    cases r.hasText with
    | false => exact congrArg (Prod.mk _) (List.append_nil asked).symm
    | true => rfl

theorem visit_ask (model : List Record → Answer) (now : String) (run : Run) (file : String × Record)
    (asked : List Record) :
    (Run.visit (ask model) now run file).run asked
      = (run.take file.1 (file.2.processed (model (asked ++ [file.2])) now),
          asked ++ file.2.questions) := by
  rw [Run.visit_eq, StateT.run_bind, process_ask]
  rfl

theorem visitAll_cons (model : List Record → Answer) (now : String) (run : Run)
    (file : String × Record) (rest : List (String × Record)) (asked : List Record) :
    (Run.visitAll (ask model) now run (file :: rest)).run asked
      = let next := run.take file.1 (file.2.processed (model (asked ++ [file.2])) now)
        if next.failure.isSome then (next, asked ++ file.2.questions)
        else (Run.visitAll (ask model) now next rest).run (asked ++ file.2.questions) := by
  rw [Run.visitAll, StateT.run_bind, visit_ask]
  show (if _ then _ else _ : StateM (List Record) Run).run _ = if _ then _ else _
  split <;> rfl

/-- A model that answers by the record alone may as well have no memory. -/
theorem fst_visitAll_of_answers {answer : Record → Answer}
    (h : ∀ calls r, model (calls ++ [r]) = answer r) (run : Run) (asked : List Record)
    (files : List (String × Record)) :
    ((Run.visitAll (ask model) now run files).run asked).1
      = Id.run (Run.visitAll answer now run files) := by
  induction files generalizing run asked with
  | nil => rfl
  | cons file rest ih =>
    let next := run.take file.1 (file.2.processed (answer file.2) now)
    have hvisit : Run.visitAll (m := Id) answer now run (file :: rest)
        = if next.failure.isSome then next else Run.visitAll (m := Id) answer now next rest := by
      rw [Run.visitAll, Run.visit_eq]
      rfl
    rw [visitAll_cons, h, hvisit]
    show (if next.failure.isSome then _ else _ : Run × List Record).1 = _
    split
    · rfl
    · exact ih next _

/-! ## All records -/

/-- How a conversation about some files goes. -/
inductive Went (model : List Record → Answer) (now : String) (run : Run) (asked : List Record)
    (files : List (String × Record)) : Run → List Record → Prop
  /-- Every record comes to an outcome. -/
  | through (settled : ∀ x ∈ results model now asked files, Result.isSettled x.2 = true) :
      Went model now run asked files (run.takeAll (results model now asked files))
        (asked ++ questions files)
  /-- The model gives no reply about one of them. -/
  | stopped {before after : List (String × Record)} {file : String × Record} {fault : ModelFault}
      (split : files = before ++ file :: after)
      (settled : ∀ x ∈ results model now asked before, Result.isSettled x.2 = true)
      (needs : file.2.needsModel = true)
      (failed : (model (asked ++ questions before ++ [file.2])).verdict = .error fault) :
      Went model now run asked files
        { run.takeAll (results model now asked before) with failure := some fault }
        (asked ++ questions (before ++ [file]))

/-- A conversation that goes on after its first record. -/
theorem Went.cons {file : String × Record} {outcome : Outcome} {r : Record} {run' : Run}
    {asked' : List Record}
    (hresult : file.2.processed (model (asked ++ [file.2])) now = .ok (outcome, r))
    (h : Went model now (run.take file.1 (.ok (outcome, r))) (asked ++ file.2.questions) files
      run' asked') :
    Went model now run asked (file :: files) run' asked' := by
  have hresults : ∀ fs, results model now asked (file :: fs)
      = (file.1, .ok (outcome, r)) :: results model now (asked ++ file.2.questions) fs := by
    intro fs
    rw [results, hresult]
  have hfirst : ∀ fs, (∀ x ∈ results model now (asked ++ file.2.questions) fs,
      Result.isSettled x.2 = true) →
      ∀ x ∈ results model now asked (file :: fs), Result.isSettled x.2 = true := by
    intro fs hfs
    rw [hresults]
    exact List.forall_mem_cons.mpr ⟨rfl, hfs⟩
  cases h with
  | through settled =>
    have hwent : Went model now run asked (file :: files) _ _ := .through (hfirst files settled)
    rwa [hresults, Run.takeAll_cons, questions_cons, ← List.append_assoc] at hwent
  | @stopped before after file' fault split settled needs failed =>
    have hsplit : file :: files = (file :: before) ++ file' :: after := by rw [split]; rfl
    rw [List.append_assoc asked, ← questions_cons] at failed
    have hwent : Went model now run asked (file :: files) _ _ :=
      .stopped hsplit (hfirst before settled) needs failed
    rwa [hresults, Run.takeAll_cons, List.cons_append, questions_cons, ← List.append_assoc] at hwent

/-- **How a conversation goes.** -/
theorem went_visitAll (model : List Record → Answer) (now : String) (hrun : run.failure = none)
    (asked : List Record) (files : List (String × Record)) :
    Went model now run asked files ((Run.visitAll (ask model) now run files).run asked).1
      ((Run.visitAll (ask model) now run files).run asked).2 := by
  induction files generalizing run asked with
  | nil =>
    have hwent : Went model now run asked [] _ _ := .through fun _ hx => absurd hx List.not_mem_nil
    rwa [questions, List.flatMap_nil, List.append_nil] at hwent
  | cons file rest ih =>
    rw [visitAll_cons]
    cases hresult : file.2.processed (model (asked ++ [file.2])) now with
    | error fault =>
      obtain ⟨hneeds, hfailed⟩ := Record.processed_eq_error_iff.mp hresult
      have hsplit : file :: rest = [] ++ file :: rest := rfl
      have hempty : asked = asked ++ questions [] := (List.append_nil asked).symm
      rw [hempty] at hfailed
      have hwent : Went model now run asked (file :: rest) _ _ :=
        .stopped hsplit (fun _ hx => absurd hx List.not_mem_nil) hneeds hfailed
      rwa [List.nil_append, questions_cons, questions, List.flatMap_nil, List.append_nil] at hwent
    | ok settled =>
      obtain ⟨outcome, r⟩ := settled
      have hnext : (run.take file.1 (.ok (outcome, r))).failure = none := hrun
      have hrest := (ih hnext (asked ++ file.2.questions)).cons hresult
      show Went model now run asked (file :: rest) (if _ then _ else _ : Run × List Record).1
        (if _ then _ else _ : Run × List Record).2
      rwa [if_neg (by rw [hnext]; decide)]

end Conversation

namespace CourseFolder

open Conversation

variable {model : List Record → Answer} {now : String} {folder : CourseFolder}
  {calls : List Record} {fault : ModelFault}

/-- Process all records of a folder one after the other: what was done, and what the model was
asked. -/
def parseInTurn (model : List Record → Answer) (now : String) (folder : CourseFolder) :
    Run × List Record :=
  (folder.parseAll (ask model) now).run []

theorem went_parseInTurn (model : List Record → Answer) (now : String) (folder : CourseFolder) :
    Went model now (Run.start folder) [] folder.records (folder.parseInTurn model now).1
      (folder.parseInTurn model now).2 :=
  went_visitAll model now rfl [] folder.records

/-- A model that always gives a reply does not stop the run. -/
theorem failure_parseInTurn_eq_none
    (hmodel : ∀ calls r, ∃ verdict, (model (calls ++ [r])).verdict = .ok verdict) :
    (folder.parseInTurn model now).1.failure = none := by
  have hwent := went_parseInTurn model now folder
  generalize folder.parseInTurn model now = conversation at hwent
  obtain ⟨run, asked⟩ := conversation
  cases hwent with
  | through settled => exact Run.failure_takeAll_eq_none_iff.mpr ⟨rfl, settled⟩
  | @stopped before after file fault split settled needs failed =>
    obtain ⟨verdict, hverdict⟩ := hmodel ([] ++ questions before) file.2
    exact absurd (hverdict.symm.trans failed) (by simp)

/-- A call that fails is not one of those after which every record came to an outcome. -/
theorem not_settled_of_failed {before after : List (String × Record)} {file : String × Record}
    (hneeds : file.2.needsModel = true)
    (hfault : (model (questions before ++ [file.2])).verdict = .error fault) :
    ¬ ∀ x ∈ results model now [] (before ++ file :: after), Result.isSettled x.2 = true := by
  intro hsettled
  have hfile := hsettled _ (mem_results model now [] before after file)
  rw [List.nil_append, Record.processed_eq_error_iff.mpr ⟨hneeds, hfault⟩] at hfile
  exact Bool.false_ne_true hfile

/-- If a call of the model fails in a conversation, the conversation stops with it. -/
theorem exists_stopped_of_failed (hcalls : calls <+: (folder.parseInTurn model now).2)
    (hsome : calls ≠ []) (hfault : (model calls).verdict = .error fault) :
    ∃ before file after, folder.records = before ++ file :: after ∧
      (∀ x ∈ results model now [] before, Result.isSettled x.2 = true) ∧
      calls = questions before ++ [file.2] ∧
      folder.parseInTurn model now
        = ({ (Run.start folder).takeAll (results model now [] before) with failure := some fault },
            calls) := by
  have hwent := went_parseInTurn model now folder
  generalize folder.parseInTurn model now = conversation at hcalls hwent
  obtain ⟨run, asked⟩ := conversation
  cases hwent with
  | through settled =>
    obtain ⟨before, file, after, hsplit, hneeds, rfl⟩ := exists_file_of_prefix hcalls hsome
    rw [hsplit] at settled
    exact absurd settled (not_settled_of_failed hneeds hfault)
  | @stopped before after file fault' split settled needs failed =>
    obtain ⟨before', file', after', hsplit, hneeds, rfl⟩ := exists_file_of_prefix hcalls hsome
    rcases List.eq_nil_or_concat' after' with rfl | ⟨others, last, rfl⟩
    · -- the failing call is the last one
      obtain ⟨rfl, hlast⟩ := List.append_inj' hsplit rfl
      obtain rfl := List.head_eq_of_cons_eq hlast
      rw [List.nil_append] at failed
      obtain rfl := Except.error.inj (failed.symm.trans hfault)
      refine ⟨before, file, after, split, settled, rfl, ?_⟩
      rw [questions_concat before needs]
      rfl
    · -- an earlier call cannot have failed
      rw [← List.cons_append, ← List.append_assoc] at hsplit
      obtain ⟨rfl, -⟩ := List.append_inj' hsplit rfl
      exact absurd settled (not_settled_of_failed hneeds hfault)

/-- **The first failure of the model stops a single worker.** If some call fails, the run ends with
its failure and the model is not called any more. The files before the one that the call was about
are as processing their records leaves them; that file and all others after it are as they were. -/
theorem failure_stops_run (hfolder : (Table.keys folder).Nodup)
    (hcalls : calls <+: (folder.parseInTurn model now).2) (hsome : calls ≠ [])
    (hfault : (model calls).verdict = .error fault) :
    let run := (folder.parseInTurn model now).1
    run.failure = some fault ∧ (folder.parseInTurn model now).2 = calls ∧
      ∃ before file after, folder.records = before ++ file :: after ∧
        calls = questions before ++ [file.2] ∧
        (∀ earlier f later, before = earlier ++ f :: later → ∃ outcome r,
          f.2.processed (model (questions earlier ++ [f.2])) now = .ok (outcome, r) ∧
            Table.find? run.folder f.1 = if outcome = .skipped then Table.find? folder f.1
              else some (.file (some r.written))) ∧
        ∀ f ∈ file :: after, Table.find? run.folder f.1 = Table.find? folder f.1 := by
  obtain ⟨before, file, after, hsplit, hsettled, hlast, hrun⟩ :=
    exists_stopped_of_failed hcalls hsome hfault
  have hnames := nodup_names_records hfolder
  rw [hsplit, Table.keys, List.map_append] at hnames
  obtain ⟨hbefore, -, hapart⟩ := List.nodup_append.mp hnames
  have hresults : ((results model now [] before).map (·.1)).Nodup := by
    rwa [names_results]
  rw [hrun]
  refine ⟨rfl, rfl, before, file, after, hsplit, hlast, ?_, ?_⟩
  · intro earlier f later hearlier
    have hmem := mem_results model now [] earlier later f
    rw [← hearlier, List.nil_append] at hmem
    have hfind : Table.find? ((Run.start folder).takeAll (results model now [] before)).folder f.1
        = _ := Run.find?_takeAll_of_mem hresults hmem
    have hdone := hsettled _ hmem
    cases hresult : f.2.processed (model (questions earlier ++ [f.2])) now with
    | error fault' =>
      rw [hresult] at hdone
      exact absurd hdone Bool.false_ne_true
    | ok settled =>
      obtain ⟨outcome, r⟩ := settled
      rw [hresult] at hfind
      exact ⟨outcome, r, rfl, hfind⟩
  · intro f hf
    refine Run.find?_takeAll_of_not_mem fun hmem => ?_
    rw [names_results] at hmem
    exact hapart _ hmem _ (List.mem_map_of_mem hf) rfl

/-- A course without texts that is still to be looked at, and two with one. -/
def sampleRecords : List Record :=
  [{ Listing.newRecord "" "CPSC 110" none none with status := .unparsed },
    Listing.newRecord "" "MATH 200" (some "MATH 101") none,
    Listing.newRecord "" "STAT 200" (some "MATH 200") none]

/-- Their folder. -/
def sampleFolder : CourseFolder :=
  sampleRecords.map fun r => (fileName r.course, .file (some r.written))

theorem sampleFolder_records :
    sampleFolder.records = sampleRecords.map fun r => (fileName r.course, r) := by
  refine records_of_saved (by decide) ?_
  decide +kernel

theorem sampleFolder_parseInTurn (model : List Record → Answer) (now : String) :
    sampleFolder.parseInTurn model now
      = (Run.visitAll (ask model) now (Run.start sampleFolder)
          (sampleRecords.map fun r => (fileName r.course, r))).run [] := by
  unfold parseInTurn parseAll
  rw [sampleFolder_records]

/-- A model whose first reply cannot be read; after that it declines. -/
def sampleReplies (calls : List Record) : Answer :=
  if calls.length = 1 then .content (some "no document here")
  else .content (some "\x7b\"success\": false\x7d")

theorem sampleFolder_failure_stops_run :
    (Table.keys sampleFolder).Nodup ∧
      let conversation := sampleFolder.parseInTurn sampleReplies "now"
      conversation.1.failure = some (.unusable (.noDocument (some "no document here"))) ∧
        conversation.2.map (·.course) = ["MATH 200"] ∧
        conversation.1.outcomes.count .parsed = 1 ∧
        Table.find? conversation.1.folder "MATH_200.json"
          = Table.find? sampleFolder "MATH_200.json" := by
  have hfolder : (Table.keys sampleFolder).Nodup := by decide
  let math := Listing.newRecord "" "MATH 200" (some "MATH 101") none
  have hasked : (sampleFolder.parseInTurn sampleReplies "now").2 = [math] := by
    rw [sampleFolder_parseInTurn]
    rfl
  have hcalls : [math] <+: (sampleFolder.parseInTurn sampleReplies "now").2 :=
    hasked ▸ List.prefix_rfl
  have hfault : (sampleReplies [math]).verdict
      = .error (.unusable (.noDocument (some "no document here"))) := rfl
  obtain ⟨hfailure, -, before, file, after, hsplit, hlast, -, hlater⟩ :=
    failure_stops_run hfolder hcalls (List.cons_ne_nil _ _) hfault
  have hlast : [] ++ [math] = questions before ++ [file.2] := hlast
  have hmath : math = file.2 := List.head_eq_of_cons_eq (List.append_inj_right' hlast rfl)
  have hname : file.1 = "MATH_200.json" := by
    have hfile : file ∈ sampleFolder.records := hsplit ▸ List.mem_append_right _ List.mem_cons_self
    rw [sampleFolder_records] at hfile
    obtain ⟨r, -, rfl⟩ := List.mem_map.mp hfile
    obtain rfl : math = r := hmath
    show fileName "MATH 200" = "MATH_200.json"
    decide
  refine ⟨hfolder, hfailure, congrArg (List.map (·.course)) hasked, ?_, ?_⟩
  · rw [sampleFolder_parseInTurn]
    decide +kernel
  · rw [← hname]
    exact hlater file List.mem_cons_self

end CourseFolder

end Curriculum
