import Curriculum.Proofs.CourseFolder.Conversation
import Mathlib.Logic.Relation

/-!
# Several workers on a folder

Several workers may process the records of a folder at the same time. A worker begins with a file
that is waiting: it asks the model about the record if the record needs it, and knows then what the
record comes to. Later it finishes: what the record came to is noted, and the file is saved. In
between, others begin and finish. A file that is waiting may also be cancelled.

A `Pool` says where each file of the folder is, and `Pool.Step` what may happen next. It is left
open which of the waiting files is next, how many are under way at a time and why one is cancelled;
and of the model, only what it may answer about a record is given. A fixed number of workers who take
the files in the order of their names and cancel those that are left when the model fails is one way
to go on; a single worker is another (`reaches_visitAll`).

What carries everything is that no file is ever lost or doubled: those that are cancelled, waiting,
under way and finished are together the files of the folder, and each that was begun came to what
its record comes to with some answer (`Accounts`). Each step only moves one file (`Accounts.step`).

> `records_independent`: whatever the workers do, each file is as it was or as its own record makes
> it, it is as it was if the model gives no reply about it, and if every file is finished and
> nothing failed then the folder and the counts are those of a single worker.
-/

namespace Curriculum

/-- A file that a worker has begun with, and what its record comes to. -/
structure Turn where
  file : String × Record
  result : Result

namespace Turn

/-- What is noted of a turn. -/
def noted (a : Turn) : String × Result :=
  (a.file.1, a.result)

/-- The record of a turn comes to what the model may make of it. -/
def IsAllowed (may : Record → Answer → Prop) (now : String) (a : Turn) : Prop :=
  ∃ answer, may a.file.2 answer ∧ a.result = a.file.2.processed answer now

end Turn

/-- Where the files of a folder are while several workers process them. -/
structure Pool where
  /-- The files that were cancelled while they were waiting. -/
  cancelled : List (String × Record)
  /-- The files that no worker has begun with. -/
  waiting : List (String × Record)
  /-- The files that some worker is at. -/
  underWay : List Turn
  /-- The files that are done with. -/
  finished : List Turn
  /-- What the model was asked. -/
  asked : List Record
  /-- What has been done to the folder. -/
  run : Run

namespace Pool

/-- All files of a folder are waiting. -/
def start (folder : CourseFolder) : Pool :=
  ⟨[], folder.records, [], [], [], Run.start folder⟩

/-- What may happen next, with a model that may answer so about a record. -/
inductive Step (may : Record → Answer → Prop) (now : String) : Pool → Pool → Prop
  /-- A worker begins with a file, and the model answers if it is asked. -/
  | begins {cancelled : List (String × Record)} {underWay finished : List Turn}
      {asked : List Record} {run : Run} (before after : List (String × Record))
      (file : String × Record) {answer : Answer} (answers : may file.2 answer) :
      Step may now ⟨cancelled, before ++ file :: after, underWay, finished, asked, run⟩
        (let begun := (file.2.process (Conversation.ask fun _ => answer) now).run asked
        ⟨cancelled, before ++ after, underWay ++ [⟨file, begun.1⟩], finished, begun.2, run⟩)
  /-- A file is cancelled. -/
  | cancels {cancelled : List (String × Record)} {underWay finished : List Turn}
      {asked : List Record} {run : Run} (before after : List (String × Record))
      (file : String × Record) :
      Step may now ⟨cancelled, before ++ file :: after, underWay, finished, asked, run⟩
        ⟨cancelled ++ [file], before ++ after, underWay, finished, asked, run⟩
  /-- A worker finishes with a file. -/
  | finishes {cancelled waiting : List (String × Record)} {finished : List Turn}
      {asked : List Record} {run : Run} (before after : List Turn) (a : Turn) :
      Step may now ⟨cancelled, waiting, before ++ a :: after, finished, asked, run⟩
        ⟨cancelled, waiting, before ++ after, finished ++ [a], asked, run.take a.file.1 a.result⟩

/-- What workers may come to, however many they are. -/
def Reaches (may : Record → Answer → Prop) (now : String) : Pool → Pool → Prop :=
  Relation.ReflTransGen (Step may now)

/-- Every file of the folder is finished. -/
structure IsDone (p : Pool) : Prop where
  cancelled : p.cancelled = []
  waiting : p.waiting = []
  underWay : p.underWay = []

/-- Every file of a folder came to an outcome. -/
structure Completes (may : Record → Answer → Prop) (now : String) (folder : CourseFolder)
    (p : Pool) : Prop where
  reaches : Reaches may now (start folder) p
  done : p.IsDone
  went : p.run.failure = none

/-- The files that were begun with. -/
def begun (p : Pool) : List Turn :=
  p.underWay ++ p.finished

variable {may : Record → Answer → Prop} {ask : Record → Answer} {now : String}
  {folder : CourseFolder} {p q : Pool}

/-! ## No file is lost or doubled -/

/-- The files of a folder are cancelled, waiting or begun with. What is finished was noted, file by
file; each file came to what its record comes to, and the model was asked about no other. -/
structure Accounts (may : Record → Answer → Prop) (now : String) (folder : CourseFolder)
    (p : Pool) : Prop where
  run : p.run = (Run.start folder).takeAll (p.finished.map Turn.noted)
  files : (p.cancelled ++ (p.waiting ++ p.begun.map Turn.file)).Perm folder.records
  results : ∀ a ∈ p.begun, a.IsAllowed may now
  asked : p.asked.Perm (Conversation.questions (p.begun.map Turn.file))

theorem accounts_start : Accounts may now folder (start folder) where
  run := rfl
  files := by
    show ([] ++ (folder.records ++ [])).Perm _
    rw [List.nil_append, List.append_nil]
  results := fun _ ha => absurd ha List.not_mem_nil
  asked := .refl _

/-- Only the order of the files that were begun with may be different. -/
theorem Accounts.of_perm (h : Accounts may now folder p) {q : Pool}
    (hrun : q.run = (Run.start folder).takeAll (q.finished.map Turn.noted))
    (hcancelled : q.cancelled = p.cancelled) (hwaiting : q.waiting = p.waiting)
    (hasked : q.asked = p.asked) (hbegun : q.begun.Perm p.begun) : Accounts may now folder q where
  run := hrun
  files := by
    rw [hcancelled, hwaiting]
    exact (((hbegun.map _).append_left _).append_left _).trans h.files
  results := fun a ha => h.results a (hbegun.mem_iff.mp ha)
  asked := by
    rw [hasked]
    exact h.asked.trans ((hbegun.map _).flatMap_right _).symm

/-- One step. -/
theorem Accounts.step (h : Accounts may now folder p) (hstep : Step may now p q) :
    Accounts may now folder q := by
  cases hstep with
  | @begins cancelled underWay finished asked run before after file answer answers =>
    let a : Turn := ⟨file, file.2.processed answer now⟩
    -- the new turn stands between those under way and those finished
    have hbegun : (underWay ++ [a] ++ finished).Perm (a :: (underWay ++ finished)) := by
      rw [List.append_assoc]
      exact List.perm_middle
    rw [Conversation.process_ask]
    refine ⟨h.run, ?_, ?_, ?_⟩
    · have hmoved : (before ++ after ++ file :: (underWay ++ finished).map Turn.file).Perm
          (before ++ file :: after ++ (underWay ++ finished).map Turn.file) :=
        List.perm_middle.trans (List.perm_middle.append_right _).symm
      exact ((((hbegun.map _).append_left _).trans hmoved).append_left _).trans h.files
    · intro b hb
      rcases List.mem_cons.mp (hbegun.mem_iff.mp hb) with rfl | hb
      · exact ⟨answer, answers, rfl⟩
      · exact h.results b hb
    · have hasked : (asked ++ file.2.questions).Perm
          (Conversation.questions ((a :: (underWay ++ finished)).map Turn.file)) :=
        List.perm_append_comm.trans (h.asked.append_left _)
      exact hasked.trans ((hbegun.map _).flatMap_right _).symm
  | @cancels cancelled underWay finished asked run before after file =>
    refine ⟨h.run, List.Perm.trans ?_ h.files, h.results, h.asked⟩
    have hmiddle : (file :: (before ++ after)).Perm (before ++ file :: after) :=
      List.perm_middle.symm
    have hmoved := (hmiddle.append_right ((underWay ++ finished).map Turn.file)).append_left
      cancelled
    show (cancelled ++ [file] ++ (before ++ after ++ (underWay ++ finished).map Turn.file)).Perm _
    rw [List.append_assoc]
    exact hmoved
  | @finishes cancelled waiting finished asked run before after a =>
    refine h.of_perm ?_ rfl rfl rfl ?_
    · show run.take a.file.1 a.result = _
      rw [List.map_append, Run.takeAll_append, ← h.run]
      rfl
    · show (before ++ after ++ (finished ++ [a])).Perm (before ++ a :: after ++ finished)
      have hlast : (before ++ after ++ (finished ++ [a])).Perm
          (a :: (before ++ after ++ finished)) := by
        rw [← List.append_assoc]
        exact List.perm_append_singleton ..
      exact hlast.trans (List.perm_middle.append_right finished).symm

/-- Any number of steps. -/
theorem accounts_of_reaches (h : Reaches may now (start folder) p) : Accounts may now folder p := by
  induction h with
  | refl => exact accounts_start
  | tail _ hstep ih => exact ih.step hstep

theorem names_noted (as : List Turn) :
    (as.map Turn.noted).map (·.1) = (as.map Turn.file).map (·.1) := by
  rw [List.map_map, List.map_map]
  rfl

/-- What was begun with is a file of the folder. -/
theorem Accounts.file_mem (h : Accounts may now folder p) {a : Turn} (ha : a ∈ p.begun) :
    a.file ∈ folder.records :=
  h.files.mem_iff.mp (List.mem_append_right _ (List.mem_append_right _ (List.mem_map_of_mem ha)))

/-- No file is finished twice. -/
theorem Accounts.nodup (h : Accounts may now folder p) (hfolder : (Table.keys folder).Nodup) :
    ((p.finished.map Turn.noted).map (·.1)).Nodup := by
  have hnames := CourseFolder.nodup_names_records hfolder
  have hall := (h.files.map Prod.fst).nodup_iff.mpr hnames
  have hfinished : (p.finished.map Turn.file).Sublist (p.begun.map Turn.file) :=
    (List.sublist_append_right p.underWay p.finished).map _
  rw [names_noted]
  exact hall.sublist (((hfinished.trans (List.sublist_append_right _ _)).trans
    (List.sublist_append_right _ _)).map _)

/-- Each file is as it was, or as its own record makes it. -/
theorem Accounts.find?_folder (h : Accounts may now folder p)
    (hfolder : (Table.keys folder).Nodup) (name : String) :
    Table.find? p.run.folder name = Table.find? folder name ∨
      ∃ a ∈ p.finished, a.file.1 = name ∧ Table.find? p.run.folder name
        = Result.entryAfter (Table.find? folder name) a.result := by
  rw [h.run]
  by_cases hname : name ∈ (p.finished.map Turn.noted).map (·.1)
  · obtain ⟨x, hx, rfl⟩ := List.mem_map.mp hname
    obtain ⟨a, ha, rfl⟩ := List.mem_map.mp hx
    exact Or.inr ⟨a, ha, rfl, Run.find?_takeAll_of_mem (h.nodup hfolder) hx⟩
  · exact Or.inl (Run.find?_takeAll_of_not_mem hname)

theorem Accounts.isBalanced (h : Accounts may now folder p) : p.run.IsBalanced := by
  have hstart : (Run.start folder).IsBalanced := rfl
  rw [h.run]
  exact Run.isBalanced_takeAll hstart _

/-- Nothing failed if each file that is finished came to an outcome. -/
theorem Accounts.failure_eq_none_iff (h : Accounts may now folder p) :
    p.run.failure = none ↔ ∀ a ∈ p.finished, a.result.isSettled = true := by
  rw [h.run, Run.failure_takeAll_eq_none_iff, List.forall_mem_map]
  exact and_iff_right rfl

theorem begun_of_isDone (hdone : p.IsDone) : p.begun = p.finished := by
  rw [begun, hdone.underWay, List.nil_append]

/-- If every file is finished, what is finished are the files of the folder. -/
theorem Accounts.perm_of_isDone (h : Accounts may now folder p) (hdone : p.IsDone) :
    (p.finished.map Turn.file).Perm folder.records := by
  have hfiles := h.files
  rwa [hdone.cancelled, hdone.waiting, begun_of_isDone hdone] at hfiles

/-! ## A single worker -/

/-- The way of a single worker is one of those that several workers may go, and unless the model
fails it ends when every file is finished. -/
theorem reaches_visitAll {model : List Record → Answer}
    (hmodel : ∀ calls r, may r (model (calls ++ [r]))) (now : String)
    (cancelled files : List (String × Record)) (finished : List Turn) (asked : List Record)
    {run : Run} (hrun : run.failure = none) :
    let conversation := (Run.visitAll (Conversation.ask model) now run files).run asked
    ∃ rest finished', Reaches may now ⟨cancelled, files, [], finished, asked, run⟩
        ⟨cancelled, rest, [], finished', conversation.2, conversation.1⟩ ∧
      (conversation.1.failure = none → rest = []) := by
  induction files generalizing finished asked run with
  | nil => exact ⟨[], finished, .refl, fun _ => rfl⟩
  | cons file rest ih =>
    let answer := model (asked ++ [file.2])
    let a : Turn := ⟨file, file.2.processed answer now⟩
    let next := run.take file.1 a.result
    -- beginning with the first file, and finishing with it before anything else happens
    have hbegins : Step may now ⟨cancelled, file :: rest, [], finished, asked, run⟩
        ⟨cancelled, rest, [a], finished, asked ++ file.2.questions, run⟩ := by
      have hstep : Step may now ⟨cancelled, file :: rest, [], finished, asked, run⟩ _ :=
        .begins [] rest file (hmodel asked file.2)
      rwa [Conversation.process_ask] at hstep
    have hfinishes : Step may now ⟨cancelled, rest, [a], finished, asked ++ file.2.questions, run⟩
        ⟨cancelled, rest, [], finished ++ [a], asked ++ file.2.questions, next⟩ :=
      .finishes [] [] a
    rw [Conversation.visitAll_cons]
    show let conversation := if next.failure.isSome then (next, asked ++ file.2.questions)
        else (Run.visitAll (Conversation.ask model) now next rest).run (asked ++ file.2.questions)
      ∃ rest' finished', Reaches may now ⟨cancelled, file :: rest, [], finished, asked, run⟩
          ⟨cancelled, rest', [], finished', conversation.2, conversation.1⟩ ∧
        (conversation.1.failure = none → rest' = [])
    split
    · next hfailed =>
      refine ⟨rest, finished ++ [a], .head hbegins (.head hfinishes .refl), fun hnone => ?_⟩
      have hnone : next.failure = none := hnone
      rw [hnone] at hfailed
      exact absurd hfailed (by decide)
    · next hwent =>
      obtain ⟨left, finished', hreaches, hleft⟩ := ih (finished ++ [a])
        (asked ++ file.2.questions) (Option.not_isSome_iff_eq_none.mp hwent)
      exact ⟨left, finished', .head hbegins (.head hfinishes hreaches), hleft⟩

/-- Processing one file after the other is a way to complete a folder, unless the model fails. -/
theorem completes_parseInTurn {model : List Record → Answer}
    (hmodel : ∀ calls r, may r (model (calls ++ [r])))
    (hwent : (folder.parseInTurn model now).1.failure = none) :
    ∃ p, Completes may now folder p ∧ folder.parseInTurn model now = (p.run, p.asked) := by
  have hfresh : (Run.start folder).failure = none := rfl
  obtain ⟨rest, finished, hreaches, hrest⟩ :=
    reaches_visitAll hmodel now [] folder.records [] [] hfresh
  exact ⟨_, ⟨hreaches, ⟨rfl, hrest hwent, rfl⟩, hwent⟩, rfl⟩

/-! ## A model that answers by the record -/

/-- What the record in a file comes to, with a model that answers by the record. -/
def resultOf (ask : Record → Answer) (now : String) (file : String × Record) : String × Result :=
  (file.1, file.2.processed (ask file.2) now)

/-- The model answers by the record. -/
def AnswersBy (ask : Record → Answer) (r : Record) (answer : Answer) : Prop :=
  answer = ask r

/-- What is noted does not depend on when it was noted. -/
theorem Accounts.noted_eq (h : Accounts (AnswersBy ask) now folder p) :
    p.finished.map Turn.noted = (p.finished.map Turn.file).map (resultOf ask now) := by
  rw [List.map_map]
  refine List.map_congr_left fun a ha => ?_
  obtain ⟨answer, rfl, hresult⟩ := h.results a (List.mem_append_right _ ha)
  exact Prod.ext rfl hresult

/-- If every file is finished, each was noted with what its record comes to. -/
theorem Accounts.perm_noted (h : Accounts (AnswersBy ask) now folder p) (hdone : p.IsDone) :
    (p.finished.map Turn.noted).Perm (folder.records.map (resultOf ask now)) := by
  rw [h.noted_eq]
  exact (h.perm_of_isDone hdone).map _

/-- If every file is finished and nothing failed, nothing fails in any other way. -/
theorem failure_eq_none_of_isDone (hp : Accounts (AnswersBy ask) now folder p)
    (hq : Accounts (AnswersBy ask) now folder q) (hdone : p.IsDone) (hnone : p.run.failure = none) :
    q.run.failure = none := by
  rw [hp.run, Run.failure_takeAll_eq_none_iff] at hnone
  rw [hq.run, Run.failure_takeAll_eq_none_iff, hq.noted_eq]
  refine ⟨rfl, fun x hx => hnone.2 x ((hp.perm_noted hdone).mem_iff.mpr ?_)⟩
  obtain ⟨file, hfile, rfl⟩ := List.mem_map.mp hx
  obtain ⟨a, ha, rfl⟩ := List.mem_map.mp hfile
  exact List.mem_map_of_mem (hq.file_mem (List.mem_append_right _ ha))

/-- In any two ways in which every file is finished, the folder is the same in the end, and each
outcome comes up equally often. -/
theorem same_of_isDone (hfolder : (Table.keys folder).Nodup)
    (hp : Accounts (AnswersBy ask) now folder p) (hq : Accounts (AnswersBy ask) now folder q)
    (hpdone : p.IsDone) (hqdone : q.IsDone) :
    p.run.folder = q.run.folder ∧ p.run.processed = q.run.processed ∧
      ∀ outcome, p.run.outcomes.count outcome = q.run.outcomes.count outcome := by
  have hperm := (hp.perm_noted hpdone).trans (hq.perm_noted hqdone).symm
  have hfiles : ∀ x ∈ p.finished.map Turn.noted, x.1 ∈ Table.keys (Run.start folder).folder := by
    intro x hx
    obtain ⟨a, ha, rfl⟩ := List.mem_map.mp hx
    exact CourseFolder.name_mem_of_mem_records (hp.file_mem (List.mem_append_right _ ha))
  have hcount : ∀ outcome, p.run.outcomes.count outcome = q.run.outcomes.count outcome := by
    intro outcome
    rw [hp.run, hq.run, Run.count_takeAll, Run.count_takeAll, hperm.countP_eq]
  refine ⟨?_, ?_, hcount⟩
  · rw [hp.run, hq.run]
    exact Run.folder_takeAll_perm hperm (hp.nodup hfolder) hfiles hfolder
  · rw [hp.isBalanced, hq.isBalanced, hcount, hcount, hcount]

/-- A single worker as one of several, with a model that answers by the record. -/
theorem exists_pool_of_parseAll (ask : Record → Answer) (now : String) (folder : CourseFolder) :
    ∃ q, Accounts (AnswersBy ask) now folder q ∧ q.run = Id.run (folder.parseAll ask now) ∧
      (q.run.failure = none → q.IsDone) := by
  let model (calls : List Record) : Answer := calls.getLast?.elim (.content none) ask
  have hmodel : ∀ calls r, model (calls ++ [r]) = ask r := by
    intro calls r
    show (calls ++ [r]).getLast?.elim (.content none) ask = ask r
    rw [List.getLast?_append_cons]
    rfl
  have hfresh : (Run.start folder).failure = none := rfl
  have hby : ∀ calls r, AnswersBy ask r (model (calls ++ [r])) := hmodel
  obtain ⟨rest, finished, hreaches, hrest⟩ :=
    reaches_visitAll hby now [] folder.records [] [] hfresh
  exact ⟨_, accounts_of_reaches hreaches,
    Conversation.fst_visitAll_of_answers hmodel (Run.start folder) [] folder.records,
    fun hwent => ⟨rfl, hrest hwent, rfl⟩⟩

/-- **The records of a folder are independent of each other.** Whatever several workers do, each
file is as it was, or its record was processed and the file is what that alone makes of it. The file
of a record about which the model gives no reply is as it was. If every file is finished and nothing
failed, the folder and the counts are those of a single worker. -/
theorem records_independent (hfolder : (Table.keys folder).Nodup)
    (hreaches : Reaches (AnswersBy ask) now (start folder) p) :
    (∀ name, Table.find? p.run.folder name = Table.find? folder name ∨
      ∃ r outcome r', (name, r) ∈ folder.records ∧ r.processed (ask r) now = .ok (outcome, r') ∧
        outcome ≠ .skipped ∧
        Table.find? p.run.folder name = some (.file (some r'.written))) ∧
    (∀ name r fault, (name, r) ∈ folder.records → r.processed (ask r) now = .error fault →
      Table.find? p.run.folder name = Table.find? folder name) ∧
    (p.IsDone → p.run.failure = none →
      let single := Id.run (folder.parseAll ask now)
      single.failure = none ∧ p.run.folder = single.folder ∧
        p.run.processed = single.processed ∧
        ∀ outcome, p.run.outcomes.count outcome = single.outcomes.count outcome) := by
  have hp := accounts_of_reaches hreaches
  -- a file that is not as it was is as its own record makes it
  have hchanged : ∀ name, Table.find? p.run.folder name = Table.find? folder name ∨
      ∃ r, (name, r) ∈ folder.records ∧ Table.find? p.run.folder name
        = Result.entryAfter (Table.find? folder name) (r.processed (ask r) now) := by
    intro name
    rcases hp.find?_folder hfolder name with hsame | ⟨a, ha, rfl, hafter⟩
    · exact Or.inl hsame
    · obtain ⟨answer, rfl, hresult⟩ := hp.results a (List.mem_append_right _ ha)
      exact Or.inr ⟨a.file.2, hp.file_mem (List.mem_append_right _ ha), hresult ▸ hafter⟩
  refine ⟨fun name => ?_, fun name r fault hr hfault => ?_, fun hdone hnone => ?_⟩
  · rcases hchanged name with hsame | ⟨r, hr, hafter⟩
    · exact Or.inl hsame
    · rw [hafter]
      cases hresult : r.processed (ask r) now with
      | error fault => exact Or.inl rfl
      | ok settled =>
        obtain ⟨outcome, r'⟩ := settled
        by_cases houtcome : outcome = .skipped
        · exact Or.inl (if_pos houtcome)
        · exact Or.inr ⟨r, outcome, r', hr, hresult, houtcome, if_neg houtcome⟩
  · rcases hchanged name with hsame | ⟨r', hr', hafter⟩
    · exact hsame
    · -- there is only one record in the file
      have hload := ((CourseFolder.mem_records_iff hfolder).mp hr).2
      have hload' := ((CourseFolder.mem_records_iff hfolder).mp hr').2
      obtain rfl := Option.some.inj (hload.symm.trans hload')
      rw [hafter, hfault]
      rfl
  · obtain ⟨q, hq, hsingle, hqdone⟩ := exists_pool_of_parseAll ask now folder
    have hwent := failure_eq_none_of_isDone hp hq hdone hnone
    rw [← hsingle]
    exact ⟨hwent, same_of_isDone hfolder hp hq hdone (hqdone hwent)⟩

/-- A model that has requirements for one course, and declines otherwise. -/
def sampleAsk (r : Record) : Answer :=
  if r.course = "MATH 200" then
    .content (some ("\x7b\"success\": true, \"parsedRequirements\": " ++
      "\x7b\"department\": \"MATH\", \"code\": \"200\"\x7d\x7d"))
  else .content (some "\x7b\"success\": false\x7d")

/-- A model that is not there when it is asked about that course. -/
def sampleAskInVain (r : Record) : Answer :=
  if r.course = "MATH 200" then .failed "timeout" else sampleAsk r

theorem sampleFolder_independent :
    (Table.keys CourseFolder.sampleFolder).Nodup ∧
      (∃ p, Reaches (AnswersBy sampleAsk) "now" (start CourseFolder.sampleFolder) p ∧ p.IsDone ∧
        p.run.failure = none ∧ p.run.outcomes.count .parsed = 2 ∧
        p.run.folder = (Id.run (CourseFolder.sampleFolder.parseAll sampleAsk "now")).folder) ∧
      ∃ p, Reaches (AnswersBy sampleAskInVain) "now" (start CourseFolder.sampleFolder) p ∧
        p.cancelled.length = 1 ∧ p.run.outcomes.count .blacklisted = 1 ∧
        Table.find? p.run.folder "MATH_200.json"
          = Table.find? CourseFolder.sampleFolder "MATH_200.json" := by
  have hfolder : (Table.keys CourseFolder.sampleFolder).Nodup := by decide
  let first : String × Record := ("CPSC_110.json",
    { Listing.newRecord "" "CPSC 110" none none with status := .unparsed })
  let second : String × Record :=
    ("MATH_200.json", Listing.newRecord "" "MATH 200" (some "MATH 101") none)
  let third : String × Record :=
    ("STAT_200.json", Listing.newRecord "" "STAT 200" (some "MATH 200") none)
  have hrecords : CourseFolder.sampleFolder.records = [first, second, third] := by
    rw [CourseFolder.sampleFolder_records]
    rfl
  have hstart : start CourseFolder.sampleFolder
      = ⟨[], [first, second, third], [], [], [], Run.start CourseFolder.sampleFolder⟩ := by
    rw [start, hrecords]
  refine ⟨hfolder, ?_, ?_⟩
  · -- the third file is begun with first, and the second is finished first
    let turn (file : String × Record) : Turn := ⟨file, (resultOf sampleAsk "now" file).2⟩
    have hreaches : Reaches (AnswersBy sampleAsk) "now" (start CourseFolder.sampleFolder)
        ⟨[], [], [], [turn second, turn third, turn first], [third.2, second.2],
          (Run.start CourseFolder.sampleFolder).takeAll
            ([turn second, turn third, turn first].map Turn.noted)⟩ := by
      rw [hstart]
      exact .head (.begins [first, second] [] third rfl) <| .head (.begins [first] [] second rfl) <|
        .head (.finishes [turn third] [] (turn second)) <| .head (.begins [] [] first rfl) <|
        .head (.finishes [] [turn first] (turn third)) <|
        .head (.finishes [] [] (turn first)) .refl
    have hnone : ((Run.start CourseFolder.sampleFolder).takeAll
        ([turn second, turn third, turn first].map Turn.noted)).failure = none := by
      rw [Run.failure_takeAll_eq_none_iff]
      exact ⟨rfl, by decide +kernel⟩
    obtain ⟨-, -, hsingle⟩ := records_independent hfolder hreaches
    obtain ⟨-, hsame, -⟩ := hsingle ⟨rfl, rfl, rfl⟩ hnone
    exact ⟨_, hreaches, ⟨rfl, rfl, rfl⟩, hnone, by decide +kernel, hsame⟩
  · -- the model fails while the third file is under way, which is finished all the same
    let turn (file : String × Record) : Turn := ⟨file, (resultOf sampleAskInVain "now" file).2⟩
    have hreaches : Reaches (AnswersBy sampleAskInVain) "now" (start CourseFolder.sampleFolder)
        ⟨[first], [], [], [turn second, turn third], [second.2, third.2],
          (Run.start CourseFolder.sampleFolder).takeAll
            ([turn second, turn third].map Turn.noted)⟩ := by
      rw [hstart]
      exact .head (.begins [first] [third] second rfl) <| .head (.begins [first] [] third rfl) <|
        .head (.finishes [] [turn third] (turn second)) <| .head (.cancels [] [] first) <|
        .head (.finishes [] [] (turn third)) .refl
    have hsecond : second ∈ CourseFolder.sampleFolder.records := by
      rw [hrecords]
      exact List.mem_cons_of_mem _ List.mem_cons_self
    obtain ⟨-, hfailed, -⟩ := records_independent hfolder hreaches
    exact ⟨_, hreaches, rfl, by decide +kernel, hfailed _ _ (.unreachable "timeout") hsecond rfl⟩

end Pool

end Curriculum
