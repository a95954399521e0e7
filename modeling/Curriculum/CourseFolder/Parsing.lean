import Curriculum.CourseFolder.Basic
import Curriculum.Record.Processing
import Curriculum.Tally

/-!
# Parsing all courses of a folder

The records of a folder are processed in the order of the names of their files, and each is saved
before the next one is looked at. The first record for which the model gives no reply stops the
run: its file and those after it are left as they are.
-/

namespace Curriculum

/-- What a run has done so far. -/
structure Run where
  folder : CourseFolder
  /-- How often each outcome occurred. -/
  outcomes : Tally Outcome
  /-- How many records were not skipped. -/
  processed : Nat
  log : List String
  /-- Why the run stopped early. -/
  failure : Option ModelFault

namespace Run

/-- What is reported about a record that is in error. -/
def report (name : String) (outcome : Outcome) (r : Record) : List String :=
  if outcome = .errored then
    [name ++ ": schema validation failed: " ++ r.errorMessage.getD ""]
  else []

/-- Note what became of the record in a file, and save it unless it was skipped. -/
def note (run : Run) (name : String) (outcome : Outcome) (r : Record) : Run :=
  { run with
    folder := if outcome = .skipped then run.folder else run.folder.put name r
    outcomes := run.outcomes.add outcome
    processed := run.processed + if outcome = .skipped then 0 else 1
    log := run.log ++ report name outcome r }

variable {m : Type → Type} [Monad m]

/-- Process the record in one file. -/
def visit (ask : Record → m Answer) (now : String) (run : Run) (file : String × Record) :
    m Run := do
  match ← file.2.process ask now with
  | .ok (outcome, r) => pure (run.note file.1 outcome r)
  | .error fault => pure { run with failure := some fault }

/-- Process the records in some files, up to the first failure. -/
def visitAll (ask : Record → m Answer) (now : String) (run : Run) :
    List (String × Record) → m Run
  | [] => pure run
  | file :: rest => do
    let run ← visit ask now run file
    if run.failure.isSome then pure run else visitAll ask now run rest

/-- A run that has done nothing but load the folder. -/
def start (folder : CourseFolder) : Run :=
  ⟨folder, [], 0, folder.loadLog, none⟩

end Run

/-- Process all records of a folder at a time. -/
def CourseFolder.parseAll {m : Type → Type} [Monad m] (ask : Record → m Answer) (now : String)
    (folder : CourseFolder) : m Run :=
  Run.visitAll ask now (Run.start folder) folder.records

end Curriculum
