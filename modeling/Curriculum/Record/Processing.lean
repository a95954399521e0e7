import Curriculum.Model.Reply
import Curriculum.Record.Candidate

/-!
# How a record is processed

A record is open while it is unparsed or in error. Processing an open record that has a text asks
the model: if the model declines, the record is blacklisted; if its candidate passes the checks,
the record is parsed; if not, the record is in error and stays open for another attempt. An open
record without a text is parsed as it stands. Records that are not open are left alone.

A record that was processed bears the time at which that happened, which is given.
-/

namespace Curriculum

/-- What became of a record. -/
inductive Outcome where
  | skipped
  | parsed
  | blacklisted
  | errored
  deriving DecidableEq, Repr

/-- The name of an outcome. -/
def Outcome.name : Outcome → String
  | skipped => "skipped"
  | parsed => "parsed"
  | blacklisted => "blacklisted"
  | errored => "errored"

namespace Record

/-- Whether a record waits to be processed. -/
def isOpen (r : Record) : Bool :=
  r.status = .unparsed || r.status = .error

/-- The requirements are known. -/
def accepted (r : Record) (reqs : CourseRequirements) : Record :=
  { r with status := .parsed, requirements := some reqs, errorMessage := none }

/-- The texts cannot be turned into requirements. -/
def declined (r : Record) (reason : Option String) : Record :=
  { r with status := .blacklisted, blacklistReason := reason }

/-- A candidate was refused. -/
def refused (r : Record) (refusal : Candidate.Refusal) : Record :=
  { r with status := .error, errorMessage := some refusal.text }

/-- What a verdict of the model makes of a record. -/
def settle (r : Record) : Verdict → Outcome × Record
  | .declined reason => (.blacklisted, r.declined reason)
  | .proposed candidate =>
    match Candidate.accept candidate with
    | .ok reqs => (.parsed, r.accepted reqs)
    | .error refusal => (.errored, r.refused refusal)

/-- The record as of a time. -/
def updated (now : String) (r : Record) : Record :=
  { r with lastUpdated := now }

variable {m : Type → Type} [Monad m]

/-- Process a record: what became of it, and the record after that. Only an open record with a text
asks the model. -/
def process (ask : Record → m Answer) (now : String) (r : Record) :
    m (Except ModelFault (Outcome × Record)) :=
  if !r.isOpen then pure (.ok (.skipped, r))
  else if !r.hasText then pure (.ok (.parsed, updated now { r with status := .parsed }))
  else do
    let answer ← ask r
    pure (answer.verdict.map fun verdict =>
      let (outcome, settled) := r.settle verdict
      (outcome, settled.updated now))

end Record

end Curriculum
