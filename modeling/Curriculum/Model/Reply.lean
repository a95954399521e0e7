import Curriculum.Model.Request
import Curriculum.Reading.Scalar
import Curriculum.Requirement.Reading
import Curriculum.Text.Quoted

/-!
# Reading the reply of the model

A reply is a document that says whether the texts could be turned into requirements, with the
requirements or with the reason why not. Models like to talk around it, so the document is taken
from the first opening brace of the message to its last closing brace (`Reply.excerpt?`).
-/

namespace Curriculum

/-- The reply of the model. -/
structure Reply where
  success : Bool
  /-- The candidate for the requirements; null if there is none. -/
  requirements : Json
  error : Option String

/-- Why the content of a message is no reply. -/
inductive ReplyFault where
  /-- There is no document in the message. -/
  | noDocument (content : Option String)
  /-- There is one, but it is no reply. -/
  | unreadable (faults : List Fault)

/-- The wording of a fault. -/
def ReplyFault.message : ReplyFault → String
  | noDocument none => "No JSON found in model response: None"
  | noDocument (some s) => "No JSON found in model response: " ++ Text.quoted s
  | unreadable _ => "Unreadable model response"

/-- Why there is no reply. -/
inductive ModelFault where
  | unreachable (message : String)
  | unusable (fault : ReplyFault)

/-- The wording of a fault. -/
def ModelFault.message : ModelFault → String
  | unreachable message => message
  | unusable fault => fault.message

/-- What the model has to say about the texts of a record. -/
inductive Verdict where
  /-- They cannot be turned into requirements. -/
  | declined (reason : Option String)
  /-- A candidate for the requirements. -/
  | proposed (candidate : Json)

namespace Reply

open Reading

/-- Read a reply. -/
def read : Json → Reading Reply
  | .object fields =>
    apply (combine Reply.mk
        (required fields "success" (flag .text))
        (.ok ((Table.find? fields "parsedRequirements").getD .null)))
      (optional fields "error" text)
  | _ => fault .notRecord

/-- From the first opening brace to the last closing one. -/
def excerpt? (cs : List Char) : Option (List Char) :=
  match (cs.dropWhile (· ≠ '{')).reverse.dropWhile (· ≠ '}') with
  | [] => none
  | found => some found.reverse

/-- The reply that a text denotes. -/
def ofText (s : String) : Reading Reply :=
  match Json.read? Requirement.textLimits s with
  | some j => read j
  | none => fault .notADocument

/-- The reply in the content of a message. -/
def ofContent (content : Option String) : Except ReplyFault Reply :=
  match excerpt? (content.getD "").toList with
  | none => .error (.noDocument content)
  | some cs =>
    match ofText (String.ofList cs) with
    | .ok reply => .ok reply
    | .faulty faults => .error (.unreadable faults)

/-- What a reply says. -/
def verdict (r : Reply) : Verdict :=
  if r.success then .proposed r.requirements else .declined r.error

end Reply

/-- What an answer of the model says, or why it says nothing. -/
def Answer.verdict : Answer → Except ModelFault Verdict
  | failed message => .error (.unreachable message)
  | content text =>
    match Reply.ofContent text with
    | .ok reply => .ok reply.verdict
    | .error fault => .error (.unusable fault)

end Curriculum
