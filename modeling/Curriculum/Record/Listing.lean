import Curriculum.Record.Reading

/-!
# The listing of the catalog

The listing is an array with an entry for each course. An entry gives the code of the course under
one of three names and its two texts under two others; what says nothing counts as absent. An entry
without a code is passed over, and a course without texts has nothing to parse.

The listing is fetched from a place that may answer with something else or not at all.
-/

namespace Curriculum

namespace Listing

/-! ## Fetching -/

/-- What comes back when the listing is fetched. -/
inductive Response where
  /-- A document, with the status of the response. -/
  | document (payload : Json) (status : Int)
  /-- Nothing came back. -/
  | unreachable (message : String)

/-- Why there is no listing. -/
inductive FetchFault where
  | unreachable (message : String)
  | badStatus (status : Int)
  /-- The document that came from a place is no array. -/
  | notAnArray (place : String) (document : Json)

/-- What a document is called in messages. -/
def typeName : Json → String
  | .null => "NoneType"
  | .bool _ => "bool"
  | .number (.int _) => "int"
  | .number (.float _) => "float"
  | .text _ => "str"
  | .array _ => "list"
  | .object _ => "dict"

/-- The wording of a fault. -/
def FetchFault.message : FetchFault → String
  | unreachable message => message
  | badStatus status => toString status ++ " error"
  | notAnArray place document =>
    "Expected a JSON array from " ++ place ++ ", got " ++ typeName document

/-- The listing in a response. -/
def ofResponse (place : String) : Response → Except FetchFault (List Json)
  | .unreachable message => .error (.unreachable message)
  | .document payload status =>
    if 400 ≤ status then .error (.badStatus status)
    else
      match payload with
      | .array entries => .ok entries
      | other => .error (.notAnArray place other)

/-! ## Entries -/

/-- Why an entry gives no record. -/
inductive EntryFault where
  | notAnObject
  | faulty (faults : List Fault)

/-- The value of a field; what says nothing counts as null. -/
def telling (fields : Table String Json) (name : String) : Json :=
  match fields.find? name with
  | some j => if j.isVoid then .null else j
  | none => .null

/-- The names under which an entry may give the code of its course. -/
def codeNames : List String := ["course", "code", "id"]

/-- The code of a course, under the first name that says something. -/
def code? (fields : Table String Json) : Option Json :=
  (codeNames.map (telling fields)).find? fun j => !j.isVoid

/-- The record of a course that was listed at a time. -/
def newRecord (now course : String) (prerequisite corequisite : Option String) : Record :=
  { schemaVersion := currentSchema
    course
    prerequisiteText := prerequisite
    corequisiteText := corequisite
    status := if prerequisite.isNone && corequisite.isNone then .parsed else .unparsed
    requirements := none
    blacklistReason := none
    errorMessage := none
    lastUpdated := now }

open Reading in
/-- Read the record of an entry, given the code of its course. -/
def readRecord (now : String) (fields : Table String Json) (code : Json) : Reading Record :=
  let named : Table String Json :=
    [("course", code), ("originalPrerequisite", telling fields "prer"),
      ("originalCorequisite", telling fields "crer")]
  apply (combine (newRecord now)
      (required named "course" text)
      (optional named "originalPrerequisite" text))
    (optional named "originalCorequisite" text)

/-- The record of an entry; none if the entry has no code. -/
def record? (now : String) : Json → Except EntryFault (Option Record)
  | .object fields =>
    match code? fields with
    | none => .ok none
    | some code =>
      match readRecord now fields code with
      | .ok r => .ok (some r)
      | .faulty faults => .error (.faulty faults)
  | _ => .error .notAnObject

/-- The records of a listing up to the first entry that gives none because of a fault. -/
def records (now : String) : List Json → List Record × Option EntryFault
  | [] => ([], none)
  | entry :: rest =>
    match record? now entry with
    | .error fault => ([], some fault)
    | .ok none => records now rest
    | .ok (some r) =>
      let (more, fault) := records now rest
      (r :: more, fault)

end Listing

end Curriculum
