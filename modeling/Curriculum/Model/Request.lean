import Curriculum.Record.Basic
import Curriculum.Text.Lines

/-!
# Asking the model

The model that turns texts of the catalog into requirements is asked about one record at a time. A
request holds a single message: the course, its two texts, a schema of the answer that is wanted,
and what to look out for. The schema is a parameter.
-/

namespace Curriculum

/-- One message to the model. -/
structure Message where
  role : String
  content : String

/-- What the model is asked. -/
structure Request where
  /-- The name of the model. -/
  model : String
  /-- The course that the model is asked about. -/
  course : String
  messages : List Message
  temperature : Nat

namespace Request

/-- What to look out for. -/
def advice : List String :=
  ["Important notes:",
    "- Be very careful about logical grouping (ALL_OF vs ONE_OF vs TWO_OF)",
    "- For \"two of\" requirements, use TWO_OF logic with all courses as children",
    "- Use type \"other\" for high school courses, external requirements, AP credits, etc. "
      ++ "- DO NOT reject these",
    "- Pay attention to grade requirements (minGrade is a percentage 0-100), "
      ++ "concurrent enrollment, etc.",
    "- If something is unclear or ambiguous, return an error",
    "- Only include corequisites in the response if there are actual corequisites",
    "- If a requirement text says \"recommended\" or \"suggested\", put it in "
      ++ "recommendedPrerequisites or recommendedCorequisites",
    "- PREFER type \"other\" over rejecting - only reject if truly impossible to represent",
    "- You MUST follow the JSON schema exactly."]

/-- A text of the catalog, or a word for its absence. -/
def textOrNone (t : Option String) : String :=
  match t with
  | none | some "" => "None"
  | some s => s

/-- The question about a record. -/
def prompt (schema : String) (r : Record) : String :=
  Text.joinLines (
    ["You are a system that parses university course prerequisites and corequisites "
        ++ "into a structured JSON format.",
      "",
      "COURSE: " ++ r.course,
      "PREREQUISITES: " ++ textOrNone r.prerequisiteText,
      "COREQUISITES: " ++ textOrNone r.corequisiteText,
      "",
      "TYPE SYSTEM (JSON Schema of parsedRequirements):",
      schema,
      "",
      "TASK: Can the requirements above be represented unambiguously using the type system?",
      "If YES: return \x7b\"success\": true, \"parsedRequirements\": "
        ++ "<object following the schema>\x7d",
      "If NO: return \x7b\"success\": false, \"error\": \"<detailed explanation>\"\x7d",
      ""]
    ++ advice)

/-- The request about a record. -/
def ofRecord (model schema : String) (r : Record) : Request :=
  ⟨model, r.course, [⟨"user", prompt schema r⟩], 0⟩

end Request

/-- What comes back from the model. -/
inductive Answer where
  /-- The content of the message that the model sends back, if it has one. -/
  | content (text : Option String)
  /-- The model could not be asked. -/
  | failed (message : String)

end Curriculum
