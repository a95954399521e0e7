import Curriculum.Table
import Curriculum.Text.Integer
import Curriculum.Text.Quoted

/-!
# Command lines

A command line is a row of words: options, each with a value. The value is the next word, or stands
after an equals sign. The name of an option may be cut short as long as it can be told from the
others. Words are sorted first (`sortWords`), and only then taken in their order (`takeWords`), so
a name that can be read in two ways is the first fault to be reported.

A word that begins with a dash can be a value if it is a lone dash, a negative number, or holds a
space and is no option. After a word of two dashes nothing is an option or a value any more; two
dashes after an equals sign are dropped, and leave their option without a value.
-/

namespace Curriculum

namespace CommandLine

/-- What the value of an option must be. -/
inductive ValueRule where
  | anything
  | integer
  | oneOf (names : List String)

/-- An option of a program. -/
structure OptionRule where
  /-- The name, with its two dashes. -/
  name : String
  value : ValueRule

/-- Why a value breaks its rule. -/
inductive ValueFault where
  | notAnInteger (value : String)
  | notAmong (value : String) (names : List String)

/-- The wording of a fault. -/
def ValueFault.message : ValueFault → String
  | notAnInteger value => "invalid int value: " ++ Text.quoted value
  | notAmong value names =>
    "invalid choice: " ++ Text.quoted value ++ " (choose from "
      ++ ", ".intercalate (names.map Text.quoted) ++ ")"

/-- Why a command line is not carried out. -/
inductive Stop where
  /-- Help is wanted instead. -/
  | help
  | ambiguous (word : String) (names : List String)
  | noValue (option : String)
  | helpWithValue (value : String)
  | badValue (option : String) (fault : ValueFault)
  | unrecognized (words : List String)

/-- The wording; a wish for help has none. -/
def Stop.message? : Stop → Option String
  | help => none
  | ambiguous word names =>
    some ("ambiguous option: " ++ word ++ " could match " ++ ", ".intercalate names)
  | noValue option => some ("argument " ++ option ++ ": expected one argument")
  | helpWithValue value =>
    some ("argument -h/--help: ignored explicit argument " ++ Text.quoted value)
  | badValue option fault => some ("argument " ++ option ++ ": " ++ fault.message)
  | unrecognized words => some ("unrecognized arguments: " ++ " ".intercalate words)

/-- What a value breaks of its rule. -/
def ValueRule.fault? (rule : ValueRule) (value : String) : Option ValueFault :=
  match rule with
  | anything => none
  | integer => if (Text.integer? value).isSome then none else some (.notAnInteger value)
  | oneOf names => if value ∈ names then none else some (.notAmong value names)

/-! ## Sorting words -/

/-- A word that was sorted. -/
inductive Word where
  | plain (text : String)
  /-- An option, with the value that stands in the same word. -/
  | option (name : String) (value : Option String)
  /-- Neither an option nor a value. -/
  | stray (text : String)

/-- Whether the rest of a word is no more than a line feed. -/
def endsHere (cs : List Char) : Bool := cs = [] || cs = ['\n']

/-- The digits at the beginning of a word, and what comes after them. -/
def spanDigits (cs : List Char) : List Char × List Char :=
  cs.span fun c => (Text.digitValue? c).isSome

/-- Whether a word is a negative number. A line feed may end it. -/
def isNegativeNumber (cs : List Char) : Bool :=
  match cs with
  | '-' :: rest =>
    match spanDigits rest with
    | (_, '.' :: rest) =>
      let (fraction, rest) := spanDigits rest
      fraction ≠ [] && endsHere rest
    | (whole, rest) => whole ≠ [] && endsHere rest
  | _ => false

/-- The part of a word before the first equals sign, and the part after it, if there is one. -/
def splitAtEquals (cs : List Char) : String × Option String :=
  let name := String.ofList (cs.takeWhile (· ≠ '='))
  match cs.dropWhile (· ≠ '=') with
  | [] => (name, none)
  | _ :: value => (name, some (String.ofList value))

/-- The name of the option for help. -/
def helpName : String := "--help"

/-- The short name of the option for help. -/
def shortHelpName : String := "-h"

/-- What letters attached to the short name of the option for help leave for a value: the letter of
help may be repeated. -/
def attachedToHelp (cs : List Char) : Option String :=
  match cs, cs.dropWhile (· = 'h') with
  | _ :: _, [] => none
  | _, rest => some (String.ofList rest)

/-- The names that a word may be short for, with the value that stands in the same word. -/
def candidates (names : List String) (cs : List Char) : List (String × Option String) :=
  match cs with
  | '-' :: '-' :: _ =>
    let (start, value) := splitAtEquals cs
    (names.filter fun name => start.toList.isPrefixOf name.toList).map fun name => (name, value)
  | '-' :: 'h' :: rest => [(helpName, attachedToHelp rest)]
  | _ => []

/-- Sort a word that begins with a dash and is not the exact name of an option. -/
def sortDashed (names : List String) (word : String) : Except Stop Word :=
  let cs := word.toList
  let (start, value) := splitAtEquals cs
  if start ∈ names ∧ value.isSome then .ok (.option start value)
  else if start = shortHelpName then
    .ok (.option helpName (value.bind fun s => attachedToHelp s.toList))
  else
    match candidates names cs with
    | [(name, value)] => .ok (.option name value)
    | [] => .ok (if isNegativeNumber cs ∨ ' ' ∈ cs then .plain word else .stray word)
    | several => .error (.ambiguous word (several.map (·.1)))

/-- Sort a word. -/
def sortWord (names : List String) (word : String) : Except Stop Word :=
  if word.toList.head? ≠ some '-' ∨ word = "-" then .ok (.plain word)
  else if word ∈ names then .ok (.option word none)
  else if word = shortHelpName then .ok (.option helpName none)
  else sortDashed names word

/-- Sort all words up to a word of two dashes; that one and those after it are stray. -/
def sortWords (names : List String) : List String → Except Stop (List Word)
  | [] => .ok []
  | word :: rest =>
    if word = "--" then .ok ((word :: rest).map .stray)
    else
      (sortWord names word).bind fun w => (sortWords names rest).map fun ws => w :: ws

/-! ## Taking words -/

/-- What options were given: a value, or none where it was dropped. -/
abbrev Given : Type := Table String (Option String)

/-- The last value of each option, and the words left over. -/
structure Taken where
  values : Given
  leftOver : List String

/-- A value that is dropped. -/
def dropped : String := "--"

/-- Give an option a value. -/
def give (rules : List OptionRule) (t : Taken) (name value : String) : Except Stop Taken :=
  if name = helpName then .error (.helpWithValue value)
  else if value = dropped then .ok { t with values := t.values.insert name none }
  else
    match (rules.find? fun rule => rule.name = name).bind fun rule => rule.value.fault? value with
    | some fault => .error (.badValue name fault)
    | none => .ok { t with values := t.values.insert name (some value) }

/-- Take words in their order. -/
def takeWords (rules : List OptionRule) (t : Taken) : List Word → Except Stop Taken
  | [] => .ok t
  | .plain word :: rest | .stray word :: rest =>
    takeWords rules { t with leftOver := t.leftOver ++ [word] } rest
  | .option name (some value) :: rest =>
    (give rules t name value).bind fun t => takeWords rules t rest
  | .option name none :: .plain value :: rest =>
    if name = helpName then .error .help
    else (give rules t name value).bind fun t => takeWords rules t rest
  | .option name none :: _ => .error (if name = helpName then .help else .noValue name)

/-- The values of the options in a row of words. -/
def read (rules : List OptionRule) (words : List String) : Except Stop Given :=
  (sortWords (helpName :: rules.map OptionRule.name) words).bind fun sorted =>
  (takeWords rules ⟨[], []⟩ sorted).bind fun t =>
    if t.leftOver = [] then .ok t.values else .error (.unrecognized t.leftOver)

end CommandLine

end Curriculum
