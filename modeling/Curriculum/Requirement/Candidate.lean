import Curriculum.Json.Basic
import Curriculum.Requirement.Basic
import Curriculum.Text.Blank

/-!
# Checking candidates for requirements

A candidate comes from a model that writes text, so it is checked rule by rule before it is
trusted. The rules are stricter than those of reading: numbers and truth values must be numbers and
truth values, labels must say something, lists must not be empty, and a field that is present must
not be null. The first rule that fails is reported, with the way to the node that breaks it: the
indexes of the parts to follow from the root (`Rejection`).

A candidate of any depth is checked to its end. That a machine may run out of stack before it is
there is left out, as are labels with half of a surrogate pair, which no document holds.
-/

namespace Curriculum

namespace Candidate

/-- The rule that a node breaks. -/
inductive Flaw where
  | notAnObject
  | noType
  | unknownType (name : String)
  | badLogic
  | noChildren
  | emptyChildren
  | noCourse
  | badGrade
  | mayOverlapNotFlag
  | mustOverlapNotFlag
  | noCredits
  | noCount
  | emptyDepartments
  | mixedDepartments
  | badDepartment
  | unknownLevel
  | emptyLevels
  | badLevels
  | badLevel
  | badStanding
  | noProgram
  | noPermissionNote
  | noOtherNote
  deriving DecidableEq, Repr

/-- The wording of a flaw. -/
def Flaw.message : Flaw → String
  | notAnObject => "Requirement must be an object"
  | noType => "Requirement must have a valid type field"
  | unknownType name => "Unknown requirement type: " ++ name
  | badLogic => "Group must have logic field with value ALL_OF, ONE_OF, or TWO_OF"
  | noChildren => "Group must have children array"
  | emptyChildren => "Group must have at least one child"
  | noCourse => "Course requirement must have a course field"
  | badGrade => "minGrade must be a number between 0 and 100"
  | mayOverlapNotFlag => "canBeTakenConcurrently must be a boolean"
  | mustOverlapNotFlag => "mustBeTakenConcurrently must be a boolean"
  | noCredits => "Credit count requirement must have a positive credits field"
  | noCount => "Course count requirement must have a positive count field"
  | emptyDepartments => "department array must not be empty"
  | mixedDepartments => "department array must contain only strings"
  | badDepartment => "department must be a string or array of strings"
  | unknownLevel => "level must be one of: 100, 200, 300, 400"
  | emptyLevels => "level array must not be empty"
  | badLevels => "level array must contain only valid levels: 100, 200, 300, 400"
  | badLevel => "level must be a string or array of strings"
  | badStanding => "Standing requirement must have a valid standing field"
  | noProgram => "Program requirement must have a program field"
  | noPermissionNote => "Permission requirement must have a note field"
  | noOtherNote => "Other requirement must have a note field"

/-- The first flaw of a candidate: the way to the node, and the rule that it breaks. -/
structure Rejection where
  way : List Nat
  flaw : Flaw
  deriving DecidableEq, Repr

/-- The wording of a rejection: the index of each part on the way, then the flaw. -/
def Rejection.message (r : Rejection) : String :=
  r.way.foldr (fun i reason => "Invalid child at index " ++ toString i ++ ": " ++ reason)
    r.flaw.message

/-! ## Rules for single values -/

/-- Whether a value is a text that says something. -/
def isTelling : Option Json → Bool
  | some (.text s) => Text.saysSomething s
  | _ => false

/-- Whether a value is a finite number. An integer beyond the range of finite floating-point
numbers does not count as one. -/
def finite? : Option Json → Option Number
  | some (.number n) =>
    match n.toBinary64? with
    | some x => if x.isFinite then some n else none
    | none => none
  | _ => none

/-- Whether a value is a finite number greater than zero. -/
def isPositive (value : Option Json) : Bool :=
  match finite? value with
  | some n => (Number.int 0).lt n
  | none => false

/-- The rule for a grade: a finite number from 0 to 100. -/
def gradeFlaw? : Option Json → Option Flaw
  | none => none
  | value =>
    match finite? value with
    | some n => if (Number.int 0).le n && n.le (.int 100) then none else some .badGrade
    | none => some .badGrade

/-- The rule for a flag: a truth value. -/
def flagFlaw? (flaw : Flaw) : Option Json → Option Flaw
  | none | some (.bool _) => none
  | some _ => some flaw

/-- Whether a value is a text. -/
def isText : Json → Bool
  | .text _ => true
  | _ => false

/-- Whether a value is the name of a level. -/
def isLevel : Json → Bool
  | .text s => (Level.ofName? s).isSome
  | _ => false

/-- The rule for departments: a text, or a list of texts that is not empty. -/
def departmentFlaw? : Option Json → Option Flaw
  | none | some (.text _) => none
  | some (.array []) => some .emptyDepartments
  | some (.array items) => if items.all isText then none else some .mixedDepartments
  | some _ => some .badDepartment

/-- The rule for levels: the name of a level, or a list of such names that is not empty. -/
def levelFlaw? : Option Json → Option Flaw
  | none => none
  | some (.text s) => if (Level.ofName? s).isSome then none else some .unknownLevel
  | some (.array []) => some .emptyLevels
  | some (.array items) => if items.all isLevel then none else some .badLevels
  | some _ => some .badLevel

/-- Whether a value is the name of a member of a set. -/
def isNamed {α : Type} (ofName? : String → Option α) : Option Json → Bool
  | some (.text s) => (ofName? s).isSome
  | _ => false

/-! ## Rules for nodes -/

/-- A rule that must hold. -/
def require (holds : Bool) (flaw : Flaw) : Option Flaw :=
  if holds then none else some flaw

/-- The first flaw of a node that asks for an amount. -/
def amountFlaw? (fields : Table String Json) (name : String) (flaw : Flaw) : Option Flaw :=
  require (isPositive (fields.find? name)) flaw
    <|> departmentFlaw? (fields.find? "department")
    <|> levelFlaw? (fields.find? "level")
    <|> gradeFlaw? (fields.find? "minGrade")

/-- The first flaw that a node has by itself, the parts of a group left aside. -/
def ownFlaw? (fields : Table String Json) : Kind → Option Flaw
  | .group =>
    require (isNamed Logic.ofName? (fields.find? "logic")) .badLogic
      <|> match fields.find? "children" with
        | some (.array []) => some .emptyChildren
        | some (.array _) => none
        | _ => some .noChildren
  | .course =>
    require (isTelling (fields.find? "course")) .noCourse
      <|> gradeFlaw? (fields.find? "minGrade")
      <|> flagFlaw? .mayOverlapNotFlag (fields.find? "canBeTakenConcurrently")
      <|> flagFlaw? .mustOverlapNotFlag (fields.find? "mustBeTakenConcurrently")
  | .creditCount => amountFlaw? fields "credits" .noCredits
  | .courseCount => amountFlaw? fields "count" .noCount
  | .standing => require (isNamed Standing.ofName? (fields.find? "standing")) .badStanding
  | .program => require (isTelling (fields.find? "program")) .noProgram
  | .permission => require (isTelling (fields.find? "note")) .noPermissionNote
  | .other => require (isTelling (fields.find? "note")) .noOtherNote

/-- The kind of a node, or what is wrong with its type. -/
def kind (fields : Table String Json) : Except Flaw Kind :=
  match fields.find? "type" with
  | some (.text "") => .error .noType
  | some (.text name) =>
    match Kind.ofName? name with
    | some k => .ok k
    | none => .error (.unknownType name)
  | _ => .error .noType

/-- A flaw of the node itself. -/
def here (flaw : Flaw) : Rejection := ⟨[], flaw⟩

/-- A rejection seen from the group around it. -/
def Rejection.inside (index : Nat) (r : Rejection) : Rejection := ⟨index :: r.way, r.flaw⟩

mutual

/-- The first flaw of a candidate, if it has one. -/
def check : Json → Option Rejection
  | .object fields =>
    match kind fields with
    | .error flaw => some (here flaw)
    | .ok kind =>
      match ownFlaw? fields kind with
      | some flaw => some (here flaw)
      | none => if kind = .group then checkChildren fields else none
  | _ => some (here .notAnObject)

/-- The first flaw among the parts of a group. -/
def checkChildren : List (String × Json) → Option Rejection
  | [] => none
  | (name, value) :: rest => if name = "children" then checkParts value else checkChildren rest

/-- The first flaw among the items of an array. -/
def checkParts : Json → Option Rejection
  | .array items => checkItems 0 items
  | _ => none

/-- The first flaw among items, the first of them having the given index. -/
def checkItems (index : Nat) : List Json → Option Rejection
  | [] => none
  | j :: rest =>
    match check j with
    | some r => some (r.inside index)
    | none => checkItems (index + 1) rest

end

end Candidate

end Curriculum
