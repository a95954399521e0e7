import Curriculum.Json.Reader
import Curriculum.Reading.Scalar
import Curriculum.Requirement.Basic

/-!
# Reading requirements

The kind of a node decides which fields it has; the path to a fault inside a node runs through the
name of its kind. All fields of all nodes are read, so every fault is listed. Fields that a kind
does not have are not looked at.

In a document given as a value, at most `groupLimit` groups may be nested in each other.
-/

namespace Curriculum

namespace Requirement

open Reading

/-- How many groups of a value may be nested in each other. -/
def groupLimit : Nat := 254

/-- A text that is not empty. -/
def readLabel : Json → Reading Label
  | .text s => if h : s ≠ "" then .ok ⟨s, h⟩ else fault .emptyText
  | _ => fault .notText

/-- A percentage from 0 to 100. The upper bound is looked at first, and what is not a number is not
within it. -/
def readGrade (source : Source) (j : Json) : Reading Grade :=
  match Reading.number source j with
  | .ok x =>
    if h : x.le (.ofNat 100) = true then
      if h' : (Binary64.zero false).le x = true then .ok ⟨x, h, h'⟩ else fault .belowMinimum
    else fault .aboveMaximum
  | .faulty fs => .faulty fs

/-- A number greater than zero. -/
def readAmount (source : Source) (j : Json) : Reading Amount :=
  match Reading.number source j with
  | .ok x => if h : (Binary64.zero false).lt x = true then .ok ⟨x, h⟩ else fault .notPositive
  | .faulty fs => .faulty fs

/-- One thing or an array of things. If it is neither, the faults of both forms are listed. -/
def readOneOrMany {α : Type} (one many : Choice) (read : Json → Reading α) (j : Json) :
    Reading (OneOrMany α) :=
  match read j with
  | .ok a => .ok (.one a)
  | single =>
    match Reading.list read j with
    | .ok as => .ok (.many as)
    | several =>
      combine (fun a _ => OneOrMany.one a) (inside (.choice one) single)
        (inside (.choice many) several)

/-- The fields that say which courses count. -/
def readScope (source : Source) (fields : Table String Json) : Reading Scope :=
  (apply (combine Scope.mk
      (optional fields "department" (readOneOrMany .text .texts Reading.text))
      (optional fields "level" (readOneOrMany .level .levels (named Level.ofName?))))
    (optional fields "minGrade" (readGrade source)))

/-- A leaf of a kind; a group is no leaf. -/
def readLeaf? (source : Source) (fields : Table String Json) : Kind → Option (Reading Requirement)
  | .group => none
  | .course =>
    some (apply (apply (combine Requirement.course
          (required fields "course" readLabel)
          (optional fields "minGrade" (readGrade source)))
        (optional fields "canBeTakenConcurrently" (Reading.flag source)))
      (optional fields "mustBeTakenConcurrently" (Reading.flag source)))
  | .creditCount =>
    some (combine Requirement.credits (required fields "credits" (readAmount source))
      (readScope source fields))
  | .courseCount =>
    some (combine Requirement.courses (required fields "count" (readAmount source))
      (readScope source fields))
  | .standing =>
    some ((required fields "standing" (named Standing.ofName?)).map .standing)
  | .program => some ((required fields "program" readLabel).map .program)
  | .permission => some ((required fields "note" readLabel).map .permission)
  | .other => some ((required fields "note" readLabel).map .other)

/-- Whether one group more is nested too deep. -/
def tooDeep (source : Source) (depth : Nat) : Bool :=
  source = .value && decide (groupLimit ≤ depth)

mutual

/-- Read a requirement that stands inside `depth` groups. -/
def read (source : Source) (depth : Nat) : Json → Reading Requirement
  | .object fields =>
    match Table.find? fields "type" with
    | none => fault .noTag
    | some (.text tag) =>
      match Kind.ofName? tag with
      | none => fault .unknownTag
      | some kind =>
        inside (.field tag)
          (match readLeaf? source fields kind with
            | some leaf => leaf
            | none =>
              if tooDeep source depth then fault .nestedTooDeep
              else
                combine (fun logic parts => Requirement.group logic parts.1 parts.2)
                  (required fields "logic" (named Logic.ofName?))
                  (inside (.field "children") (readChildren source (depth + 1) fields)))
    | some _ => fault .unknownTag
  | _ => fault .notRequirement

/-- Read the field that holds the parts of a group. -/
def readChildren (source : Source) (depth : Nat) :
    List (String × Json) → Reading (Requirement × List Requirement)
  | [] => fault .missing
  | (name, value) :: rest =>
    if name = "children" then readParts source depth value else readChildren source depth rest

/-- Read the parts of a group: an array with at least one item. -/
def readParts (source : Source) (depth : Nat) : Json → Reading (Requirement × List Requirement)
  | .array [] => fault .emptyList
  | .array (first :: rest) =>
    both (inside (.index 0) (read source depth first)) (readItems source depth 1 rest)
  | _ => fault .notList

/-- Read the parts of a group from one index on. -/
def readItems (source : Source) (depth index : Nat) : List Json → Reading (List Requirement)
  | [] => .ok []
  | j :: rest =>
    combine (· :: ·) (inside (.index index) (read source depth j))
      (readItems source depth (index + 1) rest)

end

/-- The requirement that a document given as a value denotes. -/
def ofValue (j : Json) : Reading Requirement := read .value 0 j

/-- What a text may hold: at most 200 containers nested in each other, and numbers of at most 4300
characters before the point. -/
def textLimits : Json.Limits := ⟨200, 4300⟩

/-- The requirement that a text denotes. -/
def ofText (s : String) : Reading Requirement :=
  match Json.read? textLimits s with
  | some j => read .text 0 j
  | none => fault .notADocument

end Requirement

end Curriculum
