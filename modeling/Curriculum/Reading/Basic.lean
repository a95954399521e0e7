import Curriculum.Json.Basic

/-!
# Reading documents into types

Reading a document into a type either gives a value or lists every fault that was found, each with
the path that leads to it. Parts of a document are read independently of each other and their
faults are put together in the order of the parts (`Reading.both`), so one look at a document shows
all that is wrong with it.
-/

namespace Curriculum

/-- The forms among which a value may choose. -/
inductive Choice where
  | text
  | texts
  | level
  | levels
  deriving DecidableEq, Repr

/-- One step of a path into a document. -/
inductive Step where
  | field (name : String)
  | index (i : Nat)
  /-- Into a value, seen as one of the forms it may have. -/
  | choice (c : Choice)
  deriving DecidableEq, Repr

/-- What is wrong at one place of a document. -/
inductive FaultKind where
  | missing
  | notText
  | emptyText
  | notAllowed
  | notList
  | emptyList
  | notNumber
  | unreadableNumber
  | aboveMaximum
  | belowMinimum
  | notPositive
  | notFlag
  | unreadableFlag
  /-- A record is not an object. -/
  | notRecord
  /-- A requirement is not an object. -/
  | notRequirement
  | noTag
  | unknownTag
  | nestedTooDeep
  /-- A text is no document at all. -/
  | notADocument
  deriving DecidableEq, Repr

/-- What is wrong, and where. -/
structure Fault where
  kind : FaultKind
  path : List Step
  deriving DecidableEq, Repr

/-- Where a document came from: given as a value, or read from a text. A text sets its own limits
on nesting and on the size of numbers. -/
inductive Source where
  | value
  | text
  deriving DecidableEq, Repr

/-- A value that was read, or all faults that were found. -/
inductive Reading (α : Type) where
  | ok (value : α)
  | faulty (faults : List Fault)

namespace Reading

variable {α β γ : Type}

/-- A single fault at the place being read. -/
def fault (kind : FaultKind) : Reading α := .faulty [⟨kind, []⟩]

/-- A value that may be missing, a single fault standing for its absence. -/
def ofOption (kind : FaultKind) : Option α → Reading α
  | some a => .ok a
  | none => fault kind

/-- Change the value that was read. -/
def map (f : α → β) : Reading α → Reading β
  | .ok a => .ok (f a)
  | .faulty fs => .faulty fs

/-- Read two parts; the faults of the first come first. -/
def both : Reading α → Reading β → Reading (α × β)
  | .ok a, .ok b => .ok (a, b)
  | .ok _, .faulty fs => .faulty fs
  | .faulty fs, .ok _ => .faulty fs
  | .faulty fs, .faulty gs => .faulty (fs ++ gs)

/-- Read two parts and combine them. -/
def combine (f : α → β → γ) (a : Reading α) (b : Reading β) : Reading γ :=
  (both a b).map fun p => f p.1 p.2

/-- Apply a function that was read to the next part. -/
def apply (f : Reading (α → β)) (a : Reading α) : Reading β :=
  combine (fun f a => f a) f a

/-- The faults of a part, seen from one step further out. -/
def inside (step : Step) : Reading α → Reading α
  | .ok a => .ok a
  | .faulty fs => .faulty (fs.map fun f => ⟨f.kind, step :: f.path⟩)

/-- The value, if there is one. -/
def toOption : Reading α → Option α
  | .ok a => some a
  | .faulty _ => none

/-- A field that must be there. -/
def required (fields : Table String Json) (name : String) (read : Json → Reading α) : Reading α :=
  inside (.field name)
    (match fields.find? name with
      | none => fault .missing
      | some j => read j)

/-- A field that may be absent or null. -/
def optional (fields : Table String Json) (name : String) (read : Json → Reading α) :
    Reading (Option α) :=
  match fields.find? name with
  | none | some .null => .ok none
  | some j => (inside (.field name) (read j)).map some

/-- Read every item of an array, the first of them having the given index. -/
def items (read : Json → Reading α) (index : Nat) : List Json → Reading (List α)
  | [] => .ok []
  | j :: rest => combine (· :: ·) (inside (.index index) (read j)) (items read (index + 1) rest)

/-- Read an array. -/
def list (read : Json → Reading α) : Json → Reading (List α)
  | .array js => items read 0 js
  | _ => fault .notList

/-- Reading both parts succeeds exactly when each part does. -/
theorem both_eq_ok_iff {x : Reading α} {y : Reading β} {p : α × β} :
    both x y = .ok p ↔ x = .ok p.1 ∧ y = .ok p.2 := by
  obtain ⟨a, b⟩ := p
  cases x <;> cases y <;> simp [both]

end Reading

end Curriculum
