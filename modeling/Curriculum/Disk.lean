import Curriculum.Folder

/-!
# Disks

A disk is its outermost folder and the place of the folder that one stands in. A path is followed
name by name from there, or from the outermost folder: a name leads into a folder, two dots lead
back, and from the outermost folder they lead nowhere else. Every name on the way must lead to a
folder; only the last need not be there (`locate`).

Writing needs the folder around a file to be there. Making a folder with those around it
(`makeFolders`) goes outwards until a folder can be made, and then back inwards; what was made stays
when a later one cannot be, and an `Attempt` says both. It goes outwards only so far.
-/

namespace Curriculum

/-- A disk. -/
structure Disk where
  /-- The outermost folder. -/
  root : Folder
  /-- The names that lead from it to the folder that one stands in. -/
  here : List String

/-- A disk after something was tried on it, and what went wrong. What was done before stays done. -/
structure Attempt where
  disk : Disk
  fault : Option FileFault

namespace Path

/-- How many bytes a path may have. -/
def longest : Nat := 4095

/-- What makes a path unusable on every disk. -/
def fault? (p : Path) : Option FileFault :=
  if Char.ofNat 0 ∈ p.text.toList then some .zeroCharacter
  else if longest < p.text.utf8ByteSize then some .tooLong
  else none

/-- How many bytes a name may have in the folder at a path. -/
def room (p : Path) : Nat :=
  min longestName (longest - (p.child "").text.utf8ByteSize)

end Path

namespace Disk

/-! ## Following paths -/

/-- Follow names that lead from folder to folder. The names passed so far stand in reverse, and
`inside` is the folder that they lead to. -/
def walk (root : Folder) (passed : List String) (inside : Folder) :
    List String → Except FileFault (List String)
  | [] => .ok passed
  | name :: rest =>
    if name = ".." then
      match root.entryAt? passed.tail.reverse with
      | some (.folder around) => walk root passed.tail around rest
      | _ => .error .notFound
    else if longestName < name.utf8ByteSize then .error .tooLong
    else
      match inside.find? name with
      | none => .error .notFound
      | some (.file _) => .error .notFolder
      | some (.folder inner) => walk root (name :: passed) inner rest

/-- The names of the folder that a path starts from. -/
def start (d : Disk) (p : Path) : List String :=
  if p.slashes = 0 then d.here else []

/-- The names that lead from the outermost folder to the place of a path. -/
def locate (d : Disk) (p : Path) : Except FileFault (List String) :=
  match p.fault? with
  | some fault => .error fault
  | none =>
    match d.root.entryAt? (d.start p) with
    | some (.folder inside) =>
      match p.names.getLast? with
      | none => .ok (d.start p)
      | some last =>
        (walk d.root (d.start p).reverse inside p.names.dropLast).bind fun around =>
          if last = ".." then .ok around.tail.reverse
          else if longestName < last.utf8ByteSize then .error .tooLong
          else .ok (last :: around).reverse
    | _ => .error .notFound

/-- What stands at a path. -/
def entry (d : Disk) (p : Path) : Except FileFault Entry :=
  (d.locate p).bind fun names =>
    match d.root.entryAt? names with
    | some e => .ok e
    | none => .error .notFound

/-- Whether there is a folder at a path. -/
def hasFolder (d : Disk) (p : Path) : Bool :=
  match d.entry p with
  | .ok (.folder _) => true
  | _ => false

/-- The folder at a path; an empty one if there is none. -/
def folderAt (d : Disk) (p : Path) : Folder :=
  match d.entry p with
  | .ok (.folder entries) => entries
  | _ => []

/-- The text of the file at a path. -/
def read (d : Disk) (p : Path) : Except FileFault String :=
  (d.entry p).bind fun
    | .folder _ => .error .isFolder
    | .file none => .error .notText
    | .file (some s) => .ok s

/-! ## Making and writing -/

/-- Put an entry at the end of a row of names. -/
def putAt (d : Disk) (e : Entry) (names : List String) : Disk :=
  { d with root := d.root.putAt e names }

/-- Replace what is inside the folder at a path, if there is one. -/
def replace (d : Disk) (p : Path) (entries : Folder) : Disk :=
  match d.locate p with
  | .ok names =>
    match d.root.entryAt? names with
    | some (.folder _) => d.putAt (.folder entries) names
    | _ => d
  | .error _ => d

/-- Write a file at a path. -/
def write (d : Disk) (p : Path) (content : Option String) : Except FileFault Disk :=
  (d.locate p).bind fun names =>
    match d.root.entryAt? names with
    | some (.folder _) => .error .isFolder
    | _ => .ok (d.putAt (.file content) names)

/-- Make one folder. -/
def makeFolder (d : Disk) (p : Path) : Except FileFault Disk :=
  (d.locate p).bind fun names =>
    match d.root.entryAt? names with
    | some _ => .error .alreadyThere
    | none => .ok (d.putAt (.folder []) names)

/-- Make one folder; if it may be there already, a folder that is there is no fault. -/
def makeOrFind (d : Disk) (p : Path) (mayBeThere : Bool) : Attempt :=
  match d.makeFolder p with
  | .ok made => ⟨made, none⟩
  | .error fault => ⟨d, if mayBeThere && d.hasFolder p then none else some fault⟩

/-- Make a folder, and up to `more` folders around it that are not there. -/
def makeOutwards (more : Nat) (d : Disk) (p : Path) (mayBeThere : Bool) : Attempt :=
  match d.makeFolder p, more with
  | .error .notFound, 0 => ⟨d, some .tooManyMissing⟩
  | .error .notFound, more + 1 =>
    let around := makeOutwards more d p.parent true
    match around.fault with
    | some _ => around
    | none => around.disk.makeOrFind p mayBeThere
  | _, _ => d.makeOrFind p mayBeThere

/-- How many folders around one may be made with it. -/
def mostAround : Nat := 985

/-- Make a folder, and the folders around it that are not there. -/
def makeFolders (d : Disk) (p : Path) (mayBeThere : Bool) : Attempt :=
  d.makeOutwards mostAround p mayBeThere

/-- Write a file at a path, making the folders around it. -/
def store (d : Disk) (p : Path) (content : Option String) : Attempt :=
  let made := d.makeFolders p.parent true
  match made.fault with
  | some _ => made
  | none =>
    match made.disk.write p content with
    | .ok written => ⟨written, none⟩
    | .error fault => ⟨made.disk, some fault⟩

/-! ## Comparing -/

/-- The files of a disk that have a text, with their paths. -/
def texts (d : Disk) : List (Path × String) :=
  (Folder.paths ⟨1, []⟩ d.root).filterMap fun p => (d.read p).toOption.map fun text => (p, text)

/-- The files of a disk that are not the same on another. -/
def changes (before after : Disk) : List (Path × String) :=
  after.texts.filter fun file => (before.read file.1).toOption ≠ some file.2

end Disk

end Curriculum
