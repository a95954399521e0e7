import Curriculum.Path
import Curriculum.Table

/-!
# Folders and files

A folder is a table of names, each with a file or a folder. Names in a row lead from a folder to
what stands inside it.
-/

namespace Curriculum

/-- What stands under a name. -/
inductive Entry where
  /-- A file, with its text; none if its bytes are not the code of a text. -/
  | file (content : Option String)
  | folder (entries : List (String × Entry))

/-- A folder. -/
abbrev Folder : Type := Table String Entry

/-- Why a file cannot be read or written. -/
inductive FileFault where
  | notFound
  | isFolder
  | notFolder
  /-- Something is to be made where there is something already. -/
  | alreadyThere
  | notText
  /-- A name or the whole path is too long. -/
  | tooLong
  /-- The path holds the character of code 0. -/
  | zeroCharacter
  /-- Too many folders around the one to be made are not there. -/
  | tooManyMissing
  deriving DecidableEq, Repr

/-- The wording of a fault. -/
def FileFault.message : FileFault → String
  | notFound => "no such file or folder"
  | isFolder => "is a folder"
  | notFolder => "not a folder"
  | alreadyThere => "exists already"
  | notText => "not a text"
  | tooLong => "name too long"
  | zeroCharacter => "embedded null byte"
  | tooManyMissing => "too many folders to be made"

/-- How many bytes a name may have. -/
def longestName : Nat := 255

namespace Folder

/-- What stands at the end of a row of names. -/
def entryAt? (root : Folder) : List String → Option Entry
  | [] => some (.folder root)
  | name :: rest =>
    match root.find? name with
    | none => none
    | some (.file content) => if rest = [] then some (.file content) else none
    | some (.folder inner) => entryAt? inner rest

/-- Put an entry at the end of a row of names. The folders on the way must be there. -/
def putAt (root : Folder) (entry : Entry) : List String → Folder
  | [] =>
    match entry with
    | .folder entries => entries
    | .file _ => root
  | [name] => root.insert name entry
  | name :: rest =>
    match root.find? name with
    | some (.folder inner) => root.insert name (.folder (putAt inner entry rest))
    | _ => root

/-- A folder as it is seen where names may have only `room` bytes: what has a longer name is there,
but cannot be read. -/
def seenWithin (room : Nat) (folder : Folder) : Folder :=
  folder.map fun e => if room < e.1.utf8ByteSize then (e.1, .file none) else e

/-- A folder that was changed where names may have only `room` bytes, with what has a longer name as
it was before. -/
def changedWithin (room : Nat) (before after : Folder) : Folder :=
  after.map fun e =>
    if room < e.1.utf8ByteSize then (e.1, (before.find? e.1).getD e.2) else e

mutual

/-- The paths of all entries of a folder that stands at a path. -/
def paths (here : Path) : List (String × Entry) → List Path
  | [] => []
  | (name, e) :: rest => here.child name :: (pathsInside (here.child name) e ++ paths here rest)

/-- The paths of what stands inside an entry. -/
def pathsInside (here : Path) : Entry → List Path
  | .file _ => []
  | .folder entries => paths here entries

end

end Folder

end Curriculum
