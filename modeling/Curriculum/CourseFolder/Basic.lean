import Curriculum.Folder
import Curriculum.Json.Writer
import Curriculum.Record.Json
import Curriculum.Record.Reading
import Curriculum.Text.Order

/-!
# The folder of courses

There is one file per course, named for the course and holding the written record. Loading the
folder reads all such files in the order of their names; a file that holds no record is passed over
and reported.
-/

namespace Curriculum

/-- The text of the file of a record. -/
def Record.written (r : Record) : String := r.toJson.render

/-- The folder of courses. -/
abbrev CourseFolder : Type := Folder

/-- Why a file holds no record. -/
inductive LoadFault where
  | file (fault : FileFault)
  | record (faults : List Fault)

namespace CourseFolder

/-- The ending of the names of course files. -/
def ending : List Char := ['.', 'j', 's', 'o', 'n']

/-- A character in the name of a file; what is no ASCII letter or digit becomes a low line. -/
def nameChar (c : Char) : Char :=
  if c.isAlphanum then c else '_'

/-- The name of the file of a course. -/
def fileName (course : String) : String :=
  String.ofList (course.toList.map nameChar ++ ending)

/-- Whether a name is that of a course file. -/
def isCourseFile (name : String) : Bool :=
  ending.isSuffixOf name.toList

/-- The record in the text of a file. -/
def recordOf (text : String) : Except LoadFault Record :=
  match Record.ofText text with
  | .ok r => .ok r
  | .faulty faults => .error (.record faults)

/-- The record that an entry holds. -/
def recordIn : Entry → Except LoadFault Record
  | .file (some text) => recordOf text
  | .file none => .error (.file .notText)
  | .folder _ => .error (.file .isFolder)

/-- The entries that should hold records, in the order of their names. -/
def courseEntries (folder : CourseFolder) : List (String × Entry) :=
  (folder.filter fun e => isCourseFile e.1).mergeSort fun a b => decide (a.1 ≤ b.1)

/-- All records of a folder with the names of their files, in the order of the names. -/
def records (folder : CourseFolder) : List (String × Record) :=
  (courseEntries folder).filterMap fun e => (recordIn e.2).toOption.map fun r => (e.1, r)

/-- The names of the course files that hold no record. -/
def unreadable (folder : CourseFolder) : List String :=
  ((courseEntries folder).filter fun e => (recordIn e.2).toOption.isNone).map (·.1)

/-- What is reported when a folder is loaded. -/
def loadLog (folder : CourseFolder) : List String :=
  (unreadable folder).map ("Error reading " ++ ·)

/-- The folder with a record in the file of a name. -/
def put (folder : CourseFolder) (name : String) (r : Record) : CourseFolder :=
  Table.insert folder name (.file (some r.written))

/-- Save a record in the file of its course; `room` is how long the name of a file may be. -/
def save (folder : CourseFolder) (room : Nat) (r : Record) : Except FileFault CourseFolder :=
  let name := fileName r.course
  if room < name.utf8ByteSize then .error .tooLong
  else
    match Table.find? folder name with
    | some (.folder _) => .error .isFolder
    | _ => .ok (folder.put name r)

end CourseFolder

end Curriculum
