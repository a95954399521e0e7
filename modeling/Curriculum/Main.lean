import Curriculum.Json.Reader
import Curriculum.Program

/-!
# The command line

The first word names the program, the others are its own. The data are read before the program
runs, and the files that it changed are written when it ends.

What lies beyond the disk is handed in: the document of the listing is all of standard input, and
a prompt for the model is printed and answered by one line of standard input. The variables
`PREREQ_NOW` and `PREREQ_SCHEMA` give the time and the schema that is shown to the model.
-/

namespace Curriculum

namespace Main

/-- Read a folder of the disk. -/
partial def readFolder (place : String) : IO Folder := do
  let found ← ((← IO.currentDir) / place).readDir
  found.toList.mapM fun e => do
    let inner := place ++ "/" ++ e.fileName
    if ← e.path.isDir then pure (e.fileName, .folder (← readFolder inner))
    else pure (e.fileName, .file (String.fromUTF8? (← IO.FS.readBinFile e.path)))

/-- A disk with the working folder and, if it is there, the folder of the data. -/
def readDisk (data? : Option Path) : IO Disk := do
  let here := (Path.ofText (← IO.currentDir).toString).names
  let disk : Disk := ⟨((Disk.mk [] []).makeFolders ⟨1, here⟩ true).disk.root, here⟩
  match data? with
  | none => pure disk
  | some data =>
    try
      let entries ← readFolder data.text
      pure ((disk.makeFolders data true).disk.replace data entries)
    catch _ => pure disk

/-- Write a file, making the folders around it. -/
def writeText (file : Path × String) : IO Unit := do
  IO.FS.createDirAll file.1.parent.text
  IO.FS.writeFile file.1.text file.2

/-- All that is left of a stream. -/
partial def readAll (stream : IO.FS.Stream) (before : String) : IO String := do
  let line ← stream.getLine
  if line.isEmpty then pure before else readAll stream (before ++ line)

/-- The document of the listing. -/
def fetch (stdin : IO.FS.Stream) (place : String) : IO Listing.Response := do
  match Json.read? Requirement.textLimits (← readAll stdin "") with
  | some document => pure (.document document 200)
  | none => pure (.unreachable ("no document from " ++ place))

/-- The answer of the model: none if the input is at its end. -/
def ask (stdin stdout : IO.FS.Stream) (request : Request) : IO Answer := do
  for message in request.messages do
    stdout.putStrLn message.content
  stdout.flush
  let line ← stdin.getLine
  pure (if line.isEmpty then .failed "no reply" else .content (some line))

/-- The wording of what broke a program off. -/
def wording : ProgramFault → String
  | .setting fault => fault.message
  | .file fault => fault.message
  | .entry _ => "an entry of the listing gives no record"
  | .noValue option => "no value for " ++ option

/-- Show the end of a program. -/
def conclude (finished : Finished) : IO UInt32 := do
  for line in finished.log do
    IO.eprintln line
  match finished.ending with
  | .error fault =>
    IO.eprintln (wording fault)
    pure 1
  | .ok ending =>
    IO.print ending.output
    if let some complaint := ending.complaint then IO.eprintln complaint
    pure ending.exit.toUInt32

/-- Run a program on the disk. -/
def run (p : Program) (words : List String) : IO UInt32 := do
  let values ← Settings.variableNames.mapM fun name => do pure (name, ← IO.getEnv name)
  let value? (name : String) : Option String := (Table.find? values name).join
  let stdin ← IO.getStdin
  let stdout ← IO.getStdout
  let surroundings : Surroundings IO :=
    { value?
      now := (← IO.getEnv "PREREQ_NOW").getD "1970-01-01T00:00:00Z"
      schema := (← IO.getEnv "PREREQ_SCHEMA").getD ""
      fetch := fetch stdin
      ask := ask stdin stdout }
  let before ← readDisk (p.dataPath? value? words)
  let finished ← p.run surroundings words before
  (before.changes finished.disk).forM writeText
  conclude finished

end Main

end Curriculum

/-- Run the program that the first word names. -/
def main (words : List String) : IO UInt32 := do
  match words with
  | name :: rest =>
    match Curriculum.Program.ofName? name with
    | some p => Curriculum.Main.run p rest
    | none =>
      IO.eprintln ("unknown program: " ++ name)
      pure 2
  | [] =>
    IO.eprintln ("programs: "
      ++ ", ".intercalate (Curriculum.Program.all.map Curriculum.Program.name))
    pure 2
