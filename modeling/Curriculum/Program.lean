import Curriculum.CommandLine
import Curriculum.CourseFolder.Parsing
import Curriculum.CourseFolder.Seeding
import Curriculum.Graph.Assembly
import Curriculum.Graph.Export
import Curriculum.Graph.Summary
import Curriculum.Settings
import Curriculum.Statistics.Report

/-!
# Programs

Four programs work on a folder of data: one fetches the listing and seeds the folder of courses, one
has the model parse the courses, one reports statistics, and one exports the graph. A program
reads its settings from the environment, then its command line, whose options go before them.

A program is given what it may use of the world outside (`Surroundings`). In the end it leaves a
disk and a log, and has either reached its own end or broken off (`Finished`).
-/

namespace Curriculum

/-- The programs. -/
inductive Program where
  | fetch
  | parse
  | stats
  | exportGraph
  deriving DecidableEq, Repr

/-- What a program may use of the world outside. -/
structure Surroundings (m : Type → Type) where
  /-- The value of a variable of the environment. -/
  value? : String → Option String
  now : String
  /-- The schema that is shown to the model. -/
  schema : String
  /-- Fetch the document at a place. -/
  fetch : String → m Listing.Response
  /-- Ask a model. -/
  ask : Request → m Answer
  /-- The release of the writer of rows that is installed. -/
  release : Csv.Release := .earlier

/-- How a program ends: its exit code, what it has printed, and what it complains about. -/
structure Ending where
  exit : Nat
  output : String
  complaint : Option String

/-- Why a program breaks off. -/
inductive ProgramFault where
  | setting (fault : SettingFault)
  | file (fault : FileFault)
  | entry (fault : Listing.EntryFault)
  /-- An option was given without a value. -/
  | noValue (option : String)

/-- What a program leaves. -/
structure Finished where
  disk : Disk
  log : List String
  ending : Except ProgramFault Ending

namespace Program

open CommandLine

/-! ## Endings -/

/-- Lines as they are printed, each with a line feed. -/
def printed (lines : List String) : String :=
  String.join (lines.map (· ++ "\n"))

/-- The ending of a program that did its work. -/
def success (lines : List String) : Ending := ⟨0, printed lines, none⟩

/-- The end of a program that complains. -/
def complain (disk : Disk) (log : List String) (complaint : String) : Finished :=
  ⟨disk, log, .ok ⟨1, "", some complaint⟩⟩

/-- The end of a program that breaks off. -/
def breakOff (disk : Disk) (log : List String) (fault : ProgramFault) : Finished :=
  ⟨disk, log, .error fault⟩

/-! ## Command lines -/

/-- The name of a program. -/
def name : Program → String
  | fetch => "prereq-fetch"
  | parse => "prereq-parse"
  | stats => "prereq-stats"
  | exportGraph => "prereq-export"

/-- All programs. -/
def all : List Program := [fetch, parse, stats, exportGraph]

/-- The program of a name. -/
def ofName? : String → Option Program := memberNamed? all name

/-- The options of a program. -/
def options : Program → List OptionRule
  | fetch => [⟨"--url", .anything⟩, ⟨"--data", .anything⟩]
  | parse => [⟨"--data", .anything⟩, ⟨"--model", .anything⟩, ⟨"--workers", .integer⟩]
  | stats => [⟨"--data", .anything⟩]
  | exportGraph =>
    [⟨"--data", .anything⟩, ⟨"--out", .anything⟩,
      ⟨"--format", .oneOf (GraphFormat.all.map GraphFormat.name)⟩, ⟨"--max-passes", .integer⟩]

/-- The path of the data. -/
def dataPath (s : Settings) (values : Given) : Except ProgramFault Path :=
  match values.find? "--data" with
  | none => .ok s.data
  | some (some text) => .ok (Path.ofText text)
  | some none => .error (.noValue "--data")

/-- Where a program finds its data; nowhere if its settings or its command line have a fault. -/
def dataPath? (p : Program) (value? : String → Option String) (words : List String) :
    Option Path :=
  match Settings.ofEnvironment value?, CommandLine.read p.options words with
  | .ok s, .ok values => (dataPath s values).toOption
  | _, _ => none

/-- The path of the files of the graph: that of the data if none is given. -/
def outPath (data : Path) (values : Given) : Path :=
  match values.find? "--out" with
  | none | some none | some (some "") => data
  | some (some text) => Path.ofText text

/-- The format of the files of the graph. -/
def format (values : Given) : GraphFormat :=
  ((values.find? "--format").join.bind GraphFormat.ofName?).getD .csv

/-- The ceiling on passes; none if its option has no value. -/
def ceiling? (s : Settings) (values : Given) : Option Int :=
  match values.find? "--max-passes" with
  | none => some s.ceiling
  | some value => value.map fun text => (Text.integer? text).getD s.ceiling

/-- A text that is only shown or handed on; an option without a value gives an empty list. -/
def textOf (given : Option (Option String)) (default : String) : String :=
  match given with
  | none => default
  | some value => value.getD "[]"

/-! ## The four programs -/

/-- Store a listing as it came, then seed the folder of courses from it. -/
def storeListing (now : String) (data : Path) (disk : Disk) (listing : List Json) : Finished :=
  let place := (fetchedIn data).child "courses.json"
  let stored := disk.store place (some (Json.array listing).render)
  match stored.fault with
  | some fault => breakOff stored.disk [] (.file fault)
  | none =>
    let (disk, seeding) := stored.disk.seed (coursesIn data) now listing
    match seeding.fault with
    | some (.entry fault) => breakOff disk [] (.entry fault)
    | some (.file fault) => breakOff disk [] (.file fault)
    | none =>
      ⟨disk, [], .ok (success
        ["Listing stored in " ++ place.text,
          "Created " ++ toString seeding.written ++ " course files in "
            ++ (coursesIn data).text])⟩

/-- The report of a run over all courses. -/
def runReport (run : Run) : List String :=
  ["",
    "Processing complete:",
    "  Processed: " ++ toString run.processed,
    "  Parsed: " ++ toString (run.outcomes.count .parsed),
    "  Blacklisted: " ++ toString (run.outcomes.count .blacklisted),
    "  Errored: " ++ toString (run.outcomes.count .errored),
    "  Skipped: " ++ toString (run.outcomes.count .skipped)]

/-- What is left after a run over the folder of courses at a path. -/
def afterRun (courses : Path) (disk : Disk) (run : Run) : Finished :=
  let changed := Folder.changedWithin courses.room (disk.folderAt courses) run.folder
  let disk := disk.replace courses changed
  match run.failure with
  | some fault => complain disk run.log ("Error calling model: " ++ fault.message)
  | none => ⟨disk, run.log, .ok (success (runReport run))⟩

/-- Report the statistics of a folder of courses. -/
def reportStatistics (disk : Disk) (courses : CourseFolder) : Finished :=
  let records := courses.records.map (·.2)
  ⟨disk, courses.loadLog, .ok (success
    ["Analyzing " ++ toString records.length ++ " course files...", "",
      (Statistics.ofRecords records).report])⟩

/-- Store files in the folder at a path, up to the first that cannot be written. -/
def storeAll (disk : Disk) (place : Path) : List (String × String) → Attempt
  | [] => ⟨disk, none⟩
  | (name, text) :: rest =>
    let stored := disk.store (place.child name) (some text)
    match stored.fault with
    | some _ => stored
    | none => storeAll stored.disk place rest

/-- Export the graph of some records; `log` is what loading them reported. -/
def storeGraph (release : Csv.Release) (disk : Disk) (records : List Record) (log : List String)
    (out : Path) (format : GraphFormat) (ceiling : Int) : Finished :=
  let graph := Graph.ofRecords records ceiling
  let files := graph.files format release
  let log := log ++ graph.warnings
  let stored := storeAll disk out files
  match stored.fault with
  | some fault => breakOff stored.disk log (.file fault)
  | none =>
    ⟨stored.disk, log, .ok (success (
      ["Loading course data...",
        "Loaded " ++ toString records.length ++ " courses",
        "Generating nodes and links...",
        "Generated " ++ toString graph.nodes.length ++ " nodes and "
          ++ toString graph.edges.length ++ " links"]
      ++ files.map (fun file => "Saved " ++ (out.child file.1).text)
      ++ ["", graph.summary Graph.defaultTop]))⟩

/-- Export the graph of a folder of courses. A ceiling that has no value matters only if there are
depths to settle. -/
def exportCourses (release : Csv.Release) (s : Settings) (values : Given) (data : Path)
    (disk : Disk) (courses : CourseFolder) : Finished :=
  let records := courses.records.map (·.2)
  let store := storeGraph release disk records courses.loadLog (outPath data values) (format values)
  match ceiling? s values with
  | some ceiling => store ceiling
  | none =>
    if (parsedCourses records).isEmpty then store defaultCeiling
    else breakOff disk courses.loadLog (.noValue "--max-passes")

variable {m : Type → Type} [Monad m]

/-- Go on with the folder of courses at a path, if anything stands there. -/
def withCourses (disk : Disk) (courses : Path) (go : CourseFolder → m Finished) : m Finished :=
  match disk.entry courses with
  | .ok _ => go ((disk.folderAt courses).seenWithin courses.room)
  | .error .tooLong => pure (breakOff disk [] (.file .tooLong))
  | .error _ =>
    pure (complain disk [] ("Error: courses directory not found: " ++ courses.text))

/-- Have a model parse the folder of courses at a path. -/
def parseCourses (w : Surroundings m) (s : Settings) (values : Given) (courses : Path)
    (disk : Disk) (found : CourseFolder) : m Finished := do
  if values.find? "--workers" = some none then
    pure (breakOff disk found.loadLog (.noValue "--workers"))
  else
    let model := textOf (values.find? "--model") s.model
    let run ← found.parseAll (fun r => w.ask (Request.ofRecord model w.schema r)) w.now
    pure (afterRun courses disk run)

/-- Carry out a program with its settings, the values of its options and the path of its data. -/
def carryOut (w : Surroundings m) (s : Settings) (values : Given) (data : Path) (disk : Disk) :
    Program → m Finished
  | fetch => do
    let place := textOf (values.find? "--url") s.listingPlace
    match Listing.ofResponse place (← w.fetch place) with
    | .error fault => pure (complain disk [] ("Error fetching " ++ place ++ ": " ++ fault.message))
    | .ok listing => pure (storeListing w.now data disk listing)
  | parse => withCourses disk (coursesIn data) (parseCourses w s values (coursesIn data) disk)
  | stats => withCourses disk (coursesIn data) fun found => pure (reportStatistics disk found)
  | exportGraph =>
    withCourses disk (coursesIn data) fun found =>
      pure (exportCourses w.release s values data disk found)

/-- The end of a program whose command line is not carried out. -/
def stopped (p : Program) (disk : Disk) (stop : Stop) : Finished :=
  match stop.message? with
  | none => ⟨disk, [], .ok ⟨0, "", none⟩⟩
  | some message => ⟨disk, [], .ok ⟨2, "", some (p.name ++ ": error: " ++ message)⟩⟩

/-- Run a program on the words of its command line. -/
def run (p : Program) (w : Surroundings m) (words : List String) (disk : Disk) : m Finished :=
  match Settings.ofEnvironment w.value? with
  | .error fault => pure (breakOff disk [] (.setting fault))
  | .ok s =>
    match CommandLine.read p.options words with
    | .error stop => pure (stopped p disk stop)
    | .ok values =>
      match dataPath s values with
      | .error fault => pure (breakOff disk [] fault)
      | .ok data => carryOut w s values data disk p

end Program

end Curriculum
