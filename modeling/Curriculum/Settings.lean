import Curriculum.Depth.Relaxation
import Curriculum.Path
import Curriculum.Text.Integer
import Curriculum.Text.Quoted

/-!
# Settings

Where the data are, where the listing comes from, which model is asked, how many passes settle
depths, and how many workers there may be. Each setting may be given by a variable of the
environment.
-/

namespace Curriculum

/-- The settings of all programs. -/
structure Settings where
  data : Path
  listingPlace : String
  model : String
  ceiling : Int
  workers : Int

/-- A variable that should hold an integer holds something else. -/
structure SettingFault where
  text : String
  cause : Text.IntegerFault

/-- How many characters of a quoted text a fault shows. -/
def SettingFault.shown : Nat := 200

/-- The wording of a fault. -/
def SettingFault.message (f : SettingFault) : String :=
  match f.cause with
  | .malformed =>
    "invalid literal for int() with base 10: "
      ++ String.ofList ((Text.quoted f.text).toList.take shown)
  | .tooLong digits =>
    "Exceeds the limit (" ++ toString Text.mostDigits
      ++ " digits) for integer string conversion: value has " ++ toString digits
      ++ " digits; use sys.set_int_max_str_digits() to increase the limit"

/-- The folder of courses among the data. -/
def coursesIn (data : Path) : Path := data.child "courses"

/-- The folder of the stored listing among the data. -/
def fetchedIn (data : Path) : Path := data.child "fetch"

namespace Settings

/-- Where the listing comes from, if nothing else is said. -/
def defaultPlace : String :=
  "https://www.ubcfinder.com/data/course-data/subjects-prereqs/course-prereqs.json"

/-- The model that is asked, if nothing else is said. -/
def defaultModel : String := "qwen2.5:14b-instruct"

/-- How many workers there may be, if nothing else is said. -/
def defaultWorkers : Int := 3

/-- An integer that may be given by a variable. -/
def integer (given : Option String) (default : Int) : Except SettingFault Int :=
  match given with
  | none => .ok default
  | some s =>
    match Text.readInteger s with
    | .ok n => .ok n
    | .error cause => .error ⟨s, cause⟩

/-- The variables that are looked at. -/
def variableNames : List String :=
  ["PREREQ_DATA_DIR", "COURSE_LISTING_URL", "OLLAMA_MODEL", "PREREQ_MAX_DEPTH_PASSES",
    "PREREQ_WORKERS"]

/-- The settings in an environment, given by the values of its variables. -/
def ofEnvironment (value? : String → Option String) : Except SettingFault Settings :=
  (integer (value? "PREREQ_MAX_DEPTH_PASSES") defaultCeiling).bind fun ceiling =>
  (integer (value? "PREREQ_WORKERS") defaultWorkers).map fun workers =>
    { data := Path.ofText ((value? "PREREQ_DATA_DIR").getD "data")
      listingPlace := (value? "COURSE_LISTING_URL").getD defaultPlace
      model := (value? "OLLAMA_MODEL").getD defaultModel
      ceiling
      workers }

end Settings

end Curriculum
