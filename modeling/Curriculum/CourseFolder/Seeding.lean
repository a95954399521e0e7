import Curriculum.CourseFolder.Basic
import Curriculum.Disk
import Curriculum.Record.Listing

/-!
# Seeding the folder of courses

Every course of a listing gets a file. The entries are taken in their order, and seeding stops at
the first that gives no record because of a fault, or whose file cannot be written; what was
written before stays.
-/

namespace Curriculum

/-- Why seeding stopped early. -/
inductive SeedFault where
  | entry (fault : Listing.EntryFault)
  | file (fault : FileFault)

/-- What seeding has done. -/
structure Seeding where
  folder : CourseFolder
  /-- How many records were written. -/
  written : Nat
  fault : Option SeedFault

namespace Seeding

/-- Save records one after the other, after some that were written. -/
def saveAll (room : Nat) (folder : CourseFolder) (written : Nat) (fault : Option SeedFault) :
    List Record → Seeding
  | [] => ⟨folder, written, fault⟩
  | r :: rest =>
    match folder.save room r with
    | .ok folder => saveAll room folder (written + 1) fault rest
    | .error e => ⟨folder, written, some (.file e)⟩

/-- Seed a folder from a listing at a time; `room` is how long the name of a file may be. -/
def ofListing (room : Nat) (now : String) (listing : List Json) (folder : CourseFolder) : Seeding :=
  let (records, fault) := Listing.records now listing
  saveAll room folder 0 (fault.map .entry) records

end Seeding

/-- Seed the folder of courses at a path. It is made when the first record is written. -/
def Disk.seed (d : Disk) (p : Path) (now : String) (listing : List Json) : Disk × Seeding :=
  if (Listing.records now listing).1.isEmpty then
    (d, Seeding.ofListing p.room now listing (d.folderAt p))
  else
    let made := d.makeFolders p true
    match made.fault with
    | some fault => (made.disk, ⟨[], 0, some (.file fault)⟩)
    | none =>
      let done := Seeding.ofListing p.room now listing (made.disk.folderAt p)
      (made.disk.replace p done.folder, done)

end Curriculum
