import Curriculum.CourseFolder.Seeding
import Curriculum.Proofs.Record.LifeCycle
import Mathlib.Data.List.Perm.Subperm

/-!
# When seeding keeps every course

Seeding gives every listed course a record, and saves it in a file named for the course. The name
keeps only the letters and digits of the code, so courses with different codes may share a file; the
one that is listed later then takes the place of the other, and both are counted.

What a listing leads to is therefore a matter of the names. If all of them are short enough for the
folder, the records are put into it one after the other (`CourseFolder.putAll`,
`saveAll_of_fits`); if their names are different, each record has a file of its own, which is loaded
as it was (`records_putAll_perm`); if not, there are fewer files than records
(`length_putAll_eq_iff`).

> `losesNothing_iff`: seeding an empty folder loses nothing exactly if the courses have files of
> different names, none of them too long.
-/

namespace Curriculum

namespace CourseFolder

/-- A folder in which records are put into their files, one after the other. -/
def putAll (folder : CourseFolder) (rs : List Record) : CourseFolder :=
  rs.foldl (fun f r => f.put (fileName r.course) r) folder

/-- What is in the folder is a file. -/
def HoldsFiles (folder : CourseFolder) : Prop :=
  ∀ name entries, Table.find? folder name ≠ some (.folder entries)

variable {folder : CourseFolder} {room : Nat} {r : Record} {rs : List Record}

/-! ## One record -/

theorem HoldsFiles.put (h : HoldsFiles folder) (name : String) (r : Record) :
    HoldsFiles (folder.put name r) := by
  intro name' entries
  rw [CourseFolder.put, Table.find?_insert]
  split
  · simp
  · exact h name' entries

theorem save_of_fits (h : HoldsFiles folder)
    (hfits : (fileName r.course).utf8ByteSize ≤ room) :
    save folder room r = .ok (folder.put (fileName r.course) r) :=
  save_eq_ok_iff.mpr ⟨hfits, h _, rfl⟩

theorem isCourseFile_fileName (course : String) : isCourseFile (fileName course) = true := by
  rw [isCourseFile, fileName, String.toList_ofList, List.isSuffixOf_iff_suffix]
  exact List.suffix_append _ _

/-! ## Several records -/

theorem mem_keys_putAll {name : String} (h : name ∈ (folder.putAll rs).keys) :
    name ∈ Table.keys folder ∨ name ∈ rs.map fun r => fileName r.course := by
  induction rs generalizing folder with
  | nil => exact Or.inl h
  | cons r rest ih =>
    have hname : name ∈ (putAll (folder.put (fileName r.course) r) rest).keys := h
    rcases ih hname with hput | hrest
    · rcases Table.mem_keys_insert.mp hput with hold | rfl
      · exact Or.inl hold
      · exact Or.inr List.mem_cons_self
    · exact Or.inr (List.mem_cons_of_mem _ hrest)

theorem nodup_keys_putAll (h : (Table.keys folder).Nodup) (rs : List Record) :
    (folder.putAll rs).keys.Nodup := by
  induction rs generalizing folder with
  | nil => exact h
  | cons r rest ih => exact ih (Table.nodup_keys_insert h _ _)

/-- Records with different names that are all new have files of their own. -/
theorem putAll_eq_append (hnames : (rs.map fun r => fileName r.course).Nodup)
    (hnew : ∀ r ∈ rs, fileName r.course ∉ Table.keys folder) :
    folder.putAll rs
      = folder ++ rs.map fun r => (fileName r.course, Entry.file (some r.written)) := by
  induction rs generalizing folder with
  | nil => exact (List.append_nil _).symm
  | cons r rest ih =>
    obtain ⟨hr, hrest⟩ := List.nodup_cons.mp hnames
    have hput : folder.put (fileName r.course) r
        = folder ++ [(fileName r.course, Entry.file (some r.written))] :=
      Table.insert_of_not_mem (hnew r (List.mem_cons_self ..)) _
    show putAll (folder.put (fileName r.course) r) rest = _
    rw [ih hrest, hput, List.append_assoc]
    · rfl
    · -- a later record has a name that was not there before and is not the one just entered
      intro r' hr'
      rw [hput, Table.keys_append, List.mem_append, not_or]
      refine ⟨hnew r' (List.mem_cons_of_mem _ hr'), fun hmem => hr ?_⟩
      rw [← List.mem_singleton.mp hmem]
      exact List.mem_map_of_mem hr'

/-- There are as many files as records exactly if their names are different. -/
theorem length_putAll_eq_iff :
    (putAll [] rs).length = rs.length ↔ (rs.map fun r => fileName r.course).Nodup := by
  constructor
  · intro hlength
    have hempty : (Table.keys ([] : CourseFolder)).Nodup := List.nodup_nil
    have hnodup := nodup_keys_putAll hempty rs
    have hsub : (putAll [] rs).keys ⊆ rs.map fun r => fileName r.course :=
      fun _ hname => (mem_keys_putAll hname).resolve_left List.not_mem_nil
    have hperm := (hnodup.subperm hsub).perm_of_length_le (by simp [Table.keys, hlength])
    exact hperm.nodup_iff.mp hnodup
  · intro hnames
    rw [putAll_eq_append hnames (fun _ _ => List.not_mem_nil), List.nil_append, List.length_map]

/-- What is loaded from the files of records are these records. -/
theorem filterMap_recordIn_files (hnesting : ∀ r ∈ rs, r.toJson.nesting ≤ 200) :
    (rs.map fun r => (fileName r.course, Entry.file (some r.written))).filterMap
        (fun e => (recordIn e.2).toOption.map fun r => (e.1, r))
      = rs.map fun r => (fileName r.course, r) := by
  induction rs with
  | nil => rfl
  | cons r rest ih =>
    have hload : recordIn (Entry.file (some r.written)) = .ok r := by
      rw [recordIn, recordOf_eq_ok_iff]
      exact Record.ofText_written (hnesting r (List.mem_cons_self ..))
    have hrest := ih fun r' hr' => hnesting r' (List.mem_cons_of_mem _ hr')
    have htold : (Except.ok r : Except LoadFault Record).toOption = some r := rfl
    simp only [List.map_cons, List.filterMap_cons, hload, hrest, htold, Option.map_some]

/-- Records with different names are all loaded, each as it was. -/
theorem records_putAll_perm (hnames : (rs.map fun r => fileName r.course).Nodup)
    (hnesting : ∀ r ∈ rs, r.toJson.nesting ≤ 200) :
    ((putAll [] rs).records.map (·.2)).Perm rs := by
  have hfiles : (putAll [] rs).filter (fun e => isCourseFile e.1)
      = rs.map fun r => (fileName r.course, Entry.file (some r.written)) := by
    rw [putAll_eq_append hnames (fun _ _ => List.not_mem_nil), List.nil_append,
      List.filter_eq_self]
    intro e he
    obtain ⟨r, -, rfl⟩ := List.mem_map.mp he
    exact isCourseFile_fileName r.course
  have hloaded := (List.mergeSort_perm (rs.map fun r => (fileName r.course,
    Entry.file (some r.written))) fun a b => decide (a.1 ≤ b.1)).filterMap
      fun e => (recordIn e.2).toOption.map fun r => (e.1, r)
  rw [filterMap_recordIn_files hnesting] at hloaded
  have hmap := hloaded.map (·.2)
  rw [List.map_map] at hmap
  rw [records, courseEntries, hfiles]
  exact hmap.trans (List.Perm.of_eq (List.map_id rs))

end CourseFolder

/-! ## Seeding -/

namespace Seeding

open CourseFolder

variable {folder : CourseFolder} {room : Nat} {rs : List Record}

/-- If all names are short enough, seeding puts all records into the folder. -/
theorem saveAll_of_fits (hfits : ∀ r ∈ rs, (fileName r.course).utf8ByteSize ≤ room)
    (hfiles : HoldsFiles folder) (written : Nat) (fault : Option SeedFault) :
    saveAll room folder written fault rs = ⟨folder.putAll rs, written + rs.length, fault⟩ := by
  induction rs generalizing folder written with
  | nil => rfl
  | cons r rest ih =>
    have hsave := save_of_fits hfiles (hfits r (List.mem_cons_self ..))
    simp only [saveAll, hsave]
    rw [ih (fun r' hr' => hfits r' (List.mem_cons_of_mem _ hr')) (hfiles.put _ r), List.length_cons,
      Nat.add_assoc, Nat.add_comm 1]
    rfl

/-- If a name is too long, seeding stops there, if not before. -/
theorem saveAll_fault_ne_none {r : Record} (hr : r ∈ rs)
    (hlong : room < (fileName r.course).utf8ByteSize) (folder : CourseFolder) (written : Nat)
    (fault : Option SeedFault) : (saveAll room folder written fault rs).fault ≠ none := by
  induction rs generalizing folder written with
  | nil => exact absurd hr List.not_mem_nil
  | cons r' rest ih =>
    rw [saveAll]
    split
    · next saved hsave =>
      rcases List.mem_cons.mp hr with rfl | hr
      · exact absurd (save_eq_ok_iff.mp hsave).1 (Nat.not_le.mpr hlong)
      · exact ih hr saved _
    · simp

end Seeding

namespace Listing

/-- The record of a new course. -/
def Course.record (now : String) (c : Course) : Record :=
  newRecord now c.code c.prerequisite c.corequisite

/-- Every entry that states a course gives the record of that course. -/
theorem records_of_states (now : String) {listing : List Json} {courses : List Course}
    (h : List.Forall₂ States listing courses) :
    records now listing = (courses.map (Course.record now), none) := by
  induction h with
  | nil => rfl
  | @cons entry c listing courses hstates _ ih =>
    have hrecord : record? now entry = .ok (some (c.record now)) :=
      record?_eq_ok_some_iff.mpr ⟨c, hstates, rfl⟩
    simp only [records, hrecord, ih, List.map_cons]

theorem nesting_record_le {entry : Json} {c : Course} (h : States entry c) (now : String) :
    (c.record now).toJson.nesting ≤ 200 :=
  (Record.sound_newRecord h.prerequisite_ne h.corequisite_ne).nesting_le

end Listing

/-- The course that a record is about, as it was listed. -/
def Record.listed (r : Record) : Listing.Course :=
  ⟨r.course, r.prerequisiteText, r.corequisiteText⟩

namespace Seeding

open CourseFolder Listing

/-- Seeding has come to its end; the records that are loaded are those of the listed courses, one for
each, with its texts; and as many were written as there are files. -/
structure LosesNothing (done : Seeding) (courses : List Course) : Prop where
  fault : done.fault = none
  loaded : (done.folder.records.map fun file => file.2.listed).Perm courses
  written : done.written = done.folder.length

/-- Saving records in an empty folder loses nothing exactly if their files have different names, none
of them too long. -/
theorem losesNothing_saveAll_iff (hnesting : ∀ r ∈ rs, r.toJson.nesting ≤ 200) :
    LosesNothing (saveAll room [] 0 none rs) (rs.map Record.listed) ↔
      (rs.map fun r => fileName r.course).Nodup ∧
        ∀ r ∈ rs, (fileName r.course).utf8ByteSize ≤ room := by
  have hempty : HoldsFiles [] := fun _ _ => by simp
  constructor
  · intro hkept
    -- no name was too long, or seeding would have stopped
    have hfits : ∀ r ∈ rs, (fileName r.course).utf8ByteSize ≤ room := by
      intro r hr
      by_contra hlong
      exact saveAll_fault_ne_none hr (Nat.not_le.mp hlong) _ _ _ hkept.fault
    have hwritten := hkept.written
    rw [saveAll_of_fits hfits hempty, Nat.zero_add] at hwritten
    exact ⟨length_putAll_eq_iff.mp hwritten.symm, hfits⟩
  · rintro ⟨hnames, hfits⟩
    rw [saveAll_of_fits hfits hempty, Nat.zero_add]
    have hloaded := (records_putAll_perm hnames hnesting).map Record.listed
    rw [List.map_map] at hloaded
    have hcount : (putAll [] rs).length = rs.length := length_putAll_eq_iff.mpr hnames
    exact ⟨rfl, hloaded, hcount.symm⟩

/-- **When seeding loses nothing.** Seeding an empty folder with a listing of courses loses nothing
exactly if the courses have files of different names, none of them too long for the folder. -/
theorem losesNothing_iff {listing : List Json} {courses : List Course}
    (h : List.Forall₂ States listing courses) (room : Nat) (now : String) :
    LosesNothing (ofListing room now listing []) courses ↔
      (courses.map fun c => fileName c.code).Nodup ∧
        ∀ c ∈ courses, (fileName c.code).utf8ByteSize ≤ room := by
  have hseed : ofListing room now listing []
      = saveAll room [] 0 none (courses.map (Course.record now)) := by
    rw [ofListing, records_of_states now h]
    rfl
  have hlisted : (courses.map (Course.record now)).map Record.listed = courses := by
    rw [List.map_map]
    exact List.map_id courses
  have hnesting : ∀ r ∈ courses.map (Course.record now), r.toJson.nesting ≤ 200 := by
    intro r hr
    obtain ⟨c, hc, rfl⟩ := List.mem_map.mp hr
    obtain ⟨entry, -, hstates⟩ := Reading.exists_rel_of_mem h.flip hc
    exact nesting_record_le hstates now
  have hsaved : LosesNothing (saveAll room [] 0 none (courses.map (Course.record now))) _ ↔ _ :=
    losesNothing_saveAll_iff hnesting
  rw [hlisted, List.map_map, List.forall_mem_map] at hsaved
  rw [hseed]
  exact hsaved

/-- Two courses with codes in different scripts, one of them without a text. -/
def sampleListing : List Json :=
  [.object [("course", .text "PHYS 159"), ("prer", .text "MATH 100"), ("crer", .null)],
    .object [("course", .text ""), ("code", .text "数学 159"), ("prer", .text "")]]

def sampleCourses : List Course :=
  [⟨"PHYS 159", some "MATH 100", none⟩, ⟨"数学 159", none, none⟩]

theorem sampleListing_losesNothing :
    List.Forall₂ States sampleListing sampleCourses ∧
      LosesNothing (ofListing 255 "" sampleListing []) sampleCourses := by
  have hstates : List.Forall₂ States sampleListing sampleCourses :=
    .cons ⟨_, rfl, rfl, rfl, rfl⟩ (.cons ⟨_, rfl, rfl, rfl, rfl⟩ .nil)
  exact ⟨hstates, (losesNothing_iff hstates 255 "").mpr ⟨by decide +kernel, by decide +kernel⟩⟩

/-- Two courses whose codes differ in a mark. -/
def collidingListing : List Json :=
  [.object [("course", .text "PHYS 159-1"), ("prer", .text "MATH 100")],
    .object [("course", .text "PHYS 159.1"), ("prer", .text "MATH 180")]]

def collidingCourses : List Course :=
  [⟨"PHYS 159-1", some "MATH 100", none⟩, ⟨"PHYS 159.1", some "MATH 180", none⟩]

/-- The first of them is lost, though both are counted. -/
theorem collidingListing_losesSomething :
    List.Forall₂ States collidingListing collidingCourses ∧
      (collidingCourses.map (·.code)).Nodup ∧
      (ofListing 255 "" collidingListing []).written = 2 ∧
      ¬ LosesNothing (ofListing 255 "" collidingListing []) collidingCourses := by
  have hwritten : (ofListing 255 "" collidingListing []).written = 2 := by decide +kernel
  have hlength : (ofListing 255 "" collidingListing []).folder.length = 1 := by decide +kernel
  refine ⟨.cons ⟨_, rfl, rfl, rfl, rfl⟩ (.cons ⟨_, rfl, rfl, rfl, rfl⟩ .nil), by decide, hwritten,
    fun hkept => ?_⟩
  have hcounted := hkept.written
  rw [hwritten, hlength] at hcounted
  exact absurd hcounted (by decide)

end Seeding

end Curriculum
