import Curriculum.Proofs.CourseFolder.Seeding

/-!
# What is loaded from a folder

The names in a folder are all different. Loading it is then a matter of look-ups: the record in a
file is what the entry under the name of the file holds (`recordAt?`, `mem_records_iff`), and the
files that are loaded are those of the course files that hold a record, in the order of their names
(`names_records`).

So two folders with the same names load the same files as soon as the same of them hold a record,
whatever else the files say.
-/

namespace Curriculum

namespace CourseFolder

variable {folder folder' : CourseFolder} {name : String} {r : Record}

/-- The record in the file of a name, if the file is there and holds one. -/
def recordAt? (folder : CourseFolder) (name : String) : Option Record :=
  (Table.find? folder name).bind fun e => (recordIn e).toOption

theorem mem_courseEntries {e : String × Entry} :
    e ∈ courseEntries folder ↔ e ∈ folder ∧ isCourseFile e.1 = true := by
  unfold courseEntries
  rw [List.mem_mergeSort, List.mem_filter]

theorem recordAt?_of_mem (h : (Table.keys folder).Nodup) {e : String × Entry} (he : e ∈ folder) :
    folder.recordAt? e.1 = (recordIn e.2).toOption := by
  unfold recordAt?
  have hfind : Table.find? folder e.1 = some e.2 := (Table.find?_eq_some_iff h).mpr he
  rw [hfind]
  rfl

/-- The record in a file is loaded if the name of the file is that of a course file. -/
theorem mem_records_iff (h : (Table.keys folder).Nodup) :
    (name, r) ∈ folder.records ↔ isCourseFile name = true ∧ folder.recordAt? name = some r := by
  unfold records
  rw [List.mem_filterMap]
  constructor
  · intro hr
    obtain ⟨e, he, hload⟩ := hr
    obtain ⟨hmem, hname⟩ := mem_courseEntries.mp he
    obtain ⟨r', hr', heq⟩ := Option.map_eq_some_iff.mp hload
    obtain ⟨rfl, rfl⟩ := Prod.mk.inj heq
    rw [recordAt?_of_mem h hmem]
    exact ⟨hname, hr'⟩
  · intro hr
    obtain ⟨hname, hload⟩ := hr
    obtain ⟨e, hfind, hrecord⟩ := Option.bind_eq_some_iff.mp hload
    refine ⟨(name, e), mem_courseEntries.mpr ⟨Table.mem_of_find? hfind, hname⟩, ?_⟩
    show (recordIn e).toOption.map _ = _
    rw [hrecord]
    rfl

/-- What is loaded from a folder stands in it. -/
theorem name_mem_of_mem_records {file : String × Record} (h : file ∈ folder.records) :
    file.1 ∈ Table.keys folder := by
  obtain ⟨e, he, hload⟩ := List.mem_filterMap.mp h
  obtain ⟨r, -, rfl⟩ := Option.map_eq_some_iff.mp hload
  exact List.mem_map_of_mem (mem_courseEntries.mp he).1

/-- The files that are loaded, in the order of their names. -/
theorem names_records (h : (Table.keys folder).Nodup) :
    Table.keys folder.records
      = (((Table.keys folder).filter isCourseFile).mergeSort fun a b => decide (a ≤ b)).filter
          fun name => (folder.recordAt? name).isSome := by
  have hnames : (courseEntries folder).map (·.1)
      = ((Table.keys folder).filter isCourseFile).mergeSort fun a b => decide (a ≤ b) := by
    unfold courseEntries Table.keys
    rw [List.map_mergeSort (s := fun a b => decide (a ≤ b)) fun _ _ _ _ => rfl, List.filter_map]
    rfl
  have hloads : ∀ e ∈ courseEntries folder,
      (recordIn e.2).toOption.isSome = (folder.recordAt? e.1).isSome := by
    intro e he
    rw [recordAt?_of_mem h (mem_courseEntries.mp he).1]
  rw [← hnames, List.filter_map]
  unfold records Table.keys
  -- both sides go through the same entries, so it is enough to look at one of them
  generalize courseEntries folder = entries at hloads
  induction entries with
  | nil => rfl
  | cons e rest ih =>
    have he := hloads e List.mem_cons_self
    have hrest := ih fun e' he' => hloads e' (List.mem_cons_of_mem _ he')
    rw [List.filterMap_cons, List.filter_cons, Function.comp_apply, ← he]
    cases (recordIn e.2).toOption with
    | none => exact hrest
    | some r => exact congrArg (e.1 :: ·) hrest

theorem nodup_names_records (h : (Table.keys folder).Nodup) :
    (Table.keys folder.records).Nodup := by
  rw [names_records h]
  have hsorted := List.mergeSort_perm ((Table.keys folder).filter isCourseFile)
    fun a b => decide (a ≤ b)
  exact (hsorted.nodup_iff.mpr (h.filter _)).filter _

/-- Folders with the same names load the same files if the same of them hold a record. -/
theorem names_records_eq (h : (Table.keys folder).Nodup)
    (hkeys : Table.keys folder' = Table.keys folder)
    (hloads : ∀ name, (folder'.recordAt? name).isSome = (folder.recordAt? name).isSome) :
    Table.keys folder'.records = Table.keys folder.records := by
  rw [names_records h, names_records (hkeys ▸ h), hkeys, funext hloads]

/-- Saved records that stand in the order of the names of their files are loaded as they are. -/
theorem records_of_saved {rs : List Record}
    (hsorted : rs.Pairwise fun a b => fileName a.course ≤ fileName b.course)
    (hnesting : ∀ r ∈ rs, r.toJson.nesting ≤ 200) :
    records (rs.map fun r => (fileName r.course, Entry.file (some r.written)))
      = rs.map fun r => (fileName r.course, r) := by
  have hentries : courseEntries (rs.map fun r => (fileName r.course, Entry.file (some r.written)))
      = rs.map fun r => (fileName r.course, Entry.file (some r.written)) := by
    unfold courseEntries
    rw [List.filter_eq_self.mpr, List.mergeSort_of_pairwise]
    · exact List.pairwise_map.mpr (hsorted.imp fun h => decide_eq_true h)
    · intro e he
      obtain ⟨r, -, rfl⟩ := List.mem_map.mp he
      exact isCourseFile_fileName r.course
  unfold records
  rw [hentries, filterMap_recordIn_files hnesting]

end CourseFolder

end Curriculum
