import Curriculum.Graph.Export
import Curriculum.Proofs.Csv
import Curriculum.Proofs.Graph.Nodes
import Curriculum.Proofs.Record.RoundTrip

/-!
# Graphs are read back from their files

Either format holds the whole graph, node by node and edge by edge, with the values of the edges
rounded to two places. Rows are read back whatever stands in the ids and departments and whichever
release has written them (`Graph.decode?_table`), and so are documents, by every reader that takes
numbers as long as theirs (`Graph.readsAs_array`).

The two formats write a value with the same characters. They would part only at infinity, which they
name differently, and a value is infinite only if 1024 groups are nested in each other
(`Graph.render_shownValue`). No reader lets such a tree through (`Record.isShallow_of_ofValue`,
`Record.isShallow_of_ofText`).

> `files_agree`: the graph of any records is read back from both of its formats, in every release,
> and they write the values of its edges with the same characters.
-/

namespace Curriculum

/-! ## Documents and generous readers -/

namespace Json

/-- A text is read as a document by every reader that is generous enough. -/
def ReadsAs (text : String) (j : Json) : Prop :=
  ∃ longest deepest, ∀ limits : Limits, longest ≤ limits.wholePart → deepest ≤ limits.nesting →
    read? limits text = some j

/-- A document can be read back if numbers may be long. -/
def Readable (j : Json) : Prop := ∃ longest, ∀ l, longest ≤ l → Proper l j

theorem Readable.readsAs {j : Json} (h : j.Readable) : ReadsAs j.render j := by
  obtain ⟨longest, hproper⟩ := h
  exact ⟨longest, j.nesting, fun limits hlong hdeep => read?_render (hproper _ hlong) hdeep⟩

theorem readable_text (s : String) : (text s).Readable := ⟨0, fun _ _ => .text s⟩

theorem readable_number (n : Number) : (number n).Readable := by
  cases n with
  | int n => exact ⟨(writeNumber (.int n)).length, fun _ hl => .number hl⟩
  | float x => exact ⟨17, fun _ hl => .number hl⟩

/-- What takes the numbers of each of some documents takes those of all of them. -/
theorem exists_longest {js : List Json} (h : ∀ j ∈ js, j.Readable) :
    ∃ longest, ∀ l, longest ≤ l → ∀ j ∈ js, Proper l j := by
  induction js with
  | nil => exact ⟨0, fun _ _ _ hj => absurd hj List.not_mem_nil⟩
  | cons j js ih =>
    obtain ⟨⟨a, ha⟩, hjs⟩ := List.forall_mem_cons.mp h
    obtain ⟨b, hb⟩ := ih hjs
    refine ⟨max a b, fun l hl => List.forall_mem_cons.mpr ⟨ha l ?_, hb l ?_⟩⟩
    · omega
    · omega

theorem readable_array {items : List Json} (h : ∀ j ∈ items, j.Readable) :
    (array items).Readable := by
  obtain ⟨longest, hproper⟩ := exists_longest h
  exact ⟨longest, fun l hl => .array (hproper l hl)⟩

theorem readable_object {fields : Table String Json} (hnames : fields.keys.Nodup)
    (h : ∀ j ∈ fields.map (·.2), j.Readable) : (object fields).Readable := by
  obtain ⟨longest, hproper⟩ := exists_longest h
  exact ⟨longest, fun l hl => .object hnames fun _ hf => hproper l hl _ (List.mem_map_of_mem hf)⟩

/-- A finite number is written in a document as it is written anywhere else. -/
theorem render_number {x : Binary64} (h : x.isFinite = true) :
    (number (.float x)).render = (Number.float x).text := by
  cases x with
  | nan => exact absurd h (by simp [Binary64.isFinite])
  | number negative rank bounded =>
    have hrank : rank ≠ Binary64.top := Nat.ne_of_lt (of_decide_eq_true h)
    rw [render, write, writeNumber, if_neg hrank, Number.text, Binary64.text, if_neg hrank]

end Json

/-! ## Records that can be read -/

namespace Record

/-- No more groups are nested in the trees of a record than weights can be doubled. -/
def IsShallow (r : Record) : Prop :=
  ∀ reqs, r.requirements = some reqs → ∀ s t, reqs.tree s = some t → t.groupNesting ≤ 1023

variable {r : Record}

theorem requirements_of_parsed? {reqs : CourseRequirements} (h : r.parsed? = some reqs) :
    r.requirements = some reqs := by
  unfold parsed? at h
  split at h
  · exact h
  · exact absurd h (by simp)

theorem isShallow_of_ofValue {j : Json} (h : ofValue j = .ok r) : r.IsShallow := by
  intro reqs hreqs s t ht
  obtain ⟨fields, rfl⟩ := exists_fields_of_read h
  obtain ⟨-, -, -, -, -, hread, -⟩ := read_eq_ok_iff.mp h
  rw [hreqs] at hread
  obtain ⟨v, -, -, hv⟩ := Reading.optional_eq_ok_some_iff.mp hread
  obtain ⟨fields', rfl⟩ := CourseRequirements.exists_fields_of_read hv
  obtain ⟨-, -, htree⟩ := CourseRequirements.read_eq_ok_iff.mp hv
  have hs := htree s
  rw [ht] at hs
  obtain ⟨v, -, -, hv⟩ := Reading.optional_eq_ok_some_iff.mp hs
  have hroom := Requirement.groupNesting_le_of_read t 0 v (Nat.zero_le _) hv
  have hlimit : Requirement.groupLimit ≤ 1023 := by decide
  omega

theorem isShallow_of_ofText {text : String} (h : ofText text = .ok r) : r.IsShallow := by
  intro reqs hreqs s t ht
  have hdepth := (nesting_toJson_le_iff (by decide)).mp (nesting_le_of_ofText h) reqs hreqs
  have hfield : Table.find? reqs.fields s.key = some t.toJson := by
    rw [CourseRequirements.find?_fields_key, ht, Option.map_some]
  have htree : t.toJson.nesting < reqs.toJson.nesting := Json.nesting_lt_of_find? hfield
  have hgroups := t.groupNesting_le_nesting_toJson
  omega

end Record

namespace Graph

/-! ## One file -/

variable {α : Type}

/-- Rows with a header are read back from their file. -/
theorem decode?_table (release : Csv.Release) {columns : List String} {row : α → List String}
    (hcolumns : columns ≠ []) (hrow : ∀ a, row a ≠ []) (entries : List α) :
    Csv.decode? (Csv.render release (columns :: entries.map row))
      = some (columns :: entries.map row) := by
  refine Csv.decode?_render release (List.forall_mem_cons.mpr ⟨hcolumns, fun r hr => ?_⟩)
  obtain ⟨a, -, rfl⟩ := List.mem_map.mp hr
  exact hrow a

/-- Documents one after the other are read back from their file. -/
theorem readsAs_array {toJson : α → Json} (h : ∀ a, (toJson a).Readable) (entries : List α) :
    Json.ReadsAs (Json.array (entries.map toJson)).render (.array (entries.map toJson)) := by
  refine (Json.readable_array fun j hj => ?_).readsAs
  obtain ⟨a, -, rfl⟩ := List.mem_map.mp hj
  exact h a

theorem readable_node (n : Node) : n.toJson.Readable := by
  refine Json.readable_object (by simp [Table.keys]) fun j hj => ?_
  simp only [List.map_cons, List.map_nil, List.mem_cons, List.not_mem_nil, or_false] at hj
  obtain rfl | rfl | rfl | rfl := hj
  · exact Json.readable_text n.id
  · exact Json.readable_text n.department
  · exact Json.readable_number (.int n.size)
  · exact Json.readable_number (.int n.depth)

theorem readable_edge (e : Edge) : e.toJson.Readable := by
  refine Json.readable_object (by simp [Table.keys]) fun j hj => ?_
  simp only [List.map_cons, List.map_nil, List.mem_cons, List.not_mem_nil, or_false] at hj
  obtain rfl | rfl | rfl := hj
  · exact Json.readable_text e.source
  · exact Json.readable_text e.target
  · exact Json.readable_number e.shownValue

/-! ## The values of edges -/

variable {records : List Record} {ceiling : Int}

/-- The weight of an edge comes from a tree of one of the records. -/
theorem Occurrence.exists_tree {source target : String} {w : Binary64}
    (h : Occurrence records source target w) :
    ∃ r ∈ records, ∃ reqs s t, r.parsed? = some reqs ∧ reqs.tree s = some t ∧
      ∃ course, (course, w) ∈ t.dependencies := by
  cases h with
  | prerequisite r reqs t hr hparsed _ ht hnamed =>
    exact ⟨r, hr, reqs, .prerequisites, t, hparsed, ht, source, hnamed⟩
  | corequisite r reqs t hr hparsed _ ht hnamed =>
    exact ⟨r, hr, reqs, .corequisites, t, hparsed, ht, source, hnamed⟩
  | converse r reqs t hr hparsed _ ht hnamed =>
    exact ⟨r, hr, reqs, .corequisites, t, hparsed, ht, target, hnamed⟩

/-- The values of edges are finite, and written with the same characters in both formats. -/
theorem render_shownValue (h : ∀ r ∈ records, r.IsShallow) {e : Edge}
    (he : e ∈ (ofRecords records ceiling).edges) :
    (Json.number e.shownValue).render = e.shownValue.text := by
  obtain ⟨w, hw, hoccurrence⟩ := exists_occurrence_of_mem_edges he
  obtain ⟨r, hr, reqs, s, t, hparsed, ht, course, hnamed⟩ := hoccurrence.exists_tree
  have hshallow := h r hr reqs (Record.requirements_of_parsed? hparsed) s t ht
  have hpower := (Requirement.dependencies_atMostPower hnamed).roundTo valuePlaces
  have hshown : e.shownValue = .float (w.roundTo valuePlaces) := by
    rw [Edge.shownValue, hw, Number.roundTo]
  rw [hshown, Json.render_number (hpower.isFinite hshallow)]

/-- **The files of a graph agree.** From the rows and from the documents that are written for the
graph of some records the same nodes and edges are read back in the order of the graph, whichever
release of the writer of rows is installed, and the value of an edge is written with the same
characters in both; for this the trees of the records must not be nested too deep, and those of
records that were read never are. -/
theorem files_agree (records : List Record) (ceiling : Int) (release : Csv.Release) :
    (∃ nodes links, (ofRecords records ceiling).files .csv release
        = [("nodes.csv", nodes), ("links.csv", links)] ∧
      Csv.decode? nodes = some (["id", "department", "size", "depth"]
        :: (ofRecords records ceiling).nodes.map fun n =>
          [n.id, n.department, toString n.size, toString n.depth]) ∧
      Csv.decode? links = some (["source", "target", "value"]
        :: (ofRecords records ceiling).edges.map fun e =>
          [e.source, e.target, e.shownValue.text])) ∧
    (∃ nodes links, (ofRecords records ceiling).files .json release
        = [("nodes.json", nodes), ("links.json", links)] ∧
      Json.ReadsAs nodes (.array ((ofRecords records ceiling).nodes.map fun n =>
        .object [("id", .text n.id), ("department", .text n.department), ("size", .int n.size),
          ("depth", .int n.depth)])) ∧
      Json.ReadsAs links (.array ((ofRecords records ceiling).edges.map fun e =>
        .object [("source", .text e.source), ("target", .text e.target),
          ("value", .number e.shownValue)]))) ∧
    ((∀ r ∈ records, r.IsShallow) → ∀ e ∈ (ofRecords records ceiling).edges,
      (Json.number e.shownValue).render = e.shownValue.text) ∧
    ∀ r, ((∃ j, Record.ofValue j = .ok r) ∨ ∃ text, Record.ofText text = .ok r) → r.IsShallow := by
  refine ⟨⟨_, _, rfl, ?_, ?_⟩, ⟨_, _, rfl, ?_, ?_⟩, fun h e he => render_shownValue h he, ?_⟩
  · exact decode?_table release (by decide) (fun _ => List.cons_ne_nil _ _) _
  · exact decode?_table release (by decide) (fun _ => List.cons_ne_nil _ _) _
  · exact readsAs_array readable_node _
  · exact readsAs_array readable_edge _
  · intro r hread
    obtain ⟨j, hj⟩ | ⟨text, htext⟩ := hread
    · exact Record.isShallow_of_ofValue hj
    · exact Record.isShallow_of_ofText htext

/-- A course without a name, in a department with a comma, that asks for one of a program and a
course with quotation marks and a line feed. It goes along with a course with a carriage return. -/
def awkwardRecords : List Record :=
  [parsedRecord ("",
    { department := "A, B"
      code := ""
      prerequisites := some (.group .oneOf (.course ⟨"\"C\"\n1", by decide⟩ none none none)
        [.program ⟨"Honours", (by decide : ¬ "Honours" = "")⟩])
      corequisites := some (.course ⟨"C\r2", by decide⟩ none none none)
      recommendedPrerequisites := none
      recommendedCorequisites := none })]

/-- What is awkward in rows comes through in both releases, though their files differ. -/
theorem awkwardRecords_files_agree :
    (∀ r ∈ awkwardRecords, r.IsShallow) ∧
      (∀ release, ∃ nodes links, (ofRecords awkwardRecords 10).files .csv release
          = [("nodes.csv", nodes), ("links.csv", links)] ∧
        Csv.decode? nodes = some [["id", "department", "size", "depth"],
          ["", "A, B", "2", "1"], ["\"C\"\n1", "\"C\"", "0", "0"], ["C\r2", "C", "1", "0"]] ∧
        Csv.decode? links = some [["source", "target", "value"],
          ["\"C\"\n1", "", "0.5"], ["C\r2", "", "1.0"], ["", "C\r2", "1.0"]]) ∧
      (ofRecords awkwardRecords 10).files .csv .earlier
        ≠ (ofRecords awkwardRecords 10).files .csv .later ∧
      ∀ e ∈ (ofRecords awkwardRecords 10).edges,
        (Json.number e.shownValue).render = e.shownValue.text := by
  have hshallow : ∀ r ∈ awkwardRecords, r.IsShallow := by
    intro r hr reqs hreqs s t ht
    obtain rfl := List.mem_singleton.mp hr
    obtain rfl := Option.some.inj hreqs
    cases s with
    | prerequisites =>
      obtain rfl := Option.some.inj ht
      decide
    | corequisites =>
      obtain rfl := Option.some.inj ht
      decide
    | _ => exact absurd ht (by simp [CourseRequirements.tree])
  have hnodes : ((ofRecords awkwardRecords 10).nodes.map fun n =>
      [n.id, n.department, toString n.size, toString n.depth])
        = [["", "A, B", "2", "1"], ["\"C\"\n1", "\"C\"", "0", "0"], ["C\r2", "C", "1", "0"]] := by
    decide +kernel
  have hedges : ((ofRecords awkwardRecords 10).edges.map fun e =>
      [e.source, e.target, e.shownValue.text])
        = [["\"C\"\n1", "", "0.5"], ["C\r2", "", "1.0"], ["", "C\r2", "1.0"]] := by
    decide +kernel
  have hrows := fun release => (files_agree awkwardRecords 10 release).1
  obtain ⟨-, -, hvalues, -⟩ := files_agree awkwardRecords 10 .later
  rw [hnodes, hedges] at hrows
  exact ⟨hshallow, hrows, by decide +kernel, hvalues hshallow⟩

end Graph

end Curriculum
