import Curriculum.Proofs.Depth.Course
import Curriculum.Proofs.Graph.Edges

/-!
# The nodes of the graph of some records

Assembling a graph names courses one after the other: each course of a record, and after it the
courses that its binding trees name, each with the department that goes with being named there. That
is one list (`Graph.mentions`), of which the first mention of a course counts (`draft_departments`).

The courses that become nodes are the ends of edges (`mem_ids_iff`): of the two ends of an edge, a
record is that of the one and names the other. So a node is known by its id: the department is the
one of the first mention, the size and the depth are read off the edges and the depths
(`mem_nodes_iff`), and no two nodes have the same id (`nodup_ids`).
-/

namespace Curriculum

namespace Table

variable {κ : Type} {α : Type} [DecidableEq κ]

/-- Enter some values one after the other, each only if its key is new by then. -/
def insertAllNew (t : Table κ α) (entries : List (κ × α)) : Table κ α :=
  entries.foldl (fun t e => t.insertIfNew e.1 e.2) t

theorem insertAllNew_append (t : Table κ α) (xs ys : List (κ × α)) :
    t.insertAllNew (xs ++ ys) = (t.insertAllNew xs).insertAllNew ys :=
  List.foldl_append ..

/-- What was entered first counts. -/
theorem find?_insertAllNew (t : Table κ α) (entries : List (κ × α)) (k : κ) :
    (t.insertAllNew entries).find? k = (t.find? k).or (find? entries k) := by
  induction entries generalizing t with
  | nil => exact (Option.or_none).symm
  | cons e rest ih =>
    show ((t.insertIfNew e.1 e.2).insertAllNew rest).find? k = _
    rw [ih, find?_insertIfNew, Option.or_assoc, find?_cons]
    split <;> rfl

theorem nodup_keys_insertAllNew {t : Table κ α} (h : t.keys.Nodup) (entries : List (κ × α)) :
    (t.insertAllNew entries).keys.Nodup := by
  induction entries generalizing t with
  | nil => exact h
  | cons e rest ih => exact ih (nodup_keys_insertIfNew h e.1 e.2)

end Table

namespace Graph

/-! ## All mentions as one list -/

/-- The courses that a course names, with departments and in order: itself, then those of its
binding trees. -/
def mentionsOf (c : ParsedCourse) : List (String × String) :=
  (c.1, c.2.department) :: c.2.namedCourses.map fun id => (id, departmentOf id)

/-- The courses that some courses name, with departments and in order. -/
def mentions (courses : List ParsedCourse) : List (String × String) :=
  courses.flatMap mentionsOf

theorem map_fst_dependenciesOf (tree : Option Requirement) :
    (Draft.dependenciesOf tree).map (·.1) = (tree.map Requirement.namedCourses).getD [] := by
  cases tree with
  | none => rfl
  | some t => exact t.map_fst_dependencies

/-- The courses that are named are those that edges come from. -/
theorem namedCourses_eq (r : CourseRequirements) :
    r.namedCourses = (Draft.dependenciesOf r.prerequisites).map (·.1)
      ++ (Draft.dependenciesOf r.corequisites).map (·.1) := by
  rw [map_fst_dependenciesOf, map_fst_dependenciesOf, CourseRequirements.namedCourses,
    CourseRequirements.bindingTrees]
  cases hp : r.prerequisites <;> cases hc : r.corequisites <;>
    simp [CourseRequirements.tree, hp, hc]

/-- Adding the courses of a tree, in whichever of the two ways, names them one after the other. -/
theorem foldl_departments {add : Draft → String × Binary64 → Draft}
    (hadd : ∀ d dep, (add d dep).departments
      = d.departments.insertIfNew dep.1 (departmentOf dep.1))
    (deps : List (String × Binary64)) (d : Draft) :
    (deps.foldl add d).departments
      = d.departments.insertAllNew ((deps.map (·.1)).map fun id => (id, departmentOf id)) := by
  induction deps generalizing d with
  | nil => rfl
  | cons dep deps ih =>
    rw [List.foldl_cons, ih, hadd]
    rfl

theorem addCourse_departments (d : Draft) (c : ParsedCourse) :
    (d.addCourse c).departments = d.departments.insertAllNew (mentionsOf c) := by
  unfold Draft.addCourse
  simp only
  rw [foldl_departments (fun _ _ => rfl), foldl_departments (fun _ _ => rfl),
    ← Table.insertAllNew_append, ← List.map_append, ← namedCourses_eq]
  rfl

theorem draft_departments (courses : List ParsedCourse) :
    (draft courses).departments = Table.insertAllNew [] (mentions courses) := by
  have hfold : ∀ (cs : List ParsedCourse) (d : Draft),
      (cs.foldl Draft.addCourse d).departments = d.departments.insertAllNew (mentions cs) := by
    intro cs
    induction cs with
    | nil => intro d; rfl
    | cons c cs ih =>
      intro d
      rw [List.foldl_cons, ih, addCourse_departments, ← Table.insertAllNew_append]
      rfl
  exact hfold courses ⟨[], []⟩

theorem keys_mentionsOf (c : ParsedCourse) :
    Table.keys (mentionsOf c) = c.1 :: c.2.namedCourses := by
  rw [mentionsOf, Table.keys_cons, Table.keys, List.map_map]
  exact congrArg (c.1 :: ·) (List.map_id _)

theorem keys_mentions (courses : List ParsedCourse) :
    Table.keys (mentions courses) = courses.flatMap fun c => c.1 :: c.2.namedCourses := by
  rw [mentions, Table.keys, List.map_flatMap]
  exact List.flatMap_congr fun c _ => keys_mentionsOf c

/-- A course has a department when it is named: by its own record or by another. -/
theorem mem_keys_mentions {courses : List ParsedCourse} {id : String} :
    id ∈ Table.keys (mentions courses) ↔ ∃ c ∈ courses, c.1 = id ∨ id ∈ c.2.namedCourses := by
  simp only [keys_mentions, List.mem_flatMap, List.mem_cons, eq_comm]

/-! ## The ends of edges -/

theorem mem_bindingTrees {r : CourseRequirements} {t : Requirement} :
    t ∈ r.bindingTrees ↔ r.prerequisites = some t ∨ r.corequisites = some t := by
  simp [CourseRequirements.bindingTrees, CourseRequirements.tree]

/-- A tree names the courses that it has weights for. -/
theorem mem_namedCourses_iff_exists_weight {t : Requirement} {id : String} :
    id ∈ t.namedCourses ↔ ∃ w, (id, w) ∈ t.dependencies := by
  rw [← t.map_fst_dependencies, List.mem_map]
  constructor
  · rintro ⟨dep, hdep, rfl⟩
    exact ⟨dep.2, hdep⟩
  · rintro ⟨w, hdep⟩
    exact ⟨_, hdep, rfl⟩

/-- Of the two ends of what occurs, a record is that of the one and names the other. -/
theorem Occurrence.exists_names {records : List Record} {source target : String} {w : Binary64}
    (h : Occurrence records source target w) : ∃ c ∈ parsedCourses records,
      (c.1 = target ∧ source ∈ c.2.namedCourses) ∨ (c.1 = source ∧ target ∈ c.2.namedCourses) := by
  have hnames : ∀ {reqs : CourseRequirements} {t : Requirement} {id : String},
      t ∈ reqs.bindingTrees → (id, w) ∈ t.dependencies → id ∈ reqs.namedCourses :=
    fun ht hdep => CourseRequirements.mem_namedCourses.mpr
      ⟨_, ht, mem_namedCourses_iff_exists_weight.mpr ⟨w, hdep⟩⟩
  cases h with
  | prerequisite r reqs t hr hreqs hcourse htree hdep =>
    exact ⟨(r.course, reqs), mem_parsedCourses.mpr ⟨r, hr, rfl, hreqs⟩,
      Or.inl ⟨hcourse, hnames (mem_bindingTrees.mpr (Or.inl htree)) hdep⟩⟩
  | corequisite r reqs t hr hreqs hcourse htree hdep =>
    exact ⟨(r.course, reqs), mem_parsedCourses.mpr ⟨r, hr, rfl, hreqs⟩,
      Or.inl ⟨hcourse, hnames (mem_bindingTrees.mpr (Or.inr htree)) hdep⟩⟩
  | converse r reqs t hr hreqs hcourse htree hdep =>
    exact ⟨(r.course, reqs), mem_parsedCourses.mpr ⟨r, hr, rfl, hreqs⟩,
      Or.inr ⟨hcourse, hnames (mem_bindingTrees.mpr (Or.inr htree)) hdep⟩⟩

/-- What a record names occurs, with the record's course for its target. -/
theorem exists_occurrence_of_named {records : List Record} {c : ParsedCourse}
    (hc : c ∈ parsedCourses records) {id : String} (hid : id ∈ c.2.namedCourses) :
    ∃ w, Occurrence records id c.1 w := by
  obtain ⟨r, hr, hcourse, hreqs⟩ := mem_parsedCourses.mp hc
  obtain ⟨t, ht, hnamed⟩ := CourseRequirements.mem_namedCourses.mp hid
  obtain ⟨w, hdep⟩ := mem_namedCourses_iff_exists_weight.mp hnamed
  rcases mem_bindingTrees.mp ht with htree | htree
  · exact ⟨w, .prerequisite r c.2 t hr hreqs hcourse htree hdep⟩
  · exact ⟨w, .corequisite r c.2 t hr hreqs hcourse htree hdep⟩

theorem isLinked_iff {edges : List Edge} {id : String} :
    isLinked edges id = true ↔ ∃ e ∈ edges, e.source = id ∨ e.target = id := by
  simp [isLinked]

variable {records : List Record} {ceiling : Int}

theorem isLinked_of_named {c : ParsedCourse} (hc : c ∈ parsedCourses records) {id : String}
    (hid : id ∈ c.2.namedCourses) : isLinked (ofRecords records ceiling).edges id = true := by
  obtain ⟨w, hocc⟩ := exists_occurrence_of_named hc hid
  obtain ⟨v, hv, -⟩ := exists_edge_of_occurrence ceiling hocc
  exact isLinked_iff.mpr ⟨_, hv, Or.inl rfl⟩

/-- The ends of edges are named. -/
theorem mem_keys_mentions_of_isLinked {id : String}
    (h : isLinked (ofRecords records ceiling).edges id = true) :
    id ∈ Table.keys (mentions (parsedCourses records)) := by
  obtain ⟨e, he, hend⟩ := isLinked_iff.mp h
  obtain ⟨w, -, hocc⟩ := exists_occurrence_of_mem_edges he
  obtain ⟨c, hc, hnames⟩ := hocc.exists_names
  refine mem_keys_mentions.mpr ⟨c, hc, ?_⟩
  rcases hnames with ⟨hcourse, hnamed⟩ | ⟨hcourse, hnamed⟩ <;> rcases hend with rfl | rfl
  · exact Or.inr hnamed
  · exact Or.inl hcourse
  · exact Or.inl hcourse
  · exact Or.inr hnamed

/-! ## The nodes -/

theorem ofRecords_nodes_eq (records : List Record) (ceiling : Int) :
    (ofRecords records ceiling).nodes
      = nodesOf (Table.insertAllNew [] (mentions (parsedCourses records)))
          (ofRecords records ceiling).edges
          (Resolution.ofCourses (parsedCourses records) ceiling).depths := by
  show nodesOf (draft (parsedCourses records)).departments _ _ = _
  rw [draft_departments]
  rfl

/-- A node is an end of an edge, with the department of its first mention. -/
theorem mem_nodes_iff {n : Node} : n ∈ (ofRecords records ceiling).nodes ↔
    isLinked (ofRecords records ceiling).edges n.id = true ∧
      Table.find? (mentions (parsedCourses records)) n.id = some n.department ∧
      n.size = inDegree (ofRecords records ceiling).edges n.id ∧
      n.depth = (Resolution.ofCourses (parsedCourses records) ceiling).depths.depthOf n.id := by
  have hfind : ∀ id department,
      (id, department) ∈ Table.insertAllNew [] (mentions (parsedCourses records)) ↔
        Table.find? (mentions (parsedCourses records)) id = some department := by
    intro id department
    rw [← Table.find?_eq_some_iff (Table.nodup_keys_insertAllNew (t := []) List.nodup_nil _),
      Table.find?_insertAllNew, Table.find?_nil, Option.none_or]
  rw [ofRecords_nodes_eq, nodesOf, List.mem_map]
  constructor
  · rintro ⟨⟨id, department⟩, hmem, rfl⟩
    obtain ⟨htable, hlinked⟩ := List.mem_filter.mp hmem
    exact ⟨hlinked, (hfind id department).mp htable, rfl, rfl⟩
  · rintro ⟨hlinked, hdepartment, hsize, hdepth⟩
    refine ⟨(n.id, n.department),
      List.mem_filter.mpr ⟨(hfind _ _).mpr hdepartment, hlinked⟩, ?_⟩
    rw [← hsize, ← hdepth]

/-- The ends of edges are the nodes. -/
theorem mem_ids_iff {id : String} : id ∈ (ofRecords records ceiling).nodes.map (·.id) ↔
    isLinked (ofRecords records ceiling).edges id = true := by
  constructor
  · intro hid
    obtain ⟨n, hn, rfl⟩ := List.mem_map.mp hid
    exact (mem_nodes_iff.mp hn).1
  · intro hlinked
    obtain ⟨department, hdepartment⟩ := Option.isSome_iff_exists.mp
      ((Table.find?_isSome_iff _ _).mpr (mem_keys_mentions_of_isLinked hlinked))
    exact List.mem_map.mpr ⟨⟨id, department, inDegree _ id, DepthTable.depthOf _ id⟩,
      mem_nodes_iff.mpr ⟨hlinked, hdepartment, rfl, rfl⟩, rfl⟩

theorem nodup_ids (records : List Record) (ceiling : Int) :
    ((ofRecords records ceiling).nodes.map (·.id)).Nodup := by
  rw [ofRecords_nodes_eq, nodesOf, List.map_map]
  have hkeys := Table.nodup_keys_insertAllNew (t := []) List.nodup_nil
    (mentions (parsedCourses records))
  exact hkeys.sublist (List.filter_sublist.map _)

/-- A record of which nothing is known but that it was parsed, and with what result. -/
def parsedRecord (c : ParsedCourse) : Record where
  schemaVersion := currentSchema
  course := c.1
  prerequisiteText := none
  corequisiteText := none
  status := .parsed
  requirements := some c.2
  blacklistReason := none
  errorMessage := none
  lastUpdated := ""

end Graph

end Curriculum
