import Curriculum.Proofs.Graph.Permutation

/-!
# Depths are lengths of paths

Depths come from passes over a table, edges from going through the trees once more; neither knows of
the other. Once the depths are settled they agree all the same. A course above 0 is exactly one
deeper than some course that a record of it names (`Resolution.exists_named_of_converged`), in the
settled table and not in one that it went through, and what a record names is the source of an edge
to its course. So from every node a path leads down, one level a step:

> `depths_are_path_lengths`: in a graph with settled depths every node above 0 has an edge from a
> node one less deep, so a path of as many edges as it is deep leads to it from a node of depth 0;
> and the nodes of depth 0 are those for which no record asks for a course.
-/

namespace Curriculum

namespace Resolution

variable {courses : List ParsedCourse} {ceiling : Int}

/-- In settled depths a course above 0 is one deeper than a course that a record of it names: the
entry is asked for by a record and no record asks for more. -/
theorem exists_named_of_converged (h : (ofCourses courses ceiling).converged = true) {id : String}
    (hpos : 0 < (ofCourses courses ceiling).depths.depthOf id) :
    ∃ c ∈ courses, c.1 = id ∧ ∃ other ∈ c.2.namedCourses,
      (ofCourses courses ceiling).depths.depthOf id
        = (ofCourses courses ceiling).depths.depthOf other + 1 := by
  have hn := ofCourses_nonneg courses ceiling
  obtain ⟨r, hr, hle⟩ := ofCourses_supported courses ceiling id hpos
  have hasked : r.depth (ofCourses courses ceiling).depths
      ≤ (ofCourses courses ceiling).depths.depthOf id := covers_of_converged h (id, r) hr
  obtain ⟨other, hother, hdepth⟩ := r.exists_named_of_depth_pos hn (Int.lt_of_lt_of_le hpos hle)
  refine ⟨(id, r), hr, rfl, other, hother, ?_⟩
  rw [← hdepth]
  exact Int.le_antisymm hle hasked

/-- In settled depths a course stands at 0 exactly when no record of it names a course. -/
theorem depthOf_eq_zero_iff (h : (ofCourses courses ceiling).converged = true) {id : String} :
    (ofCourses courses ceiling).depths.depthOf id = 0 ↔
      ∀ c ∈ courses, c.1 = id → c.2.namedCourses = [] := by
  have hn := ofCourses_nonneg courses ceiling
  constructor
  · intro hzero c hc hid
    refine List.eq_nil_iff_forall_not_mem.mpr fun other hother => ?_
    have hpos := (c.2.depth_pos_iff hn).mpr ⟨other, hother⟩
    have hasked := covers_of_converged h c hc
    rw [hid, hzero] at hasked
    exact Int.not_lt.mpr hasked hpos
  · intro hnone
    by_cases hpos : 0 < (ofCourses courses ceiling).depths.depthOf id
    · obtain ⟨c, hc, hid, other, hother, -⟩ := exists_named_of_converged h hpos
      rw [hnone c hc hid] at hother
      exact absurd hother List.not_mem_nil
    · exact Int.le_antisymm (Int.not_lt.mp hpos) (hn id)

end Resolution

namespace Graph

/-- A path of a given length along edges from one course to another. -/
inductive Path (edges : List Edge) (source : String) : Nat → String → Prop
  | nil : Path edges source 0 source
  | snoc {length : Nat} {e : Edge} (before : Path edges source length e.source) (last : e ∈ edges) :
      Path edges source (length + 1) e.target

variable {records : List Record} {ceiling : Int}

theorem converged_of_map (h : (ofRecords records ceiling).resolution.map Resolution.converged
    = some true) : (Resolution.ofCourses (parsedCourses records) ceiling).converged = true :=
  Option.some.inj h

theorem node_depth_eq {n : Node} (hn : n ∈ (ofRecords records ceiling).nodes) :
    n.depth = (Resolution.ofCourses (parsedCourses records) ceiling).depths.depthOf n.id :=
  (mem_nodes_iff.mp hn).2.2.2

/-- The source of an edge is a node. -/
theorem exists_source_node {e : Edge} (he : e ∈ (ofRecords records ceiling).edges) :
    ∃ m ∈ (ofRecords records ceiling).nodes, m.id = e.source :=
  List.mem_map.mp (mem_ids_iff.mpr (isLinked_iff.mpr ⟨e, he, Or.inl rfl⟩))

/-- A node above 0 has an edge from a node one less deep. -/
theorem exists_edge_from_below (h : (ofRecords records ceiling).resolution.map Resolution.converged
    = some true) {n : Node} (hn : n ∈ (ofRecords records ceiling).nodes) (hpos : 0 < n.depth) :
    ∃ m ∈ (ofRecords records ceiling).nodes, m.depth = n.depth - 1 ∧
      ∃ e ∈ (ofRecords records ceiling).edges, e.source = m.id ∧ e.target = n.id := by
  have hdepth := node_depth_eq hn
  rw [hdepth] at hpos
  obtain ⟨c, hc, hid, other, hother, hstep⟩ :=
    Resolution.exists_named_of_converged (converged_of_map h) hpos
  -- what the record names is the source of an edge, whatever weight was kept for it
  obtain ⟨w, hocc⟩ := exists_occurrence_of_named hc hother
  obtain ⟨v, he, -⟩ := exists_edge_of_occurrence ceiling hocc
  obtain ⟨m, hm, hmid⟩ := exists_source_node he
  have hmid : m.id = other := hmid
  refine ⟨m, hm, ?_, _, he, hmid.symm, hid⟩
  rw [node_depth_eq hm, hdepth, hmid, hstep, Int.add_sub_cancel]

/-- A path of as many edges as a node is deep leads to it from a node of depth 0. -/
theorem exists_path
    (h : (ofRecords records ceiling).resolution.map Resolution.converged = some true) (d : Nat)
    {n : Node} (hn : n ∈ (ofRecords records ceiling).nodes) (hd : n.depth = d) :
    ∃ m ∈ (ofRecords records ceiling).nodes, m.depth = 0 ∧
      Path (ofRecords records ceiling).edges m.id d n.id := by
  induction d generalizing n with
  | zero => exact ⟨n, hn, hd, .nil⟩
  | succ d ih =>
    have hpos : 0 < n.depth := by omega
    obtain ⟨m, hm, hdepth, e, he, hsource, htarget⟩ := exists_edge_from_below h hn hpos
    have hmd : m.depth = d := by omega
    obtain ⟨start, hstart, hzero, hpath⟩ := ih hm hmd
    rw [← hsource] at hpath
    rw [← htarget]
    exact ⟨start, hstart, hzero, .snoc hpath he⟩

/-- The courses that the binding trees name, tree by tree. -/
theorem namedCourses_eq_nil_iff {reqs : CourseRequirements} : reqs.namedCourses = [] ↔
    ∀ t, reqs.prerequisites = some t ∨ reqs.corequisites = some t → t.namedCourses = [] := by
  rw [CourseRequirements.namedCourses, List.flatMap_eq_nil_iff]
  simp only [mem_bindingTrees]

/-- **Depths are lengths of paths.** If the depths are settled, every node above 0 has an edge from
a node one less deep; so a path of as many edges as a node is deep leads to it from a node of depth
0. The depth of a node is 0 exactly when no parsed record of its course has a course in its
prerequisites or corequisites. -/
theorem depths_are_path_lengths
    (h : (ofRecords records ceiling).resolution.map Resolution.converged = some true) :
    (∀ n ∈ (ofRecords records ceiling).nodes, 0 < n.depth →
      ∃ m ∈ (ofRecords records ceiling).nodes, m.depth = n.depth - 1 ∧
        ∃ e ∈ (ofRecords records ceiling).edges, e.source = m.id ∧ e.target = n.id) ∧
    (∀ n ∈ (ofRecords records ceiling).nodes,
      ∃ m ∈ (ofRecords records ceiling).nodes, m.depth = 0 ∧
        ∃ d : Nat, n.depth = d ∧ Path (ofRecords records ceiling).edges m.id d n.id) ∧
    ∀ n ∈ (ofRecords records ceiling).nodes, n.depth = 0 ↔
      ∀ r ∈ records, ∀ reqs, r.parsed? = some reqs → r.course = n.id →
        ∀ t, reqs.prerequisites = some t ∨ reqs.corequisites = some t → t.namedCourses = [] := by
  refine ⟨fun n hn hpos => exists_edge_from_below h hn hpos, fun n hn => ?_, fun n hn => ?_⟩
  · have hnonneg : 0 ≤ n.depth := by
      rw [node_depth_eq hn]
      exact Resolution.ofCourses_nonneg _ _ _
    obtain ⟨d, hd⟩ : ∃ d : Nat, n.depth = d := ⟨_, (Int.toNat_of_nonneg hnonneg).symm⟩
    obtain ⟨m, hm, hzero, hpath⟩ := exists_path h d hn hd
    exact ⟨m, hm, hzero, d, hd, hpath⟩
  · rw [node_depth_eq hn, Resolution.depthOf_eq_zero_iff (converged_of_map h)]
    constructor
    · intro hnone r hr reqs hreqs hid
      exact namedCourses_eq_nil_iff.mp (hnone (r.course, reqs)
        (mem_parsedCourses.mpr ⟨r, hr, rfl, hreqs⟩) hid)
    · intro hnone c hc hid
      obtain ⟨r, hr, hcourse, hreqs⟩ := mem_parsedCourses.mp hc
      exact namedCourses_eq_nil_iff.mpr (hnone r hr c.2 hreqs (hcourse.trans hid))

/-- One of two courses that ask for each other is two levels above the other's way out. -/
theorem loopRecords_depths_are_path_lengths :
    (ofRecords loopRecords 5).resolution.map Resolution.converged = some true ∧
      ∃ m ∈ (ofRecords loopRecords 5).nodes, m.depth = 0 ∧
        Path (ofRecords loopRecords 5).edges m.id 2 "PHYS 2" := by
  have hlinked : isLinked (ofRecords loopRecords 5).edges "PHYS 2" = true := by
    have hmem : ("PHYS 1", askingFor (.group .oneOf (plainCourse "PHYS 2" (by decide))
        [plainCourse "MATH 4" (by decide)])) ∈ parsedCourses loopRecords :=
      mem_parsedCourses.mpr ⟨_, List.mem_map_of_mem (by simp [loopCatalog]), rfl, rfl⟩
    exact isLinked_of_named hmem List.mem_cons_self
  have htwo : (Resolution.ofCourses (parsedCourses loopRecords) 5).depths.depthOf "PHYS 2" = 2 := by
    show (Resolution.ofCourses (loopCatalog [plainCourse "MATH 4" (by decide)]) 5).depths.depthOf
      "PHYS 2" = 2
    decide_cbv
  obtain ⟨n, hn, hid⟩ := List.mem_map.mp (mem_ids_iff.mpr hlinked)
  obtain ⟨m, hm, hzero, d, hd, hpath⟩ := (depths_are_path_lengths loopRecords_converged).2.1 n hn
  rw [node_depth_eq hn, hid, htwo] at hd
  obtain rfl : d = 2 := by omega
  rw [hid] at hpath
  exact ⟨loopRecords_converged, m, hm, hzero, hpath⟩

end Graph

end Curriculum
