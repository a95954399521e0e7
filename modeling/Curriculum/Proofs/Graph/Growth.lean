import Curriculum.Proofs.Graph.Permutation

/-!
# More records make more of the graph

Records that are added take nothing away. What occurred before still occurs, so every edge is still
there, at least as heavy; and an edge for each of the old edges means that no node loses one.

For the depths two runs have to be compared, pass by pass and visit by visit. A course that both
runs visit is raised at least as high where the table is higher (`Pass.visit_below_visit`), and one
that only the larger run visits can only raise its table. So after the same number of passes the
table of the smaller run is below that of the larger one (`rounds_below_of_sublist`). That either
run stops early, when a pass raises nothing, makes no difference: the passes it saves would have
changed nothing (`Resolution.ofCourses_depths`).

> `ofRecords_mono`: with the same ceiling, settled or not, the graph of more records has all edges
> and nodes of the graph of fewer, and none of their values, sizes and depths is smaller.
-/

namespace Curriculum

open DepthTable

/-! ## Depths -/

namespace Pass

/-- A visit of the same course in a lower table leads to a lower table. -/
theorem visit_below_visit {p p' : Pass} (hn : p.depths.Nonneg) (hb : p.depths.Below p'.depths)
    (c : ParsedCourse) : (p.visit c).depths.Below (p'.visit c).depths := by
  intro id
  rw [depthOf_visit, depthOf_visit]
  by_cases hid : c.1 = id
  · rw [if_pos hid, if_pos hid]
    have hentry := hb id
    have hasked := c.2.depth_mono hn hb
    omega
  · rw [if_neg hid, if_neg hid]
    exact hb id

/-- Fewer visits from a lower table lead to a lower table. -/
theorem foldl_visit_below_of_sublist {cs cs' : List ParsedCourse} (h : cs.Sublist cs') {p p' : Pass}
    (hn : p.depths.Nonneg) (hb : p.depths.Below p'.depths) :
    (cs.foldl visit p).depths.Below (cs'.foldl visit p').depths := by
  induction h generalizing p p' with
  | slnil => exact hb
  | cons c _ ih =>
    -- only the second run visits the course
    exact ih hn (hb.trans (below_visit p' c))
  | cons_cons c _ ih => exact ih (hn.of_below (below_visit p c)) (visit_below_visit hn hb c)

theorem run_below_of_sublist {courses courses' : List ParsedCourse} (h : courses.Sublist courses')
    {t t' : DepthTable} (hn : t.Nonneg) (hb : t.Below t') :
    (run courses t).depths.Below (run courses' t').depths := by
  show (courses.foldl visit ⟨t, []⟩).depths.Below (courses'.foldl visit ⟨t', []⟩).depths
  exact foldl_visit_below_of_sublist h hn hb

end Pass

section Depths

variable {courses courses' : List ParsedCourse}

/-- Passes over fewer courses from a lower table lead to a lower table. -/
theorem rounds_below_of_sublist (h : courses.Sublist courses') {t t' : DepthTable} (hn : t.Nonneg)
    (hb : t.Below t') (k : Nat) : (rounds courses k t).Below (rounds courses' k t') := by
  induction k with
  | zero => exact hb
  | succ k ih =>
    rw [rounds_succ', rounds_succ']
    exact Pass.run_below_of_sublist h (rounds_nonneg courses hn k) ih

/-- With the same ceiling, no course stands lower when there are more courses. -/
theorem Resolution.ofCourses_below_of_sublist (h : courses.Sublist courses') (ceiling : Int) :
    (ofCourses courses ceiling).depths.Below (ofCourses courses' ceiling).depths := by
  rw [ofCourses_depths, ofCourses_depths]
  have h0 := start_nil_allZero courses
  have hstart : (start courses []).Below (start courses' []) := by
    intro id
    rw [h0 id, start_nil_allZero courses' id]
  exact rounds_below_of_sublist h h0.nonneg hstart _

end Depths

namespace Graph

variable {records records' : List Record} {ceiling : Int}

/-! ## Edges -/

theorem parsedCourses_sublist (h : records.Sublist records') :
    (parsedCourses records).Sublist (parsedCourses records') :=
  h.filterMap _

/-- Every edge is still there when there are more records, with a value at least as large. -/
theorem exists_edge_of_sublist (h : records.Sublist records') {e : Edge}
    (he : e ∈ (ofRecords records ceiling).edges) :
    ∃ e' ∈ (ofRecords records' ceiling).edges, e'.source = e.source ∧ e'.target = e.target ∧
      e.value.le e'.value = true := by
  obtain ⟨v, hv, hle⟩ := exists_edge_of_imp ceiling (fun _ _ _ hocc => hocc.of_subset h.subset) he
  exact ⟨_, hv, rfl, rfl, hle⟩

/-- Of edges no two of which have the same ends, no more lead to a course than of edges that have
the same ends and perhaps others. -/
theorem inDegree_le {edges edges' : List Edge}
    (hnodup : (edges.map fun e => (e.source, e.target)).Nodup)
    (hends : ∀ e ∈ edges, ∃ e' ∈ edges', e'.source = e.source ∧ e'.target = e.target)
    (id : String) : inDegree edges id ≤ inDegree edges' id := by
  let ends : Edge → String × String := fun e => (e.source, e.target)
  let into : Edge → Bool := fun e => e.target = id
  have hsub : (edges.filter into).map ends ⊆ (edges'.filter into).map ends := by
    intro pair hpair
    obtain ⟨e, he, rfl⟩ := List.mem_map.mp hpair
    obtain ⟨he, hinto⟩ := List.mem_filter.mp he
    obtain ⟨e', he', hsource, htarget⟩ := hends e he
    refine List.mem_map.mpr ⟨e', List.mem_filter.mpr ⟨he', ?_⟩, Prod.ext hsource htarget⟩
    simpa only [into, htarget] using hinto
  have hdistinct : ((edges.filter into).map ends).Nodup :=
    hnodup.sublist (List.filter_sublist.map ends)
  have hle := (List.subperm_of_subset hdistinct hsub).length_le
  rw [List.length_map, List.length_map] at hle
  show edges.countP into ≤ edges'.countP into
  rw [List.countP_eq_length_filter, List.countP_eq_length_filter]
  exact hle

/-! ## Nodes -/

/-- Every node is still there when there are more records. -/
theorem exists_node_of_sublist (h : records.Sublist records') {n : Node}
    (hn : n ∈ (ofRecords records ceiling).nodes) :
    ∃ n' ∈ (ofRecords records' ceiling).nodes, n'.id = n.id := by
  obtain ⟨e, he, hend⟩ := isLinked_iff.mp (mem_nodes_iff.mp hn).1
  obtain ⟨e', he', hsource, htarget, -⟩ := exists_edge_of_sublist h he
  rw [← hsource, ← htarget] at hend
  exact List.mem_map.mp (mem_ids_iff.mpr (isLinked_iff.mpr ⟨e', he', hend⟩))

theorem size_le_of_sublist (h : records.Sublist records') (id : String) :
    inDegree (ofRecords records ceiling).edges id
      ≤ inDegree (ofRecords records' ceiling).edges id := by
  refine inDegree_le ?_ (fun e he => ?_) id
  · rw [ofRecords_edges_eq, EdgeMap.map_pair_toEdges]
    exact (holds_offers _).nodup
  · obtain ⟨e', he', hsource, htarget, -⟩ := exists_edge_of_sublist h he
    exact ⟨e', he', hsource, htarget⟩

/-- **More records make more of the graph.** With the same ceiling on passes, whether or not the
depths settle, every edge of the graph of some records is an edge of the graph of more records, with
a value at least as large, and every node is a node of it, with a size and a depth at least as
large. -/
theorem ofRecords_mono (h : records.Sublist records') (ceiling : Int) :
    (∀ e ∈ (ofRecords records ceiling).edges,
      ∃ e' ∈ (ofRecords records' ceiling).edges, e'.source = e.source ∧ e'.target = e.target ∧
        e.value.le e'.value = true) ∧
    ∀ n ∈ (ofRecords records ceiling).nodes,
      ∃ n' ∈ (ofRecords records' ceiling).nodes, n'.id = n.id ∧ n.size ≤ n'.size ∧
        n.depth ≤ n'.depth := by
  refine ⟨fun e he => exists_edge_of_sublist h he, fun n hn => ?_⟩
  obtain ⟨n', hn', hid⟩ := exists_node_of_sublist h hn
  obtain ⟨-, -, hsize, hdepth⟩ := mem_nodes_iff.mp hn
  obtain ⟨-, -, hsize', hdepth'⟩ := mem_nodes_iff.mp hn'
  refine ⟨n', hn', hid, ?_, ?_⟩
  · rw [hsize, hsize', hid]
    exact Int.ofNat_le.mpr (size_le_of_sublist h n.id)
  · rw [hdepth, hdepth', hid]
    exact Resolution.ofCourses_below_of_sublist (parsedCourses_sublist h) ceiling n.id

/-- A chain, and two courses that ask for each other without a way out. -/
def openLoop : List Record := (loopCatalog []).map parsedRecord

/-- Without the last record the depths settle, with it they do not; what was in the graph stays. -/
theorem openLoop_mono :
    openLoop.dropLast.Sublist openLoop ∧
      (Resolution.ofCourses (parsedCourses openLoop.dropLast) 4).converged = true ∧
      (Resolution.ofCourses (parsedCourses openLoop) 4).converged = false ∧
      ∃ n ∈ (ofRecords openLoop.dropLast 4).nodes, n.id = "PHYS 2" ∧
        ∃ n' ∈ (ofRecords openLoop 4).nodes, n'.id = "PHYS 2" ∧ n.size ≤ n'.size ∧
          n.depth ≤ n'.depth := by
  have hsub : openLoop.dropLast.Sublist openLoop := List.dropLast_sublist _
  have hsettled : (Resolution.ofCourses (loopCatalog []).dropLast 4).converged = true := by cbv
  have hunsettled : (Resolution.ofCourses (loopCatalog []) 4).converged = false := by cbv
  have hlinked : isLinked (ofRecords openLoop.dropLast 4).edges "PHYS 2" = true := by
    let c : ParsedCourse :=
      ("PHYS 1", askingFor (.group .oneOf (plainCourse "PHYS 2" (by decide)) []))
    have hmem : c ∈ parsedCourses openLoop.dropLast :=
      mem_parsedCourses.mpr ⟨parsedRecord c, by simp [c, openLoop, loopCatalog], rfl, rfl⟩
    exact isLinked_of_named hmem List.mem_cons_self
  obtain ⟨n, hn, hid⟩ := List.mem_map.mp (mem_ids_iff.mpr hlinked)
  obtain ⟨n', hn', hid', hsize, hdepth⟩ := (ofRecords_mono hsub 4).2 n hn
  exact ⟨hsub, hsettled, hunsettled, n, hn, hid, n', hn', hid'.trans hid, hsize, hdepth⟩

end Graph

end Curriculum
