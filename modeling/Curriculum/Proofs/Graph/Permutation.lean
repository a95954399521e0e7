import Curriculum.Proofs.Depth.Settling
import Curriculum.Proofs.Graph.Nodes

/-!
# The graph does not depend on the order of the records

Nothing that is computed from the records is computed in an order of its own: edges and nodes are
entered as the records come, and a pass works on a table that the records before have changed. What
comes out can be said without an order all the same. The edges hang on what occurs in the records,
and of equally heavy occurrences it does not matter which is kept (`mem_edges_of_iff`); the nodes
hang on the edges. Whether depths settle hangs on whether some table covers the courses, and settled
depths are the least table that does (`converged_eq_of_mem_iff`, `depthOf_eq_of_mem_iff`).

> `ofRecords_perm`: records in another order give the same edges, the same nodes with the same sizes,
> and, if the depths settle, with the same depths; and the depths settle in both orders or in neither.

What does hang on the order is how many passes are made, and the department of a node.
-/

namespace Curriculum

/-! ## Depths -/

section Depths

open DepthTable Resolution

variable {courses courses' : List ParsedCourse} {ceiling : Int}

theorem DepthTable.Covers.of_subset {t : DepthTable} (hc : t.Covers courses)
    (h : courses' ⊆ courses) : t.Covers courses' :=
  fun c hmem => hc c (h hmem)

theorem Coverable.of_subset (hc : Coverable courses) (h : courses' ⊆ courses) :
    Coverable courses' := by
  obtain ⟨T, hn, hT⟩ := hc
  exact ⟨T, hn, Covers.of_subset hT h⟩

theorem converged_iff_coverable (hceil : (courseIds courses).card + 1 ≤ ceiling) :
    (ofCourses courses ceiling).converged = true ↔ Coverable courses :=
  ⟨fun hconv => ⟨_, ofCourses_nonneg courses ceiling, covers_of_converged hconv⟩,
    fun hc => converged_of_coverable hc hceil⟩

theorem courseIds_eq_of_mem_iff (h : ∀ c, c ∈ courses ↔ c ∈ courses') :
    courseIds courses = courseIds courses' := by
  ext id
  simp only [mem_courseIds, h]

/-- Whether the depths settle hangs on which courses there are. -/
theorem converged_eq_of_mem_iff (h : ∀ c, c ∈ courses ↔ c ∈ courses')
    (hceil : (courseIds courses).card + 1 ≤ ceiling) :
    (ofCourses courses ceiling).converged = (ofCourses courses' ceiling).converged := by
  have hceil' : (courseIds courses').card + 1 ≤ ceiling := courseIds_eq_of_mem_iff h ▸ hceil
  rw [Bool.eq_iff_iff, converged_iff_coverable hceil, converged_iff_coverable hceil']
  exact ⟨fun hc => hc.of_subset fun c => (h c).mpr, fun hc => hc.of_subset fun c => (h c).mp⟩

/-- So do the depths, if they settle: each of the two tables covers the courses, so neither is above
the other. -/
theorem depthOf_eq_of_mem_iff (h : ∀ c, c ∈ courses ↔ c ∈ courses')
    (hconv : (ofCourses courses ceiling).converged = true)
    (hconv' : (ofCourses courses' ceiling).converged = true) (id : String) :
    (ofCourses courses ceiling).depths.depthOf id
      = (ofCourses courses' ceiling).depths.depthOf id := by
  have hcovers : (ofCourses courses ceiling).depths.Covers courses' :=
    (covers_of_converged hconv).of_subset fun c => (h c).mpr
  have hcovers' : (ofCourses courses' ceiling).depths.Covers courses :=
    (covers_of_converged hconv').of_subset fun c => (h c).mp
  exact Int.le_antisymm
    (ofCourses_below courses ceiling (ofCourses_nonneg courses' ceiling) hcovers' id)
    (ofCourses_below courses' ceiling (ofCourses_nonneg courses ceiling) hcovers id)

end Depths

namespace Graph

variable {records records' : List Record} {ceiling : Int}

/-! ## Edges -/

theorem nodup_edges (records : List Record) (ceiling : Int) :
    (ofRecords records ceiling).edges.Nodup := by
  refine List.Nodup.of_map (fun e : Edge => (e.source, e.target)) ?_
  rw [ofRecords_edges_eq, EdgeMap.map_pair_toEdges]
  exact (holds_offers _).nodup

theorem exists_unsigned_of_mem_edges {e : Edge} (he : e ∈ (ofRecords records ceiling).edges) :
    ∃ w : Binary64, e.value = .float w ∧ w.IsUnsigned :=
  exists_weight_of_mem_offers ((holds_offers _).offered _ _ _ (mem_edges_iff.mp he))

/-- Where the same occurs, the edges are the same: the value of an edge is at most that of the edge
between the same ends on the other side, and the other way round. -/
theorem mem_edges_of_iff {ceiling' : Int}
    (hiff : ∀ source target w, Occurrence records source target w ↔
      Occurrence records' source target w)
    {e : Edge} (he : e ∈ (ofRecords records ceiling).edges) :
    e ∈ (ofRecords records' ceiling').edges := by
  obtain ⟨v, hv, hle⟩ := exists_edge_of_imp ceiling' (fun s t w => (hiff s t w).mp) he
  obtain ⟨u, hu, hle'⟩ := exists_edge_of_imp ceiling (fun s t w => (hiff s t w).mpr) hv
  obtain rfl : u = e.value := value_eq_of_mem_edges hu he
  obtain ⟨w, hw, hunsigned⟩ := exists_unsigned_of_mem_edges he
  obtain ⟨w', rfl, hunsigned'⟩ := exists_unsigned_of_mem_edges hv
  rw [hw] at hle hle'
  have heq : w = w' := hunsigned.eq_of_le_of_le hunsigned'
    (Number.le_of_toBinary64? rfl rfl hle) (Number.le_of_toBinary64? rfl rfl hle')
  have hvalue : e.value = .float w' := by rw [hw, heq]
  rw [← hvalue] at hv
  exact hv

theorem Occurrence.of_subset {source target : String} {w : Binary64}
    (h : Occurrence records source target w) (hsub : records ⊆ records') :
    Occurrence records' source target w := by
  cases h with
  | prerequisite r reqs t hr hreqs hcourse htree hdep =>
    exact .prerequisite r reqs t (hsub hr) hreqs hcourse htree hdep
  | corequisite r reqs t hr hreqs hcourse htree hdep =>
    exact .corequisite r reqs t (hsub hr) hreqs hcourse htree hdep
  | converse r reqs t hr hreqs hcourse htree hdep =>
    exact .converse r reqs t (hsub hr) hreqs hcourse htree hdep

theorem edges_perm (h : records.Perm records') (ceiling : Int) :
    (ofRecords records ceiling).edges.Perm (ofRecords records' ceiling).edges := by
  have hiff : ∀ source target w, Occurrence records source target w ↔
      Occurrence records' source target w :=
    fun _ _ _ => ⟨fun hocc => hocc.of_subset h.subset, fun hocc => hocc.of_subset h.symm.subset⟩
  rw [List.perm_ext_iff_of_nodup (nodup_edges _ _) (nodup_edges _ _)]
  exact fun e => ⟨mem_edges_of_iff hiff, mem_edges_of_iff fun s t w => (hiff s t w).symm⟩

/-! ## Nodes -/

theorem ids_perm (h : records.Perm records') (ceiling : Int) :
    ((ofRecords records ceiling).nodes.map (·.id)).Perm
      ((ofRecords records' ceiling).nodes.map (·.id)) := by
  rw [List.perm_ext_iff_of_nodup (nodup_ids _ _) (nodup_ids _ _)]
  intro id
  simp only [mem_ids_iff, isLinked_iff, (edges_perm h ceiling).mem_iff]

/-- What is a function of the id of a node comes with the ids. -/
theorem map_nodes_perm {α : Type} (h : records.Perm records') (f : Node → α) (key : String → α)
    (hf : ∀ n ∈ (ofRecords records ceiling).nodes, f n = key n.id)
    (hf' : ∀ n ∈ (ofRecords records' ceiling).nodes, f n = key n.id) :
    ((ofRecords records ceiling).nodes.map f).Perm ((ofRecords records' ceiling).nodes.map f) := by
  have hids := (ids_perm h ceiling).map key
  rw [List.map_map, List.map_map] at hids
  rwa [List.map_congr_left hf, List.map_congr_left hf']

theorem inDegree_eq (h : records.Perm records') (ceiling : Int) (id : String) :
    inDegree (ofRecords records ceiling).edges id
      = inDegree (ofRecords records' ceiling).edges id :=
  (edges_perm h ceiling).countP_eq _

/-! ## The main result -/

theorem mem_parsedCourses_iff_of_perm (h : records.Perm records') (c : ParsedCourse) :
    c ∈ parsedCourses records ↔ c ∈ parsedCourses records' :=
  (h.filterMap _).mem_iff

/-- **The graph does not depend on the order of the records.** With more passes than there are
courses, records in another order have their depths settled or not alike; the edges are the same, the
nodes have the same ids and sizes, and settled depths are the same. -/
theorem ofRecords_perm (h : records.Perm records')
    (hceil : (courseIds (parsedCourses records)).card + 1 ≤ ceiling) :
    (ofRecords records ceiling).resolution.map Resolution.converged
        = (ofRecords records' ceiling).resolution.map Resolution.converged ∧
      (ofRecords records ceiling).edges.Perm (ofRecords records' ceiling).edges ∧
      ((ofRecords records ceiling).nodes.map fun n => (n.id, n.size)).Perm
        ((ofRecords records' ceiling).nodes.map fun n => (n.id, n.size)) ∧
      ((ofRecords records ceiling).resolution.map Resolution.converged = some true →
        ((ofRecords records ceiling).nodes.map fun n => (n.id, n.size, n.depth)).Perm
          ((ofRecords records' ceiling).nodes.map fun n => (n.id, n.size, n.depth))) := by
  have hmem := mem_parsedCourses_iff_of_perm h
  have hconv := converged_eq_of_mem_iff hmem hceil
  refine ⟨congrArg some hconv, edges_perm h ceiling, ?_, fun hsettled => ?_⟩
  · refine map_nodes_perm h _
      (fun id => (id, (inDegree (ofRecords records ceiling).edges id : Int))) ?_ ?_
    · intro n hn
      rw [(mem_nodes_iff.mp hn).2.2.1]
    · intro n hn
      rw [(mem_nodes_iff.mp hn).2.2.1, inDegree_eq h]
  · have hsettled : (Resolution.ofCourses (parsedCourses records) ceiling).converged = true :=
      Option.some.inj hsettled
    have hdepth := depthOf_eq_of_mem_iff hmem hsettled (hconv ▸ hsettled)
    refine map_nodes_perm h _ (fun id => (id, (inDegree (ofRecords records ceiling).edges id : Int),
      (Resolution.ofCourses (parsedCourses records) ceiling).depths.depthOf id)) ?_ ?_
    · intro n hn
      rw [(mem_nodes_iff.mp hn).2.2.1, (mem_nodes_iff.mp hn).2.2.2]
    · intro n hn
      rw [(mem_nodes_iff.mp hn).2.2.1, (mem_nodes_iff.mp hn).2.2.2, inDegree_eq h, hdepth]

/-- Two courses that ask for each other, one of which has a way out, and a chain in the order that
takes the most passes. -/
def loopRecords : List Record :=
  (loopCatalog [plainCourse "MATH 4" (by decide)]).map parsedRecord

theorem loopRecords_converged :
    (ofRecords loopRecords 5).resolution.map Resolution.converged = some true := by
  have hsettled : (Resolution.ofCourses (loopCatalog [plainCourse "MATH 4" (by decide)]) 5
      ).converged = true := by cbv
  exact congrArg some hsettled

theorem loopRecords_perm_reverse :
    loopRecords.Perm loopRecords.reverse ∧ (courseIds (parsedCourses loopRecords)).card = 4 ∧
      (ofRecords loopRecords 5).resolution.map Resolution.converged = some true ∧
      ((ofRecords loopRecords 5).nodes.map fun n => (n.id, n.size, n.depth)).Perm
        ((ofRecords loopRecords.reverse 5).nodes.map fun n => (n.id, n.size, n.depth)) := by
  have hperm : loopRecords.Perm loopRecords.reverse := (List.reverse_perm _).symm
  have hcard : (courseIds (parsedCourses loopRecords)).card = 4 := rfl
  exact ⟨hperm, hcard, loopRecords_converged,
    (ofRecords_perm hperm (by rw [hcard]; decide)).2.2.2 loopRecords_converged⟩

end Graph

end Curriculum
