import Curriculum.Proofs.Graph.Nodes
import Curriculum.Proofs.Table
import Mathlib.Algebra.BigOperators.Ring.Finset

/-!
# The order of the nodes, and their sizes

Courses become candidates for nodes when they are first named, before it is known whether an edge
leads there; those without edges are dropped in the end. So the nodes stand in the order in which
the records refer to them (`Graph.references`): repetitions left out (`Table.keys_insertAllNew`),
and then the courses that are no end of an edge (`ids_eq`).

A size counts the edges that lead to a course. As every edge leads to exactly one node, the sizes
count all edges (`sum_sizes`).

> `nodes_ofRecords`: the nodes of the graph of any records, by their ids, their order, their sizes
> and their depths.
-/

namespace Curriculum

namespace Table

variable {κ : Type} {α : Type} [DecidableEq κ]

/-- Keys stand in the order in which they come up first. -/
theorem keys_insertAllNew (entries : List (κ × α)) :
    keys (insertAllNew ([] : Table κ α) entries) = (keys entries).eraseDups := by
  induction entries using List.reverseRecOn with
  | nil => rfl
  | append_singleton before e ih =>
    rw [insertAllNew_append, keys_append]
    exact keys_eq_eraseDups_append_singleton ih (keys_insertIfNew _ e.1 e.2)

end Table

namespace Graph

variable {records : List Record} {ceiling : Int}

/-! ## The order -/

/-- The courses in a tree, if it is there. -/
def leaves (tree : Option Requirement) : List String :=
  (tree.map Requirement.namedCourses).getD []

/-- The courses to which records refer: of each record that was parsed its own course, then those of
its prerequisites, then those of its corequisites. -/
def references (records : List Record) : List String :=
  (parsedCourses records).flatMap fun c =>
    c.1 :: (leaves c.2.prerequisites ++ leaves c.2.corequisites)

theorem keys_mentions_eq_references (records : List Record) :
    Table.keys (mentions (parsedCourses records)) = references records := by
  rw [keys_mentions]
  refine List.flatMap_congr fun c _ => ?_
  rw [namedCourses_eq, map_fst_dependenciesOf, map_fst_dependenciesOf]
  rfl

/-- The nodes are the courses that are referred to, in order, if they are ends of edges. -/
theorem ids_eq (records : List Record) (ceiling : Int) :
    (ofRecords records ceiling).nodes.map (·.id)
      = (references records).eraseDups.filter (isLinked (ofRecords records ceiling).edges) := by
  rw [ofRecords_nodes_eq, nodesOf, List.map_map, ← keys_mentions_eq_references,
    ← Table.keys_insertAllNew, Table.keys, List.filter_map]
  rfl

/-! ## The sizes -/

/-- Edges that lead to some different courses are counted by their ends. -/
theorem sum_inDegree {edges : List Edge} {ids : List String} (hids : ids.Nodup)
    (htargets : ∀ e ∈ edges, e.target ∈ ids) : (ids.map (inDegree edges)).sum = edges.length := by
  let targets : Multiset String := edges.map (·.target)
  have hcount : ∀ id, inDegree edges id = targets.count id := by
    intro id
    show edges.countP _ = Multiset.count id (edges.map (·.target))
    rw [Multiset.coe_count, List.count, List.countP_map]
    refine List.countP_congr fun e _ => ?_
    rw [decide_eq_true_eq, Function.comp_apply, beq_iff_eq]
  have hmem : ∀ id ∈ targets, id ∈ ids.toFinset := by
    intro id hid
    obtain ⟨e, he, rfl⟩ := List.mem_map.mp hid
    exact List.mem_toFinset.mpr (htargets e he)
  calc (ids.map (inDegree edges)).sum
      = ∑ id ∈ ids.toFinset, targets.count id := by
        rw [List.sum_toFinset _ hids, funext hcount]
    _ = targets.card := Multiset.sum_count_eq_card hmem
    _ = edges.length := List.length_map _

/-- Every edge is counted in the size of exactly one node. -/
theorem sum_sizes (records : List Record) (ceiling : Int) :
    ((ofRecords records ceiling).nodes.map (·.size)).sum
      = ((ofRecords records ceiling).edges.length : Int) := by
  have hsizes : (ofRecords records ceiling).nodes.map (·.size)
      = (((ofRecords records ceiling).nodes.map (·.id)).map
          (inDegree (ofRecords records ceiling).edges)).map (Nat.cast : Nat → Int) := by
    rw [List.map_map, List.map_map]
    exact List.map_congr_left fun n hn => (mem_nodes_iff.mp hn).2.2.1
  have htargets : ∀ e ∈ (ofRecords records ceiling).edges,
      e.target ∈ (ofRecords records ceiling).nodes.map (·.id) :=
    fun e he => mem_ids_iff.mpr (isLinked_iff.mpr ⟨e, he, Or.inr rfl⟩)
  rw [hsizes, ← Nat.cast_list_sum, sum_inDegree (nodup_ids records ceiling) htargets]

/-! ## The main result -/

/-- **The nodes of the graph of some records.** No two have the same id; the ids are the ends of the
edges, in the order in which the records refer to them first. The size of a node is how many edges
lead to it, and all sizes together are as many as there are edges. The depth is the one to which the
course was settled, or nothing. -/
theorem nodes_ofRecords (records : List Record) (ceiling : Int) :
    let g := ofRecords records ceiling
    (g.nodes.map (·.id)).Nodup ∧
      (∀ id, id ∈ g.nodes.map (·.id) ↔ ∃ e ∈ g.edges, e.source = id ∨ e.target = id) ∧
      g.nodes.map (·.id) = (references records).eraseDups.filter (isLinked g.edges) ∧
      (∀ n ∈ g.nodes, n.size = (g.edges.countP fun e => e.target = n.id : Nat)) ∧
      (g.nodes.map (·.size)).sum = g.edges.length ∧
      ∃ resolution, g.resolution = some resolution ∧
        ∀ n ∈ g.nodes, n.depth = (Table.find? resolution.depths n.id).getD 0 :=
  ⟨nodup_ids records ceiling, fun _ => mem_ids_iff.trans isLinked_iff, ids_eq records ceiling,
    fun _ hn => (mem_nodes_iff.mp hn).2.2.1, sum_sizes records ceiling,
    _, rfl, fun _ hn => (mem_nodes_iff.mp hn).2.2.2⟩

end Graph

end Curriculum
