import Curriculum.Graph.Assembly
import Curriculum.Proofs.Graph.Offers
import Curriculum.Proofs.Requirement.Weights

/-!
# The edges of the graph of some records

Assembling a graph goes through the records, their two binding trees and the courses named there,
and offers one or two edges each time. All of that amounts to one list of offers
(`Graph.offers`, `draft_edges`), so what the edge map holds in the end is known from
`Curriculum.Proofs.Graph.Offers`.

What is offered is said here without regard to any order: `Graph.Occurrence` lists the three ways in
which a record gives an edge from one course to another with a weight. The edges are exactly the
pairs for which there is an occurrence, once each, with the largest weight of an occurrence
(`ofRecords_edges`).
-/

namespace Curriculum

namespace Graph

/-- The ways in which a record of a list gives an edge from `source` to `target` with a weight. -/
inductive Occurrence (records : List Record) (source target : String) (weight : Binary64) : Prop
  /-- The target has the source as a prerequisite. -/
  | prerequisite (r : Record) (reqs : CourseRequirements) (tree : Requirement)
      (member : r ∈ records) (parsed : r.parsed? = some reqs) (course : r.course = target)
      (present : reqs.prerequisites = some tree) (named : (source, weight) ∈ tree.dependencies)
  /-- The target has the source as a corequisite. -/
  | corequisite (r : Record) (reqs : CourseRequirements) (tree : Requirement)
      (member : r ∈ records) (parsed : r.parsed? = some reqs) (course : r.course = target)
      (present : reqs.corequisites = some tree) (named : (source, weight) ∈ tree.dependencies)
  /-- The source has the target as a corequisite. -/
  | converse (r : Record) (reqs : CourseRequirements) (tree : Requirement)
      (member : r ∈ records) (parsed : r.parsed? = some reqs) (course : r.course = source)
      (present : reqs.corequisites = some tree) (named : (target, weight) ∈ tree.dependencies)

/-! ## All offers as one list -/

/-- The edges that a course offers, in order. -/
def offersOf (c : ParsedCourse) : List Edge :=
  (Draft.dependenciesOf c.2.prerequisites).map (fun dep => ⟨dep.1, c.1, .float dep.2⟩)
    ++ (Draft.dependenciesOf c.2.corequisites).flatMap fun dep =>
        [⟨dep.1, c.1, .float dep.2⟩, ⟨c.1, dep.1, .float dep.2⟩]

/-- The edges that some courses offer, in order. -/
def offers (courses : List ParsedCourse) : List Edge := courses.flatMap offersOf

theorem foldl_addPrerequisite_edges (target : String) (deps : List (String × Binary64))
    (d : Draft) :
    (deps.foldl (Draft.addPrerequisite target) d).edges
      = d.edges.offerAll (deps.map fun dep => ⟨dep.1, target, .float dep.2⟩) := by
  induction deps generalizing d with
  | nil => rfl
  | cons dep deps ih =>
    rw [List.foldl_cons, ih]
    rfl

theorem foldl_addCorequisite_edges (target : String) (deps : List (String × Binary64))
    (d : Draft) :
    (deps.foldl (Draft.addCorequisite target) d).edges
      = d.edges.offerAll (deps.flatMap fun dep =>
          [⟨dep.1, target, .float dep.2⟩, ⟨target, dep.1, .float dep.2⟩]) := by
  induction deps generalizing d with
  | nil => rfl
  | cons dep deps ih =>
    rw [List.foldl_cons, ih]
    rfl

theorem addCourse_edges (d : Draft) (c : ParsedCourse) :
    (d.addCourse c).edges = d.edges.offerAll (offersOf c) := by
  unfold Draft.addCourse
  simp only
  rw [foldl_addCorequisite_edges, foldl_addPrerequisite_edges, ← EdgeMap.offerAll_append]
  rfl

theorem draft_edges (courses : List ParsedCourse) :
    (draft courses).edges = EdgeMap.offerAll [] (offers courses) := by
  have hfold : ∀ (cs : List ParsedCourse) (d : Draft),
      (cs.foldl Draft.addCourse d).edges = d.edges.offerAll (offers cs) := by
    intro cs
    induction cs with
    | nil => intro d; rfl
    | cons c cs ih =>
      intro d
      rw [List.foldl_cons, ih, addCourse_edges, ← EdgeMap.offerAll_append]
      rfl
  exact hfold courses ⟨[], []⟩

/-! ## What is offered -/

theorem mem_dependenciesOf {tree : Option Requirement} {dep : String × Binary64} :
    dep ∈ Draft.dependenciesOf tree ↔ ∃ t, tree = some t ∧ dep ∈ t.dependencies := by
  cases tree with
  | none => simp [Draft.dependenciesOf]
  | some t => simp [Draft.dependenciesOf]

theorem mem_parsedCourses {records : List Record} {c : ParsedCourse} :
    c ∈ parsedCourses records ↔ ∃ r ∈ records, r.course = c.1 ∧ r.parsed? = some c.2 := by
  unfold parsedCourses
  rw [List.mem_filterMap]
  constructor
  · rintro ⟨r, hr, hmap⟩
    obtain ⟨reqs, hreqs, rfl⟩ := Option.map_eq_some_iff.mp hmap
    exact ⟨r, hr, rfl, hreqs⟩
  · rintro ⟨r, hr, hcourse, hreqs⟩
    refine ⟨r, hr, ?_⟩
    rw [hreqs, Option.map_some, hcourse]

/-- Every offer has a number without a sign for its value. -/
theorem exists_weight_of_mem_offers {courses : List ParsedCourse} {e : Edge}
    (h : e ∈ offers courses) : ∃ w : Binary64, e.value = .float w ∧ w.IsUnsigned := by
  obtain ⟨c, -, hc⟩ := List.mem_flatMap.mp h
  rcases List.mem_append.mp hc with hc | hc
  · obtain ⟨dep, hdep, rfl⟩ := List.mem_map.mp hc
    obtain ⟨t, -, ht⟩ := mem_dependenciesOf.mp hdep
    exact ⟨dep.2, rfl, Requirement.dependencies_isUnsigned ht⟩
  · obtain ⟨dep, hdep, he⟩ := List.mem_flatMap.mp hc
    obtain ⟨t, -, ht⟩ := mem_dependenciesOf.mp hdep
    refine ⟨dep.2, ?_, Requirement.dependencies_isUnsigned ht⟩
    rcases List.mem_cons.mp he with rfl | he
    · rfl
    · rw [List.mem_singleton.mp he]

/-- What the courses of some records offer is what occurs in the records. -/
theorem mem_offers_iff {records : List Record} {source target : String} {w : Binary64} :
    ⟨source, target, .float w⟩ ∈ offers (parsedCourses records)
      ↔ Occurrence records source target w := by
  unfold offers offersOf
  simp only [List.mem_flatMap, List.mem_append, List.mem_map, mem_dependenciesOf,
    mem_parsedCourses]
  -- one way of occurring for each place in `offersOf` where an edge stands
  constructor
  · rintro ⟨c, ⟨r, hr, hcourse, hreqs⟩, ⟨dep, ⟨t, htree, ht⟩, he⟩ | ⟨dep, ⟨t, htree, ht⟩, he⟩⟩
    · cases he
      exact .prerequisite r c.2 t hr hreqs hcourse htree ht
    · rcases List.mem_cons.mp he with he | he
      · cases he
        exact .corequisite r c.2 t hr hreqs hcourse htree ht
      · cases List.mem_singleton.mp he
        exact .converse r c.2 t hr hreqs hcourse htree ht
  · rintro (⟨r, reqs, t, hr, hreqs, rfl, htree, ht⟩ | ⟨r, reqs, t, hr, hreqs, rfl, htree, ht⟩ |
      ⟨r, reqs, t, hr, hreqs, rfl, htree, ht⟩)
    · exact ⟨(r.course, reqs), ⟨r, hr, rfl, hreqs⟩, Or.inl ⟨(source, w), ⟨t, htree, ht⟩, rfl⟩⟩
    · exact ⟨(r.course, reqs), ⟨r, hr, rfl, hreqs⟩,
        Or.inr ⟨(source, w), ⟨t, htree, ht⟩, List.mem_cons_self ..⟩⟩
    · exact ⟨(r.course, reqs), ⟨r, hr, rfl, hreqs⟩,
        Or.inr ⟨(target, w), ⟨t, htree, ht⟩,
          List.mem_cons_of_mem _ (List.mem_singleton.mpr rfl)⟩⟩

/-! ## The edges -/

theorem ofRecords_edges_eq (records : List Record) (ceiling : Int) :
    (ofRecords records ceiling).edges
      = (EdgeMap.offerAll [] (offers (parsedCourses records))).toEdges := by
  show (draft (parsedCourses records)).edges.toEdges = _
  rw [draft_edges]

theorem holds_offers (courses : List ParsedCourse) :
    (EdgeMap.offerAll [] (offers courses)).Holds (offers courses) := by
  refine EdgeMap.holds_offerAll fun e he => ?_
  obtain ⟨w, hw, hunsigned⟩ := exists_weight_of_mem_offers he
  rw [hw]
  exact Number.isNumber_float hunsigned.ne_nan

theorem mem_edges_iff {records : List Record} {ceiling : Int} {e : Edge} :
    e ∈ (ofRecords records ceiling).edges ↔
      Table.find? (EdgeMap.offerAll [] (offers (parsedCourses records))) (e.source, e.target)
        = some e.value := by
  rw [ofRecords_edges_eq]
  exact EdgeMap.mem_toEdges_iff (holds_offers _).nodup

/-- An edge is one that was offered, so it occurs in the records. -/
theorem exists_occurrence_of_mem_edges {records : List Record} {ceiling : Int} {e : Edge}
    (he : e ∈ (ofRecords records ceiling).edges) :
    ∃ w, e.value = .float w ∧ Occurrence records e.source e.target w := by
  have hoffered := (holds_offers (parsedCourses records)).offered _ _ _ (mem_edges_iff.mp he)
  obtain ⟨w, hw, -⟩ := exists_weight_of_mem_offers hoffered
  have hval : e.value = .float w := hw
  rw [hval] at hoffered
  exact ⟨w, hval, mem_offers_iff.mp hoffered⟩

/-- An occurrence was offered, so there is an edge for its ends, and its value is no smaller. -/
theorem exists_edge_of_occurrence {records : List Record} (ceiling : Int) {source target : String}
    {w : Binary64} (h : Occurrence records source target w) :
    ∃ v, ⟨source, target, v⟩ ∈ (ofRecords records ceiling).edges ∧
      (Number.float w).le v = true := by
  obtain ⟨v, hv, hle⟩ := (holds_offers (parsedCourses records)).found _ (mem_offers_iff.mpr h)
  exact ⟨v, mem_edges_iff.mpr hv, hle⟩

/-- Two edges with the same ends have the same value. -/
theorem value_eq_of_mem_edges {records : List Record} {ceiling : Int} {source target : String}
    {v v' : Number} (h : ⟨source, target, v⟩ ∈ (ofRecords records ceiling).edges)
    (h' : ⟨source, target, v'⟩ ∈ (ofRecords records ceiling).edges) : v = v' :=
  Option.some.inj ((mem_edges_iff.mp h).symm.trans (mem_edges_iff.mp h'))

/-- What occurs in some records occurs in others: then each edge of the first is an edge of the
others, with a value no smaller. -/
theorem exists_edge_of_imp {records records' : List Record} {ceiling : Int} (ceiling' : Int)
    (himp : ∀ source target w, Occurrence records source target w →
      Occurrence records' source target w)
    {e : Edge} (he : e ∈ (ofRecords records ceiling).edges) :
    ∃ v, ⟨e.source, e.target, v⟩ ∈ (ofRecords records' ceiling').edges ∧ e.value.le v = true := by
  obtain ⟨w, hw, hocc⟩ := exists_occurrence_of_mem_edges he
  rw [hw]
  exact exists_edge_of_occurrence ceiling' (himp _ _ w hocc)

/-- **The edges are what occurs in the records.** There is an edge between two courses exactly when
there is an occurrence for them; no two edges have the same ends; and the value of an edge is the
weight of an occurrence that no other occurrence for the same ends exceeds. -/
theorem ofRecords_edges (records : List Record) (ceiling : Int) :
    (∀ source target,
      (∃ e ∈ (ofRecords records ceiling).edges, e.source = source ∧ e.target = target) ↔
        ∃ w, Occurrence records source target w) ∧
    ((ofRecords records ceiling).edges.map fun e => (e.source, e.target)).Nodup ∧
    ∀ e ∈ (ofRecords records ceiling).edges,
      ∃ w, e.value = .float w ∧ Occurrence records e.source e.target w ∧
        ∀ w', Occurrence records e.source e.target w' →
          (Number.float w').le (Number.float w) = true := by
  refine ⟨fun source target => ⟨?_, ?_⟩, ?_, fun e he => ?_⟩
  · rintro ⟨e, he, rfl, rfl⟩
    obtain ⟨w, -, hocc⟩ := exists_occurrence_of_mem_edges he
    exact ⟨w, hocc⟩
  · rintro ⟨w, hocc⟩
    obtain ⟨v, hv, -⟩ := exists_edge_of_occurrence ceiling hocc
    exact ⟨_, hv, rfl, rfl⟩
  · rw [ofRecords_edges_eq, EdgeMap.map_pair_toEdges]
    exact (holds_offers _).nodup
  · obtain ⟨w, hw, hocc⟩ := exists_occurrence_of_mem_edges he
    -- another occurrence has an edge no smaller than itself, and that is this edge
    refine ⟨w, hw, hocc, fun w' hocc' => ?_⟩
    obtain ⟨v, hv, hle⟩ := exists_edge_of_occurrence ceiling hocc'
    rw [value_eq_of_mem_edges hv he, hw] at hle
    exact hle

end Graph

end Curriculum
