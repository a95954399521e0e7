import Curriculum.Proofs.Graph.Nodes

/-!
# The departments of the nodes

The record of a course states its department; of a course without a record only the id is known, and
the department is its first word. A graph in which every node has the department so decided fits its
records (`Graph.DepartmentsFit`).

The graph of some records does not always fit them. The first mention of a course counts, and that
may be a prerequisite of an earlier record; the course then has the first word of its id although its
own record states another department. Nothing else goes wrong:

> `departmentsFit_iff`: the departments fit the records exactly if each course that an earlier record
> names is in the department that its id begins with.
-/

namespace Curriculum

namespace Graph

/-- Every node has the department that the record of its course states, or, if no record was parsed
for its course, the first word of its id. -/
structure DepartmentsFit (g : Graph) (records : List Record) : Prop where
  own : ∀ n ∈ g.nodes, ∀ r ∈ records, ∀ reqs, r.parsed? = some reqs → r.course = n.id →
    n.department = reqs.department
  other : ∀ n ∈ g.nodes, (∀ r ∈ records, ∀ reqs, r.parsed? = some reqs → r.course ≠ n.id) →
    n.department = departmentOf n.id

/-! ## Which mention counts -/

variable {courses : List ParsedCourse}

/-- A department that goes with a mention is the first word of the id, unless the mention is the
course's own. -/
theorem eq_departmentOf_of_mem_mentions {id department : String}
    (h : (id, department) ∈ mentions courses) (hother : ∀ c ∈ courses, c.1 ≠ id) :
    department = departmentOf id := by
  obtain ⟨c, hc, hmem⟩ := List.mem_flatMap.mp h
  rcases List.mem_cons.mp hmem with hown | hnamed
  · exact absurd (Prod.mk.inj hown).1.symm (hother c hc)
  · obtain ⟨id', -, heq⟩ := List.mem_map.mp hnamed
    obtain ⟨rfl, rfl⟩ := Prod.mk.inj heq
    rfl

/-- A course that some records name and none of them is about has the first word of its id. -/
theorem find?_mentions_of_named {id : String} (hother : ∀ c ∈ courses, c.1 ≠ id)
    (hnamed : ∃ c ∈ courses, id ∈ c.2.namedCourses) :
    Table.find? (mentions courses) id = some (departmentOf id) := by
  obtain ⟨c, hc, hid⟩ := hnamed
  obtain ⟨department, hfind⟩ := Option.isSome_iff_exists.mp
    ((Table.find?_isSome_iff _ _).mpr (mem_keys_mentions.mpr ⟨c, hc, Or.inr hid⟩))
  rw [hfind, eq_departmentOf_of_mem_mentions (Table.mem_of_find? hfind) hother]

theorem find?_mentions_append (before after : List ParsedCourse) (id : String) :
    Table.find? (mentions (before ++ after)) id
      = (Table.find? (mentions before) id).or (Table.find? (mentions after) id) := by
  rw [mentions, List.flatMap_append, Table.find?_append]
  rfl

/-- A course that comes up for the first time with its own record has the department stated there. -/
theorem find?_mentions_of_first {before after : List ParsedCourse} {c : ParsedCourse}
    (hother : ∀ c' ∈ before, c'.1 ≠ c.1) (hnamed : ¬ ∃ c' ∈ before, c.1 ∈ c'.2.namedCourses) :
    Table.find? (mentions (before ++ c :: after)) c.1 = some c.2.department := by
  have hnone : Table.find? (mentions before) c.1 = none := by
    rw [← Option.not_isSome_iff_eq_none, Table.find?_isSome_iff, mem_keys_mentions]
    rintro ⟨c', hc', hown | hid⟩
    · exact hother c' hc' hown
    · exact hnamed ⟨c', hc', hid⟩
  rw [find?_mentions_append, hnone, Option.none_or]
  exact if_pos rfl

/-! ## Records one after the other -/

theorem parsedCourses_append (before after : List Record) :
    parsedCourses (before ++ after) = parsedCourses before ++ parsedCourses after :=
  List.filterMap_append

theorem parsedCourses_cons_of_parsed {r : Record} {reqs : CourseRequirements}
    (h : r.parsed? = some reqs) (after : List Record) :
    parsedCourses (r :: after) = (r.course, reqs) :: parsedCourses after := by
  unfold parsedCourses
  rw [List.filterMap_cons_some]
  rw [h, Option.map_some]

/-- Where no two records are about the same course, the records before one are about others. -/
theorem ne_of_mem_parsedCourses_before {before after : List Record} {r : Record}
    (hdistinct : ((before ++ r :: after).map (·.course)).Nodup) {c : ParsedCourse}
    (hc : c ∈ parsedCourses before) : c.1 ≠ r.course := by
  obtain ⟨r', hr', hcourse, -⟩ := mem_parsedCourses.mp hc
  rw [List.map_append] at hdistinct
  rw [← hcourse]
  exact List.nodup_append.mp hdistinct |>.2.2 _ (List.mem_map_of_mem hr') _
    (List.mem_map_of_mem (List.mem_cons_self ..))

variable {before after : List Record} {r : Record}

/-- A course that an earlier record names has the first word of its id, whatever its own record
states. -/
theorem find?_mentions_of_named_before
    (hdistinct : ((before ++ r :: after).map (·.course)).Nodup)
    (hnamed : ∃ c ∈ parsedCourses before, r.course ∈ c.2.namedCourses) :
    Table.find? (mentions (parsedCourses (before ++ r :: after))) r.course
      = some (departmentOf r.course) := by
  have hbefore : ∀ c ∈ parsedCourses before, c.1 ≠ r.course :=
    fun _ => ne_of_mem_parsedCourses_before hdistinct
  rw [parsedCourses_append, find?_mentions_append, find?_mentions_of_named hbefore hnamed,
    Option.some_or]

/-- A course that no earlier record names has the department that its record states. -/
theorem find?_mentions_of_not_named_before
    (hdistinct : ((before ++ r :: after).map (·.course)).Nodup) {reqs : CourseRequirements}
    (hreqs : r.parsed? = some reqs)
    (hnamed : ¬ ∃ c ∈ parsedCourses before, r.course ∈ c.2.namedCourses) :
    Table.find? (mentions (parsedCourses (before ++ r :: after))) r.course
      = some reqs.department := by
  have hbefore : ∀ c ∈ parsedCourses before, c.1 ≠ r.course :=
    fun _ => ne_of_mem_parsedCourses_before hdistinct
  rw [parsedCourses_append, parsedCourses_cons_of_parsed hreqs]
  exact find?_mentions_of_first (c := (r.course, reqs)) hbefore hnamed

/-! ## The main result -/

/-- **When the departments fit the records.** Where no two records are about the same course, the
nodes have the departments that the records state exactly if each course that an earlier record names
is in the department that its id begins with. -/
theorem departmentsFit_iff {records : List Record}
    (hdistinct : (records.map (·.course)).Nodup) (ceiling : Int) :
    DepartmentsFit (ofRecords records ceiling) records ↔
      ∀ before r after reqs, records = before ++ r :: after → r.parsed? = some reqs →
        (∃ c ∈ parsedCourses before, r.course ∈ c.2.namedCourses) →
          reqs.department = departmentOf r.course := by
  constructor
  · rintro hfit before r after reqs rfl hreqs ⟨c, hc, hnamed⟩
    -- being named makes the course a node, and that was its first mention
    have hc' : c ∈ parsedCourses (before ++ r :: after) := by
      rw [parsedCourses_append]
      exact List.mem_append_left _ hc
    have hlinked : isLinked (ofRecords (before ++ r :: after) ceiling).edges r.course = true :=
      isLinked_of_named hc' hnamed
    obtain ⟨n, hn, hid⟩ := List.mem_map.mp (mem_ids_iff.mpr hlinked)
    have hfind := (mem_nodes_iff.mp hn).2.1
    rw [hid, find?_mentions_of_named_before hdistinct ⟨c, hc, hnamed⟩] at hfind
    have hdepartment := hfit.own n hn r (by simp) reqs hreqs hid.symm
    exact hdepartment.symm.trans (Option.some.inj hfind).symm
  · intro hnames
    refine ⟨fun n hn r hr reqs hreqs hid => ?_, fun n hn hother => ?_⟩
    · obtain ⟨before, after, rfl⟩ := List.append_of_mem hr
      have hfind := (mem_nodes_iff.mp hn).2.1
      rw [← hid] at hfind
      by_cases hnamed : ∃ c ∈ parsedCourses before, r.course ∈ c.2.namedCourses
      · rw [find?_mentions_of_named_before hdistinct hnamed] at hfind
        rw [hnames before r after reqs rfl hreqs hnamed]
        exact (Option.some.inj hfind).symm
      · rw [find?_mentions_of_not_named_before hdistinct hreqs hnamed] at hfind
        exact (Option.some.inj hfind).symm
    · refine eq_departmentOf_of_mem_mentions (Table.mem_of_find? (mem_nodes_iff.mp hn).2.1) ?_
      intro c hc
      obtain ⟨r, hr, hcourse, hreqs⟩ := mem_parsedCourses.mp hc
      rw [← hcourse]
      exact hother r hr c.2 hreqs

/-- A course in another department than its id begins with. -/
def firstCourse : Record :=
  parsedRecord ("CPSC 110", ⟨"COMPSCI", "110", none, none, none, none⟩)

/-- A course that has it as a prerequisite. -/
def secondCourse : Record :=
  parsedRecord ("CPSC 210", ⟨"CPSC", "210",
    some (.course ⟨"CPSC 110", by decide⟩ none none none), none, none, none⟩)

/-- The departments fit if the course comes before the one that names it. -/
theorem firstCourse_departmentsFit :
    ([firstCourse, secondCourse].map (·.course)).Nodup ∧
      DepartmentsFit (ofRecords [firstCourse, secondCourse] 10) [firstCourse, secondCourse] := by
  have hdistinct : ([firstCourse, secondCourse].map (·.course)).Nodup := by decide
  refine ⟨hdistinct, (departmentsFit_iff hdistinct 10).mpr ?_⟩
  rintro before r after reqs hsplit - ⟨c, hc, hnamed⟩
  -- only the first record comes before another one, and it names no course
  obtain ⟨r', hr', -, hreqs⟩ := mem_parsedCourses.mp hc
  match before, hsplit with
  | [], _ => exact absurd hr' List.not_mem_nil
  | [_], hsplit =>
    obtain ⟨rfl, -⟩ := List.cons.inj hsplit
    rw [List.mem_singleton.mp hr'] at hreqs
    rw [← Option.some.inj hreqs] at hnamed
    exact absurd hnamed List.not_mem_nil
  | _ :: _ :: _, hsplit => simp at hsplit

/-- They do not fit if it comes after. -/
theorem secondCourse_not_departmentsFit :
    ([secondCourse, firstCourse].map (·.course)).Nodup ∧
      ¬ DepartmentsFit (ofRecords [secondCourse, firstCourse] 10) [secondCourse, firstCourse] := by
  refine ⟨by decide, fun hfit => ?_⟩
  have hnode : ((ofRecords [secondCourse, firstCourse] 10).nodes.any fun n =>
      n.id = "CPSC 110" && n.department = "CPSC") = true := by
    decide +kernel
  obtain ⟨n, hn, hstated⟩ := List.any_eq_true.mp hnode
  simp only [Bool.and_eq_true, decide_eq_true_eq] at hstated
  have hown := hfit.own n hn firstCourse (by simp) _ rfl hstated.1.symm
  rw [hstated.2] at hown
  exact absurd hown (by decide)

end Graph

end Curriculum
