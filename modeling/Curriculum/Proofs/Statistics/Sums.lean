import Curriculum.Proofs.Requirement.Weights
import Curriculum.Proofs.Tally
import Curriculum.Statistics.Basic
import Mathlib.Algebra.BigOperators.Group.List.Basic
import Mathlib.Data.List.Induction
import Mathlib.Order.Basic

/-!
# Statistics are sums over the records

Statistics are built record by record, and a dozen counts change on the way. Each of them is read off
under a name (`Figure`, `Statistics.figure`), and what a record adds to any of them is the same
whatever was counted before: it is what the record has by itself (`figure_addRecord`). So every
figure of a list is the sum of what its records have (`figure_foldl_addRecord`). Sums do not depend
on an order, and the sum of a list in two parts is the sum of two sums.

How the counts hang together is an invariant of the same loop: the statuses and the departments each
sum to the number of records, the breakdown of a department sums to its count, and the kinds of nodes
are the nodes of the trees (`Balanced`). One record keeps it (`balanced_addRecord`), so it holds of
every list.

> `ofRecords_isSum`: the figures of two lists together are the sums of their figures, the order of
> the records does not matter, and the counts are balanced.
-/

namespace Curriculum

namespace Requirement

/-! ## Nodes of a tree -/

mutual

/-- How many nodes a requirement has. -/
def nodeCount : Requirement → Nat
  | group _ first rest => 1 + first.nodeCount + nodeCountOfList rest
  | _ => 1

/-- How many nodes some requirements have. -/
def nodeCountOfList : List Requirement → Nat
  | [] => 0
  | t :: rest => t.nodeCount + nodeCountOfList rest

end

theorem nodeCountOfList_eq (ts : List Requirement) :
    nodeCountOfList ts = (ts.map nodeCount).sum := by
  induction ts with
  | nil => rfl
  | cons t rest ih => rw [nodeCountOfList, ih, List.map_cons, List.sum_cons]

theorem kindsOfList_eq (ts : List Requirement) : kindsOfList ts = ts.flatMap kinds := by
  induction ts with
  | nil => rfl
  | cons t rest ih => rw [kindsOfList, ih, List.flatMap_cons]

theorem kinds_group (logic : Logic) (first : Requirement) (rest : List Requirement) :
    (group logic first rest).kinds = .group :: (first :: rest).flatMap kinds := by
  rw [kinds, kindsOfList_eq, List.flatMap_cons]

theorem nodeCount_group (logic : Logic) (first : Requirement) (rest : List Requirement) :
    (group logic first rest).nodeCount = 1 + ((first :: rest).map nodeCount).sum := by
  rw [nodeCount, nodeCountOfList_eq, List.map_cons, List.sum_cons, Nat.add_assoc]

/-- Every node has a kind. -/
theorem length_kinds (t : Requirement) : t.kinds.length = t.nodeCount := by
  induction t using inductionOnParts with
  | step t ih =>
    cases t with
    | group logic first rest =>
      have hparts : ((first :: rest).map fun p => p.kinds.length)
          = (first :: rest).map nodeCount :=
        List.map_congr_left fun p hp => ih p hp
      rw [kinds_group, nodeCount_group, List.length_cons, List.length_flatMap, hparts]
      omega
    | _ => rfl

/-- The nodes that ask for a course are those that have a weight. -/
theorem count_course_kinds (t : Requirement) :
    t.kinds.count .course = t.dependencies.length := by
  have hnamed : t.kinds.count .course = t.namedCourses.length := by
    induction t using inductionOnParts with
    | step t ih =>
      cases t with
      | group logic first rest =>
        have hparts : ((first :: rest).map fun p => p.kinds.count .course)
            = (first :: rest).map fun p => p.namedCourses.length :=
          List.map_congr_left fun p hp => ih p hp
        have hne : ((Kind.group == Kind.course) = true) → False := by decide
        rw [kinds_group, namedCourses_group, List.count_cons, if_neg hne, List.count_flatMap,
          List.length_flatMap]
        show ((first :: rest).map fun p => p.kinds.count .course).sum + 0 = _
        rw [hparts]
        rfl
      | _ => rfl
  rw [hnamed, ← map_fst_dependencies, List.length_map]

end Requirement

/-- The trees of a record that was parsed. -/
def Record.trees (r : Record) : List Requirement :=
  (r.parsed?.map CourseRequirements.trees).getD []

/-- The sections in which a parsed record has a tree. -/
def Record.sections (r : Record) : List Section :=
  (r.parsed?.map fun reqs => Section.all.filter fun part => (reqs.tree part).isSome).getD []

/-- The nestings of the trees that bind of a record that was parsed. -/
def Record.nestings (r : Record) : List Nat :=
  (r.parsed?.map fun reqs => reqs.bindingTrees.map Requirement.nodeNesting).getD []

namespace Statistics

/-! ## What a record adds -/

section AddRecord

variable (s : Statistics) (r : Record)

theorem addRecord_total : (s.addRecord r).total = s.total + 1 := by
  unfold addRecord
  cases r.parsed? <;> rfl

theorem addRecord_statuses : (s.addRecord r).statuses = s.statuses.add r.status := by
  unfold addRecord
  cases r.parsed? <;> rfl

theorem addRecord_departments :
    (s.addRecord r).departments = s.departments.add r.department := by
  unfold addRecord
  cases r.parsed? <;> rfl

theorem addRecord_breakdowns :
    (s.addRecord r).breakdowns = addToBreakdown s.breakdowns r.department r.status := by
  unfold addRecord
  cases r.parsed? <;> rfl

theorem addRecord_sections :
    (s.addRecord r).sections = r.sections.foldl Tally.add s.sections := by
  unfold addRecord Record.sections
  cases r.parsed? <;> rfl

theorem addRecord_withoutAny : (s.addRecord r).withoutAny
    = s.withoutAny + (r.parsed?.map fun reqs => if reqs.hasAny then 0 else 1).getD 0 := by
  unfold addRecord
  cases r.parsed? <;> rfl

theorem addRecord_kinds :
    (s.addRecord r).kinds = (r.trees.flatMap Requirement.kinds).foldl Tally.add s.kinds := by
  unfold addRecord Record.trees
  cases r.parsed? <;> rfl

theorem addRecord_nestings : (s.addRecord r).nestings = s.nestings ++ r.nestings := by
  unfold addRecord Record.nestings
  cases r.parsed? with
  | none => exact (List.append_nil _).symm
  | some reqs => rfl

theorem addRecord_errors : (s.addRecord r).errors
    = if r.status = .error then addText s.errors errorSort r.errorMessage else s.errors := by
  unfold addRecord
  cases r.parsed? <;> rfl

theorem addRecord_blacklistReasons : (s.addRecord r).blacklistReasons
    = if r.status = .blacklisted then addText s.blacklistReasons id r.blacklistReason
      else s.blacklistReasons := by
  unfold addRecord
  cases r.parsed? <;> rfl

end AddRecord

/-- A text adds to the count of its sort what it has by itself. -/
theorem count_addText (t : Tally String) (sort : String → String) (text : Option String)
    (k : String) :
    (addText t sort text).count k = t.count k + (addText [] sort text).count k := by
  cases text with
  | none => rfl
  | some x =>
    by_cases hx : x = ""
    · simp [addText, hx]
    · simp [addText, hx, Tally.count_add]

/-- The breakdown of a department; one without records is all zero. -/
def breakdown (s : Statistics) (department : String) : Breakdown :=
  (s.breakdowns.find? department).getD ⟨0, []⟩

/-- A record counts in the breakdown of its own department and in no other. -/
theorem breakdown_addRecord (s : Statistics) (r : Record) (d : String) :
    (s.addRecord r).breakdown d
      = if r.department = d then ⟨(s.breakdown d).total + 1, (s.breakdown d).byStatus.add r.status⟩
        else s.breakdown d := by
  unfold breakdown
  rw [addRecord_breakdowns]
  unfold addToBreakdown
  rw [Table.find?_insert]
  by_cases hd : r.department = d
  · rw [if_pos hd, if_pos hd, hd]
    rfl
  · rw [if_neg hd, if_neg hd]

/-! ## Figures -/

/-- The name of a count. -/
inductive Figure where
  /-- All records. -/
  | records
  /-- The records of a status. -/
  | status (k : Status)
  /-- The records of a department. -/
  | department (d : String)
  /-- The records in the breakdown of a department. -/
  | breakdownTotal (d : String)
  /-- The records of a status in the breakdown of a department. -/
  | breakdownStatus (d : String) (k : Status)
  /-- The nodes of a kind. -/
  | kind (k : Kind)
  /-- The errors of a sort. -/
  | error (sort : String)
  /-- The records blacklisted for a reason. -/
  | blacklistReason (reason : String)
  /-- The parsed records that have a tree in a section. -/
  | having (part : Section)
  /-- The parsed records without a tree. -/
  | withoutAny

/-- The count of a name. -/
def figure (s : Statistics) : Figure → Nat
  | .records => s.total
  | .status k => s.statuses.count k
  | .department d => s.departments.count d
  | .breakdownTotal d => (s.breakdown d).total
  | .breakdownStatus d k => (s.breakdown d).byStatus.count k
  | .kind k => s.kinds.count k
  | .error sort => s.errors.count sort
  | .blacklistReason reason => s.blacklistReasons.count reason
  | .having part => s.sections.count part
  | .withoutAny => s.withoutAny

theorem figure_empty (f : Figure) : empty.figure f = 0 := by
  cases f <;> rfl

/-- A record adds to each figure what it has by itself, whatever was counted before. -/
theorem figure_addRecord (s : Statistics) (r : Record) (f : Figure) :
    (s.addRecord r).figure f = s.figure f + (empty.addRecord r).figure f := by
  cases f with
  | records => simp [figure, addRecord_total, empty]
  | status k => simp [figure, addRecord_statuses, Tally.count_add, empty]
  | department d => simp [figure, addRecord_departments, Tally.count_add, empty]
  | breakdownTotal d =>
    have hempty : empty.breakdown d = ⟨0, []⟩ := rfl
    by_cases hd : r.department = d <;> simp [figure, breakdown_addRecord, hd, hempty]
  | breakdownStatus d k =>
    have hempty : empty.breakdown d = ⟨0, []⟩ := rfl
    by_cases hd : r.department = d <;>
      simp [figure, breakdown_addRecord, hd, hempty, Tally.count_add]
  | kind k => simp [figure, addRecord_kinds, Tally.count_foldl_add, empty]
  | error sort =>
    by_cases hr : r.status = .error
    · simp only [figure, addRecord_errors, if_pos hr]
      exact count_addText _ _ _ _
    · simp [figure, addRecord_errors, hr, empty]
  | blacklistReason reason =>
    by_cases hr : r.status = .blacklisted
    · simp only [figure, addRecord_blacklistReasons, if_pos hr]
      exact count_addText _ _ _ _
    · simp [figure, addRecord_blacklistReasons, hr, empty]
  | having part => simp [figure, addRecord_sections, Tally.count_foldl_add, empty]
  | withoutAny => simp [figure, addRecord_withoutAny, empty]

/-- **Figures are sums.** Records add to each figure what they have by themselves. -/
theorem figure_foldl_addRecord (records : List Record) (s : Statistics) (f : Figure) :
    (records.foldl addRecord s).figure f
      = s.figure f + (records.map fun r => (empty.addRecord r).figure f).sum := by
  induction records generalizing s with
  | nil => rfl
  | cons r records ih =>
    rw [List.foldl_cons, ih, figure_addRecord, List.map_cons, List.sum_cons, Nat.add_assoc]

theorem figure_ofRecords (records : List Record) (f : Figure) :
    (ofRecords records).figure f
      = (records.map fun r => (empty.addRecord r).figure f).sum := by
  unfold ofRecords
  rw [figure_foldl_addRecord, figure_empty, Nat.zero_add]

/-! ## Nesting -/

theorem nestings_foldl_addRecord (records : List Record) (s : Statistics) :
    (records.foldl addRecord s).nestings = s.nestings ++ records.flatMap Record.nestings := by
  induction records generalizing s with
  | nil => exact (List.append_nil _).symm
  | cons r records ih =>
    rw [List.foldl_cons, ih, addRecord_nestings, List.flatMap_cons, List.append_assoc]

theorem nestings_ofRecords (records : List Record) :
    (ofRecords records).nestings = records.flatMap Record.nestings :=
  nestings_foldl_addRecord records empty

theorem foldl_max_le_iff (ns : List Nat) (a d : Nat) :
    ns.foldl max a ≤ d ↔ a ≤ d ∧ ∀ n ∈ ns, n ≤ d := by
  induction ns generalizing a with
  | nil => simp
  | cons n ns ih => rw [List.foldl_cons, ih, Nat.max_le, List.forall_mem_cons, and_assoc]

/-- The deepest nesting is the least bound on all nestings. -/
theorem maxNesting_le_iff {s : Statistics} {d : Nat} :
    s.maxNesting ≤ d ↔ ∀ n ∈ s.nestings, n ≤ d := by
  unfold maxNesting
  rw [foldl_max_le_iff]
  exact and_iff_right (Nat.zero_le d)

theorem maxNesting_ofRecords_append (xs ys : List Record) :
    (ofRecords (xs ++ ys)).maxNesting
      = max (ofRecords xs).maxNesting (ofRecords ys).maxNesting := by
  apply eq_of_forall_ge_iff
  intro d
  rw [Nat.max_le, maxNesting_le_iff, maxNesting_le_iff, maxNesting_le_iff]
  simp only [nestings_ofRecords, List.flatMap_append, List.forall_mem_append]

section Order

variable {xs ys : List Record}

theorem nestings_perm (h : xs.Perm ys) : (ofRecords xs).nestings.Perm (ofRecords ys).nestings := by
  rw [nestings_ofRecords, nestings_ofRecords]
  exact h.flatMap_right Record.nestings

theorem maxNesting_eq_of_perm (h : xs.Perm ys) :
    (ofRecords xs).maxNesting = (ofRecords ys).maxNesting := by
  apply eq_of_forall_ge_iff
  intro d
  rw [maxNesting_le_iff, maxNesting_le_iff]
  simp only [(nestings_perm h).mem_iff]

/-- The mean hangs on the sum and the number of the nestings. -/
theorem meanNesting_eq_of_perm (h : xs.Perm ys) :
    (ofRecords xs).meanNesting = (ofRecords ys).meanNesting := by
  have hperm := nestings_perm h
  have hnil : (ofRecords xs).nestings = [] ↔ (ofRecords ys).nestings = [] := by
    rw [← List.length_eq_zero_iff, ← List.length_eq_zero_iff, hperm.length_eq]
  have hsum : (ofRecords xs).nestings.foldr (· + ·) 0 = (ofRecords ys).nestings.foldr (· + ·) 0 :=
    hperm.sum_eq
  unfold meanNesting
  simp only [hnil, hsum, hperm.length_eq]

end Order

/-! ## How the counts hang together -/

/-- The trees of the records that were parsed. -/
def treesOf (records : List Record) : List Requirement :=
  records.flatMap Record.trees

/-- The counts of some records fit each other. -/
structure Balanced (records : List Record) (s : Statistics) : Prop where
  total : s.total = records.length
  statuses : s.statuses.total = s.total
  departments : s.departments.total = s.total
  /-- The breakdown of a department has the records of the department. -/
  breakdownTotal : ∀ d, (s.breakdown d).total = s.departments.count d
  /-- Each of them has one of the four statuses. -/
  breakdownStatuses : ∀ d,
    (s.breakdown d).total = (Status.all.map (s.breakdown d).byStatus.count).sum
  /-- Every node of every tree is counted. -/
  nodes : s.kinds.total = ((treesOf records).map Requirement.nodeCount).sum
  /-- The nodes that ask for a course are those that give edges. -/
  courses : s.kinds.count .course
    = ((treesOf records).map fun t => t.dependencies.length).sum

theorem balanced_empty : Balanced [] empty := by
  constructor <;> intros <;> rfl

/-- One more record of a status makes one more record in all. -/
theorem sum_count_add (t : Tally Status) (k : Status) :
    (Status.all.map (t.add k).count).sum = (Status.all.map t.count).sum + 1 := by
  have hadd : (t.add k).count = fun k' => t.count k' + if k = k' then 1 else 0 :=
    funext fun k' => Tally.count_add t k k'
  rw [hadd]
  cases k <;> simp [Status.all] <;> omega

/-- A record keeps the counts balanced. -/
theorem balanced_addRecord {records : List Record} {s : Statistics} (h : Balanced records s)
    (r : Record) : Balanced (records ++ [r]) (s.addRecord r) where
  total := by
    rw [addRecord_total, h.total, List.length_append]
    rfl
  statuses := by
    rw [addRecord_statuses, addRecord_total, ← h.statuses]
    exact Tally.total_addTimes _ _ 1
  departments := by
    rw [addRecord_departments, addRecord_total, ← h.departments]
    exact Tally.total_addTimes _ _ 1
  breakdownTotal := by
    intro d
    rw [breakdown_addRecord, addRecord_departments, Tally.count_add, ← h.breakdownTotal d]
    by_cases hd : r.department = d
    · rw [if_pos hd, if_pos hd]
    · rw [if_neg hd, if_neg hd, Nat.add_zero]
  breakdownStatuses := by
    intro d
    rw [breakdown_addRecord]
    by_cases hd : r.department = d
    · rw [if_pos hd, sum_count_add, ← h.breakdownStatuses d]
    · rw [if_neg hd]
      exact h.breakdownStatuses d
  nodes := by
    have htrees : (r.trees.flatMap Requirement.kinds).length
        = (r.trees.map Requirement.nodeCount).sum := by
      rw [List.length_flatMap]
      exact congrArg List.sum (List.map_congr_left fun t _ => t.length_kinds)
    rw [addRecord_kinds, Tally.total_foldl_add, h.nodes, htrees, treesOf, treesOf,
      List.flatMap_append, List.map_append, List.sum_append, List.flatMap_singleton]
  courses := by
    have htrees : (r.trees.flatMap Requirement.kinds).count .course
        = (r.trees.map fun t => t.dependencies.length).sum := by
      rw [List.count_flatMap]
      exact congrArg List.sum (List.map_congr_left fun t _ => t.count_course_kinds)
    rw [addRecord_kinds, Tally.count_foldl_add, h.courses, htrees, treesOf, treesOf,
      List.flatMap_append, List.map_append, List.sum_append, List.flatMap_singleton]

theorem ofRecords_append_singleton (records : List Record) (r : Record) :
    ofRecords (records ++ [r]) = (ofRecords records).addRecord r := by
  unfold ofRecords
  rw [List.foldl_append]
  rfl

theorem balanced_ofRecords (records : List Record) : Balanced records (ofRecords records) := by
  induction records using List.reverseRecOn with
  | nil => exact balanced_empty
  | append_singleton records r ih =>
    rw [ofRecords_append_singleton]
    exact balanced_addRecord ih r

/-- **Statistics are sums over the records.** Each figure of two lists together is the sum of the
figures of either, and the deepest nesting the larger of the two. The order of the records changes no
figure, nor the deepest or the mean nesting. The counts of any list fit each other. -/
theorem ofRecords_isSum :
    (∀ xs ys, (∀ f, (ofRecords (xs ++ ys)).figure f
        = (ofRecords xs).figure f + (ofRecords ys).figure f) ∧
      (ofRecords (xs ++ ys)).maxNesting
        = max (ofRecords xs).maxNesting (ofRecords ys).maxNesting) ∧
    (∀ xs ys, xs.Perm ys → (∀ f, (ofRecords xs).figure f = (ofRecords ys).figure f) ∧
      (ofRecords xs).maxNesting = (ofRecords ys).maxNesting ∧
      (ofRecords xs).meanNesting = (ofRecords ys).meanNesting) ∧
    ∀ records, Balanced records (ofRecords records) := by
  refine ⟨fun xs ys => ⟨?_, maxNesting_ofRecords_append xs ys⟩, fun xs ys h => ⟨?_, ?_, ?_⟩,
    balanced_ofRecords⟩
  · intro f
    rw [figure_ofRecords, figure_ofRecords, figure_ofRecords, List.map_append, List.sum_append]
  · intro f
    rw [figure_ofRecords, figure_ofRecords]
    exact (h.map _).sum_eq
  · exact maxNesting_eq_of_perm h
  · exact meanNesting_eq_of_perm h

/-- A course that asks for one of two courses, and a course whose candidate was refused. -/
def mixedRecords : List Record :=
  [{ schemaVersion := currentSchema
     course := "CPSC 210"
     prerequisiteText := some "CPSC 121 or CPSC 126"
     corequisiteText := none
     status := .parsed
     requirements := some ⟨"CPSC", "210", some (.group .oneOf
       (.course ⟨"CPSC 121", by decide⟩ none none none)
       [.course ⟨"CPSC 126", by decide⟩ none none none]), none, none, none⟩
     blacklistReason := none
     errorMessage := none
     lastUpdated := "" },
    { schemaVersion := currentSchema
      course := "MATH 200"
      prerequisiteText := none
      corequisiteText := some "MATH 221"
      status := .error
      requirements := none
      blacklistReason := none
      errorMessage := some "Invalid corequisites: Group must have at least one child"
      lastUpdated := "" }]

/-- Of the two records, in either order, one is in error for a corequisite, and one nests a course in
a group. -/
theorem mixedRecords_isSum :
    mixedRecords.Perm mixedRecords.reverse ∧
      (ofRecords mixedRecords.reverse).figure (.error "Corequisites Error") = 1 ∧
      (ofRecords mixedRecords.reverse).maxNesting = 2 := by
  have hperm : mixedRecords.Perm mixedRecords.reverse := (List.reverse_perm _).symm
  have herror : (ofRecords mixedRecords).figure (.error "Corequisites Error") = 1 := by
    decide +kernel
  have hnesting : (ofRecords mixedRecords).maxNesting = 2 := by decide +kernel
  obtain ⟨hfigures, hmax, -⟩ := ofRecords_isSum.2.1 _ _ hperm
  exact ⟨hperm, (hfigures _).symm.trans herror, hmax.symm.trans hnesting⟩

end Statistics

end Curriculum
