import Curriculum.Proofs.Candidate.Dump

/-!
# Accepting twice

Accepting a candidate changes it. Integers become floating-point numbers, fields that a kind does
not have are dropped, and a tree that is null is gone. What is left is written with nothing for what
is absent, and the rules are strict about null: a field that is present must not be null, except for
the four trees. So a document that is written from requirements holds no null at all
(`nullFree_toJson`), and accepting it gives the requirements back.

> `accept_idempotent`: whatever was accepted is written without null, stands so in the file of its
> record, and is accepted again as the same requirements.
-/

namespace Curriculum

namespace Json

/-- Nothing in a document is null. -/
inductive NullFree : Json → Prop
  | bool (b : Bool) : NullFree (.bool b)
  | number (n : Number) : NullFree (.number n)
  | text (s : String) : NullFree (.text s)
  | array {items : List Json} (free : ∀ j ∈ items, NullFree j) : NullFree (.array items)
  | object {fields : Table String Json} (free : ∀ f ∈ fields, NullFree f.2) :
      NullFree (.object fields)

theorem NullFree.ne_null {j : Json} (h : NullFree j) : j ≠ .null := by
  rintro rfl
  cases h

theorem NullFree.of_field? {j v : Json} {name : String} (h : NullFree j)
    (hv : j.field? name = some v) : NullFree v := by
  cases h with
  | object hfields => exact hfields _ (Table.mem_of_find? hv)
  | _ => exact absurd hv (by simp [field?])

theorem nullFree_fieldIfAny {α : Type} {name : String} {write : α → Json}
    (h : ∀ a, NullFree (write a)) (o : Option α) : ∀ f ∈ fieldIfAny name write o, NullFree f.2 := by
  intro f hf
  obtain ⟨a, -, rfl⟩ := mem_fieldIfAny.mp hf
  exact h a

end Json

open Json

theorem OneOrMany.nullFree_toJson {α : Type} {write : α → Json} (h : ∀ a, NullFree (write a))
    (d : OneOrMany α) : NullFree (d.toJson write) := by
  cases d with
  | one a => exact h a
  | many as =>
    refine .array fun j hj => ?_
    obtain ⟨a, -, rfl⟩ := List.mem_map.mp hj
    exact h a

theorem Grade.nullFree_toJson (g : Grade) : NullFree g.toJson := .number (.float g.percent)

theorem Scope.nullFree_fields (s : Scope) : ∀ f ∈ s.fields, NullFree f.2 := by
  rw [Scope.fields, List.forall_mem_append, List.forall_mem_append]
  exact ⟨⟨nullFree_fieldIfAny (OneOrMany.nullFree_toJson .text) s.department,
    nullFree_fieldIfAny (OneOrMany.nullFree_toJson fun l => .text l.name) s.level⟩,
    nullFree_fieldIfAny Grade.nullFree_toJson s.minGrade⟩

/-- A node that is written with its kind and one field more is free of null if its fields are. -/
theorem nullFree_node (k : Kind) {field : String × Json} {rest : Table String Json}
    (hfield : NullFree field.2) (hrest : ∀ f ∈ rest, NullFree f.2) :
    NullFree (.object (Requirement.typeField k :: field :: rest)) := by
  refine .object ?_
  rw [List.forall_mem_cons, List.forall_mem_cons]
  exact ⟨.text k.name, hfield, hrest⟩

/-- The document of a requirement holds no null. -/
theorem Requirement.nullFree_toJson (t : Requirement) : NullFree t.toJson := by
  have hnone : ∀ f ∈ ([] : Table String Json), NullFree f.2 := by simp
  induction t using inductionOnParts with
  | step t ih =>
    cases t with
    | group logic first rest =>
      rw [toJson, listToJson_eq]
      have hparts : NullFree (.array ((first :: rest).map toJson)) := by
        refine .array fun j hj => ?_
        obtain ⟨p, hp, rfl⟩ := List.mem_map.mp hj
        exact ih p hp
      exact nullFree_node .group (.text logic.name) (List.forall_mem_cons.mpr ⟨hparts, hnone⟩)
    | course id minGrade may must =>
      rw [toJson]
      refine nullFree_node .course (.text id.text) ?_
      rw [List.forall_mem_append, List.forall_mem_append]
      exact ⟨⟨nullFree_fieldIfAny Grade.nullFree_toJson minGrade, nullFree_fieldIfAny .bool may⟩,
        nullFree_fieldIfAny .bool must⟩
    | credits amount scope =>
      rw [toJson]
      exact nullFree_node .creditCount (.number _) scope.nullFree_fields
    | courses amount scope =>
      rw [toJson]
      exact nullFree_node .courseCount (.number _) scope.nullFree_fields
    | standing year =>
      rw [toJson]
      exact nullFree_node .standing (.text year.name) hnone
    | program name =>
      rw [toJson]
      exact nullFree_node .program (.text name.text) hnone
    | permission note =>
      rw [toJson]
      exact nullFree_node .permission (.text note.text) hnone
    | other note =>
      rw [toJson]
      exact nullFree_node .other (.text note.text) hnone

/-- The document of the requirements of a course holds no null. -/
theorem CourseRequirements.nullFree_toJson (r : CourseRequirements) : NullFree r.toJson := by
  refine .object ?_
  rw [List.forall_mem_cons, List.forall_mem_cons]
  refine ⟨.text r.department, .text r.code, fun f hf => ?_⟩
  obtain ⟨s, -, hs⟩ := List.mem_flatMap.mp hf
  exact nullFree_fieldIfAny Requirement.nullFree_toJson (r.tree s) f hs

/-- The requirements of a record stand in its document as they are written. -/
theorem Record.field?_toJson_requirements {record : Record} {r : CourseRequirements}
    (h : record.requirements = some r) :
    record.toJson.field? "parsedRequirements" = some r.toJson := by
  simp [toJson, fields, field?, Table.find?_append, h]

namespace Candidate

/-- **Accepting twice is accepting once.** What was accepted is written without null, stands so in
the file of its record, and is accepted again as the same requirements. -/
theorem accept_idempotent {j : Json} {r : CourseRequirements} (h : accept j = .ok r) :
    accept r.toJson = .ok r ∧ r.toJson.NullFree ∧
      ∀ record : Record, record.requirements = some r →
        record.toJson.field? "parsedRequirements" = some r.toJson :=
  ⟨accept_toJson h, r.nullFree_toJson, fun _ hr => Record.field?_toJson_requirements hr⟩

/-- A candidate with integers and a tree that is null is accepted, and again without the null. -/
theorem sampleCandidate_accepted_twice :
    ∃ r, accept sampleCandidate = .ok r ∧ accept r.toJson = .ok r ∧
      sampleCandidate.field? "corequisites" ≠ r.toJson.field? "corequisites" := by
  obtain ⟨r, hread⟩ :=
    exists_read_of_passing sampleCandidate_passes fun _ _ => sampleCandidate_nests
  have haccept : accept sampleCandidate = .ok r :=
    accept_eq_ok_iff.mpr ⟨sampleCandidate_passes, hread⟩
  obtain ⟨hagain, hnull, -⟩ := accept_idempotent haccept
  refine ⟨r, haccept, hagain, fun hsame => ?_⟩
  have hfield : r.toJson.field? "corequisites" = some .null := hsame.symm
  exact (hnull.of_field? hfield).ne_null rfl

end Candidate

end Curriculum
