import Curriculum.Proofs.Record.Reading
import Curriculum.Proofs.Requirement.Document
import Curriculum.Record.Json

/-!
# The document of a record

What holds of the document of a requirement holds of the documents built from it: the requirements
of a course and the record of a course are read from their own documents, these can be written out,
and they are not nested deeper than the documents from which they were read.
-/

namespace Curriculum

open Reading

/-! ## The requirements of a course -/

namespace CourseRequirements

/-- The fields of the document. -/
def fields (r : CourseRequirements) : Table String Json :=
  ("department", .text r.department) :: ("code", .text r.code)
    :: Section.all.flatMap fun s => Json.fieldIfAny s.key Requirement.toJson (r.tree s)

theorem toJson_eq (r : CourseRequirements) : r.toJson = .object r.fields := rfl

theorem find?_fields_key (r : CourseRequirements) (s : Section) :
    r.fields.find? s.key = (r.tree s).map Requirement.toJson := by
  cases s <;>
    simp [fields, Section.all, Section.key, tree, Table.find?_append]

theorem toJson_ne_null (t : Requirement) : t.toJson ≠ .null := by
  cases t <;> simp [Requirement.toJson]

/-- The requirements of a course are read from their document. -/
theorem read_toJson {source : Source} {r : CourseRequirements}
    (hroom : ∀ s t, r.tree s = some t → Requirement.HasRoom source 0 t) :
    CourseRequirements.read source r.toJson = .ok r := by
  rw [toJson_eq, read_eq_ok_iff]
  refine ⟨required_text_eq_ok_iff.mpr rfl, required_text_eq_ok_iff.mpr rfl, fun s => ?_⟩
  exact optional_of_find? (find?_fields_key r s)
    (fun t ht => Requirement.read_toJson source t 0 (hroom s t ht)) toJson_ne_null

theorem proper_toJson {longest : Nat} (hlongest : 17 ≤ longest) (r : CourseRequirements) :
    r.toJson.Proper longest := by
  have hkeys : (Table.keys r.fields).Sublist
      ("department" :: "code" :: Section.all.map Section.key) := by
    refine List.Sublist.cons_cons _ (List.Sublist.cons_cons _ ?_)
    have hflat : ∀ sections : List Section, (Table.keys (sections.flatMap fun s =>
        Json.fieldIfAny s.key Requirement.toJson (r.tree s))).Sublist (sections.map Section.key) := by
      intro sections
      induction sections with
      | nil => exact List.Sublist.refl _
      | cons s rest ih =>
        rw [List.flatMap_cons, Table.keys_append, List.map_cons]
        exact (Json.keys_fieldIfAny_sublist _).append ih
    exact hflat Section.all
  have hnames : ("department" :: "code" :: Section.all.map Section.key).Nodup := by decide
  refine .object (hnames.sublist hkeys) ?_
  refine List.forall_mem_cons.mpr ⟨.text _, List.forall_mem_cons.mpr ⟨.text _, fun f hf => ?_⟩⟩
  obtain ⟨s, -, hf⟩ := List.mem_flatMap.mp hf
  exact Requirement.proper_fieldIfAny (Requirement.proper_toJson hlongest) (r.tree s) f hf

/-- The document of what is read is not nested deeper. -/
theorem nesting_toJson_le {source : Source} {j : Json} {r : CourseRequirements}
    (h : CourseRequirements.read source j = .ok r) : r.toJson.nesting ≤ j.nesting := by
  obtain ⟨fields, rfl⟩ := exists_fields_of_read h
  obtain ⟨hdepartment, -, htree⟩ := read_eq_ok_iff.mp h
  have hpos : 0 < (Json.object fields).nesting := Json.nesting_object_pos
    (List.ne_nil_of_mem (Table.mem_of_find? (required_text_eq_ok_iff.mp hdepartment)))
  refine Json.nesting_object_le hpos ?_
  refine List.forall_mem_cons.mpr ⟨hpos, List.forall_mem_cons.mpr ⟨hpos, fun f hf => ?_⟩⟩
  obtain ⟨s, -, hf⟩ := List.mem_flatMap.mp hf
  exact Requirement.nesting_fieldIfAny_lt (htree s)
    (fun j t ht => Requirement.nesting_toJson_le t 0 j ht) f hf

end CourseRequirements

/-! ## Records -/

namespace Record

@[simp] theorem find?_nullIfNone (name : String) (o : Option String) (k : String) :
    Table.find? (nullIfNone name o) k = if name = k ∧ o = none then some .null else none := by
  cases o with
  | none => simp [nullIfNone]
  | some s => simp [nullIfNone]

/-- A text that is written as null if it is absent is read as it was. -/
theorem optional_text_of_find? {fields : Table String Json} {name : String} {o : Option String}
    (h : fields.find? name = (o.map Json.text).or (if o = none then some .null else none)) :
    optional fields name text = .ok o := by
  cases o with
  | none => exact optional_eq_ok_none_iff.mpr (Or.inr h)
  | some s => exact optional_eq_ok_some_iff.mpr ⟨.text s, h, by simp, rfl⟩

/-- A record is read from its document. -/
theorem read_toJson (r : Record) : Record.read .text r.toJson = .ok r := by
  have hoptional : ∀ {name : String} {o : Option String} {fields : Table String Json},
      fields.find? name = o.map Json.text → optional fields name text = .ok o :=
    fun h => optional_of_find? h (fun _ _ => rfl) (fun _ => by simp)
  rw [toJson, read_eq_ok_iff]
  refine ⟨rfl, required_text_eq_ok_iff.mpr rfl, ?_, ?_, ?_, ?_, ?_, ?_, ?_⟩
  · refine optional_text_of_find? ?_
    simp [fields, Table.find?_append]
  · refine optional_text_of_find? ?_
    simp [fields, Table.find?_append]
  · refine required_of_find? ?_ (named_name Status.ofName?_name r.status)
    simp [fields, Table.find?_append]
  · refine optional_of_find? ?_ (fun reqs _ => CourseRequirements.read_toJson
      fun _ _ _ => Or.inl rfl) (fun _ => by simp [CourseRequirements.toJson])
    simp [fields, Table.find?_append]
  · refine hoptional ?_
    simp [fields, Table.find?_append]
  · refine hoptional ?_
    simp [fields, Table.find?_append]
  · refine required_text_eq_ok_iff.mpr ?_
    simp [fields, Table.find?_append]

/-- The fields that are there only once a record was processed. -/
def outcomeFields (r : Record) : Table String Json :=
  Json.fieldIfAny "parsedRequirements" CourseRequirements.toJson r.requirements
    ++ Json.fieldIfAny "blacklistReason" .text r.blacklistReason
    ++ Json.fieldIfAny "errorMessage" .text r.errorMessage

/-- No field of a record is written twice: a text that is absent is written as null at the end and
nowhere else. -/
theorem nodup_keys (r : Record) :
    (Table.keys (r.fields ++ nullIfNone "originalPrerequisite" r.prerequisiteText
      ++ nullIfNone "originalCorequisite" r.corequisiteText)).Nodup := by
  have hoptional : (Table.keys r.outcomeFields).Sublist
      ["parsedRequirements", "blacklistReason", "errorMessage"] := by
    rw [outcomeFields, Table.keys_append, Table.keys_append]
    exact ((Json.keys_fieldIfAny_sublist _).append (Json.keys_fieldIfAny_sublist _)).append
      (Json.keys_fieldIfAny_sublist _)
  have hkeys : ∀ before after : List String,
      (before ++ "status" :: (["parsedRequirements", "blacklistReason", "errorMessage"]
        ++ "lastUpdated" :: after)).Nodup →
      (before ++ "status" :: (Table.keys r.outcomeFields ++ "lastUpdated" :: after)).Nodup :=
    fun before after h => h.sublist ((List.Sublist.refl before).append
      ((hoptional.append (List.Sublist.refl _)).cons_cons "status"))
  -- the two texts stand before the status or at the end
  cases hp : r.prerequisiteText with
  | none =>
    cases hc : r.corequisiteText with
    | none =>
      have h := hkeys ["schemaVersion", "course"] ["originalPrerequisite", "originalCorequisite"]
        (by decide)
      simpa [outcomeFields, fields, hp, hc, Json.fieldIfAny, nullIfNone, Table.keys] using h
    | some c =>
      have h := hkeys ["schemaVersion", "course", "originalCorequisite"] ["originalPrerequisite"]
        (by decide)
      simpa [outcomeFields, fields, hp, hc, Json.fieldIfAny, nullIfNone, Table.keys] using h
  | some p =>
    cases hc : r.corequisiteText with
    | none =>
      have h := hkeys ["schemaVersion", "course", "originalPrerequisite"] ["originalCorequisite"]
        (by decide)
      simpa [outcomeFields, fields, hp, hc, Json.fieldIfAny, nullIfNone, Table.keys] using h
    | some c =>
      have h := hkeys ["schemaVersion", "course", "originalPrerequisite", "originalCorequisite"] []
        (by decide)
      simpa [outcomeFields, fields, hp, hc, Json.fieldIfAny, nullIfNone, Table.keys] using h

/-- What holds of texts, of null and of the requirements holds of every field of a record. -/
theorem forall_mem_toJson {P : Json → Prop} (r : Record) (htext : ∀ s, P (.text s)) (hnull : P .null)
    (hreqs : ∀ reqs, r.requirements = some reqs → P reqs.toJson) :
    ∀ f ∈ r.fields ++ nullIfNone "originalPrerequisite" r.prerequisiteText
      ++ nullIfNone "originalCorequisite" r.corequisiteText, P f.2 := by
  have htexts : ∀ {name : String} {o : Option String},
      ∀ f ∈ Json.fieldIfAny name .text o, P f.2 := by
    rintro name o f hf
    obtain ⟨s, -, rfl⟩ := Json.mem_fieldIfAny.mp hf
    exact htext s
  have hnulls : ∀ {name : String} {o : Option String}, ∀ f ∈ nullIfNone name o, P f.2 := by
    rintro name o f hf
    cases o with
    | none =>
      obtain rfl := List.mem_singleton.mp hf
      exact hnull
    | some s => exact absurd hf List.not_mem_nil
  have hrequirements : ∀ f ∈ Json.fieldIfAny "parsedRequirements" CourseRequirements.toJson
      r.requirements, P f.2 := by
    rintro f hf
    obtain ⟨reqs, ho, rfl⟩ := Json.mem_fieldIfAny.mp hf
    exact hreqs reqs ho
  simp only [fields, List.forall_mem_append, List.forall_mem_cons, List.not_mem_nil, false_imp_iff,
    implies_true, and_true]
  exact ⟨⟨⟨htext _, htext _, ⟨⟨⟨⟨⟨⟨htexts, htexts⟩, htext _⟩, hrequirements⟩, htexts⟩, htexts⟩,
    htext _⟩⟩, hnulls⟩, hnulls⟩

/-- The document of a record can be written out. -/
theorem proper_toJson {longest : Nat} (hlongest : 17 ≤ longest) (r : Record) :
    r.toJson.Proper longest :=
  .object r.nodup_keys (r.forall_mem_toJson .text .null
    fun reqs _ => CourseRequirements.proper_toJson hlongest reqs)

/-- The document of a record is nested deeper than a bound only if its requirements are as deep. -/
theorem nesting_toJson_le_iff {r : Record} {n : Nat} (hn : 0 < n) :
    r.toJson.nesting ≤ n ↔ ∀ reqs, r.requirements = some reqs → reqs.toJson.nesting < n := by
  constructor
  · intro h reqs hreqs
    have hfind : Table.find? (r.fields ++ nullIfNone "originalPrerequisite" r.prerequisiteText
        ++ nullIfNone "originalCorequisite" r.corequisiteText) "parsedRequirements"
          = some reqs.toJson := by
      simp [fields, Table.find?_append, hreqs]
    exact Nat.lt_of_lt_of_le (Json.nesting_lt_of_find? hfind) h
  · intro h
    exact Json.nesting_object_le hn
      (forall_mem_toJson (P := fun j => j.nesting < n) r (fun _ => hn) hn h)

/-- The document of what is read is not nested deeper. -/
theorem nesting_toJson_le {source : Source} {j : Json} {r : Record}
    (h : Record.read source j = .ok r) : r.toJson.nesting ≤ j.nesting := by
  obtain ⟨fields, rfl⟩ := exists_fields_of_read h
  obtain ⟨-, hcourse, -, -, -, hreqs, -⟩ := read_eq_ok_iff.mp h
  have hpos : 0 < (Json.object fields).nesting := Json.nesting_object_pos
    (List.ne_nil_of_mem (Table.mem_of_find? (required_text_eq_ok_iff.mp hcourse)))
  refine (nesting_toJson_le_iff hpos).mpr fun reqs hr => ?_
  rw [hr] at hreqs
  obtain ⟨j, hj, -, hread⟩ := optional_eq_ok_some_iff.mp hreqs
  exact Nat.lt_of_le_of_lt (CourseRequirements.nesting_toJson_le hread) (Json.nesting_lt_of_find? hj)

end Record

end Curriculum
