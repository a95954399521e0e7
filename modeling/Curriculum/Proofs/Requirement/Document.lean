import Curriculum.Proofs.Json.Parsing
import Curriculum.Proofs.Requirement.Named
import Curriculum.Proofs.Requirement.Reading
import Curriculum.Requirement.Json

/-!
# The document of a requirement

Writing a requirement and reading it again are inverse to each other: from the document of a
requirement that very requirement is read (`read_toJson`), a text setting no bound and a value the
bound on nested groups. The document can be written out, since no object has two fields of one name
(`proper_toJson`), and it is never nested deeper than the document that the requirement was read
from (`nesting_toJson_le`).
-/

namespace Curriculum

/-! ## Fields that may be left out -/

namespace Json

variable {α : Type} {name : String} {write : α → Json}

@[simp] theorem find?_fieldIfAny (o : Option α) (k : String) :
    Table.find? (fieldIfAny name write o) k = if name = k then o.map write else none := by
  cases o with
  | none => simp [fieldIfAny]
  | some a => rfl

theorem mem_fieldIfAny {o : Option α} {f : String × Json} :
    f ∈ fieldIfAny name write o ↔ ∃ a, o = some a ∧ f = (name, write a) := by
  cases o <;> simp [fieldIfAny]

theorem keys_fieldIfAny_sublist (o : Option α) :
    (Table.keys (fieldIfAny name write o)).Sublist [name] := by
  cases o with
  | none => exact List.nil_sublist _
  | some a => exact List.Sublist.refl _

end Json

namespace Reading

variable {α : Type} {fields : Table String Json} {name : String}

/-- A field that was written if there was something to write is read as what there was. -/
theorem optional_of_find? {read : Json → Reading α} {write : α → Json} {o : Option α}
    (hfind : fields.find? name = o.map write) (hread : ∀ a, o = some a → read (write a) = .ok a)
    (hnull : ∀ a, write a ≠ .null) : optional fields name read = .ok o := by
  cases o with
  | none => exact optional_eq_ok_none_iff.mpr (Or.inl hfind)
  | some a => exact optional_eq_ok_some_iff.mpr ⟨write a, hfind, hnull a, hread a rfl⟩

theorem required_of_find? {read : Json → Reading α} {j : Json} {a : α}
    (hfind : fields.find? name = some j) (hread : read j = .ok a) :
    required fields name read = .ok a :=
  required_eq_ok_iff.mpr ⟨j, hfind, hread⟩

/-- The name of a member of a set is read as the member. -/
theorem named_name {ofName? : String → Option α} {label : α → String}
    (h : ∀ a, ofName? (label a) = some a) (a : α) : named ofName? (.text (label a)) = .ok a := by
  rw [named, h]
  rfl

end Reading

namespace Requirement

open Reading

/-! ## Reading what was written -/

theorem readLabel_text (l : Label) : readLabel (.text l.text) = .ok l := by
  rw [readLabel, dif_pos l.nonempty]

theorem readGrade_toJson (source : Source) (g : Grade) : readGrade source g.toJson = .ok g := by
  have hread : Reading.number source g.toJson = .ok g.percent := rfl
  simp only [readGrade, hread, dif_pos g.atMost, dif_pos g.atLeast]

theorem readAmount_float (source : Source) (a : Amount) :
    readAmount source (.float a.value) = .ok a := by
  have hread : Reading.number source (.float a.value) = .ok a.value := rfl
  simp only [readAmount, hread, dif_pos a.positive]

theorem flag_bool (source : Source) (b : Bool) : Reading.flag source (.bool b) = .ok b := rfl

theorem readOneOrMany_toJson {α : Type} {one many : Choice} {read : Json → Reading α}
    {write : α → Json} (hread : ∀ a, read (write a) = .ok a)
    (harray : ∀ items a, read (.array items) ≠ .ok a) (d : OneOrMany α) :
    readOneOrMany one many read (d.toJson write) = .ok d := by
  cases d with
  | one a => simp only [readOneOrMany, OneOrMany.toJson, hread]
  | many as =>
    have hitems : Reading.items read 0 (as.map write) = .ok as := by
      refine items_eq_ok_iff.mpr (List.forall₂_map_left_iff.mpr ?_)
      exact List.forall₂_same.mpr fun a _ => hread a
    cases hone : read (.array (as.map write)) with
    | ok a => exact absurd hone (harray _ a)
    | faulty fs => simp only [readOneOrMany, OneOrMany.toJson, hone, Reading.list, hitems]

theorem readDepartments_toJson (d : OneOrMany String) :
    readOneOrMany .text .texts Reading.text (d.toJson .text) = .ok d := by
  have hread : ∀ s, Reading.text (.text s) = .ok s := fun _ => rfl
  exact readOneOrMany_toJson hread (by simp) d

theorem readLevels_toJson (d : OneOrMany Level) :
    readOneOrMany .level .levels (named Level.ofName?) (d.toJson fun l => .text l.name) = .ok d :=
  readOneOrMany_toJson (named_name Level.ofName?_name) (by simp [named]) d

theorem oneOrMany_ne_null {α : Type} {write : α → Json} (hnull : ∀ a, write a ≠ .null)
    (d : OneOrMany α) : d.toJson write ≠ .null := by
  cases d with
  | one a => exact hnull a
  | many as => simp [OneOrMany.toJson]

/-- The fields that say which courses count are read as they were written, whatever stands before
them. -/
theorem readScope_append {source : Source} (before : Table String Json) {scope : Scope}
    (hdepartment : before.find? "department" = none) (hlevel : before.find? "level" = none)
    (hgrade : before.find? "minGrade" = none) :
    readScope source (before ++ scope.fields) = .ok scope := by
  refine readScope_eq_ok_iff.mpr ⟨?_, ?_, ?_⟩
  · refine optional_of_find? ?_ (fun d _ => readDepartments_toJson d)
      (oneOrMany_ne_null fun _ => by simp)
    simp [Table.find?_append, hdepartment, Scope.fields]
  · refine optional_of_find? ?_ (fun d _ => readLevels_toJson d)
      (oneOrMany_ne_null fun _ => by simp)
    simp [Table.find?_append, hlevel, Scope.fields]
  · refine optional_of_find? ?_ (fun g _ => readGrade_toJson source g)
      (fun _ => by simp [Grade.toJson, Json.float])
    simp [Table.find?_append, hgrade, Scope.fields]

theorem listToJson_eq (ts : List Requirement) : listToJson ts = ts.map toJson := by
  induction ts with
  | nil => rfl
  | cons t rest ih => rw [listToJson, ih, List.map_cons]

/-- With a text there is always room for one group more, with a value there is if the groups are not
nested too deep. -/
def HasRoom (source : Source) (depth : Nat) (t : Requirement) : Prop :=
  source = .text ∨ depth + t.groupNesting ≤ groupLimit

theorem hasRoom_parts {source : Source} {depth : Nat} {logic : Logic} {first : Requirement}
    {rest : List Requirement} (h : HasRoom source depth (.group logic first rest)) :
    tooDeep source depth = false ∧ ∀ p ∈ first :: rest, HasRoom source (depth + 1) p := by
  rcases h with rfl | h
  · exact ⟨rfl, fun _ _ => Or.inl rfl⟩
  · have hpart : ∀ p ∈ first :: rest, p.groupNesting < (group logic first rest).groupNesting :=
      fun _ hp => groupNesting_lt_of_mem hp
    have hfirst := hpart first List.mem_cons_self
    refine ⟨?_, fun p hp => Or.inr ?_⟩
    · have hlt : ¬ groupLimit ≤ depth := by omega
      simp [tooDeep, hlt]
    · have := hpart p hp
      omega

/-- **A requirement is read from its document.** -/
theorem read_toJson (source : Source) (t : Requirement) :
    ∀ depth, HasRoom source depth t → read source depth t.toJson = .ok t := by
  -- the parts of a group are read one group further in, where there is room for one less
  induction t using inductionOnParts with
  | step t ih =>
    intro depth hroom
    cases t with
    | group logic first rest =>
      obtain ⟨hdeep, hparts⟩ := hasRoom_parts hroom
      have hread : ∀ p ∈ first :: rest, read source (depth + 1) p.toJson = .ok p :=
        fun p hp => ih p hp (depth + 1) (hparts p hp)
      obtain ⟨hfirst, hrest⟩ := List.forall_mem_cons.mp hread
      rw [toJson]
      refine (read_group_eq_ok_iff rfl).mpr ⟨hdeep, logic, first, rest, first.toJson,
        listToJson rest, rfl, ?_, rfl, hfirst, ?_⟩
      · exact required_of_find? rfl (named_name Logic.ofName?_name logic)
      · rw [listToJson_eq]
        exact List.forall₂_map_left_iff.mpr (List.forall₂_same.mpr hrest)
    | course id minGrade may must =>
      rw [toJson]
      refine (read_leaf_eq_ok_iff (k := .course) rfl rfl).mpr ?_
      simp only [apply_eq_ok_iff, combine_eq_ok_iff]
      refine ⟨_, must, ⟨_, may, ⟨id, minGrade, ?_, ?_, rfl⟩, ?_, rfl⟩, ?_, rfl⟩
      · exact required_of_find? rfl (readLabel_text id)
      · refine optional_of_find? ?_ (fun g _ => readGrade_toJson source g)
          (fun _ => by simp [Grade.toJson, Json.float])
        simp [typeField, Table.find?_append]
      · refine optional_of_find? ?_ (fun b _ => flag_bool source b) (fun _ => by simp)
        simp [typeField, Table.find?_append]
      · refine optional_of_find? ?_ (fun b _ => flag_bool source b) (fun _ => by simp)
        simp [typeField, Table.find?_append]
    | credits amount scope =>
      rw [toJson]
      refine (read_leaf_eq_ok_iff (k := .creditCount) rfl rfl).mpr ?_
      refine combine_eq_ok_iff.mpr ⟨amount, scope, ?_, ?_, rfl⟩
      · exact required_of_find? rfl (readAmount_float source amount)
      · exact readScope_append [typeField .creditCount, ("credits", .float amount.value)] rfl rfl rfl
    | courses amount scope =>
      rw [toJson]
      refine (read_leaf_eq_ok_iff (k := .courseCount) rfl rfl).mpr ?_
      refine combine_eq_ok_iff.mpr ⟨amount, scope, ?_, ?_, rfl⟩
      · exact required_of_find? rfl (readAmount_float source amount)
      · exact readScope_append [typeField .courseCount, ("count", .float amount.value)] rfl rfl rfl
    | standing year =>
      rw [toJson]
      refine (read_leaf_eq_ok_iff (k := .standing) rfl rfl).mpr ?_
      exact map_eq_ok_iff.mpr ⟨year, required_of_find? rfl (named_name Standing.ofName?_name year), rfl⟩
    | program name =>
      rw [toJson]
      refine (read_leaf_eq_ok_iff (k := .program) rfl rfl).mpr ?_
      exact map_eq_ok_iff.mpr ⟨name, required_of_find? rfl (readLabel_text name), rfl⟩
    | permission note =>
      rw [toJson]
      refine (read_leaf_eq_ok_iff (k := .permission) rfl rfl).mpr ?_
      exact map_eq_ok_iff.mpr ⟨note, required_of_find? rfl (readLabel_text note), rfl⟩
    | other note =>
      rw [toJson]
      refine (read_leaf_eq_ok_iff (k := .other) rfl rfl).mpr ?_
      exact map_eq_ok_iff.mpr ⟨note, required_of_find? rfl (readLabel_text note), rfl⟩

/-! ## The document can be written out -/

section Proper

open Json

variable {longest : Nat}

theorem proper_oneOrMany {α : Type} {write : α → Json} (h : ∀ a, Proper longest (write a))
    (d : OneOrMany α) : Proper longest (d.toJson write) := by
  cases d with
  | one a => exact h a
  | many as =>
    refine .array fun j hj => ?_
    obtain ⟨a, -, rfl⟩ := List.mem_map.mp hj
    exact h a

theorem proper_fieldIfAny {α : Type} {name : String} {write : α → Json}
    (h : ∀ a, Proper longest (write a)) (o : Option α) :
    ∀ f ∈ fieldIfAny name write o, Proper longest f.2 := by
  rintro f hf
  obtain ⟨a, -, rfl⟩ := mem_fieldIfAny.mp hf
  exact h a

theorem proper_float (hlongest : 17 ≤ longest) (x : Binary64) : Proper longest (.float x) :=
  .number (n := .float x) hlongest

theorem proper_scope_fields (hlongest : 17 ≤ longest) (scope : Scope) :
    ∀ f ∈ scope.fields, Proper longest f.2 := by
  intro f hf
  rcases List.mem_append.mp hf with hf | hf
  · rcases List.mem_append.mp hf with hf | hf
    · exact proper_fieldIfAny (proper_oneOrMany .text) scope.department f hf
    · exact proper_fieldIfAny (proper_oneOrMany fun l => .text l.name) scope.level f hf
  · exact proper_fieldIfAny (fun g => proper_float hlongest g.percent) scope.minGrade f hf

theorem keys_scope_fields_sublist (scope : Scope) :
    (Table.keys scope.fields).Sublist ["department", "level", "minGrade"] := by
  rw [Scope.fields, Table.keys_append, Table.keys_append]
  exact ((keys_fieldIfAny_sublist _).append (keys_fieldIfAny_sublist _)).append
    (keys_fieldIfAny_sublist _)

theorem proper_typeField (k : Kind) : Proper longest (typeField k).2 := .text k.name

/-- A requirement that says one text. -/
theorem proper_told (k : Kind) {name : String} (s : String) (hne : "type" ≠ name) :
    Proper longest (.object [typeField k, (name, .text s)]) := by
  refine .object (by simp [typeField, hne]) ?_
  simp [proper_typeField, Proper.text]

/-- A requirement of an amount. -/
theorem proper_amount (hlongest : 17 ≤ longest) (k : Kind) {name : String} (x : Binary64)
    (scope : Scope) (hnames : ["type", name, "department", "level", "minGrade"].Nodup) :
    Proper longest (.object (typeField k :: (name, .float x) :: scope.fields)) := by
  refine .object ?_ ?_
  · exact hnames.sublist (((keys_scope_fields_sublist scope).cons_cons name).cons_cons "type")
  · exact List.forall_mem_cons.mpr ⟨proper_typeField k, List.forall_mem_cons.mpr
      ⟨proper_float hlongest x, proper_scope_fields hlongest scope⟩⟩

/-- **The document of a requirement can be written out.** -/
theorem proper_toJson (hlongest : 17 ≤ longest) (t : Requirement) : Proper longest t.toJson := by
  induction t using inductionOnParts with
  | step t ih =>
    cases t with
    | group logic first rest =>
      rw [toJson, listToJson_eq]
      have hnames : ["type", "logic", "children"].Nodup := by decide
      refine .object hnames ?_
      have hparts : ∀ j ∈ (first :: rest).map toJson, Proper longest j := by
        intro j hj
        obtain ⟨p, hp, rfl⟩ := List.mem_map.mp hj
        exact ih p hp
      simp only [List.forall_mem_cons, List.not_mem_nil, false_imp_iff, implies_true, and_true]
      exact ⟨proper_typeField .group, .text logic.name, .array hparts⟩
    | course id minGrade may must =>
      rw [toJson]
      have hkeys : (Table.keys (fieldIfAny "minGrade" Grade.toJson minGrade
          ++ fieldIfAny "canBeTakenConcurrently" .bool may
          ++ fieldIfAny "mustBeTakenConcurrently" .bool must)).Sublist
          ["minGrade", "canBeTakenConcurrently", "mustBeTakenConcurrently"] := by
        rw [Table.keys_append, Table.keys_append]
        exact ((keys_fieldIfAny_sublist _).append (keys_fieldIfAny_sublist _)).append
          (keys_fieldIfAny_sublist _)
      have hnames : ["type", "course", "minGrade", "canBeTakenConcurrently",
          "mustBeTakenConcurrently"].Nodup := by decide
      refine .object (hnames.sublist ((hkeys.cons_cons "course").cons_cons "type")) ?_
      refine List.forall_mem_cons.mpr
        ⟨proper_typeField .course, List.forall_mem_cons.mpr ⟨.text id.text, ?_⟩⟩
      intro f hf
      rcases List.mem_append.mp hf with hf | hf
      · rcases List.mem_append.mp hf with hf | hf
        · exact proper_fieldIfAny (fun g => proper_float hlongest g.percent) minGrade f hf
        · exact proper_fieldIfAny .bool may f hf
      · exact proper_fieldIfAny .bool must f hf
    | credits amount scope =>
      rw [toJson]
      exact proper_amount hlongest .creditCount amount.value scope (by decide)
    | courses amount scope =>
      rw [toJson]
      exact proper_amount hlongest .courseCount amount.value scope (by decide)
    | standing year =>
      rw [toJson]
      exact proper_told .standing year.name (by decide)
    | program name =>
      rw [toJson]
      exact proper_told .program name.text (by decide)
    | permission note =>
      rw [toJson]
      exact proper_told .permission note.text (by decide)
    | other note =>
      rw [toJson]
      exact proper_told .other note.text (by decide)

end Proper

/-! ## The document is not nested deeper than what was read -/

section Nesting

variable {source : Source}

theorem nesting_oneOrMany_le {α : Type} {one many : Choice} {read : Json → Reading α}
    {write : α → Json} {j : Json} {d : OneOrMany α} (hwrite : ∀ a, (write a).nesting = 0)
    (h : readOneOrMany one many read j = .ok d) : (d.toJson write).nesting ≤ j.nesting := by
  rcases readOneOrMany_eq_ok h with ⟨a, rfl, -⟩ | ⟨items, as, rfl, rfl, hall⟩
  · rw [OneOrMany.toJson, hwrite]
    exact Nat.zero_le _
  · cases hall with
    | nil => exact Nat.zero_le _
    | cons _ _ =>
      refine Json.nesting_array_le (Json.nesting_array_pos (List.cons_ne_nil _ _)) fun j hj => ?_
      obtain ⟨a, -, rfl⟩ := List.mem_map.mp hj
      rw [hwrite]
      exact Json.nesting_array_pos (List.cons_ne_nil _ _)

theorem nesting_fieldIfAny_lt {α : Type} {fields : Table String Json} {name : String}
    {read : Json → Reading α} {write : α → Json} {o : Option α}
    (h : optional fields name read = .ok o)
    (hle : ∀ j a, read j = .ok a → (write a).nesting ≤ j.nesting) :
    ∀ f ∈ Json.fieldIfAny name write o, f.2.nesting < (Json.object fields).nesting := by
  intro f hf
  obtain ⟨a, rfl, rfl⟩ := Json.mem_fieldIfAny.mp hf
  obtain ⟨j, hj, -, ha⟩ := optional_eq_ok_some_iff.mp h
  exact Nat.lt_of_le_of_lt (hle j a ha) (Json.nesting_lt_of_find? hj)

theorem nesting_scope_lt {fields : Table String Json} {scope : Scope}
    (h : readScope source fields = .ok scope) :
    ∀ f ∈ scope.fields, f.2.nesting < (Json.object fields).nesting := by
  obtain ⟨hdepartment, hlevel, hgrade⟩ := readScope_eq_ok_iff.mp h
  intro f hf
  rcases List.mem_append.mp hf with hf | hf
  · rcases List.mem_append.mp hf with hf | hf
    · exact nesting_fieldIfAny_lt hdepartment (fun _ _ => nesting_oneOrMany_le fun _ => rfl) f hf
    · exact nesting_fieldIfAny_lt hlevel (fun _ _ => nesting_oneOrMany_le fun _ => rfl) f hf
  · exact nesting_fieldIfAny_lt hgrade (fun _ _ _ => Nat.zero_le _) f hf

/-- **The document of what is read is not nested deeper.** -/
theorem nesting_toJson_le (t : Requirement) :
    ∀ depth j, read source depth j = .ok t → t.toJson.nesting ≤ j.nesting := by
  induction t using inductionOnParts with
  | step t ih =>
    intro depth j h
    obtain ⟨fields, k, rfl, htype⟩ := exists_kind_of_read h
    have hpos : 0 < (Json.object fields).nesting :=
      Json.nesting_object_pos (List.ne_nil_of_mem (Table.mem_of_find? htype))
    cases t with
    | group logic first rest =>
      obtain ⟨-, _, _, _, item, items, ht, -, hitems, hfirst, hrest⟩ :=
        (read_group_eq_ok_iff (type_of_read h)).mp h
      obtain ⟨rfl, rfl, rfl⟩ := Requirement.group.inj ht
      have hread : List.Forall₂ (fun j t => read source (depth + 1) j = .ok t) (item :: items)
          (first :: rest) := .cons hfirst hrest
      rw [toJson, listToJson_eq]
      refine Json.nesting_object_le hpos ?_
      simp only [List.forall_mem_cons, List.not_mem_nil, false_imp_iff, implies_true, and_true]
      refine ⟨hpos, hpos, Nat.lt_of_le_of_lt ?_ (Json.nesting_lt_of_find? hitems)⟩
      refine Json.nesting_array_le (Json.nesting_array_pos (List.cons_ne_nil _ _)) fun j hj => ?_
      obtain ⟨p, hp, rfl⟩ := List.mem_map.mp (List.map_cons ▸ hj)
      obtain ⟨i, hi, hread⟩ := exists_rel_of_mem hread.flip hp
      exact Nat.lt_of_le_of_lt (ih p hp (depth + 1) i hread) (Json.nesting_lt_of_mem_items hi)
    | course id minGrade may must =>
      -- a course holds no array and no object
      rw [toJson]
      refine Json.nesting_object_le hpos fun f hf => ?_
      have hflat : f.2.nesting = 0 := by
        simp only [List.mem_cons, List.mem_append, Json.mem_fieldIfAny] at hf
        rcases hf with rfl | rfl | (⟨_, -, rfl⟩ | ⟨_, -, rfl⟩) | ⟨_, -, rfl⟩ <;> rfl
      rwa [hflat]
    | credits amount scope =>
      rw [toJson]
      refine Json.nesting_object_le hpos ?_
      exact List.forall_mem_cons.mpr ⟨hpos, List.forall_mem_cons.mpr
        ⟨hpos, nesting_scope_lt (readScope_of_read_credits h)⟩⟩
    | courses amount scope =>
      rw [toJson]
      refine Json.nesting_object_le hpos ?_
      exact List.forall_mem_cons.mpr ⟨hpos, List.forall_mem_cons.mpr
        ⟨hpos, nesting_scope_lt (readScope_of_read_courses h)⟩⟩
    | _ =>
      rw [toJson]
      exact hpos

/-- The document of a tree is nested at least as deep as the tree. -/
theorem groupNesting_le_nesting_toJson (t : Requirement) : t.groupNesting ≤ t.toJson.nesting := by
  induction t using inductionOnParts with
  | step t ih =>
    cases t with
    | group logic first rest =>
      have hchildren : (Json.array ((first :: rest).map toJson)).nesting
          < (group logic first rest).toJson.nesting := by
        rw [toJson, listToJson_eq]
        exact Json.nesting_lt_of_mem_fields (f := ("children", _)) (by simp)
      obtain ⟨n, hn⟩ := Nat.exists_eq_succ_of_ne_zero (Nat.ne_of_gt (Nat.zero_lt_of_lt hchildren))
      rw [hn]
      refine groupNesting_group_le_iff.mpr fun p hp => ?_
      have hitem := Json.nesting_lt_of_mem_items (List.mem_map_of_mem (f := toJson) hp)
      have hpart := ih p hp
      omega
    | _ => exact Nat.zero_le _

/-- A value that is read has no more groups nested than there is room for. -/
theorem groupNesting_le_of_read (t : Requirement) :
    ∀ depth j, depth ≤ groupLimit → read .value depth j = .ok t →
      depth + t.groupNesting ≤ groupLimit := by
  induction t using inductionOnParts with
  | step t ih =>
    intro depth j hdepth h
    cases t with
    | group logic first rest =>
      obtain ⟨fields, k, rfl, -⟩ := exists_kind_of_read h
      obtain ⟨hdeep, _, _, _, item, items, ht, -, -, hfirst, hrest⟩ :=
        (read_group_eq_ok_iff (type_of_read h)).mp h
      obtain ⟨rfl, rfl, rfl⟩ := Requirement.group.inj ht
      -- the group was read, so it does not stand too deep itself
      have hlt : depth < groupLimit := by
        refine Nat.not_le.mp fun hle => ?_
        rw [tooDeep, decide_eq_true hle] at hdeep
        exact absurd hdeep (by simp)
      obtain ⟨k, hk⟩ : ∃ k, groupLimit = depth + (k + 1) := ⟨groupLimit - depth - 1, by omega⟩
      have hread : List.Forall₂ (fun j t => read .value (depth + 1) j = .ok t) (item :: items)
          (first :: rest) := .cons hfirst hrest
      have hparts : ∀ p ∈ first :: rest, p.groupNesting ≤ k := by
        intro p hp
        obtain ⟨i, -, hread⟩ := exists_rel_of_mem hread.flip hp
        have := ih p hp (depth + 1) i hlt hread
        omega
      have hgroup : (group logic first rest).groupNesting ≤ k + 1 :=
        groupNesting_group_le_iff.mpr hparts
      omega
    | _ => exact hdepth

end Nesting

end Requirement

end Curriculum
