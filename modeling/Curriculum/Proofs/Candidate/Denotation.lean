import Curriculum.Proofs.Candidate.Grammar
import Curriculum.Proofs.Reading.Success
import Curriculum.Record.Candidate
import Curriculum.Requirement.Json

/-!
# What a candidate denotes

A candidate is checked by rules of its own and then read like any other document. Here both sides
are tied to a third one: the requirement that a document stands for, field by field
(`Candidate.Denotes`). Nothing is converted but numbers, each of which stands for the floating-point
number nearest to it. A value of one of the forms of the grammar is read as what it stands for.
-/

namespace Curriculum

namespace Candidate

/-! ## Denotation -/

/-- A number stands for the floating-point number nearest to it. -/
def StandsFor (j : Json) (x : Binary64) : Prop := ∃ n, j = .number n ∧ n.toBinary64? = some x

/-- A field is absent, or it is there and gives what is related to it. -/
def GivesIfAny {α : Type} (fields : Table String Json) (name : String) (gives : Json → α → Prop) :
    Option α → Prop
  | none => fields.find? name = none
  | some a => ∃ j, fields.find? name = some j ∧ gives j a

/-- The fields that say which courses count, and what they say. -/
structure DenotesScope (fields : Table String Json) (scope : Scope) : Prop where
  department : GivesIfAny fields "department" (fun j d => j = OneOrMany.toJson .text d)
    scope.department
  level : GivesIfAny fields "level" (fun j l => j = OneOrMany.toJson (fun l => .text l.name) l)
    scope.level
  minGrade : GivesIfAny fields "minGrade" (fun j g => StandsFor j g.percent) scope.minGrade

/-- The requirement that a document stands for. -/
inductive Denotes : Json → Requirement → Prop
  | group {fields : Table String Json} {logic : Logic} {j : Json} {items : List Json}
      {first : Requirement} {rest : List Requirement}
      (type : fields.find? "type" = some (.text "group"))
      (asked : fields.find? "logic" = some (.text logic.name))
      (children : fields.find? "children" = some (.array (j :: items)))
      (head : Denotes j first) (tail : List.Forall₂ Denotes items rest) :
      Denotes (.object fields) (.group logic first rest)
  | course {fields : Table String Json} {id : Label} {minGrade : Option Grade}
      {mayOverlap mustOverlap : Option Bool}
      (type : fields.find? "type" = some (.text "course"))
      (course : fields.find? "course" = some (.text id.text))
      (grade : GivesIfAny fields "minGrade" (fun j g => StandsFor j g.percent) minGrade)
      (may : GivesIfAny fields "canBeTakenConcurrently" (fun j b => j = .bool b) mayOverlap)
      (must : GivesIfAny fields "mustBeTakenConcurrently" (fun j b => j = .bool b) mustOverlap) :
      Denotes (.object fields) (.course id minGrade mayOverlap mustOverlap)
  | credits {fields : Table String Json} {amount : Amount} {scope : Scope}
      (type : fields.find? "type" = some (.text "credit_count"))
      (credits : GivesIfAny fields "credits" StandsFor (some amount.value))
      (counting : DenotesScope fields scope) : Denotes (.object fields) (.credits amount scope)
  | courses {fields : Table String Json} {amount : Amount} {scope : Scope}
      (type : fields.find? "type" = some (.text "course_count"))
      (count : GivesIfAny fields "count" StandsFor (some amount.value))
      (counting : DenotesScope fields scope) : Denotes (.object fields) (.courses amount scope)
  | standing {fields : Table String Json} {year : Standing}
      (type : fields.find? "type" = some (.text "standing"))
      (standing : fields.find? "standing" = some (.text year.name)) :
      Denotes (.object fields) (.standing year)
  | program {fields : Table String Json} {name : Label}
      (type : fields.find? "type" = some (.text "program"))
      (program : fields.find? "program" = some (.text name.text)) :
      Denotes (.object fields) (.program name)
  | permission {fields : Table String Json} {note : Label}
      (type : fields.find? "type" = some (.text "permission"))
      (told : fields.find? "note" = some (.text note.text)) :
      Denotes (.object fields) (.permission note)
  | other {fields : Table String Json} {note : Label}
      (type : fields.find? "type" = some (.text "other"))
      (told : fields.find? "note" = some (.text note.text)) :
      Denotes (.object fields) (.other note)

/-- Some groups stand inside each other, from the root of a document inwards. -/
inductive NestsGroups : Nat → Json → Prop
  | zero (j : Json) : NestsGroups 0 j
  | succ {n : Nat} {fields : Table String Json} {items : List Json} {p : Json}
      (type : fields.find? "type" = some (.text "group"))
      (children : fields.find? "children" = some (.array items))
      (mem : p ∈ items) (inner : NestsGroups n p) : NestsGroups (n + 1) (.object fields)

/-- The requirements of a course that a document stands for. A tree is absent where its field is
absent or null. -/
structure DenotesRecord (j : Json) (r : CourseRequirements) : Prop where
  department : j.field? "department" = some (.text r.department)
  code : j.field? "code" = some (.text r.code)
  absent : ∀ s, r.tree s = none → j.field? s.key = none ∨ j.field? s.key = some .null
  present : ∀ s t, r.tree s = some t → ∃ v, j.field? s.key = some v ∧ Denotes v t

/-! ## Single values -/

theorem readLabel_of_telling {j : Json} (h : IsTelling j) :
    ∃ l, Requirement.readLabel j = .ok l ∧ j = .text l.text := by
  obtain ⟨s, rfl, c, hc, -⟩ := h
  have hne : s ≠ "" := by
    rintro rfl
    exact absurd hc (by simp)
  refine ⟨⟨s, hne⟩, ?_, rfl⟩
  rw [Requirement.readLabel, dif_pos hne]

theorem number_of_finite {n : Number} (h : n.IsFinite) :
    ∃ x, Reading.number .value (.number n) = .ok x ∧ n.toBinary64? = some x := by
  obtain ⟨x, hx, -⟩ := Number.isFinite_iff.mp h
  refine ⟨x, ?_, hx⟩
  cases n with
  | int k =>
    have hx' : Binary64.ofInt? k = some x := hx
    rw [Reading.number, Reading.nearest?, hx']
    rfl
  | float y =>
    obtain rfl := Option.some.inj hx
    rfl

theorem readGrade_of_grade {j : Json} (h : IsGrade j) :
    ∃ g, Requirement.readGrade .value j = .ok g ∧ StandsFor j g.percent := by
  obtain ⟨n, rfl, hfinite, hlow, hhigh⟩ := h
  obtain ⟨x, hread, hx⟩ := number_of_finite hfinite
  have hle := Number.le_of_toBinary64? hx Number.toBinary64?_hundred hhigh
  have hge := Number.le_of_toBinary64? Number.toBinary64?_zero hx hlow
  refine ⟨⟨x, hle, hge⟩, ?_, n, rfl, hx⟩
  simp only [Requirement.readGrade, hread, dif_pos hle, dif_pos hge]

theorem readAmount_of_amount {j : Json} (h : IsAmount j) :
    ∃ a, Requirement.readAmount .value j = .ok a ∧ StandsFor j a.value := by
  obtain ⟨n, rfl, hfinite, hpos⟩ := h
  obtain ⟨x, hread, hx⟩ := number_of_finite hfinite
  have hlt := Number.zero_lt_of_toBinary64? hx hpos
  refine ⟨⟨x, hlt⟩, ?_, n, rfl, hx⟩
  simp only [Requirement.readAmount, hread, dif_pos hlt]

theorem flag_of_flag {source : Source} {j : Json} (h : IsFlag j) :
    ∃ b, Reading.flag source j = .ok b ∧ j = .bool b := by
  obtain ⟨b, rfl⟩ := h
  exact ⟨b, rfl, rfl⟩

theorem text_of_text {j : Json} (h : IsText j) : ∃ s, Reading.text j = .ok s ∧ j = .text s := by
  obtain ⟨s, rfl⟩ := h
  exact ⟨s, rfl, rfl⟩

/-- A text that names a member of a set is read as that member. -/
theorem named_of_isOneOf {α : Type} (all : List α) {name : α → String} {names : List String}
    (hnames : all.map name = names) {j : Json} (h : IsOneOf names j) :
    ∃ a, Reading.named (memberNamed? all name) j = .ok a ∧ j = .text (name a) := by
  obtain ⟨s, hs, rfl⟩ := h
  rw [← hnames, ← memberNamed?_isSome] at hs
  obtain ⟨a, ha⟩ := Option.isSome_iff_exists.mp hs
  have hname := List.find?_some ha
  rw [decide_eq_true_eq] at hname
  refine ⟨a, ?_, by rw [hname]⟩
  rw [Reading.named, ha]
  rfl

theorem logic_of_isOneOf {j : Json} (h : IsOneOf ["ALL_OF", "ONE_OF", "TWO_OF"] j) :
    ∃ l, Reading.named Logic.ofName? j = .ok l ∧ j = .text l.name :=
  named_of_isOneOf Logic.all rfl h

theorem standing_of_isOneOf {j : Json} (h : IsOneOf ["1st", "2nd", "3rd", "4th", "graduate"] j) :
    ∃ s, Reading.named Standing.ofName? j = .ok s ∧ j = .text s.name :=
  named_of_isOneOf Standing.all rfl h

theorem level_of_yearLevel {j : Json} (h : IsYearLevel j) :
    ∃ l, Reading.named Level.ofName? j = .ok l ∧ j = .text l.name :=
  named_of_isOneOf Level.all rfl h

theorem exists_forall₂ {α : Type} {P : Json → Prop} {R : Json → α → Prop}
    (h : ∀ j, P j → ∃ a, R j a) {js : List Json} (hall : ∀ j ∈ js, P j) :
    ∃ as, List.Forall₂ R js as := by
  induction js with
  | nil => exact ⟨[], .nil⟩
  | cons j rest ih =>
    obtain ⟨hj, hrest⟩ := List.forall_mem_cons.mp hall
    obtain ⟨a, ha⟩ := h j hj
    obtain ⟨as, has⟩ := ih hrest
    exact ⟨a :: as, .cons ha has⟩

/-- What is read as one thing or as several is read as what its document says. -/
theorem readOneOrMany_of_oneOrSome {α : Type} (one many : Choice) {form : Json → Prop}
    {read : Json → Reading α} (write : α → Json)
    (hform : ∀ j, form j → ∃ a, read j = .ok a ∧ j = write a)
    (harray : ∀ items a, read (.array items) ≠ .ok a) {j : Json} (h : OneOrSome form j) :
    ∃ d, Requirement.readOneOrMany one many read j = .ok d ∧ j = OneOrMany.toJson write d := by
  rcases h with h | ⟨items, rfl, -, hall⟩
  · obtain ⟨a, ha, hj⟩ := hform j h
    refine ⟨.one a, ?_, hj⟩
    simp only [Requirement.readOneOrMany, ha]
  · -- an array is not one thing, so its items are read
    obtain ⟨as, has⟩ := exists_forall₂ hform hall
    have hread : Reading.items read 0 items = .ok as :=
      Reading.items_eq_ok_iff.mpr (has.imp fun _ _ h => h.1)
    have hwrite : items = as.map write := by
      clear hread hall
      induction has with
      | nil => rfl
      | cons h _ ih => rw [List.map_cons, ← ih, h.2]
    refine ⟨.many as, ?_, congrArg Json.array hwrite⟩
    cases hone : read (.array items) with
    | ok a => exact absurd hone (harray items a)
    | faulty fs => simp only [Requirement.readOneOrMany, hone, Reading.list, hread]

/-! ## Fields -/

variable {fields : Table String Json} {name : String}

theorem required_of_has {α : Type} {form : Json → Prop} {read : Json → Reading α}
    {gives : Json → α → Prop} (hform : ∀ {j}, form j → ∃ a, read j = .ok a ∧ gives j a)
    (h : Has fields name form) :
    ∃ a, Reading.required fields name read = .ok a ∧ ∃ j, fields.find? name = some j ∧ gives j a := by
  obtain ⟨j, hj, hf⟩ := h
  obtain ⟨a, ha, hgives⟩ := hform hf
  exact ⟨a, Reading.required_eq_ok_iff.mpr ⟨j, hj, ha⟩, j, hj, hgives⟩

theorem optional_of_mayHave {α : Type} {form : Json → Prop} {read : Json → Reading α}
    {gives : Json → α → Prop} (hform : ∀ {j}, form j → ∃ a, read j = .ok a ∧ gives j a)
    (hnull : ¬ form .null) (h : MayHave fields name form) :
    ∃ o, Reading.optional fields name read = .ok o ∧ GivesIfAny fields name gives o := by
  cases hj : fields.find? name with
  | none => exact ⟨none, Reading.optional_eq_ok_none_iff.mpr (Or.inl hj), hj⟩
  | some j =>
    obtain ⟨a, ha, hgives⟩ := hform (h j hj)
    have hne : j ≠ .null := by
      rintro rfl
      exact hnull (h .null hj)
    exact ⟨some a, Reading.optional_eq_ok_some_iff.mpr ⟨j, hj, hne, ha⟩, j, hj, hgives⟩

theorem readScope_of_isScope (h : IsScope fields) :
    ∃ scope, Requirement.readScope .value fields = .ok scope ∧ DenotesScope fields scope := by
  obtain ⟨d, hd, hdepartment⟩ := optional_of_mayHave
    (readOneOrMany_of_oneOrSome .text .texts .text (fun _ => text_of_text) (by simp [Reading.text]))
    (by simp [OneOrSome, IsText]) h.department
  obtain ⟨l, hl, hlevel⟩ := optional_of_mayHave
    (readOneOrMany_of_oneOrSome .level .levels (fun l : Level => .text l.name)
      (fun _ => level_of_yearLevel) (by simp [Reading.named]))
    (by simp [OneOrSome, IsYearLevel, IsOneOf]) h.level
  obtain ⟨g, hg, hgrade⟩ := optional_of_mayHave readGrade_of_grade (by simp [IsGrade]) h.minGrade
  refine ⟨⟨d, l, g⟩, ?_, hdepartment, hlevel, hgrade⟩
  simp only [Requirement.readScope, Reading.apply_eq_ok_iff, Reading.combine_eq_ok_iff]
  exact ⟨_, g, ⟨d, l, hd, hl, rfl⟩, hg, rfl⟩

end Candidate

end Curriculum
