import Curriculum.Proofs.Binary64.Order
import Curriculum.Proofs.Candidate.Parts

/-!
# The grammar of requirements

The check of a candidate goes rule by rule and stops at the first one that is broken. Here is what
it is for: which documents are requirements at all, written down without an order in which anything
is looked at (`Candidate.Grammatical`). A node is an object with one of eight tags in its field
`type`, and its other fields have to be of the form that the tag asks for. A field that may be left
out has to be of its form when it is there, null being no such form; other fields say nothing.

> `check_eq_none_iff_grammatical`: a candidate passes the check exactly when it is grammatical.
-/

namespace Curriculum

namespace Candidate

/-! ## Forms of values -/

/-- One of some texts. -/
def IsOneOf (names : List String) (j : Json) : Prop := ∃ s ∈ names, j = .text s

/-- A text with a character that is not blank. -/
def IsTelling (j : Json) : Prop := ∃ s, j = .text s ∧ ∃ c ∈ s.toList, Text.isBlank c = false

/-- Any text. -/
def IsText (j : Json) : Prop := ∃ s, j = .text s

/-- A truth value. -/
def IsFlag (j : Json) : Prop := ∃ b, j = .bool b

/-- A finite number from 0 to 100. -/
def IsGrade (j : Json) : Prop :=
  ∃ n, j = .number n ∧ n.IsFinite ∧ (Number.int 0).le n = true ∧ n.le (.int 100) = true

/-- A finite number greater than 0. -/
def IsAmount (j : Json) : Prop := ∃ n, j = .number n ∧ n.IsFinite ∧ (Number.int 0).lt n = true

/-- A value of a form, or an array of such values that is not empty. -/
def OneOrSome (form : Json → Prop) (j : Json) : Prop :=
  form j ∨ ∃ items, j = .array items ∧ items ≠ [] ∧ ∀ i ∈ items, form i

/-- One of the year levels. -/
def IsYearLevel : Json → Prop := IsOneOf ["100", "200", "300", "400"]

/-! ## Forms of nodes -/

/-- A field is there and has a form. -/
def Has (fields : Table String Json) (name : String) (form : Json → Prop) : Prop :=
  ∃ j, fields.find? name = some j ∧ form j

/-- A field has a form if it is there. -/
def MayHave (fields : Table String Json) (name : String) (form : Json → Prop) : Prop :=
  ∀ j, fields.find? name = some j → form j

/-- The fields that say which courses count. -/
structure IsScope (fields : Table String Json) : Prop where
  department : MayHave fields "department" (OneOrSome IsText)
  level : MayHave fields "level" (OneOrSome IsYearLevel)
  minGrade : MayHave fields "minGrade" IsGrade

/-- The documents that are requirements. -/
inductive Grammatical : Json → Prop
  | group {fields : Table String Json} {items : List Json}
      (type : fields.find? "type" = some (.text "group"))
      (logic : Has fields "logic" (IsOneOf ["ALL_OF", "ONE_OF", "TWO_OF"]))
      (children : fields.find? "children" = some (.array items))
      (nonempty : items ≠ [])
      (parts : ∀ p ∈ items, Grammatical p) : Grammatical (.object fields)
  | course {fields : Table String Json}
      (type : fields.find? "type" = some (.text "course"))
      (course : Has fields "course" IsTelling)
      (minGrade : MayHave fields "minGrade" IsGrade)
      (mayOverlap : MayHave fields "canBeTakenConcurrently" IsFlag)
      (mustOverlap : MayHave fields "mustBeTakenConcurrently" IsFlag) :
      Grammatical (.object fields)
  | creditCount {fields : Table String Json}
      (type : fields.find? "type" = some (.text "credit_count"))
      (credits : Has fields "credits" IsAmount)
      (scope : IsScope fields) : Grammatical (.object fields)
  | courseCount {fields : Table String Json}
      (type : fields.find? "type" = some (.text "course_count"))
      (count : Has fields "count" IsAmount)
      (scope : IsScope fields) : Grammatical (.object fields)
  | standing {fields : Table String Json}
      (type : fields.find? "type" = some (.text "standing"))
      (standing : Has fields "standing" (IsOneOf ["1st", "2nd", "3rd", "4th", "graduate"])) :
      Grammatical (.object fields)
  | program {fields : Table String Json}
      (type : fields.find? "type" = some (.text "program"))
      (program : Has fields "program" IsTelling) : Grammatical (.object fields)
  | permission {fields : Table String Json}
      (type : fields.find? "type" = some (.text "permission"))
      (note : Has fields "note" IsTelling) : Grammatical (.object fields)
  | other {fields : Table String Json}
      (type : fields.find? "type" = some (.text "other"))
      (note : Has fields "note" IsTelling) : Grammatical (.object fields)

/-! ## The rules for single values -/

theorem memberNamed?_isSome {α : Type} {all : List α} {name : α → String} {s : String} :
    (memberNamed? all name s).isSome = true ↔ s ∈ all.map name := by
  rw [memberNamed?, List.find?_isSome, List.mem_map]
  simp only [decide_eq_true_eq]

theorem isNamed_iff {α : Type} {all : List α} {name : α → String} {names : List String}
    (hnames : all.map name = names) (value : Option Json) :
    isNamed (memberNamed? all name) value = true ↔ ∃ j, value = some j ∧ IsOneOf names j := by
  subst hnames
  cases value with
  | none => simp [isNamed]
  | some j =>
    cases j with
    | text s => simp only [isNamed, memberNamed?_isSome, IsOneOf]; simp
    | _ => simp [isNamed, IsOneOf]

theorem isTelling_iff (value : Option Json) :
    isTelling value = true ↔ ∃ j, value = some j ∧ IsTelling j := by
  cases value with
  | none => simp [isTelling]
  | some j =>
    cases j with
    | text s => simp [isTelling, IsTelling, Text.saysSomething]
    | _ => simp [isTelling, IsTelling]

theorem finite?_eq_some_iff {value : Option Json} {n : Number} :
    finite? value = some n ↔ value = some (.number n) ∧ n.IsFinite := by
  rw [Number.isFinite_iff]
  cases value with
  | none => simp [finite?]
  | some j =>
    cases j with
    | number m =>
      rw [finite?]
      split
      · next x hx =>
        split
        · next hfinite =>
          constructor
          · rintro h
            obtain rfl := Option.some.inj h
            exact ⟨rfl, x, hx, hfinite⟩
          · rintro ⟨h, -⟩
            obtain rfl := Json.number.inj (Option.some.inj h)
            rfl
        · next hfinite =>
          refine iff_of_false (by simp) ?_
          rintro ⟨h, y, hy, hyf⟩
          obtain rfl := Json.number.inj (Option.some.inj h)
          obtain rfl := Option.some.inj (hx.symm.trans hy)
          exact hfinite hyf
      · next hx =>
        refine iff_of_false (by simp) ?_
        rintro ⟨h, y, hy, -⟩
        obtain rfl := Json.number.inj (Option.some.inj h)
        exact absurd (hx.symm.trans hy) (by simp)
    | _ => simp [finite?]

theorem isPositive_iff (value : Option Json) :
    isPositive value = true ↔ ∃ j, value = some j ∧ IsAmount j := by
  unfold isPositive
  split
  · next n hn =>
    obtain ⟨rfl, hfinite⟩ := finite?_eq_some_iff.mp hn
    simp [IsAmount, hfinite]
  · next hn =>
    refine iff_of_false (by simp) ?_
    rintro ⟨j, rfl, n, rfl, hfinite, -⟩
    exact absurd (hn.symm.trans (finite?_eq_some_iff.mpr ⟨rfl, hfinite⟩)) (by simp)

theorem gradeFlaw?_eq_none_iff (value : Option Json) :
    gradeFlaw? value = none ↔ ∀ j, value = some j → IsGrade j := by
  cases value with
  | none => simp [gradeFlaw?]
  | some j =>
    rw [gradeFlaw?]
    split
    · next n hn =>
      obtain ⟨h, hfinite⟩ := finite?_eq_some_iff.mp hn
      obtain rfl := Option.some.inj h
      simp [IsGrade, hfinite]
    · next hn =>
      refine iff_of_false (by simp) fun h => ?_
      obtain ⟨n, rfl, hfinite, -⟩ := h j rfl
      exact absurd (hn.symm.trans (finite?_eq_some_iff.mpr ⟨rfl, hfinite⟩)) (by simp)
    · simp

theorem flagFlaw?_eq_none_iff (flaw : Flaw) (value : Option Json) :
    flagFlaw? flaw value = none ↔ ∀ j, value = some j → IsFlag j := by
  cases value with
  | none => simp [flagFlaw?]
  | some j => cases j <;> simp [flagFlaw?, IsFlag]

theorem isText_iff (j : Json) : isText j = true ↔ IsText j := by
  cases j <;> simp [isText, IsText]

theorem isLevel_iff (j : Json) : isLevel j = true ↔ IsYearLevel j := by
  cases j with
  | text s =>
    rw [isLevel, Level.ofName?, memberNamed?_isSome]
    simp [IsYearLevel, IsOneOf, Level.all, Level.name]
  | _ => simp [isLevel, IsYearLevel, IsOneOf]

theorem oneOrSome_array {form : Json → Prop} (hform : ∀ items, ¬ form (.array items))
    (items : List Json) :
    OneOrSome form (.array items) ↔ items ≠ [] ∧ ∀ i ∈ items, form i := by
  constructor
  · rintro (h | ⟨items', h, hne, hall⟩)
    · exact absurd h (hform items)
    · obtain rfl := Json.array.inj h
      exact ⟨hne, hall⟩
  · rintro ⟨hne, hall⟩
    exact Or.inr ⟨items, rfl, hne, hall⟩

theorem require_eq_none_iff (holds : Bool) (flaw : Flaw) :
    require holds flaw = none ↔ holds = true := by
  cases holds <;> simp [require]

theorem require_all_eq_none_iff {form : Json → Prop} {holds : Json → Bool}
    (hform : ∀ j, holds j = true ↔ form j) (items : List Json) (flaw : Flaw) :
    require (items.all holds) flaw = none ↔ ∀ i ∈ items, form i := by
  simp only [require_eq_none_iff, List.all_eq_true, hform]

theorem departmentFlaw?_eq_none_iff (value : Option Json) :
    departmentFlaw? value = none ↔ ∀ j, value = some j → OneOrSome IsText j := by
  have hform : ∀ items, ¬ IsText (.array items) := by simp [IsText]
  cases value with
  | none => simp [departmentFlaw?]
  | some j =>
    simp only [Option.some.injEq, forall_eq']
    cases j with
    | text s => exact iff_of_true rfl (Or.inl ⟨s, rfl⟩)
    | array items =>
      rw [oneOrSome_array hform]
      cases items with
      | nil => simp [departmentFlaw?]
      | cons i rest =>
        show require ((i :: rest).all isText) .mixedDepartments = none ↔ _
        rw [require_all_eq_none_iff isText_iff]
        simp
    | _ => simp [departmentFlaw?, OneOrSome, IsText]

theorem levelFlaw?_eq_none_iff (value : Option Json) :
    levelFlaw? value = none ↔ ∀ j, value = some j → OneOrSome IsYearLevel j := by
  have hform : ∀ items, ¬ IsYearLevel (.array items) := by simp [IsYearLevel, IsOneOf]
  cases value with
  | none => simp [levelFlaw?]
  | some j =>
    simp only [Option.some.injEq, forall_eq']
    cases j with
    | text s =>
      show require (isLevel (.text s)) .unknownLevel = none ↔ _
      rw [require_eq_none_iff, isLevel_iff, OneOrSome]
      simp
    | array items =>
      rw [oneOrSome_array hform]
      cases items with
      | nil => simp [levelFlaw?]
      | cons i rest =>
        show require ((i :: rest).all isLevel) .badLevels = none ↔ _
        rw [require_all_eq_none_iff isLevel_iff]
        simp
    | _ => simp [levelFlaw?, OneOrSome, IsYearLevel, IsOneOf]

/-! ## The rules for nodes -/

theorem first_eq_none_iff {a b : Option Flaw} : (a <|> b) = none ↔ a = none ∧ b = none := by
  cases a <;> simp

theorem amountFlaw?_eq_none_iff (fields : Table String Json) (name : String) (flaw : Flaw) :
    amountFlaw? fields name flaw = none ↔ Has fields name IsAmount ∧ IsScope fields := by
  simp only [amountFlaw?, first_eq_none_iff, require_eq_none_iff, isPositive_iff,
    departmentFlaw?_eq_none_iff, levelFlaw?_eq_none_iff, gradeFlaw?_eq_none_iff]
  constructor
  · rintro ⟨hamount, hdepartment, hlevel, hgrade⟩
    exact ⟨hamount, hdepartment, hlevel, hgrade⟩
  · rintro ⟨hamount, hscope⟩
    exact ⟨hamount, hscope.department, hscope.level, hscope.minGrade⟩

theorem group_ownFlaw?_eq_none_iff (fields : Table String Json) :
    ownFlaw? fields .group = none ↔ Has fields "logic" (IsOneOf ["ALL_OF", "ONE_OF", "TWO_OF"]) ∧
      ∃ items, fields.find? "children" = some (.array items) ∧ items ≠ [] := by
  have hnames : Logic.all.map Logic.name = ["ALL_OF", "ONE_OF", "TWO_OF"] := rfl
  rw [ownFlaw?, first_eq_none_iff, require_eq_none_iff]
  refine and_congr (isNamed_iff hnames _) ?_
  split <;> simp_all

theorem course_ownFlaw?_eq_none_iff (fields : Table String Json) :
    ownFlaw? fields .course = none ↔ Has fields "course" IsTelling ∧
      MayHave fields "minGrade" IsGrade ∧ MayHave fields "canBeTakenConcurrently" IsFlag ∧
        MayHave fields "mustBeTakenConcurrently" IsFlag := by
  simp only [ownFlaw?, first_eq_none_iff, require_eq_none_iff, isTelling_iff,
    gradeFlaw?_eq_none_iff, flagFlaw?_eq_none_iff, Has, MayHave]

theorem standing_ownFlaw?_eq_none_iff (fields : Table String Json) :
    ownFlaw? fields .standing = none ↔
      Has fields "standing" (IsOneOf ["1st", "2nd", "3rd", "4th", "graduate"]) := by
  have hnames : Standing.all.map Standing.name = ["1st", "2nd", "3rd", "4th", "graduate"] := rfl
  rw [ownFlaw?, require_eq_none_iff]
  exact isNamed_iff hnames _

theorem told_eq_none_iff (fields : Table String Json) (name : String) (flaw : Flaw) :
    require (isTelling (fields.find? name)) flaw = none ↔ Has fields name IsTelling := by
  rw [require_eq_none_iff, isTelling_iff, Has]

/-! ## Tags -/

theorem ofName?_eq_some_iff {name : String} {k : Kind} :
    Kind.ofName? name = some k ↔ name = k.name := by
  constructor
  · intro h
    have hname := List.find?_some h
    rw [decide_eq_true_eq] at hname
    exact hname.symm
  · rintro rfl
    exact Kind.ofName?_name k

/-- The kind of a node is the one that its tag names. -/
theorem kind_eq_ok_iff {fields : Table String Json} {k : Kind} :
    kind fields = .ok k ↔ fields.find? "type" = some (.text k.name) := by
  unfold kind
  split
  · next h =>
    rw [h]
    refine iff_of_false (by simp) ?_
    cases k <;> simp [Kind.name]
  · next name hne h =>
    -- a tag that is a text: it names the kind, or no kind at all
    rw [h, Option.some.injEq, Json.text.injEq, ← ofName?_eq_some_iff]
    cases Kind.ofName? name <;> simp
  · next h h' =>
    refine iff_of_false (by simp) fun htext => ?_
    exact h' _ htext

/-! ## The check and the grammar -/

/-- A node that passes is grammatical if its parts are. -/
theorem grammatical_of_check {fields : Table String Json} (h : check (.object fields) = none)
    (ih : ∀ p ∈ parts (.object fields), check p = none → Grammatical p) :
    Grammatical (.object fields) := by
  obtain ⟨k, hkind, hown, hparts⟩ := check_object_eq_none_iff.mp h
  have htype := kind_eq_ok_iff.mp hkind
  -- one rule of the grammar for each kind
  cases k with
  | group =>
    obtain ⟨hlogic, items, hitems, hne⟩ := (group_ownFlaw?_eq_none_iff fields).mp hown
    refine .group htype hlogic hitems hne fun p hp => ?_
    have hp' : p ∈ parts (.object fields) := by rwa [parts_of_children hitems]
    exact ih p hp' (hparts rfl p hp')
  | course =>
    obtain ⟨hcourse, hgrade, hmay, hmust⟩ := (course_ownFlaw?_eq_none_iff fields).mp hown
    exact .course htype hcourse hgrade hmay hmust
  | creditCount =>
    obtain ⟨hcredits, hscope⟩ := (amountFlaw?_eq_none_iff fields _ _).mp hown
    exact .creditCount htype hcredits hscope
  | courseCount =>
    obtain ⟨hcount, hscope⟩ := (amountFlaw?_eq_none_iff fields _ _).mp hown
    exact .courseCount htype hcount hscope
  | standing => exact .standing htype ((standing_ownFlaw?_eq_none_iff fields).mp hown)
  | program => exact .program htype ((told_eq_none_iff fields _ _).mp hown)
  | permission => exact .permission htype ((told_eq_none_iff fields _ _).mp hown)
  | other => exact .other htype ((told_eq_none_iff fields _ _).mp hown)

/-- A leaf passes when its tag is known and it has no flaw of its own. -/
theorem check_of_leaf {fields : Table String Json} {k : Kind} (hk : k ≠ .group)
    (htype : fields.find? "type" = some (.text k.name)) (hown : ownFlaw? fields k = none) :
    check (.object fields) = none :=
  check_object_eq_none_iff.mpr ⟨k, kind_eq_ok_iff.mpr htype, hown, fun h => absurd h hk⟩

theorem check_of_grammatical {j : Json} (h : Grammatical j) : check j = none := by
  induction h with
  | @group fields items htype hlogic hitems hne _ ih =>
    refine check_object_eq_none_iff.mpr ⟨.group, kind_eq_ok_iff.mpr htype,
      (group_ownFlaw?_eq_none_iff fields).mpr ⟨hlogic, items, hitems, hne⟩, fun _ p hp => ?_⟩
    rw [parts_of_children hitems] at hp
    exact ih p hp
  | @course fields htype hcourse hgrade hmay hmust =>
    exact check_of_leaf (k := .course) (by decide) htype
      ((course_ownFlaw?_eq_none_iff fields).mpr ⟨hcourse, hgrade, hmay, hmust⟩)
  | @creditCount fields htype hcredits hscope =>
    exact check_of_leaf (k := .creditCount) (by decide) htype
      ((amountFlaw?_eq_none_iff fields _ _).mpr ⟨hcredits, hscope⟩)
  | @courseCount fields htype hcount hscope =>
    exact check_of_leaf (k := .courseCount) (by decide) htype
      ((amountFlaw?_eq_none_iff fields _ _).mpr ⟨hcount, hscope⟩)
  | @standing fields htype hstanding =>
    exact check_of_leaf (k := .standing) (by decide) htype
      ((standing_ownFlaw?_eq_none_iff fields).mpr hstanding)
  | @program fields htype hprogram =>
    exact check_of_leaf (k := .program) (by decide) htype
      ((told_eq_none_iff fields _ _).mpr hprogram)
  | @permission fields htype hnote =>
    exact check_of_leaf (k := .permission) (by decide) htype
      ((told_eq_none_iff fields _ _).mpr hnote)
  | @other fields htype hnote =>
    exact check_of_leaf (k := .other) (by decide) htype
      ((told_eq_none_iff fields _ _).mpr hnote)

theorem grammatical_of_check_eq_none (j : Json) : check j = none → Grammatical j := by
  induction j using inductionOnParts with
  | step j ih =>
    intro h
    obtain ⟨fields, rfl⟩ := exists_fields_of_check_eq_none h
    exact grammatical_of_check h ih

/-- **The check accepts the grammar.** -/
theorem check_eq_none_iff_grammatical (j : Json) : check j = none ↔ Grammatical j :=
  ⟨grammatical_of_check_eq_none j, check_of_grammatical⟩

end Candidate

end Curriculum
