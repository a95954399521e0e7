import Curriculum.Proofs.Candidate.Grammar

/-!
# The rules for a node, in order

A node is told about the first rule that it breaks, so the order of the rules matters, and that of
checks that look at one field in several ways. Here the rules of each kind of node stand in a list,
each with its message (`Candidate.rules`), and `FirstBroken` is the message of the first one that is
broken.

The check of a node is measured against its list rule by rule: `Reports` says that a check finds
nothing when all rules of a list hold and otherwise speaks of the first that is broken. Checks made
one after the other report on lists one after the other (`reports_first`), so that what has to be
shown of a node is shown for single fields.

> `reports_ownFlaw?`: the flaw that a node has by itself is the first broken rule of its kind.
-/

namespace Curriculum

namespace Candidate

/-! ## Rules -/

/-- A rule for the fields of a node, and what is said of a node that breaks it. -/
structure Rule where
  Holds : Table String Json → Prop
  message : String

/-- Among rules in order, some fields break one, keep those before it, and it has a message. -/
inductive FirstBroken (fields : Table String Json) : List Rule → String → Prop
  | broken {rule : Rule} {rest : List Rule} (h : ¬ rule.Holds fields) :
      FirstBroken fields (rule :: rest) rule.message
  | later {rule : Rule} {rest : List Rule} {message : String} (h : rule.Holds fields)
      (hrest : FirstBroken fields rest message) : FirstBroken fields (rule :: rest) message

/-- An array of any items. -/
def IsArray (j : Json) : Prop := ∃ items, j = .array items

/-- An array whose items all have a form, or no array. -/
def IfArrayEach (form : Json → Prop) (j : Json) : Prop :=
  ∀ items, j = .array items → ∀ i ∈ items, form i

/-- The rules of a group, its parts left aside. -/
def groupRules : List Rule :=
  [⟨fun fields => Has fields "logic" (IsOneOf ["ALL_OF", "ONE_OF", "TWO_OF"]),
      "Group must have logic field with value ALL_OF, ONE_OF, or TWO_OF"⟩,
    ⟨fun fields => Has fields "children" IsArray, "Group must have children array"⟩,
    ⟨fun fields => Has fields "children" (· ≠ .array []), "Group must have at least one child"⟩]

/-- The rule for a grade. -/
def gradeRule : Rule :=
  ⟨fun fields => MayHave fields "minGrade" IsGrade, "minGrade must be a number between 0 and 100"⟩

/-- The rule for a flag. -/
def flagRule (name : String) : Rule :=
  ⟨fun fields => MayHave fields name IsFlag, name ++ " must be a boolean"⟩

/-- The rules for a field that holds a text, or an array of items of a form that is not empty. -/
def listRules (name : String) (form : Json → Prop) (items : String) : List Rule :=
  [⟨fun fields => MayHave fields name (· ≠ .array []), name ++ " array must not be empty"⟩,
    ⟨fun fields => MayHave fields name (IfArrayEach form),
      name ++ " array must contain only " ++ items⟩,
    ⟨fun fields => MayHave fields name fun j => IsText j ∨ IsArray j,
      name ++ " must be a string or array of strings"⟩]

/-- The rules for departments. -/
def departmentRules : List Rule := listRules "department" IsText "strings"

/-- The rule for a level that stands alone. -/
def levelRule : Rule :=
  ⟨fun fields => MayHave fields "level" fun j => IsText j → IsYearLevel j,
    "level must be one of: 100, 200, 300, 400"⟩

/-- The rules for levels. -/
def levelRules : List Rule :=
  levelRule :: listRules "level" IsYearLevel "valid levels: 100, 200, 300, 400"

/-- The rule for a label. -/
def toldRule (name label : String) : Rule :=
  ⟨fun fields => Has fields name IsTelling,
    label ++ " requirement must have a " ++ name ++ " field"⟩

/-- The rules of a node that asks for an amount. -/
def amountRules (name label : String) : List Rule :=
  ⟨fun fields => Has fields name IsAmount,
      label ++ " requirement must have a positive " ++ name ++ " field"⟩
    :: (departmentRules ++ (levelRules ++ [gradeRule]))

/-- The rules of each kind of node, in order. -/
def rules : Kind → List Rule
  | .group => groupRules
  | .course => [toldRule "course" "Course", gradeRule, flagRule "canBeTakenConcurrently",
      flagRule "mustBeTakenConcurrently"]
  | .creditCount => amountRules "credits" "Credit count"
  | .courseCount => amountRules "count" "Course count"
  | .standing =>
    [⟨fun fields => Has fields "standing" (IsOneOf ["1st", "2nd", "3rd", "4th", "graduate"]),
      "Standing requirement must have a valid standing field"⟩]
  | .program => [toldRule "program" "Program"]
  | .permission => [toldRule "note" "Permission"]
  | .other => [toldRule "note" "Other"]

/-! ## The first of some rules -/

variable {fields : Table String Json} {first second : List Rule} {message message' : String}

theorem FirstBroken.append_left (h : FirstBroken fields first message) :
    FirstBroken fields (first ++ second) message := by
  induction h with
  | broken h => exact .broken h
  | later h _ ih => exact .later h ih

theorem FirstBroken.append_right (hfirst : ∀ rule ∈ first, rule.Holds fields)
    (h : FirstBroken fields second message) : FirstBroken fields (first ++ second) message := by
  induction first with
  | nil => exact h
  | cons rule rest ih =>
    obtain ⟨hrule, hrest⟩ := List.forall_mem_cons.mp hfirst
    exact .later hrule (ih hrest)

/-- Fields that break a first rule do not keep them all. -/
theorem FirstBroken.not_kept (h : FirstBroken fields first message) :
    ¬ ∀ rule ∈ first, rule.Holds fields := by
  intro hkept
  induction h with
  | broken h => exact h (hkept _ List.mem_cons_self)
  | later _ _ ih => exact ih fun rule hrule => hkept rule (List.mem_cons_of_mem _ hrule)

theorem FirstBroken.message_mem (h : FirstBroken fields first message) :
    message ∈ first.map Rule.message := by
  induction h with
  | broken => exact List.mem_cons_self
  | later _ _ ih => exact List.mem_cons_of_mem _ ih

theorem FirstBroken.unique (h : FirstBroken fields first message)
    (h' : FirstBroken fields first message') : message = message' := by
  induction h with
  | broken h =>
    cases h' with
    | broken => rfl
    | later hkept => exact absurd hkept h
  | later h _ ih =>
    cases h' with
    | broken hbroken => exact absurd h hbroken
    | later _ hrest => exact ih hrest

/-! ## What checks report -/

/-- What a check has found, measured by rules in order: nothing if all hold, and otherwise what is
said of the first that is broken. -/
def Reports (fields : Table String Json) (rules : List Rule) : Option Flaw → Prop
  | none => ∀ rule ∈ rules, rule.Holds fields
  | some flaw => FirstBroken fields rules flaw.message

/-- Checks one after the other report on rules one after the other. -/
theorem reports_first {a b : Option Flaw} (ha : Reports fields first a)
    (hb : Reports fields second b) : Reports fields (first ++ second) (a <|> b) := by
  cases a with
  | some flaw => exact FirstBroken.append_left ha
  | none =>
    cases b with
    | some flaw => exact FirstBroken.append_right ha hb
    | none => exact List.forall_mem_append.mpr ⟨ha, hb⟩

/-- The same if the first check is for a single rule. -/
theorem reports_then {rule : Rule} {a b : Option Flaw} (ha : Reports fields [rule] a)
    (hb : Reports fields second b) : Reports fields (rule :: second) (a <|> b) :=
  reports_first ha hb

theorem reports_cons {rule : Rule} {a : Option Flaw} (hrule : rule.Holds fields)
    (ha : Reports fields first a) : Reports fields (rule :: first) a := by
  cases a with
  | some flaw => exact .later hrule ha
  | none => exact List.forall_mem_cons.mpr ⟨hrule, ha⟩

/-- A check that can find one flaw reports on one rule. -/
theorem reports_single {found : Option Flaw} {rule : Rule} (flaw : Flaw)
    (hnone : found = none ↔ rule.Holds fields) (hsome : ∀ x, found = some x → x = flaw)
    (hmessage : flaw.message = rule.message) : Reports fields [rule] found := by
  cases found with
  | none =>
    intro q hq
    rw [List.mem_singleton.mp hq]
    exact hnone.mp rfl
  | some x =>
    obtain rfl := hsome x rfl
    show FirstBroken fields [rule] x.message
    rw [hmessage]
    exact .broken fun h => absurd (hnone.mpr h) (by simp)

theorem reports_require {holds : Bool} {rule : Rule} {flaw : Flaw}
    (h : holds = true ↔ rule.Holds fields) (hmessage : flaw.message = rule.message) :
    Reports fields [rule] (require holds flaw) := by
  refine reports_single flaw ((require_eq_none_iff holds flaw).trans h) ?_ hmessage
  intro x hx
  cases holds with
  | true => exact absurd hx (by simp [require])
  | false => exact (Option.some.inj hx).symm

theorem reports_grade (fields : Table String Json) :
    Reports fields [gradeRule] (gradeFlaw? (fields.find? "minGrade")) := by
  refine reports_single .badGrade (gradeFlaw?_eq_none_iff _) ?_ rfl
  intro x hx
  unfold gradeFlaw? at hx
  split at hx
  · exact absurd hx (by simp)
  · split at hx
    · split at hx
      · exact absurd hx (by simp)
      · exact (Option.some.inj hx).symm
    · exact (Option.some.inj hx).symm

theorem reports_flag {flaw : Flaw} {name : String}
    (hmessage : flaw.message = (flagRule name).message) :
    Reports fields [flagRule name] (flagFlaw? flaw (fields.find? name)) := by
  refine reports_single flaw (flagFlaw?_eq_none_iff flaw _) ?_ hmessage
  intro x hx
  unfold flagFlaw? at hx
  split at hx
  · exact absurd hx (by simp)
  · exact absurd hx (by simp)
  · exact (Option.some.inj hx).symm

/-! ### Texts and arrays of texts -/

section Lists

variable {name items : String} {form : Json → Prop}

theorem mayHave_iff_of_find? {j : Json} (h : fields.find? name = some j) :
    MayHave fields name form ↔ form j := by
  unfold MayHave
  rw [h]
  simp only [Option.some.injEq, forall_eq']

theorem mayHave_of_find?_none (h : fields.find? name = none) : MayHave fields name form := by
  intro j hj
  exact absurd (h.symm.trans hj) (by simp)

theorem listRules_of_none (h : fields.find? name = none) :
    Reports fields (listRules name form items) none := by
  intro rule hrule
  simp only [listRules, List.mem_cons, List.not_mem_nil, or_false] at hrule
  rcases hrule with rfl | rfl | rfl <;> exact mayHave_of_find?_none h

theorem listRules_of_text {s : String} (h : fields.find? name = some (.text s)) :
    Reports fields (listRules name form items) none := by
  intro rule hrule
  simp only [listRules, List.mem_cons, List.not_mem_nil, or_false] at hrule
  rcases hrule with rfl | rfl | rfl <;> refine (mayHave_iff_of_find? h).mpr ?_
  · simp
  · intro items hitems
    exact absurd hitems (by simp)
  · exact Or.inl ⟨s, rfl⟩

theorem listRules_of_empty (h : fields.find? name = some (.array [])) :
    FirstBroken fields (listRules name form items) (name ++ " array must not be empty") :=
  .broken fun hkept => (mayHave_iff_of_find? h).mp hkept rfl

/-- Of an array that is not empty the items have to be of the form. -/
theorem listRules_of_array {i : Json} {rest : List Json}
    (h : fields.find? name = some (.array (i :: rest))) {holds : Json → Bool}
    (hform : ∀ j, holds j = true ↔ form j) (flaw : Flaw)
    (hmessage : flaw.message = name ++ " array must contain only " ++ items) :
    Reports fields (listRules name form items) (require ((i :: rest).all holds) flaw) := by
  have hne : MayHave fields name (· ≠ .array []) := (mayHave_iff_of_find? h).mpr (by simp)
  have heach : MayHave fields name (IfArrayEach form) ↔ ∀ x ∈ i :: rest, form x := by
    rw [mayHave_iff_of_find? h]
    unfold IfArrayEach
    simp only [Json.array.injEq, forall_eq']
  cases hall : (i :: rest).all holds with
  | true =>
    have hforms : ∀ x ∈ i :: rest, form x := by
      intro x hx
      exact (hform x).mp (List.all_eq_true.mp hall x hx)
    intro rule hrule
    simp only [listRules, List.mem_cons, List.not_mem_nil, or_false] at hrule
    rcases hrule with rfl | rfl | rfl
    · exact hne
    · exact heach.mpr hforms
    · exact (mayHave_iff_of_find? h).mpr (Or.inr ⟨_, rfl⟩)
  | false =>
    show FirstBroken fields (listRules name form items) flaw.message
    rw [hmessage]
    refine .later hne (.broken fun hkept => ?_)
    have hforms := heach.mp hkept
    have htrue : (i :: rest).all holds = true :=
      List.all_eq_true.mpr fun x hx => (hform x).mpr (hforms x hx)
    exact absurd (htrue.symm.trans hall) (by decide)

theorem listRules_of_other {j : Json} (h : fields.find? name = some j) (htext : ¬ IsText j)
    (harray : ¬ IsArray j) : FirstBroken fields (listRules name form items)
      (name ++ " must be a string or array of strings") := by
  refine .later ?_ (.later ?_ (.broken ?_))
  · refine (mayHave_iff_of_find? h).mpr fun he => ?_
    exact harray ⟨[], he⟩
  · refine (mayHave_iff_of_find? h).mpr fun items he => ?_
    exact absurd ⟨items, he⟩ harray
  · intro hkept
    exact ((mayHave_iff_of_find? h).mp hkept).elim htext harray

end Lists

theorem reports_department (fields : Table String Json) :
    Reports fields departmentRules (departmentFlaw? (fields.find? "department")) := by
  cases h : fields.find? "department" with
  | none => exact listRules_of_none h
  | some j =>
    cases j with
    | text s => exact listRules_of_text h
    | array items =>
      cases items with
      | nil => exact listRules_of_empty h
      | cons i rest => exact listRules_of_array h isText_iff .mixedDepartments rfl
    | _ => exact listRules_of_other h (by simp [IsText]) (by simp [IsArray])

theorem reports_level (fields : Table String Json) :
    Reports fields levelRules (levelFlaw? (fields.find? "level")) := by
  cases h : fields.find? "level" with
  | none => exact List.forall_mem_cons.mpr ⟨mayHave_of_find?_none h, listRules_of_none h⟩
  | some j =>
    -- the rule for a single text comes first, and says nothing of other values
    have hother : ¬ IsText j → levelRule.Holds fields := by
      intro hj
      exact (mayHave_iff_of_find? h).mpr fun htext => absurd htext hj
    cases j with
    | text s =>
      have htext : isLevel (.text s) = true ↔ levelRule.Holds fields := by
        refine (isLevel_iff _).trans (Iff.trans ?_ (mayHave_iff_of_find? h).symm)
        simp [IsText]
      show Reports fields levelRules (require (isLevel (.text s)) .unknownLevel)
      have hrule : Reports fields [levelRule] (require (isLevel (.text s)) .unknownLevel) :=
        reports_require htext rfl
      have hall : Reports fields levelRules
          (require (isLevel (.text s)) .unknownLevel <|> none) :=
        reports_then hrule (listRules_of_text h)
      simpa using hall
    | array items =>
      have hfirst := hother (by simp [IsText])
      cases items with
      | nil => exact .later hfirst (listRules_of_empty h)
      | cons i rest =>
        exact reports_cons hfirst (listRules_of_array h isLevel_iff .badLevels rfl)
    | _ =>
      exact .later (hother (by simp [IsText])) (listRules_of_other h (by simp [IsText])
        (by simp [IsArray]))

/-! ## The rules of a node -/

theorem reports_told {name label : String} {flaw : Flaw}
    (hmessage : flaw.message = (toldRule name label).message) :
    Reports fields [toldRule name label] (require (isTelling (fields.find? name)) flaw) :=
  reports_require (isTelling_iff (fields.find? name)) hmessage

theorem reports_amount {name label : String} {flaw : Flaw}
    (hmessage : flaw.message = label ++ " requirement must have a positive " ++ name ++ " field") :
    Reports fields (amountRules name label) (amountFlaw? fields name flaw) :=
  reports_then (reports_require (isPositive_iff (fields.find? name)) hmessage)
    (reports_first (reports_department fields)
      (reports_first (reports_level fields) (reports_grade fields)))

theorem reports_children (fields : Table String Json) :
    Reports fields groupRules.tail
      (match fields.find? "children" with
        | some (.array []) => some .emptyChildren
        | some (.array _) => none
        | _ => some .noChildren) := by
  have hhas (form : Json → Prop) {j : Json} (h : fields.find? "children" = some j) :
      Has fields "children" form ↔ form j := by
    simp [Has, h]
  split
  · next h => exact .later ((hhas _ h).mpr ⟨[], rfl⟩) (.broken fun hkept => (hhas _ h).mp hkept rfl)
  · next items hne h =>
    refine List.forall_mem_cons.mpr ⟨(hhas _ h).mpr ⟨items, rfl⟩, List.forall_mem_singleton.mpr ?_⟩
    exact (hhas _ h).mpr fun he => hne (Json.array.inj he)
  · next hempty harray =>
    refine .broken ?_
    rintro ⟨j, h, items, rfl⟩
    exact harray items h

/-- **The check of a single node goes by the rules of its kind.** -/
theorem reports_ownFlaw? (fields : Table String Json) (k : Kind) :
    Reports fields (rules k) (ownFlaw? fields k) := by
  cases k with
  | group =>
    have hnames : Logic.all.map Logic.name = ["ALL_OF", "ONE_OF", "TWO_OF"] := rfl
    exact reports_then (reports_require (isNamed_iff hnames _) rfl) (reports_children fields)
  | course =>
    exact reports_then (reports_told rfl) (reports_then (reports_grade fields)
      (reports_then (reports_flag rfl) (reports_flag rfl)))
  | creditCount => exact reports_amount rfl
  | courseCount => exact reports_amount rfl
  | standing =>
    have hnames : Standing.all.map Standing.name = ["1st", "2nd", "3rd", "4th", "graduate"] := rfl
    exact reports_require (isNamed_iff hnames _) rfl
  | program => exact reports_told rfl
  | permission => exact reports_told rfl
  | other => exact reports_told rfl

theorem ownFlaw?_eq_none_iff_kept {k : Kind} :
    ownFlaw? fields k = none ↔ ∀ rule ∈ rules k, rule.Holds fields := by
  have hreports := reports_ownFlaw? fields k
  cases hown : ownFlaw? fields k with
  | none =>
    rw [hown] at hreports
    exact iff_of_true rfl hreports
  | some flaw =>
    rw [hown] at hreports
    exact iff_of_false (by simp) (FirstBroken.not_kept hreports)

end Candidate

end Curriculum
