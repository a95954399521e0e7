import Curriculum.Proofs.Candidate.Acceptance
import Curriculum.Proofs.Record.Document

/-!
# What was accepted is accepted again

The document of a requirement that was read from a grammatical candidate is grammatical itself
(`grammatical_toJson`): its labels still say something, its lists are not empty, and its numbers are
within their bounds, since rounding keeps the order. An amount may be infinite in a requirement; that
it is not in one that was read is where the candidate matters.

> `accept_toJson`: the requirements that were read from a candidate that passes, written as a
> document, pass again and are read as they were.
-/

namespace Curriculum

namespace Candidate

open Reading

variable {fields : Table String Json}

theorem own_of_grammatical {k : Kind} (h : Grammatical (.object fields))
    (htype : fields.find? "type" = some (.text k.name)) :
    ownFlaw? fields k = none ∧ (k = .group → ∀ p ∈ parts (.object fields), Grammatical p) := by
  obtain ⟨k', hkind, hown, hparts⟩ := check_object_eq_none_iff.mp (check_of_grammatical h)
  have hk : k' = k := by
    rw [kind_eq_ok_iff.mpr htype, Except.ok.injEq] at hkind
    exact hkind.symm
  subst hk
  exact ⟨hown, fun hgroup p hp => grammatical_of_check_eq_none p (hparts hgroup p hp)⟩

/-! ## Values -/

theorem isOneOf_logic (l : Logic) : IsOneOf ["ALL_OF", "ONE_OF", "TWO_OF"] (.text l.name) :=
  ⟨l.name, by cases l <;> decide, rfl⟩

theorem isOneOf_standing (s : Standing) :
    IsOneOf ["1st", "2nd", "3rd", "4th", "graduate"] (.text s.name) :=
  ⟨s.name, by cases s <;> decide, rfl⟩

theorem isGrade_toJson (g : Grade) : IsGrade g.toJson := by
  have hhundred : (Binary64.ofNat 100).isFinite = true := by decide +kernel
  exact ⟨.float g.percent, rfl, Number.isFinite_of_le hhundred g.atLeast g.atMost,
    Number.zero_le_float g.atLeast, Number.float_le_hundred g.atMost⟩

theorem isAmount_float {j : Json} {a : Amount} (h : IsAmount j) (hdenotes : StandsFor j a.value) :
    IsAmount (.float a.value) := by
  obtain ⟨n, rfl, hfinite, -⟩ := h
  obtain ⟨m, hm, hvalue⟩ := hdenotes
  obtain rfl := Json.number.inj hm
  obtain ⟨x, hx, hx'⟩ := Number.isFinite_iff.mp hfinite
  obtain rfl := Option.some.inj (hx.symm.trans hvalue)
  exact ⟨.float a.value, rfl, hx', Number.zero_lt_float a.positive⟩

/-! ## Fields -/

/-- A field that was written if there was something to write has a form that everything written
has. -/
theorem mayHave_of_find? {α : Type} {name : String} (write : α → Json) (o : Option α)
    {form : Json → Prop} (hfind : fields.find? name = o.map write)
    (h : ∀ a, o = some a → form (write a)) : MayHave fields name form := by
  intro j hj
  rw [hfind] at hj
  obtain ⟨a, ha, rfl⟩ := Option.map_eq_some_iff.mp hj
  exact h a ha

/-- The fields that say which courses count keep their forms. -/
theorem isScope_append {source : Table String Json} (before : Table String Json) {scope : Scope}
    (h : IsScope source) (hdenotes : DenotesScope source scope)
    (hdepartment : before.find? "department" = none) (hlevel : before.find? "level" = none)
    (hgrade : before.find? "minGrade" = none) : IsScope (before ++ scope.fields) := by
  refine ⟨?_, ?_, ?_⟩
  · refine mayHave_of_find? (OneOrMany.toJson .text) scope.department ?_ ?_
    · simp [Table.find?_append, hdepartment, Scope.fields]
    · intro d hd
      have hgives := hdenotes.department
      rw [hd] at hgives
      obtain ⟨j, hj, rfl⟩ := hgives
      exact h.department _ hj
  · refine mayHave_of_find? (OneOrMany.toJson fun l => .text l.name) scope.level ?_ ?_
    · simp [Table.find?_append, hlevel, Scope.fields]
    · intro l hl
      have hgives := hdenotes.level
      rw [hl] at hgives
      obtain ⟨j, hj, rfl⟩ := hgives
      exact h.level _ hj
  · refine mayHave_of_find? Grade.toJson scope.minGrade ?_ ?_
    · simp [Table.find?_append, hgrade, Scope.fields]
    · exact fun g _ => isGrade_toJson g

/-- A text that a candidate gives and that says something goes on to say it. -/
theorem has_telling {name s : String} {target : Table String Json} (h : Has fields name IsTelling)
    (hfind : fields.find? name = some (.text s)) (htarget : target.find? name = some (.text s)) :
    Has target name IsTelling := by
  obtain ⟨j, hj, htelling⟩ := h
  obtain rfl := Option.some.inj (hj.symm.trans hfind)
  exact ⟨_, htarget, htelling⟩

/-! ## Trees -/

/-- **What a grammatical candidate denotes has a grammatical document.** -/
theorem grammatical_toJson (t : Requirement) :
    ∀ j, Grammatical j → Denotes j t → Grammatical t.toJson := by
  induction t using Requirement.inductionOnParts with
  | step t ih =>
    intro j hj hdenotes
    cases hdenotes with
    | @group fields logic p items first rest htype hasked hchildren hhead htail =>
      obtain ⟨-, hparts⟩ := own_of_grammatical (k := .group) hj htype
      rw [parts_of_children hchildren] at hparts
      -- every part of the group comes from an item of the candidate
      have hall : List.Forall₂ Denotes (p :: items) (first :: rest) := .cons hhead htail
      rw [Requirement.toJson, Requirement.listToJson_eq]
      refine .group rfl ⟨_, rfl, isOneOf_logic logic⟩ rfl (by simp) ?_
      intro q hq
      rw [← List.map_cons] at hq
      obtain ⟨t, ht, rfl⟩ := List.mem_map.mp hq
      obtain ⟨i, hi, hdenotes⟩ := exists_rel_of_mem hall.flip ht
      exact ih t ht i (hparts rfl i hi) hdenotes
    | @course fields id minGrade may must htype hcourse _ _ _ =>
      obtain ⟨hown, -⟩ := own_of_grammatical (k := .course) hj htype
      obtain ⟨htelling, -⟩ := (course_ownFlaw?_eq_none_iff fields).mp hown
      rw [Requirement.toJson]
      refine .course rfl (has_telling htelling hcourse rfl) ?_ ?_ ?_
      · refine mayHave_of_find? Grade.toJson minGrade ?_ (fun g _ => isGrade_toJson g)
        simp [Requirement.typeField, Table.find?_append]
      · refine mayHave_of_find? .bool may ?_ (fun b _ => ⟨b, rfl⟩)
        simp [Requirement.typeField, Table.find?_append]
      · refine mayHave_of_find? .bool must ?_ (fun b _ => ⟨b, rfl⟩)
        simp [Requirement.typeField, Table.find?_append]
    | @credits fields amount scope htype hcredits hcounting =>
      obtain ⟨hown, -⟩ := own_of_grammatical (k := .creditCount) hj htype
      obtain ⟨⟨v, hv, hamount⟩, hscope⟩ := (amountFlaw?_eq_none_iff fields _ _).mp hown
      obtain ⟨v', hv', hstands⟩ := hcredits
      obtain rfl := Option.some.inj (hv.symm.trans hv')
      rw [Requirement.toJson]
      exact .creditCount rfl ⟨_, rfl, isAmount_float hamount hstands⟩
        (isScope_append [_, _] hscope hcounting rfl rfl rfl)
    | @courses fields amount scope htype hcount hcounting =>
      obtain ⟨hown, -⟩ := own_of_grammatical (k := .courseCount) hj htype
      obtain ⟨⟨v, hv, hamount⟩, hscope⟩ := (amountFlaw?_eq_none_iff fields _ _).mp hown
      obtain ⟨v', hv', hstands⟩ := hcount
      obtain rfl := Option.some.inj (hv.symm.trans hv')
      rw [Requirement.toJson]
      exact .courseCount rfl ⟨_, rfl, isAmount_float hamount hstands⟩
        (isScope_append [_, _] hscope hcounting rfl rfl rfl)
    | @standing fields year htype _ =>
      rw [Requirement.toJson]
      exact .standing rfl ⟨_, rfl, isOneOf_standing year⟩
    | @program fields name htype hprogram =>
      obtain ⟨hown, -⟩ := own_of_grammatical (k := .program) hj htype
      rw [Requirement.toJson]
      exact .program rfl (has_telling ((told_eq_none_iff fields _ _).mp hown) hprogram rfl)
    | @permission fields note htype htold =>
      obtain ⟨hown, -⟩ := own_of_grammatical (k := .permission) hj htype
      rw [Requirement.toJson]
      exact .permission rfl (has_telling ((told_eq_none_iff fields _ _).mp hown) htold rfl)
    | @other fields note htype htold =>
      obtain ⟨hown, -⟩ := own_of_grammatical (k := .other) hj htype
      rw [Requirement.toJson]
      exact .other rfl (has_telling ((told_eq_none_iff fields _ _).mp hown) htold rfl)

/-! ## The requirements of a course -/

theorem accept_eq_ok_iff {j : Json} {r : CourseRequirements} :
    accept j = .ok r ↔ refusal? j = none ∧ CourseRequirements.read .value j = .ok r := by
  unfold accept
  cases refusal? j with
  | some refusal => simp
  | none => cases CourseRequirements.read .value j <;> simp

theorem refusal?_toJson {j : Json} {r : CourseRequirements} (h : accept j = .ok r) :
    refusal? r.toJson = none := by
  obtain ⟨hpass, hread⟩ := accept_eq_ok_iff.mp h
  have hdenotes := denotesRecord_of_read hpass hread
  obtain ⟨fields, rfl, hdepartment, hcode, htrees⟩ := refusal?_eq_none_iff.mp hpass
  refine refusal?_eq_none_iff.mpr ⟨r.fields, rfl, has_telling hdepartment hdenotes.department rfl,
    has_telling hcode hdenotes.code rfl, fun s v hv _ => ?_⟩
  rw [CourseRequirements.find?_fields_key] at hv
  obtain ⟨t, ht, rfl⟩ := Option.map_eq_some_iff.mp hv
  obtain ⟨v, hv, htree⟩ := hdenotes.present s t ht
  have hnull : v ≠ .null := by
    rintro rfl
    cases htree
  exact grammatical_toJson t v (htrees s v hv hnull) htree

theorem hasRoom_of_accept {j : Json} {r : CourseRequirements} (h : accept j = .ok r) {s : Section}
    {t : Requirement} (ht : r.tree s = some t) : Requirement.HasRoom .value 0 t := by
  obtain ⟨-, hread⟩ := accept_eq_ok_iff.mp h
  obtain ⟨fields, rfl⟩ := CourseRequirements.exists_fields_of_read hread
  obtain ⟨-, -, htree⟩ := CourseRequirements.read_eq_ok_iff.mp hread
  have hs := htree s
  rw [ht] at hs
  obtain ⟨v, -, -, hv⟩ := optional_eq_ok_some_iff.mp hs
  exact Or.inr (Requirement.groupNesting_le_of_read t 0 v (Nat.zero_le _) hv)

/-- **What was accepted is accepted again, as it is.** -/
theorem accept_toJson {j : Json} {r : CourseRequirements} (h : accept j = .ok r) :
    accept r.toJson = .ok r :=
  accept_eq_ok_iff.mpr ⟨refusal?_toJson h,
    CourseRequirements.read_toJson fun _ _ ht => hasRoom_of_accept h ht⟩

end Candidate

end Curriculum
