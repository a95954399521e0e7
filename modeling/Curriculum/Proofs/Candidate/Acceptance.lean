import Curriculum.Proofs.Candidate.Denotation
import Curriculum.Proofs.Record.Reading

/-!
# Candidates that pass are read

The check of a candidate goes as deep as the candidate does, while reading stops at a group that
stands inside 254 others. That is the whole difference between the two. With room for `n` groups
more, a grammatical document is read as what it denotes unless `n + 1` groups stand inside each
other in it (`read_of_grammatical`), and then it is not read at all (`not_read_of_nestsGroups`).

> `passing_candidate_is_read`: the same for the requirements of a course.
-/

namespace Curriculum

namespace Candidate

open Reading

variable {fields : Table String Json}

/-! ## Nested groups -/

theorem nestsGroups_succ_iff {items : List Json} {n : Nat}
    (htype : fields.find? "type" = some (.text "group"))
    (hitems : fields.find? "children" = some (.array items)) :
    NestsGroups (n + 1) (.object fields) ↔ ∃ p ∈ items, NestsGroups n p := by
  constructor
  · intro h
    cases h with
    | succ _ hitems' hp hinner =>
      obtain rfl := Json.array.inj (Option.some.inj (hitems.symm.trans hitems'))
      exact ⟨_, hp, hinner⟩
  · rintro ⟨p, hp, hinner⟩
    exact .succ htype hitems hp hinner

/-- Nothing but a group has a group at its root. -/
theorem not_nestsGroups_of_leaf {k : Kind} {n : Nat} (hk : k ≠ .group)
    (htype : fields.find? "type" = some (.text k.name)) :
    ¬ NestsGroups (n + 1) (.object fields) := by
  intro h
  cases h with
  | succ htype' =>
    have hname := Json.text.inj (Option.some.inj (htype.symm.trans htype'))
    exact hk (by cases k <;> first | rfl | exact absurd hname (by decide))

/-! ## Trees -/

/-- A leaf is read at any depth. -/
theorem exists_read_leaf {k : Kind} {leaf : Reading Requirement} {t : Requirement} (depth : Nat)
    (htype : fields.find? "type" = some (.text k.name))
    (hleaf : Requirement.readLeaf? .value fields k = some leaf) (hread : leaf = .ok t)
    (hdenotes : Denotes (.object fields) t) :
    ∃ t, Requirement.read .value depth (.object fields) = .ok t ∧ Denotes (.object fields) t :=
  ⟨t, (Requirement.read_leaf_eq_ok_iff htype hleaf).mpr hread, hdenotes⟩

theorem tooDeep_value_eq_false {depth room : Nat} (h : depth + (room + 1) = Requirement.groupLimit) :
    Requirement.tooDeep .value depth = false := by
  have hlt : ¬ Requirement.groupLimit ≤ depth := by omega
  simp [Requirement.tooDeep, hlt]

theorem tooDeep_value_eq_true {depth : Nat} (h : depth = Requirement.groupLimit) :
    Requirement.tooDeep .value depth = true := by
  simp [Requirement.tooDeep, h]

/-- **A grammatical document is read as what it denotes**, while there is room for its groups. -/
theorem read_of_grammatical {j : Json} (h : Grammatical j) :
    ∀ depth room, depth + room = Requirement.groupLimit → ¬ NestsGroups (room + 1) j →
      ∃ t, Requirement.read .value depth j = .ok t ∧ Denotes j t := by
  induction h with
  | @group fields items htype hlogic hitems hne _ ih =>
    intro depth room hroom hnest
    rw [nestsGroups_succ_iff htype hitems] at hnest
    have hitem : ∀ p ∈ items, ¬ NestsGroups room p := fun p hp hin => hnest ⟨p, hp, hin⟩
    cases room with
    | zero =>
      -- even an empty nesting is one group too many here
      obtain ⟨p, hp⟩ := List.exists_mem_of_ne_nil items hne
      exact absurd (.zero p) (hitem p hp)
    | succ room =>
      have hread : ∀ p ∈ items, ∃ t, Requirement.read .value (depth + 1) p = .ok t ∧ Denotes p t :=
        fun p hp => ih p hp (depth + 1) room (by omega) (hitem p hp)
      obtain ⟨logic, hreadLogic, j, hj, rfl⟩ := required_of_has logic_of_isOneOf hlogic
      obtain ⟨ts, hts⟩ := exists_forall₂ (P := fun p => p ∈ items)
        (R := fun p t => Requirement.read .value (depth + 1) p = .ok t ∧ Denotes p t)
        hread (fun p hp => hp)
      cases hts with
      | nil => exact absurd rfl hne
      | @cons p t rest ts hp hrest =>
        refine ⟨.group logic t ts, ?_, .group htype hj hitems hp.2 (hrest.imp fun _ _ h => h.2)⟩
        exact (Requirement.read_group_eq_ok_iff htype).mpr ⟨tooDeep_value_eq_false hroom, logic, t,
          ts, p, rest, rfl, hreadLogic, hitems, hp.1, hrest.imp fun _ _ h => h.1⟩
  | @course fields htype hcourse hgrade hmay hmust =>
    intro depth _ _ _
    obtain ⟨id, hid, j, hj, rfl⟩ := required_of_has readLabel_of_telling hcourse
    obtain ⟨g, hg, hgives⟩ := optional_of_mayHave readGrade_of_grade (by simp [IsGrade]) hgrade
    obtain ⟨may, hreadMay, hgivesMay⟩ :=
      optional_of_mayHave flag_of_flag (by simp [IsFlag]) hmay
    obtain ⟨must, hreadMust, hgivesMust⟩ :=
      optional_of_mayHave flag_of_flag (by simp [IsFlag]) hmust
    refine exists_read_leaf (k := .course) (t := .course id g may must) depth htype rfl ?_
      (.course htype hj hgives hgivesMay hgivesMust)
    simp only [apply_eq_ok_iff, combine_eq_ok_iff]
    exact ⟨_, must, ⟨_, may, ⟨id, g, hid, hg, rfl⟩, hreadMay, rfl⟩, hreadMust, rfl⟩
  | @creditCount fields htype hcredits hscope =>
    intro depth _ _ _
    obtain ⟨a, ha, hgives⟩ := required_of_has readAmount_of_amount hcredits
    obtain ⟨scope, hread, hdenotes⟩ := readScope_of_isScope hscope
    exact exists_read_leaf (k := .creditCount) depth htype rfl
      (combine_eq_ok_iff.mpr ⟨a, scope, ha, hread, rfl⟩) (.credits htype hgives hdenotes)
  | @courseCount fields htype hcount hscope =>
    intro depth _ _ _
    obtain ⟨a, ha, hgives⟩ := required_of_has readAmount_of_amount hcount
    obtain ⟨scope, hread, hdenotes⟩ := readScope_of_isScope hscope
    exact exists_read_leaf (k := .courseCount) depth htype rfl
      (combine_eq_ok_iff.mpr ⟨a, scope, ha, hread, rfl⟩) (.courses htype hgives hdenotes)
  | @standing fields htype hstanding =>
    intro depth _ _ _
    obtain ⟨year, hyear, j, hj, rfl⟩ := required_of_has standing_of_isOneOf hstanding
    exact exists_read_leaf (k := .standing) depth htype rfl
      (map_eq_ok_iff.mpr ⟨year, hyear, rfl⟩) (.standing htype hj)
  | @program fields htype hprogram =>
    intro depth _ _ _
    obtain ⟨name, hname, j, hj, rfl⟩ := required_of_has readLabel_of_telling hprogram
    exact exists_read_leaf (k := .program) depth htype rfl
      (map_eq_ok_iff.mpr ⟨name, hname, rfl⟩) (.program htype hj)
  | @permission fields htype hnote =>
    intro depth _ _ _
    obtain ⟨note, hread, j, hj, rfl⟩ := required_of_has readLabel_of_telling hnote
    exact exists_read_leaf (k := .permission) depth htype rfl
      (map_eq_ok_iff.mpr ⟨note, hread, rfl⟩) (.permission htype hj)
  | @other fields htype hnote =>
    intro depth _ _ _
    obtain ⟨note, hread, j, hj, rfl⟩ := required_of_has readLabel_of_telling hnote
    exact exists_read_leaf (k := .other) depth htype rfl
      (map_eq_ok_iff.mpr ⟨note, hread, rfl⟩) (.other htype hj)

/-- One group more than there is room for is not read, whatever else the document says. -/
theorem not_read_of_nestsGroups {n : Nat} {j : Json} (h : NestsGroups n j) :
    ∀ depth, depth + n = Requirement.groupLimit + 1 → depth ≤ Requirement.groupLimit →
      ∀ t, Requirement.read .value depth j ≠ .ok t := by
  induction h with
  | zero =>
    intro depth h hle
    omega
  | @succ n fields items p htype hitems hp hinner ih =>
    intro depth hdepth hle t hread
    obtain ⟨hdeep, -, first, rest, j, js, rfl, -, hitems', hfirst, hrest⟩ :=
      (Requirement.read_group_eq_ok_iff htype).mp hread
    obtain rfl := Json.array.inj (Option.some.inj (hitems.symm.trans hitems'))
    -- the outermost group was read, so the nesting that is left goes on inside it
    have hlt : depth ≠ Requirement.groupLimit := by
      intro he
      rw [tooDeep_value_eq_true he] at hdeep
      exact absurd hdeep (by simp)
    have hone := ih (depth + 1) (by omega) (by omega)
    rcases List.mem_cons.mp hp with rfl | hp
    · exact hone first hfirst
    · obtain ⟨t, -, ht⟩ := exists_rel_of_mem hrest hp
      exact hone t ht

/-! ## The requirements of a course -/

theorem firstBadTree?_eq_none_iff (sections : List Section) :
    firstBadTree? fields sections = none ↔
      ∀ s ∈ sections, ∀ t, fields.find? (Section.key s) = some t → t ≠ .null → Grammatical t := by
  induction sections with
  | nil => simp [firstBadTree?]
  | cons s rest ih =>
    rw [firstBadTree?, List.forall_mem_cons, ← ih]
    split
    · next h => simp [h]
    · next h => simp [h]
    · next j hnull h =>
      have hne : j ≠ .null := hnull
      cases hcheck : check j with
      | none => simp [h, grammatical_of_check_eq_none j hcheck]
      | some r =>
        refine iff_of_false (by simp) ?_
        rintro ⟨hgrammatical, -⟩
        rw [check_of_grammatical (hgrammatical j h hne)] at hcheck
        exact absurd hcheck (by simp)

/-- A candidate passes when its department and its code say something and each tree that is not
null is grammatical. -/
theorem refusal?_eq_none_iff {j : Json} :
    refusal? j = none ↔ ∃ fields, j = .object fields ∧ Has fields "department" IsTelling ∧
      Has fields "code" IsTelling ∧
        ∀ s t, Table.find? fields (Section.key s) = some t → t ≠ .null → Grammatical t := by
  cases j with
  | object fields =>
    have hdepartment := isTelling_iff (Table.find? fields "department")
    have hcode := isTelling_iff (Table.find? fields "code")
    have htrees : firstBadTree? fields Section.all = none ↔ _ :=
      firstBadTree?_eq_none_iff Section.all
    rw [refusal?]
    by_cases hd : isTelling (Table.find? fields "department") = true
    · by_cases hc : isTelling (Table.find? fields "code") = true
      · simp only [hd, hc, Bool.not_true, Bool.false_eq_true, if_false, htrees, Section.mem_all,
          forall_const]
        simp [Has, ← hdepartment, ← hcode, hd, hc]
      · simp [Has, ← hcode, hd, hc]
    · simp [Has, ← hdepartment, hd]
  | _ => simp [refusal?]

theorem not_nestsGroups_null {n : Nat} : ¬ NestsGroups (n + 1) .null := by
  intro h
  cases h

/-- A tree of a candidate that passes is read if it is not nested too deep. -/
theorem exists_read_tree {s : Section}
    (htree : ∀ t, fields.find? s.key = some t → t ≠ .null → Grammatical t)
    (hnest : ∀ t, fields.find? s.key = some t → ¬ NestsGroups 255 t) :
    ∃ o, optional fields s.key (Requirement.read .value 0) = .ok o := by
  cases hfield : fields.find? s.key with
  | none => exact ⟨none, optional_eq_ok_none_iff.mpr (Or.inl hfield)⟩
  | some v =>
    by_cases hnull : v = .null
    · exact ⟨none, optional_eq_ok_none_iff.mpr (Or.inr (hnull ▸ hfield))⟩
    · obtain ⟨t, ht, -⟩ := read_of_grammatical (htree v hfield hnull) 0 254 rfl (hnest v hfield)
      exact ⟨some t, optional_eq_ok_some_iff.mpr ⟨v, hfield, hnull, ht⟩⟩

theorem exists_read_of_passing {j : Json} (h : refusal? j = none)
    (hnest : ∀ s t, j.field? (Section.key s) = some t → ¬ NestsGroups 255 t) :
    ∃ r, CourseRequirements.read .value j = .ok r := by
  obtain ⟨fields, rfl, ⟨_, hd, hdepartment⟩, ⟨_, hk, hcode⟩, htrees⟩ := refusal?_eq_none_iff.mp h
  obtain ⟨department, rfl, -⟩ := hdepartment
  obtain ⟨code, rfl, -⟩ := hcode
  have htree (s : Section) := exists_read_tree (htrees s) (hnest s)
  obtain ⟨p, hp⟩ := htree .prerequisites
  obtain ⟨c, hc⟩ := htree .corequisites
  obtain ⟨rp, hrp⟩ := htree .recommendedPrerequisites
  obtain ⟨rc, hrc⟩ := htree .recommendedCorequisites
  refine ⟨⟨department, code, p, c, rp, rc⟩, CourseRequirements.read_eq_ok_iff.mpr
    ⟨required_text_eq_ok_iff.mpr hd, required_text_eq_ok_iff.mpr hk, fun s => ?_⟩⟩
  cases s with
  | prerequisites => exact hp
  | corequisites => exact hc
  | recommendedPrerequisites => exact hrp
  | recommendedCorequisites => exact hrc

/-- What is read of a grammatical document is what it denotes. -/
theorem denotes_of_read {j : Json} {t : Requirement} (h : Grammatical j)
    (hread : Requirement.read .value 0 j = .ok t) : Denotes j t := by
  have hnest : ¬ NestsGroups 255 j := fun hn => not_read_of_nestsGroups hn 0 rfl (by decide) t hread
  obtain ⟨t', hread', hdenotes⟩ := read_of_grammatical h 0 254 rfl hnest
  have ht : t' = t := by
    rw [hread, Reading.ok.injEq] at hread'
    exact hread'.symm
  exact ht ▸ hdenotes

theorem denotesRecord_of_read {j : Json} {r : CourseRequirements} (h : refusal? j = none)
    (hread : CourseRequirements.read .value j = .ok r) : DenotesRecord j r := by
  obtain ⟨fields, rfl, -, -, htrees⟩ := refusal?_eq_none_iff.mp h
  obtain ⟨hdepartment, hcode, htree⟩ := CourseRequirements.read_eq_ok_iff.mp hread
  rw [required_text_eq_ok_iff] at hdepartment hcode
  refine ⟨hdepartment, hcode, fun s hnone => ?_, fun s t hsome => ?_⟩
  · have hs := htree s
    rw [hnone] at hs
    exact optional_eq_ok_none_iff.mp hs
  · have hs := htree s
    rw [hsome] at hs
    obtain ⟨v, hv, hnull, ht⟩ := optional_eq_ok_some_iff.mp hs
    exact ⟨v, hv, denotes_of_read (htrees s v hv hnull) ht⟩

theorem not_nestsGroups_of_read {j : Json} {r : CourseRequirements}
    (hread : CourseRequirements.read .value j = .ok r) {s : Section} {t : Json}
    (ht : j.field? s.key = some t) : ¬ NestsGroups 255 t := by
  intro hnest
  obtain ⟨fields, rfl⟩ := CourseRequirements.exists_fields_of_read hread
  obtain ⟨-, -, htree⟩ := CourseRequirements.read_eq_ok_iff.mp hread
  have hs := htree s
  cases htr : r.tree s with
  | none =>
    rw [htr] at hs
    rcases optional_eq_ok_none_iff.mp hs with h | h
    · exact absurd (h.symm.trans ht) (by simp)
    · obtain rfl := Option.some.inj (h.symm.trans ht)
      exact not_nestsGroups_null hnest
  | some tree =>
    rw [htr] at hs
    obtain ⟨v, hv, -, hr⟩ := optional_eq_ok_some_iff.mp hs
    obtain rfl := Option.some.inj (hv.symm.trans ht)
    exact not_read_of_nestsGroups hnest 0 rfl (by decide) tree hr

/-- **A candidate that passes every rule is read** unless 255 groups are nested in each other in one
of its trees, and this is the only way in which it can be unreadable. What is read is what the
candidate denotes. -/
theorem passing_candidate_is_read {j : Json} (h : refusal? j = none) :
    ((∃ r, CourseRequirements.read .value j = .ok r) ↔
        ∀ s t, j.field? (Section.key s) = some t → ¬ NestsGroups 255 t) ∧
      ((∃ faults, accept j = .error (.unreadable faults)) ↔
        ∃ s t, j.field? (Section.key s) = some t ∧ NestsGroups 255 t) ∧
      ∀ r, CourseRequirements.read .value j = .ok r → DenotesRecord j r := by
  have hiff : (∃ r, CourseRequirements.read .value j = .ok r) ↔
      ∀ s t, j.field? (Section.key s) = some t → ¬ NestsGroups 255 t :=
    ⟨fun ⟨_, hr⟩ _ _ ht => not_nestsGroups_of_read hr ht, exists_read_of_passing h⟩
  have haccept : (∃ faults, accept j = .error (.unreadable faults)) ↔
      ¬ ∃ r, CourseRequirements.read .value j = .ok r := by
    simp only [accept, h]
    cases CourseRequirements.read .value j <;> simp
  refine ⟨hiff, ?_, fun r hr => denotesRecord_of_read h hr⟩
  rw [haccept, hiff]
  push Not
  rfl

/-- A candidate with one group. -/
def sampleCandidate : Json :=
  .object [("department", .text "MATH"), ("code", .text "200"),
    ("prerequisites", .object [("type", .text "group"), ("logic", .text "ONE_OF"),
      ("children", .array [
        .object [("type", .text "course"), ("course", .text "MATH 101"), ("minGrade", .int 60)],
        .object [("type", .text "course_count"), ("count", .int 2),
          ("department", .array [.text "MATH", .text "STAT"]), ("level", .text "300")]])]),
    ("corequisites", .null)]

theorem sampleCandidate_passes : refusal? sampleCandidate = none := by
  have h : (refusal? sampleCandidate).isNone = true := by decide +kernel
  exact Option.isNone_iff_eq_none.mp h

theorem sampleCandidate_nests {s : Section} {t : Json} (ht : sampleCandidate.field? s.key = some t) :
    ¬ NestsGroups 255 t := by
  intro hnest
  cases s with
  | prerequisites =>
    obtain rfl := Option.some.inj ht
    obtain ⟨p, hp, hinner⟩ := (nestsGroups_succ_iff rfl rfl).mp hnest
    rcases List.mem_pair.mp hp with rfl | rfl
    · exact not_nestsGroups_of_leaf (k := .course) (by decide) rfl hinner
    · exact not_nestsGroups_of_leaf (k := .courseCount) (by decide) rfl hinner
  | corequisites =>
    obtain rfl := Option.some.inj ht
    exact not_nestsGroups_null hnest
  | _ => exact absurd ht (by simp [sampleCandidate, Json.field?, Section.key])

theorem sampleCandidate_is_read : refusal? sampleCandidate = none ∧
    ∃ r, CourseRequirements.read .value sampleCandidate = .ok r ∧
      DenotesRecord sampleCandidate r := by
  obtain ⟨hiff, -, hdenotes⟩ := passing_candidate_is_read sampleCandidate_passes
  obtain ⟨r, hr⟩ := hiff.mpr fun _ _ => sampleCandidate_nests
  exact ⟨sampleCandidate_passes, r, hr, hdenotes r hr⟩

end Candidate

end Curriculum
