import Curriculum.Proofs.Candidate.Rules
import Curriculum.Record.Candidate

/-!
# The first fault of a candidate

A candidate that is rejected is told why, and where. Both are said here without the check. A node is
at fault by itself if it is no object, has no type or an unknown one, or breaks a rule of its kind
(`OwnFault`); the fault of a candidate is found by walking down from group to group, at each of them
into the first part that is no requirement (`FirstFault`). Of the candidate for a whole course the
department comes first, then the code, then the trees one by one (`FirstRefusal`).

The check is compared with this part by part: what it finds is the first fault
(`firstFault_of_check`), and a first fault is found (`check_of_firstFault`).

> `rejected_iff_firstFault`: a candidate is rejected with a message exactly if it has a first fault
> of which the message tells the way and the reason; and the candidate for a whole course is refused
> with the message of what is wrong with it first.
-/

namespace Curriculum

namespace Candidate

/-! ## Faults -/

/-- A text that is not empty. -/
def IsTag (j : Json) : Prop := ∃ name, j = .text name ∧ name ≠ ""

/-- What is wrong with a node by itself, whatever its parts are. -/
inductive OwnFault : Json → String → Prop
  | notAnObject {j : Json} (h : ∀ fields, j ≠ .object fields) :
      OwnFault j "Requirement must be an object"
  | noType {fields : Table String Json} (h : ¬ Has fields "type" IsTag) :
      OwnFault (.object fields) "Requirement must have a valid type field"
  | unknownType {fields : Table String Json} {name : String}
      (type : fields.find? "type" = some (.text name)) (nonempty : name ≠ "")
      (unknown : ∀ k : Kind, name ≠ k.name) :
      OwnFault (.object fields) ("Unknown requirement type: " ++ name)
  | rule {fields : Table String Json} {message : String} (k : Kind)
      (type : fields.find? "type" = some (.text k.name))
      (broken : FirstBroken fields (rules k) message) : OwnFault (.object fields) message

/-- A way leads to the first fault of a candidate: through groups that keep their own rules, at each
of them into a part before which all parts are requirements, to a node at fault by itself. -/
inductive FirstFault : Json → List Nat → String → Prop
  | here {j : Json} {reason : String} (h : OwnFault j reason) : FirstFault j [] reason
  | inside {fields : Table String Json} {items : List Json} {i : Nat} {p : Json} {way : List Nat}
      {reason : String} (type : fields.find? "type" = some (.text "group"))
      (kept : ∀ rule ∈ groupRules, rule.Holds fields)
      (children : fields.find? "children" = some (.array items)) (part : items[i]? = some p)
      (before : ∀ q ∈ items.take i, Grammatical q) (fault : FirstFault p way reason) :
      FirstFault (.object fields) (i :: way) reason

/-- The node to which a way leads. -/
def nodeAt? : Json → List Nat → Option Json
  | j, [] => some j
  | j, i :: way =>
    match (parts j)[i]? with
    | some p => nodeAt? p way
    | none => none

/-- How a way is told. -/
def wayText : List Nat → String
  | [] => ""
  | i :: way => "Invalid child at index " ++ toString i ++ ": " ++ wayText way

/-- The candidate for a tree is left out, or is a requirement. -/
def TreePasses (fields : Table String Json) (s : Section) : Prop :=
  ∀ t, fields.find? s.key = some t → t ≠ .null → Grammatical t

/-- What is wrong first with a candidate for the requirements of a course. -/
inductive FirstRefusal : Json → String → Prop
  | notAnObject {j : Json} (h : ∀ fields, j ≠ .object fields) :
      FirstRefusal j "Data must be an object"
  | department {fields : Table String Json} (h : ¬ Has fields "department" IsTelling) :
      FirstRefusal (.object fields) "Missing or invalid department field"
  | code {fields : Table String Json} (department : Has fields "department" IsTelling)
      (h : ¬ Has fields "code" IsTelling) :
      FirstRefusal (.object fields) "Missing or invalid code field"
  | tree {fields : Table String Json} {before after : List Section} {s : Section} {t : Json}
      {way : List Nat} {reason : String} (department : Has fields "department" IsTelling)
      (code : Has fields "code" IsTelling) (order : Section.all = before ++ s :: after)
      (passed : ∀ q ∈ before, TreePasses fields q) (found : fields.find? s.key = some t)
      (there : t ≠ .null) (fault : FirstFault t way reason) :
      FirstRefusal (.object fields) ("Invalid " ++ s.label ++ ": " ++ (wayText way ++ reason))

variable {fields : Table String Json}

/-! ## The node itself -/

theorem kind_of_noType (h : ¬ Has fields "type" IsTag) : kind fields = .error .noType := by
  unfold kind
  split
  · rfl
  · next name hne htype => exact absurd ⟨_, htype, name, rfl, fun he => hne (he ▸ rfl)⟩ h
  · rfl

theorem kind_of_unknownType {name : String} (htype : fields.find? "type" = some (.text name))
    (hne : name ≠ "") (hunknown : ∀ k : Kind, name ≠ k.name) :
    kind fields = .error (.unknownType name) := by
  have hnone : Kind.ofName? name = none := by
    cases hkind : Kind.ofName? name with
    | none => rfl
    | some k => exact absurd (ofName?_eq_some_iff.mp hkind) (hunknown k)
  unfold kind
  split
  · next h => exact absurd (Json.text.inj (Option.some.inj (htype.symm.trans h))) hne
  · next name' _ h =>
    obtain rfl := Json.text.inj (Option.some.inj (htype.symm.trans h))
    rw [hnone]
  · next _ h => exact absurd htype (h name)

/-- A node of which the type says no kind is at fault by itself. -/
theorem ownFault_of_kind {flaw : Flaw} (h : kind fields = .error flaw) :
    OwnFault (.object fields) flaw.message := by
  by_cases htag : Has fields "type" IsTag
  · obtain ⟨_, htype, name, rfl, hne⟩ := htag
    by_cases hunknown : ∀ k : Kind, name ≠ k.name
    · rw [kind_of_unknownType htype hne hunknown] at h
      obtain rfl := Except.error.inj h
      exact .unknownType htype hne hunknown
    · obtain ⟨k, hk⟩ : ∃ k : Kind, name = k.name := by simpa using hunknown
      rw [kind_eq_ok_iff.mpr (hk ▸ htype)] at h
      exact absurd h (by simp)
  · rw [kind_of_noType htag] at h
    obtain rfl := Except.error.inj h
    exact .noType htag

theorem ownFault_of_ownFlaw? {k : Kind} {flaw : Flaw} (hkind : kind fields = .ok k)
    (h : ownFlaw? fields k = some flaw) : OwnFault (.object fields) flaw.message := by
  have hreports := reports_ownFlaw? fields k
  rw [h] at hreports
  exact .rule k (kind_eq_ok_iff.mp hkind) hreports

/-- A node at fault by itself is rejected at once. -/
theorem check_of_ownFault {j : Json} {reason : String} (h : OwnFault j reason) :
    ∃ flaw, check j = some (Candidate.here flaw) ∧ flaw.message = reason := by
  cases h with
  | notAnObject h =>
    refine ⟨.notAnObject, ?_, rfl⟩
    cases j with
    | object fields => exact absurd rfl (h fields)
    | _ => rfl
  | noType h => exact ⟨.noType, by rw [check_object, kind_of_noType h], rfl⟩
  | unknownType type nonempty unknown =>
    exact ⟨_, by rw [check_object, kind_of_unknownType type nonempty unknown], rfl⟩
  | @rule fields _ k type broken =>
    have hreports := reports_ownFlaw? fields k
    cases hown : ownFlaw? fields k with
    | none => exact absurd (ownFlaw?_eq_none_iff_kept.mp hown) broken.not_kept
    | some flaw =>
      rw [hown] at hreports
      refine ⟨flaw, ?_, FirstBroken.unique hreports broken⟩
      simp only [check_object, kind_eq_ok_iff.mpr type, hown]

/-! ## Down a tree -/

/-- The check of some items stops at the first that does not pass. -/
theorem checkItems_eq_some_iff {items : List Json} {n : Nat} {r : Rejection} :
    checkItems n items = some r ↔ ∃ i p r', items[i]? = some p ∧
      (∀ q ∈ items.take i, check q = none) ∧ check p = some r' ∧ r'.inside (n + i) = r := by
  induction items generalizing n with
  | nil => simp [checkItems]
  | cons j rest ih =>
    rw [checkItems]
    cases hj : check j with
    | some r' =>
      constructor
      · intro h
        exact ⟨0, j, r', rfl, by simp, hj, Option.some.inj h⟩
      · rintro ⟨i, p, r₂, hp, hbefore, hcheck, rfl⟩
        cases i with
        | zero =>
          obtain rfl := Option.some.inj hp
          obtain rfl := Option.some.inj (hj.symm.trans hcheck)
          rfl
        | succ i =>
          have hpass := hbefore j List.mem_cons_self
          exact absurd (hj.symm.trans hpass) (by simp)
    | none =>
      rw [ih]
      constructor
      · rintro ⟨i, p, r₂, hp, hbefore, hcheck, rfl⟩
        refine ⟨i + 1, p, r₂, hp, List.forall_mem_cons.mpr ⟨hj, hbefore⟩, hcheck, ?_⟩
        rw [Nat.add_right_comm, Nat.add_assoc]
      · rintro ⟨i, p, r₂, hp, hbefore, hcheck, rfl⟩
        cases i with
        | zero =>
          obtain rfl := Option.some.inj hp
          exact absurd (hj.symm.trans hcheck) (by simp)
        | succ i =>
          refine ⟨i, p, r₂, hp, (List.forall_mem_cons.mp hbefore).2, hcheck, ?_⟩
          rw [Nat.add_right_comm, Nat.add_assoc]

/-- A group that keeps its own rules is rejected for the first fault of its first bad part. -/
theorem firstFault_of_checkItems {r : Rejection} (hkind : kind fields = .ok .group)
    (hown : ownFlaw? fields .group = none)
    (ih : ∀ p ∈ parts (.object fields), ∀ r, check p = some r → FirstFault p r.way r.flaw.message)
    (h : checkItems 0 (parts (.object fields)) = some r) :
    FirstFault (.object fields) r.way r.flaw.message := by
  obtain ⟨i, p, r', hp, hbefore, hr', rfl⟩ := checkItems_eq_some_iff.mp h
  have hmem := List.mem_of_getElem? hp
  obtain ⟨_, items, hj, hitems, -⟩ := mem_parts hmem
  obtain rfl := Json.object.inj hj
  rw [parts_of_children hitems] at hp hbefore
  rw [Nat.zero_add]
  refine .inside (kind_eq_ok_iff.mp hkind) (ownFlaw?_eq_none_iff_kept.mp hown) hitems hp ?_
    (ih p hmem r' hr')
  exact fun q hq => grammatical_of_check_eq_none q (hbefore q hq)

/-- A candidate is rejected for its first fault. -/
theorem firstFault_of_check (j : Json) :
    ∀ r, check j = some r → FirstFault j r.way r.flaw.message := by
  induction j using inductionOnParts with
  | step j ih =>
    intro r hr
    cases j with
    | object fields =>
      rw [check_object] at hr
      split at hr
      · next flaw hkind =>
        obtain rfl := Option.some.inj hr
        exact .here (ownFault_of_kind hkind)
      · next k hkind =>
        split at hr
        · next flaw hown =>
          obtain rfl := Option.some.inj hr
          exact .here (ownFault_of_ownFlaw? hkind hown)
        · next hown =>
          split at hr
          · next hgroup =>
            subst hgroup
            exact firstFault_of_checkItems hkind hown ih hr
          · exact absurd hr (by simp)
    | _ =>
      obtain rfl := Option.some.inj hr
      exact .here (.notAnObject (by simp))

/-- A candidate with a first fault is rejected for it. -/
theorem check_of_firstFault {j : Json} {way : List Nat} {reason : String}
    (h : FirstFault j way reason) : ∃ flaw, check j = some ⟨way, flaw⟩ ∧ flaw.message = reason := by
  induction h with
  | here h => exact check_of_ownFault h
  | @inside fields items i p way reason type kept children part before _ ih =>
    obtain ⟨flaw, hcheck, rfl⟩ := ih
    refine ⟨flaw, ?_, rfl⟩
    have hkind : kind fields = .ok .group := kind_eq_ok_iff.mpr type
    have hown : ownFlaw? fields .group = none := ownFlaw?_eq_none_iff_kept.mpr kept
    simp only [check_object, hkind, hown, if_true, parts_of_children children]
    refine checkItems_eq_some_iff.mpr ⟨i, p, ⟨way, flaw⟩, part, ?_, hcheck, ?_⟩
    · exact fun q hq => check_of_grammatical (before q hq)
    · rw [Nat.zero_add, Rejection.inside]

/-- The way to the first fault leads to a node that is at fault by itself. -/
theorem FirstFault.exists_node {j : Json} {way : List Nat} {reason : String}
    (h : FirstFault j way reason) : ∃ node, nodeAt? j way = some node ∧ OwnFault node reason := by
  induction h with
  | @here j reason h => exact ⟨j, rfl, h⟩
  | @inside fields items i p way reason _ _ children part _ _ ih =>
    obtain ⟨node, hnode, hown⟩ := ih
    refine ⟨node, ?_, hown⟩
    rw [nodeAt?, parts_of_children children, part]
    exact hnode

/-- A candidate has at most one first fault. -/
theorem FirstFault.unique {j : Json} {way way' : List Nat} {reason reason' : String}
    (h : FirstFault j way reason) (h' : FirstFault j way' reason') :
    way = way' ∧ reason = reason' := by
  obtain ⟨flaw, hcheck, rfl⟩ := check_of_firstFault h
  obtain ⟨flaw', hcheck', rfl⟩ := check_of_firstFault h'
  obtain ⟨rfl, rfl⟩ := Rejection.mk.inj (Option.some.inj (hcheck.symm.trans hcheck'))
  exact ⟨rfl, rfl⟩

@[simp] theorem wayText_nil : wayText [] = "" := rfl

theorem wayText_cons (i : Nat) (way : List Nat) :
    wayText (i :: way) = "Invalid child at index " ++ toString i ++ ": " ++ wayText way :=
  rfl

/-- A rejection tells the way, then the flaw. -/
theorem Rejection.message_eq (r : Rejection) : r.message = wayText r.way ++ r.flaw.message := by
  unfold Rejection.message
  induction r.way with
  | nil => rw [List.foldr_nil, wayText_nil, String.empty_append]
  | cons i way ih =>
    rw [List.foldr_cons, ih, wayText_cons]
    exact String.append_assoc.symm

theorem message_iff_firstFault {j : Json} {message : String} :
    (∃ r, check j = some r ∧ r.message = message) ↔
      ∃ way reason, message = wayText way ++ reason ∧ FirstFault j way reason := by
  constructor
  · rintro ⟨r, hr, rfl⟩
    exact ⟨r.way, r.flaw.message, r.message_eq, firstFault_of_check j r hr⟩
  · rintro ⟨way, reason, rfl, hfault⟩
    obtain ⟨flaw, hcheck, rfl⟩ := check_of_firstFault hfault
    exact ⟨⟨way, flaw⟩, hcheck, Rejection.message_eq _⟩

/-! ## The requirements of a course -/

section Trees

variable {s : Section} {rest : List Section} {t : Json} {r : Rejection}

/-- A tree passes, or it is there and is rejected. -/
theorem treePasses_or (fields : Table String Json) (s : Section) :
    TreePasses fields s ∨ ∃ t r, fields.find? s.key = some t ∧ t ≠ .null ∧ check t = some r := by
  by_cases h : TreePasses fields s
  · exact Or.inl h
  · obtain ⟨t, hfound, hthere, hbad⟩ : ∃ t, fields.find? s.key = some t ∧ t ≠ .null ∧
        ¬ Grammatical t := by
      simpa [TreePasses] using h
    cases hcheck : check t with
    | none => exact absurd (grammatical_of_check_eq_none t hcheck) hbad
    | some r => exact Or.inr ⟨t, r, hfound, hthere, hcheck⟩

theorem firstBadTree?_of_passes (h : TreePasses fields s) :
    firstBadTree? fields (s :: rest) = firstBadTree? fields rest := by
  rw [firstBadTree?]
  split
  · rfl
  · rfl
  · next t hthere hfound => rw [check_of_grammatical (h t hfound hthere)]

theorem firstBadTree?_of_check (hfound : fields.find? s.key = some t) (hthere : t ≠ .null)
    (hcheck : check t = some r) : firstBadTree? fields (s :: rest) = some (.tree s r) := by
  rw [firstBadTree?]
  split
  · next h => exact absurd (hfound.symm.trans h) (by simp)
  · next h => exact absurd (Option.some.inj (hfound.symm.trans h)) hthere
  · next t' _ h =>
    obtain rfl := Option.some.inj (hfound.symm.trans h)
    rw [hcheck]

theorem firstBadTree?_append {before : List Section} (h : ∀ q ∈ before, TreePasses fields q) :
    firstBadTree? fields (before ++ rest) = firstBadTree? fields rest := by
  induction before with
  | nil => rfl
  | cons q before ih =>
    obtain ⟨hq, hbefore⟩ := List.forall_mem_cons.mp h
    rw [List.cons_append, firstBadTree?_of_passes hq, ih hbefore]

/-- The tree that a refusal names is the first that does not pass. -/
theorem firstBadTree?_eq_some {sections : List Section} {refusal : Refusal}
    (h : firstBadTree? fields sections = some refusal) :
    ∃ before s after t r, sections = before ++ s :: after ∧ (∀ q ∈ before, TreePasses fields q) ∧
      fields.find? s.key = some t ∧ t ≠ .null ∧ check t = some r ∧ refusal = .tree s r := by
  induction sections with
  | nil => exact absurd h (by simp [firstBadTree?])
  | cons s rest ih =>
    rcases treePasses_or fields s with hpass | ⟨t, r, hfound, hthere, hcheck⟩
    · rw [firstBadTree?_of_passes hpass] at h
      obtain ⟨before, s', after, t, r, rfl, hbefore, hbad⟩ := ih h
      exact ⟨s :: before, s', after, t, r, rfl, List.forall_mem_cons.mpr ⟨hpass, hbefore⟩, hbad⟩
    · rw [firstBadTree?_of_check hfound hthere hcheck] at h
      exact ⟨[], s, rest, t, r, rfl, by simp, hfound, hthere, hcheck, (Option.some.inj h).symm⟩

end Trees

/-- Why a candidate is refused, rule by rule. -/
theorem refusal?_cases {j : Json} {refusal : Refusal} (h : refusal? j = some refusal) :
    (refusal = .notAnObject ∧ ∀ fields, j ≠ .object fields) ∨
      ∃ fields, j = .object fields ∧
        ((refusal = .noDepartment ∧ ¬ Has fields "department" IsTelling) ∨
          Has fields "department" IsTelling ∧
            ((refusal = .noCode ∧ ¬ Has fields "code" IsTelling) ∨
              Has fields "code" IsTelling ∧
                firstBadTree? fields Section.all = some refusal)) := by
  cases j with
  | object fields =>
    refine Or.inr ⟨fields, rfl, ?_⟩
    have hdepartment := isTelling_iff (Table.find? fields "department")
    have hcode := isTelling_iff (Table.find? fields "code")
    unfold Has
    rw [← hdepartment, ← hcode]
    rw [refusal?] at h
    split at h
    · next hd => exact Or.inl ⟨(Option.some.inj h).symm, by simpa using hd⟩
    · next hd =>
      refine Or.inr ⟨by simpa using hd, ?_⟩
      split at h
      · next hc => exact Or.inl ⟨(Option.some.inj h).symm, by simpa using hc⟩
      · next hc => exact Or.inr ⟨by simpa using hc, h⟩
  | _ => exact Or.inl ⟨(Option.some.inj h).symm, by simp⟩

/-- The tree that a candidate is refused for is there, and rejected. -/
theorem exists_tree_of_refusal? {j : Json} {s : Section} {r : Rejection}
    (h : refusal? j = some (.tree s r)) : ∃ t, j.field? s.key = some t ∧ check t = some r := by
  rcases refusal?_cases h with ⟨hr, -⟩ | ⟨fields, rfl, ⟨hr, -⟩ | ⟨-, ⟨hr, -⟩ | ⟨-, htree⟩⟩⟩
  · exact absurd hr (by simp)
  · exact absurd hr (by simp)
  · exact absurd hr (by simp)
  · obtain ⟨_, _, _, t, _, _, _, hfound, _, hcheck, hrefusal⟩ := firstBadTree?_eq_some htree
    obtain ⟨rfl, rfl⟩ := Refusal.tree.inj hrefusal
    exact ⟨t, hfound, hcheck⟩

/-- The rules do not speak of reading. -/
theorem refusal?_ne_unreadable {j : Json} {refusal : Refusal} (h : refusal? j = some refusal) :
    ∀ faults, refusal ≠ .unreadable faults := by
  intro faults
  rcases refusal?_cases h with ⟨rfl, -⟩ | ⟨fields, rfl, ⟨rfl, -⟩ | ⟨-, ⟨rfl, -⟩ | ⟨-, htree⟩⟩⟩
  · simp
  · simp
  · simp
  · obtain ⟨_, _, _, _, _, _, _, _, _, _, rfl⟩ := firstBadTree?_eq_some htree
    simp

/-- A refusal that is not about reading comes from the rules. -/
theorem accept_eq_error_iff {j : Json} {refusal : Refusal}
    (h : ∀ faults, refusal ≠ .unreadable faults) :
    accept j = .error refusal ↔ refusal? j = some refusal := by
  unfold accept
  cases refusal? j with
  | some r => simp
  | none =>
    refine iff_of_false ?_ (by simp)
    intro he
    dsimp only at he
    split at he
    · exact absurd he (by simp)
    · next faults _ => exact h faults (Except.error.inj he).symm

/-- What a candidate is refused for is what is wrong with it first. -/
theorem firstRefusal_of_refusal? {j : Json} {refusal : Refusal} (h : refusal? j = some refusal) :
    FirstRefusal j refusal.text := by
  rcases refusal?_cases h with
    ⟨rfl, hj⟩ | ⟨fields, rfl, ⟨rfl, hd⟩ | ⟨hd, ⟨rfl, hc⟩ | ⟨hc, htree⟩⟩⟩
  · exact .notAnObject hj
  · exact .department hd
  · exact .code hd hc
  · obtain ⟨before, s, after, t, r, horder, hbefore, hfound, hthere, hcheck, rfl⟩ :=
      firstBadTree?_eq_some htree
    show FirstRefusal (.object fields) ("Invalid " ++ s.label ++ ": " ++ r.message)
    rw [r.message_eq]
    exact .tree hd hc horder hbefore hfound hthere (firstFault_of_check t r hcheck)

/-- A candidate is refused for what is wrong with it first. -/
theorem refusal?_of_firstRefusal {j : Json} {message : String} (h : FirstRefusal j message) :
    ∃ refusal, refusal? j = some refusal ∧ refusal.text = message := by
  cases h with
  | notAnObject h =>
    refine ⟨.notAnObject, ?_, rfl⟩
    cases j with
    | object fields => exact absurd rfl (h fields)
    | _ => rfl
  | @department fields h =>
    have hd : isTelling (fields.find? "department") = false := by
      rw [← Bool.not_eq_true, isTelling_iff]
      exact h
    exact ⟨.noDepartment, by simp [refusal?, hd], rfl⟩
  | @code fields department h =>
    have hd := (isTelling_iff (fields.find? "department")).mpr department
    have hc : isTelling (fields.find? "code") = false := by
      rw [← Bool.not_eq_true, isTelling_iff]
      exact h
    exact ⟨.noCode, by simp [refusal?, hd, hc], rfl⟩
  | @tree fields before after s t way reason department code order passed found there fault =>
    have hd := (isTelling_iff (fields.find? "department")).mpr department
    have hc := (isTelling_iff (fields.find? "code")).mpr code
    obtain ⟨flaw, hcheck, rfl⟩ := check_of_firstFault fault
    refine ⟨.tree s ⟨way, flaw⟩, ?_, ?_⟩
    · rw [refusal?, hd, hc, order]
      exact (firstBadTree?_append passed).trans (firstBadTree?_of_check found there hcheck)
    · show "Invalid " ++ s.label ++ ": " ++ Rejection.message ⟨way, flaw⟩ = _
      rw [Rejection.message_eq]

/-- **Who is rejected is told the first fault, and the way to it.** -/
theorem rejected_iff_firstFault :
    (∀ j message, (∃ r, check j = some r ∧ r.message = message) ↔
      ∃ way reason, message = wayText way ++ reason ∧ FirstFault j way reason) ∧
    ∀ j message, (∃ refusal, accept j = .error refusal ∧
      (∀ faults, refusal ≠ .unreadable faults) ∧ refusal.text = message) ↔
        FirstRefusal j message := by
  refine ⟨fun j message => message_iff_firstFault, fun j message => ?_⟩
  constructor
  · rintro ⟨refusal, haccept, hreadable, rfl⟩
    exact firstRefusal_of_refusal? ((accept_eq_error_iff hreadable).mp haccept)
  · intro h
    obtain ⟨refusal, hrefusal, rfl⟩ := refusal?_of_firstRefusal h
    refine ⟨refusal, ?_, refusal?_ne_unreadable hrefusal, rfl⟩
    exact (accept_eq_error_iff (refusal?_ne_unreadable hrefusal)).mpr hrefusal

example : (check (.object [("type", .text "group"), ("logic", .text "ALL_OF"), ("children", .array [
      .object [("type", .text "program"), ("program", .text "Honours")],
      .object [("type", .text "group"), ("logic", .text "ONE_OF"),
        ("children", .array [.object [("type", .text "course")]])]])])).map Rejection.message
    = some ("Invalid child at index 1: Invalid child at index 0: "
        ++ "Course requirement must have a course field") := by
  decide +kernel

end Candidate

end Curriculum
