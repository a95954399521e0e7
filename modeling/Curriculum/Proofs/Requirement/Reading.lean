import Curriculum.Proofs.Reading.Success
import Curriculum.Requirement.Reading

/-!
# When a requirement is read

A requirement is read from an object whose tag names a kind. A leaf is read when its own fields are
(`read_leaf_eq_ok_iff`). A group is read when it does not stand too deep, its logic is named, and
each of its parts is read one group further in (`read_group_eq_ok_iff`); the parts stand in the
order of the items of `children`. There is no other way to read a requirement
(`exists_kind_of_read`).
-/

namespace Curriculum

namespace Requirement

open Reading

variable {source : Source} {depth : Nat} {fields : Table String Json}

theorem readChildren_eq (fields : Table String Json) :
    readChildren source depth fields =
      match fields.find? "children" with
      | none => fault .missing
      | some value => readParts source depth value := by
  induction fields with
  | nil => rfl
  | cons entry rest ih =>
    obtain ⟨name, value⟩ := entry
    rw [readChildren, Table.find?_cons]
    split
    · rfl
    · exact ih

theorem readItems_eq (index : Nat) (js : List Json) :
    readItems source depth index js = items (read source depth) index js := by
  induction js generalizing index with
  | nil => rfl
  | cons j rest ih => rw [readItems, items, ih]

theorem readParts_eq_ok_iff {value : Json} {first : Requirement} {rest : List Requirement} :
    readParts source depth value = .ok (first, rest) ↔ ∃ j js, value = .array (j :: js) ∧
      read source depth j = .ok first ∧
        List.Forall₂ (fun j t => read source depth j = .ok t) js rest := by
  cases value with
  | array js =>
    cases js with
    | nil => simp [readParts]
    | cons j js =>
      rw [readParts, both_eq_ok_iff, inside_eq_ok_iff, readItems_eq, items_eq_ok_iff]
      simp
  | _ => simp [readParts]

theorem readChildren_eq_ok_iff {first : Requirement} {rest : List Requirement} :
    readChildren source depth fields = .ok (first, rest) ↔
      ∃ j js, fields.find? "children" = some (.array (j :: js)) ∧
        read source depth j = .ok first ∧
          List.Forall₂ (fun j t => read source depth j = .ok t) js rest := by
  rw [readChildren_eq]
  cases fields.find? "children" with
  | none => simp
  | some value =>
    dsimp only
    rw [readParts_eq_ok_iff]
    simp

theorem readLeaf?_eq_none_iff {k : Kind} : readLeaf? source fields k = none ↔ k = .group := by
  cases k <;> simp [readLeaf?]

/-- A leaf is read when its fields are. -/
theorem read_leaf_eq_ok_iff {k : Kind} {leaf : Reading Requirement} {t : Requirement}
    (htype : fields.find? "type" = some (.text k.name))
    (hleaf : readLeaf? source fields k = some leaf) :
    read source depth (.object fields) = .ok t ↔ leaf = .ok t := by
  rw [read, htype]
  dsimp only
  rw [Kind.ofName?_name]
  dsimp only
  rw [hleaf, inside_eq_ok_iff]

/-- A group is read when it does not stand too deep and its logic and all its parts are read. -/
theorem read_group_eq_ok_iff {t : Requirement}
    (htype : fields.find? "type" = some (.text Kind.group.name)) :
    read source depth (.object fields) = .ok t ↔
      tooDeep source depth = false ∧ ∃ logic first rest j js, t = .group logic first rest ∧
        required fields "logic" (named Logic.ofName?) = .ok logic ∧
          fields.find? "children" = some (.array (j :: js)) ∧
            read source (depth + 1) j = .ok first ∧
              List.Forall₂ (fun j t => read source (depth + 1) j = .ok t) js rest := by
  rw [read, htype]
  dsimp only
  rw [Kind.ofName?_name, inside_eq_ok_iff]
  dsimp only [readLeaf?]
  cases tooDeep source depth with
  | true => simp
  | false =>
    rw [if_neg (by simp), combine_eq_ok_iff]
    simp only [inside_eq_ok_iff, true_and]
    constructor
    · rintro ⟨logic, ⟨first, rest⟩, hlogic, hparts, rfl⟩
      obtain ⟨j, js, hchildren, hfirst, hrest⟩ := readChildren_eq_ok_iff.mp hparts
      exact ⟨logic, first, rest, j, js, rfl, hlogic, hchildren, hfirst, hrest⟩
    · rintro ⟨logic, first, rest, j, js, rfl, hlogic, hchildren, hfirst, hrest⟩
      exact ⟨logic, (first, rest), hlogic,
        readChildren_eq_ok_iff.mpr ⟨j, js, hchildren, hfirst, hrest⟩, rfl⟩

/-- What is read as a requirement is an object whose tag names a kind. -/
theorem exists_kind_of_read {j : Json} {t : Requirement} (h : read source depth j = .ok t) :
    ∃ fields k, j = .object fields ∧ Table.find? fields "type" = some (.text (Kind.name k)) := by
  cases j with
  | object fields =>
    rw [read] at h
    split at h
    · exact absurd h (by simp)
    · next tag htag =>
      split at h
      · exact absurd h (by simp)
      · next k hk =>
        have hname := List.find?_some hk
        rw [decide_eq_true_eq] at hname
        exact ⟨fields, k, rfl, by rw [htag, hname]⟩
    · exact absurd h (by simp)
  | _ => exact absurd h (by simp [read])

/-- The tag of what is read names its kind. -/
theorem type_of_read {t : Requirement} (h : read source depth (.object fields) = .ok t) :
    fields.find? "type" = some (.text t.kind.name) := by
  obtain ⟨_, k, hfields, htype⟩ := exists_kind_of_read h
  obtain rfl := Json.object.inj hfields
  -- whichever way the object was read, the kind of the result is that of its tag
  have hkind : t.kind = k := by
    cases hleaf : readLeaf? source fields k with
    | none =>
      obtain rfl := readLeaf?_eq_none_iff.mp hleaf
      obtain ⟨-, _, _, _, _, _, rfl, -⟩ := (read_group_eq_ok_iff htype).mp h
      rfl
    | some leaf =>
      have hread := (read_leaf_eq_ok_iff htype hleaf).mp h
      cases k with
      | group => exact absurd hleaf (by simp [readLeaf?])
      | course =>
        obtain rfl := Option.some.inj hleaf
        obtain ⟨_, _, hmust, -, rfl⟩ := apply_eq_ok_iff.mp hread
        obtain ⟨_, _, hmay, -, rfl⟩ := apply_eq_ok_iff.mp hmust
        obtain ⟨_, _, -, -, rfl⟩ := combine_eq_ok_iff.mp hmay
        rfl
      | creditCount =>
        obtain rfl := Option.some.inj hleaf
        obtain ⟨_, _, -, -, rfl⟩ := combine_eq_ok_iff.mp hread
        rfl
      | courseCount =>
        obtain rfl := Option.some.inj hleaf
        obtain ⟨_, _, -, -, rfl⟩ := combine_eq_ok_iff.mp hread
        rfl
      | _ =>
        obtain rfl := Option.some.inj hleaf
        obtain ⟨_, -, rfl⟩ := map_eq_ok_iff.mp hread
        rfl
  rw [hkind, htype]

/-! ## Leaves -/

theorem readScope_eq_ok_iff {scope : Scope} :
    readScope source fields = .ok scope ↔
      optional fields "department" (readOneOrMany .text .texts Reading.text)
          = .ok scope.department ∧
        optional fields "level" (readOneOrMany .level .levels (named Level.ofName?))
          = .ok scope.level ∧
        optional fields "minGrade" (readGrade source) = .ok scope.minGrade := by
  simp only [readScope, apply_eq_ok_iff, combine_eq_ok_iff]
  constructor
  · rintro ⟨_, g, ⟨d, l, hd, hl, rfl⟩, hg, rfl⟩
    exact ⟨hd, hl, hg⟩
  · rintro ⟨hd, hl, hg⟩
    exact ⟨_, _, ⟨_, _, hd, hl, rfl⟩, hg, rfl⟩

theorem readScope_of_read_credits {amount : Amount} {scope : Scope}
    (h : read source depth (.object fields) = .ok (.credits amount scope)) :
    readScope source fields = .ok scope := by
  have hread := (read_leaf_eq_ok_iff (k := .creditCount) (type_of_read h) rfl).mp h
  obtain ⟨_, _, -, hscope, he⟩ := combine_eq_ok_iff.mp hread
  obtain ⟨-, rfl⟩ := Requirement.credits.inj he
  exact hscope

theorem readScope_of_read_courses {amount : Amount} {scope : Scope}
    (h : read source depth (.object fields) = .ok (.courses amount scope)) :
    readScope source fields = .ok scope := by
  have hread := (read_leaf_eq_ok_iff (k := .courseCount) (type_of_read h) rfl).mp h
  obtain ⟨_, _, -, hscope, he⟩ := combine_eq_ok_iff.mp hread
  obtain ⟨-, rfl⟩ := Requirement.courses.inj he
  exact hscope

/-- Of what is read as one thing or as several, several come from as many items. -/
theorem readOneOrMany_eq_ok {α : Type} {one many : Choice} {read : Json → Reading α} {j : Json}
    {d : OneOrMany α} (h : readOneOrMany one many read j = .ok d) :
    (∃ a, d = .one a ∧ read j = .ok a) ∨
      ∃ items as, d = .many as ∧ j = .array items ∧
        List.Forall₂ (fun j a => read j = .ok a) items as := by
  cases hone : read j with
  | ok a =>
    simp only [readOneOrMany, hone] at h
    obtain rfl := Reading.ok.inj h
    exact Or.inl ⟨a, rfl, rfl⟩
  | faulty fs =>
    cases hmany : Reading.list read j with
    | ok as =>
      simp only [readOneOrMany, hone, hmany] at h
      obtain rfl := Reading.ok.inj h
      cases j with
      | array items => exact Or.inr ⟨items, as, rfl, rfl, items_eq_ok_iff.mp hmany⟩
      | _ => exact absurd hmany (by simp [Reading.list])
    | faulty gs =>
      simp only [readOneOrMany, hone, hmany] at h
      obtain ⟨a, b, ha, -, -⟩ := combine_eq_ok_iff.mp h
      exact absurd (inside_eq_ok_iff.mp ha) (by simp)

end Requirement

end Curriculum
