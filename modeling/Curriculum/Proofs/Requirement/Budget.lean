import Curriculum.Proofs.Requirement.Paths
import Mathlib.Algebra.BigOperators.Group.List.Basic
import Mathlib.Algebra.Order.Field.Basic
import Mathlib.Algebra.Order.Ring.Rat
import Mathlib.Tactic.FieldSimp
import Mathlib.Tactic.Positivity

/-!
# The weight that a requirement has to give

Apart from rounding, a group hands each part the whole weight, or divides it among the parts, once or
twice over. That is said without any numbers (`sharingBy`), for doubling and dividing of whatever
kind: with those of a document's numbers it is `Number.share`, and with those of the rational numbers
it is exact (`exactShare`).

A group of at least two parts never hands a part more than it has, not even if it doubles its weight
first. Only a group that asks for two and has a single part does, and it hands on twice as much
(`exists_exactShare`). Going down a path (`handDown_exactShare`), the weight of a course is at most
doubled once for each such group. A group that asks for one of its parts divides exactly what it has,
so where there are only such groups and every leaf is a course, nothing is lost
(`sum_weights_of_isPureChoice`).

> `weights_within_budget`: no division by zero, no weight that is zero or too large, and nothing lost
> in a choice.
-/

namespace Curriculum

/-- How a group divides a weight, given how weights are doubled and divided. -/
def sharingBy {ε α : Type} (double : α → α) (divideBy : α → Int → Except ε α) :
    Sharing (Except ε) α
  | .allOf, w, _ => .ok w
  | .oneOf, w, n => divideBy w n
  | .twoOf, w, n => divideBy (double w) n

theorem Number.share_eq : Number.share = sharingBy Number.double Number.divideBy := by
  funext logic w n
  cases logic <;> rfl

/-- Dividing a rational number. -/
def divideExactly (w : ℚ) (n : Int) : Except DivisionFault ℚ :=
  if n = 0 then .error .byZero else .ok (w / n)

/-- Sharing rational numbers. -/
def exactShare : Sharing (Except DivisionFault) ℚ := sharingBy (· * 2) divideExactly

theorem divideExactly_count (w : ℚ) {n : Nat} (hn : 0 < n) :
    divideExactly w n = .ok (w / n) := by
  have hzero : ¬ (n : Int) = 0 := by omega
  rw [divideExactly, if_neg hzero, Int.cast_natCast]

/-- Nothing but zero is refused as zero. -/
theorem Number.divideBy_ne_byZero {x : Number} {n : Int} (hn : n ≠ 0) :
    x.divideBy n ≠ .error .byZero := by
  unfold divideBy
  rw [if_neg hn]
  cases x with
  | int k =>
    dsimp only
    split <;> simp
  | float x =>
    generalize Binary64.ofInt? n = d
    cases d <;> simp

namespace Requirement

/-! ## One group -/

/-- A group hands on something, and no more than it has, or twice as much if it has a single part and
asks for two. -/
theorem exists_exactShare (logic : Logic) {w : ℚ} {n : Nat} (hw : 0 < w) (hn : 0 < n) :
    ∃ part, exactShare logic w n = .ok part ∧ 0 < part ∧
      part ≤ w * if (logic, n) = (.twoOf, 1) then 2 else 1 := by
  have hpos : (0 : ℚ) < n := Nat.cast_pos.mpr hn
  have hone : (1 : ℚ) ≤ n := Nat.one_le_cast.mpr hn
  cases logic with
  | allOf => exact ⟨w, rfl, hw, by simp⟩
  | oneOf =>
    refine ⟨w / n, divideExactly_count w hn, by positivity, ?_⟩
    simpa using div_le_self hw.le hone
  | twoOf =>
    refine ⟨w * 2 / n, divideExactly_count (w * 2) hn, by positivity, ?_⟩
    by_cases hsingle : n = 1
    · simp [hsingle]
    · have htwo : (2 : ℚ) ≤ n := Nat.ofNat_le_cast.mpr (by omega)
      have hle : w * 2 / n ≤ w := by
        rw [div_le_iff₀ hpos]
        exact mul_le_mul_of_nonneg_left htwo hw.le
      simpa [hsingle] using hle

/-! ## A path -/

/-- How many groups of a path ask for two of their parts and have only one. -/
def doublings (path : List (Logic × Nat)) : Nat := path.count (.twoOf, 1)

theorem doublings_cons (group : Logic × Nat) (path : List (Logic × Nat)) :
    doublings (group :: path) = doublings path + if group = (.twoOf, 1) then 1 else 0 := by
  simp [doublings, List.count_cons]

/-- Down a path of groups there is something for the leaf, and the weight is doubled at most as often
as there are groups that do so. -/
theorem handDown_exactShare {path : List (Logic × Nat)} (hpath : ∀ group ∈ path, 0 < group.2)
    {w : ℚ} (hw : 0 < w) :
    ∃ x, handDown exactShare w path = .ok x ∧ 0 < x ∧ x ≤ w * 2 ^ doublings path := by
  induction path generalizing w with
  | nil => exact ⟨w, rfl, hw, by simp [doublings]⟩
  | cons group path ih =>
    obtain ⟨hgroup, hrest⟩ := List.forall_mem_cons.mp hpath
    obtain ⟨part, hpart, hpos, hle⟩ := exists_exactShare group.1 hw hgroup
    obtain ⟨x, hx, hxpos, hxle⟩ := ih hrest hpos
    refine ⟨x, handDown_cons_eq_ok_iff.mpr ⟨part, hpart, hx⟩, hxpos, ?_⟩
    have hfactor : (if (group.1, group.2) = (Logic.twoOf, 1) then (2 : ℚ) else 1)
        = 2 ^ (if group = (.twoOf, 1) then 1 else 0) := by
      split <;> simp
    calc x ≤ part * 2 ^ doublings path := hxle
      _ ≤ w * (if (group.1, group.2) = (Logic.twoOf, 1) then 2 else 1) * 2 ^ doublings path := by
        gcongr
      _ = w * 2 ^ doublings (group :: path) := by
        rw [hfactor, doublings_cons, pow_add]
        ring

/-- The groups around a leaf have parts. -/
theorem size_pos_of_mem_leaves {t : Requirement} {leaf : Leaf} (h : leaf ∈ t.leaves) :
    ∀ group ∈ leaf.path, 0 < group.2 := by
  induction t using inductionOnParts generalizing leaf with
  | step t ih =>
    cases t with
    | course id =>
      rw [List.mem_singleton.mp h]
      exact fun _ hgroup => absurd hgroup List.not_mem_nil
    | group logic first rest =>
      rw [leaves_group] at h
      obtain ⟨inner, hinner, rfl⟩ := List.mem_map.mp h
      obtain ⟨p, hp, hmem⟩ := List.mem_flatMap.mp hinner
      exact List.forall_mem_cons.mpr ⟨Nat.succ_pos _, ih p hp hmem⟩
    | _ => exact absurd h List.not_mem_nil

/-- No group divides by zero: it has a part. -/
theorem handDown_ne_byZero {path : List (Logic × Nat)} (hpath : ∀ group ∈ path, 0 < group.2)
    (x : Number) : handDown Number.share x path ≠ .error .byZero := by
  induction path generalizing x with
  | nil => exact fun h => nomatch h
  | cons group path ih =>
    obtain ⟨hgroup, hrest⟩ := List.forall_mem_cons.mp hpath
    have hcount : (group.2 : Int) ≠ 0 := by omega
    have hshare : Number.share group.1 x group.2 ≠ .error .byZero := by
      rw [Number.share_eq]
      cases group.1 with
      | allOf => exact fun h => nomatch h
      | oneOf => exact Number.divideBy_ne_byZero hcount
      | twoOf => exact Number.divideBy_ne_byZero hcount
    rw [handDown_cons]
    cases hpart : Number.share group.1 x group.2 with
    | error fault =>
      rw [hpart] at hshare
      exact hshare
    | ok part => exact ih hrest part

/-! ## Choices -/

/-- A requirement in which all leaves are courses and every group asks for one of its parts. -/
inductive IsPureChoice : Requirement → Prop
  | course (id : Label) (minGrade : Option Grade) (mayOverlap mustOverlap : Option Bool) :
      IsPureChoice (.course id minGrade mayOverlap mustOverlap)
  | group (first : Requirement) (rest : List Requirement)
      (parts : ∀ p ∈ first :: rest, IsPureChoice p) : IsPureChoice (.group .oneOf first rest)

/-- If each of some requirements gives all that it has, they give it as often as there are
requirements. -/
theorem sum_weightsOfList {part : ℚ} {ts : List Requirement}
    (h : ∀ t ∈ ts, ∀ ws, weights exactShare part t = .ok ws → (ws.map (·.2)).sum = part)
    {ws : List (String × ℚ)} (hws : weightsOfList exactShare part ts = .ok ws) :
    (ws.map (·.2)).sum = ts.length * part := by
  induction ts generalizing ws with
  | nil =>
    obtain rfl := Except.ok.inj hws
    simp
  | cons t rest ih =>
    obtain ⟨found, more, hfound, hmore, rfl⟩ := weightsOfList_cons_eq_ok_iff.mp hws
    rw [List.map_append, List.sum_append, h t List.mem_cons_self found hfound,
      ih (fun t' ht' => h t' (List.mem_cons_of_mem _ ht')) hmore, List.length_cons, Nat.cast_succ]
    ring

/-- **Nothing is lost in a choice.** -/
theorem sum_weights_of_isPureChoice {t : Requirement} (ht : t.IsPureChoice) {w : ℚ}
    {ws : List (String × ℚ)} (hws : weights exactShare w t = .ok ws) :
    (ws.map (·.2)).sum = w := by
  induction ht generalizing w ws with
  | course =>
    obtain rfl := Except.ok.inj hws
    simp
  | group first rest parts ih =>
    obtain ⟨part, hpart, hparts⟩ := weights_group_eq_ok_iff.mp hws
    have hshare : exactShare .oneOf w (rest.length + 1) = .ok (w / (rest.length + 1 : Nat)) :=
      divideExactly_count w (Nat.succ_pos _)
    obtain rfl := Except.ok.inj (hshare.symm.trans hpart)
    rw [sum_weightsOfList (fun p hp ws' hws' => ih p hp hws') hparts, List.length_cons]
    have hcount : ((rest.length + 1 : Nat) : ℚ) ≠ 0 := Nat.cast_ne_zero.mpr (Nat.succ_ne_zero _)
    field_simp

/-! ## The main result -/

/-- **A requirement stays within its weight.** Nothing is divided by zero, whatever number one starts
with. In exact arithmetic, and with a weight above zero, every course at a leaf gets a weight above
zero, at most the weight of the requirement doubled as often as there are groups on its path that ask
for two of their parts and have only one. If all leaves are courses and all groups ask for one of
their parts, the weights sum to the weight of the requirement. -/
theorem weights_within_budget (t : Requirement) {w : ℚ} (hw : 0 < w) :
    (∀ x : Number, weights Number.share x t ≠ .error .byZero) ∧
      ∃ ws, weights exactShare w t = .ok ws ∧
        List.Forall₂ (fun entry leaf => entry.1 = leaf.course ∧ 0 < entry.2 ∧
          entry.2 ≤ w * 2 ^ doublings leaf.path) ws t.leaves ∧
        (t.IsPureChoice → (ws.map (·.2)).sum = w) := by
  refine ⟨fun x hzero => ?_, ?_⟩
  · obtain ⟨before, path, after, hpaths, -, hdown⟩ := weights_eq_error_iff.mp hzero
    have hpath : path ∈ t.groupPaths := hpaths ▸ List.mem_append_right _ List.mem_cons_self
    exact handDown_ne_byZero (size_pos_of_mem_groupPaths hpath) x hdown
  · obtain ⟨ws, hws⟩ : ∃ ws, weights exactShare w t = .ok ws := by
      refine exists_weights_iff.mpr fun path hpath => ?_
      obtain ⟨x, hx, -⟩ := handDown_exactShare (size_pos_of_mem_groupPaths hpath) hw
      exact ⟨x, hx⟩
    refine ⟨ws, hws, ?_, fun ht => sum_weights_of_isPureChoice ht hws⟩
    -- the weight of an entry is handed down the path of its leaf
    have hserved : List.Forall₂ (fun leaf entry => (∀ group ∈ leaf.path, 0 < group.2) ∧
        IsServed exactShare w entry leaf) t.leaves ws :=
      (List.forall₂_and_left _ _).mpr
        ⟨fun _ hleaf => size_pos_of_mem_leaves hleaf, (weights_forall₂_leaves hws).flip⟩
    refine hserved.flip.imp ?_
    rintro entry leaf ⟨hsize, hcourse, hdown⟩
    obtain ⟨x, hx, hpos, hle⟩ := handDown_exactShare hsize hw
    obtain rfl := Except.ok.inj (hx.symm.trans hdown)
    exact ⟨hcourse, hpos, hle⟩

/-- Two courses, one of which must be taken, in a group that asks for two things and has one. -/
def onlyTwo : Requirement :=
  .group .twoOf (.group .oneOf (.course ⟨"STAT 200", by decide⟩ none none none)
    [.course ⟨"STAT 241", by decide⟩ none none none]) []

/-- Three courses in a choice of a choice. -/
def pureChoice : Requirement :=
  .group .oneOf (.course ⟨"ECON 101", by decide⟩ none none none)
    [.group .oneOf (.course ⟨"ECON 102", by decide⟩ none none none)
      [.course ⟨"ECON 103", by decide⟩ none none none]]

/-- One third is doubled on the way to either course of the first requirement, and it is what the
courses of the second share. -/
theorem third_within_budget : (0 : ℚ) < 1 / 3 ∧
    (∃ ws, weights exactShare (1 / 3) onlyTwo = .ok ws ∧
      List.Forall₂ (fun entry leaf => entry.1 = leaf.course ∧ 0 < entry.2 ∧
        entry.2 ≤ 1 / 3 * 2 ^ doublings leaf.path) ws onlyTwo.leaves) ∧
    onlyTwo.leaves.map (fun leaf => doublings leaf.path) = [1, 1] ∧
    pureChoice.IsPureChoice ∧
    ∃ ws, weights exactShare (1 / 3) pureChoice = .ok ws ∧ (ws.map (·.2)).sum = 1 / 3 := by
  have hthird : (0 : ℚ) < 1 / 3 := by norm_num
  have hpure : pureChoice.IsPureChoice := by
    refine .group _ _ (List.forall_mem_cons.mpr ⟨.course .., List.forall_mem_singleton.mpr ?_⟩)
    exact .group _ _ (List.forall_mem_cons.mpr ⟨.course .., List.forall_mem_singleton.mpr
      (.course ..)⟩)
  obtain ⟨-, ws, hws, hbound, -⟩ := weights_within_budget onlyTwo hthird
  obtain ⟨-, ws', hws', -, hsum⟩ := weights_within_budget pureChoice hthird
  exact ⟨hthird, ⟨ws, hws, hbound⟩, rfl, hpure, ws', hws', hsum hpure⟩

end Requirement

end Curriculum
