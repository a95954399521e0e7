import Curriculum.Proofs.Requirement.Weights
import Mathlib.Data.List.Forall2

/-!
# Weights along paths

The weights of a requirement are found in one descent, which takes the weight of a group as the start
for everything in it. Said leaf by leaf there is no descent: a course has a *path*, the groups around
it from the outermost to the innermost (`Requirement.leaves`), and its weight is what is handed down
that path (`handDown`), whatever stands beside it.

Where sharing can fail, the two part. The descent shares the weight of every group, also of one that
names no course, so it fails as soon as sharing fails in any group, the first of them giving the
fault (`weights_eq_error_iff`), and a leaf whose own path is harmless gets no weight then
(`distantGroup_weights_fail`). Otherwise the leaves are all served, one entry each, in their order
(`weights_forall₂_leaves`).

A graph shares floating-point numbers, and takes no fault into account (`Binary64.share`). Among
counts within range that is how the numbers of a document are shared (`Number.share_float`), so what
a graph uses is handed down the paths as well (`dependencies_forall₂_leaves`).

> `weights_along_paths`: what the descent gives for any requirement and any number to start with.
-/

namespace Curriculum

namespace Requirement

/-! ## Leaves and groups -/

/-- A course at a leaf, and the groups around it from the outermost to the innermost: the logic of
each of them, and how many parts it has. -/
structure Leaf where
  course : String
  path : List (Logic × Nat)

/-- A leaf with one more group around it. -/
def Leaf.inside (group : Logic × Nat) (leaf : Leaf) : Leaf := ⟨leaf.course, group :: leaf.path⟩

mutual

/-- The courses at the leaves of a requirement, from left to right. -/
def leaves : Requirement → List Leaf
  | course id .. => [⟨id.text, []⟩]
  | group logic first rest =>
    (leaves first ++ leavesOfList rest).map (Leaf.inside (logic, rest.length + 1))
  | _ => []

/-- The courses at the leaves of some requirements. -/
def leavesOfList : List Requirement → List Leaf
  | [] => []
  | t :: rest => leaves t ++ leavesOfList rest

end

mutual

/-- The groups of a requirement in the order in which they begin: the path to each of them, which
ends in the group. -/
def groupPaths : Requirement → List (List (Logic × Nat))
  | group logic first rest =>
    [(logic, rest.length + 1)]
      :: (groupPaths first ++ groupPathsOfList rest).map ((logic, rest.length + 1) :: ·)
  | _ => []

/-- The groups of some requirements. -/
def groupPathsOfList : List Requirement → List (List (Logic × Nat))
  | [] => []
  | t :: rest => groupPaths t ++ groupPathsOfList rest

end

theorem leavesOfList_eq (ts : List Requirement) : leavesOfList ts = ts.flatMap leaves := by
  induction ts with
  | nil => rfl
  | cons t rest ih => rw [leavesOfList, ih, List.flatMap_cons]

theorem groupPathsOfList_eq (ts : List Requirement) :
    groupPathsOfList ts = ts.flatMap groupPaths := by
  induction ts with
  | nil => rfl
  | cons t rest ih => rw [groupPathsOfList, ih, List.flatMap_cons]

section Group

variable (logic : Logic) (first : Requirement) (rest : List Requirement)

theorem leaves_group : (group logic first rest).leaves
    = ((first :: rest).flatMap leaves).map (Leaf.inside (logic, rest.length + 1)) := by
  rw [leaves, leavesOfList_eq, List.flatMap_cons]

theorem groupPaths_group : (group logic first rest).groupPaths = [(logic, rest.length + 1)]
    :: ((first :: rest).flatMap groupPaths).map ((logic, rest.length + 1) :: ·) := by
  rw [groupPaths, groupPathsOfList_eq, List.flatMap_cons]

theorem mem_groupPaths_group {path : List (Logic × Nat)} :
    path ∈ (group logic first rest).groupPaths ↔ path = [(logic, rest.length + 1)] ∨
      ∃ p ∈ first :: rest, ∃ path' ∈ p.groupPaths, path = (logic, rest.length + 1) :: path' := by
  rw [groupPaths_group, List.mem_cons, List.mem_map]
  refine or_congr_right ⟨?_, ?_⟩
  · rintro ⟨path', hpath', rfl⟩
    obtain ⟨p, hp, hmem⟩ := List.mem_flatMap.mp hpath'
    exact ⟨p, hp, path', hmem, rfl⟩
  · rintro ⟨p, hp, path', hmem, rfl⟩
    exact ⟨path', List.mem_flatMap.mpr ⟨p, hp, hmem⟩, rfl⟩

end Group

/-- What is handed down a path of groups. -/
def handDown {m : Type → Type} [Monad m] {α : Type} (share : Sharing m α) (w : α)
    (path : List (Logic × Nat)) : m α :=
  path.foldlM (fun w group => share group.1 w group.2) w

/-! ## Where sharing can fail -/

section Fallible

variable {ε α : Type} {share : Sharing (Except ε) α} {w : α} {e : ε}

theorem handDown_cons (share : Sharing (Except ε) α) (w : α) (group : Logic × Nat)
    (path : List (Logic × Nat)) : handDown share w (group :: path)
      = share group.1 w group.2 >>= fun part => handDown share part path := by
  rw [handDown, List.foldlM_cons]
  rfl

/-- A group shares its weight once, and then goes through its parts. -/
theorem weights_group_eq (share : Sharing (Except ε) α) (w : α) (logic : Logic)
    (first : Requirement) (rest : List Requirement) : weights share w (group logic first rest)
      = share logic w (rest.length + 1) >>= fun part => weightsOfList share part (first :: rest) :=
  rfl

theorem weightsOfList_cons_eq_ok_iff {t : Requirement} {rest : List Requirement}
    {ws : List (String × α)} : weightsOfList share w (t :: rest) = .ok ws ↔
      ∃ found more, weights share w t = .ok found ∧ weightsOfList share w rest = .ok more ∧
        ws = found ++ more := by
  rw [weightsOfList]
  cases weights share w t with
  | error e => simp [bind, Except.bind]
  | ok found =>
    cases weightsOfList share w rest with
    | error e => simp [bind, Except.bind]
    | ok more => simp [bind, Except.bind, pure, Except.pure, eq_comm]

/-- Where every requirement of a list has weights, these are strung together. -/
theorem weightsOfList_eq_ok {f : Requirement → List (String × α)} {ts : List Requirement}
    (h : ∀ t ∈ ts, weights share w t = .ok (f t)) :
    weightsOfList share w ts = .ok (ts.flatMap f) := by
  induction ts with
  | nil => rfl
  | cons t rest ih =>
    obtain ⟨ht, hrest⟩ := List.forall_mem_cons.mp h
    exact weightsOfList_cons_eq_ok_iff.mpr ⟨f t, rest.flatMap f, ht, ih hrest, List.flatMap_cons⟩

theorem weights_group_eq_ok_iff {logic : Logic} {first : Requirement} {rest : List Requirement}
    {ws : List (String × α)} : weights share w (group logic first rest) = .ok ws ↔
      ∃ part, share logic w (rest.length + 1) = .ok part ∧
        weightsOfList share part (first :: rest) = .ok ws := by
  rw [weights_group_eq]
  cases share logic w (rest.length + 1) with
  | error e => simp [bind, Except.bind]
  | ok part => simp [bind, Except.bind]

theorem handDown_cons_eq_ok_iff {group : Logic × Nat} {path : List (Logic × Nat)} {x : α} :
    handDown share w (group :: path) = .ok x ↔
      ∃ part, share group.1 w group.2 = .ok part ∧ handDown share part path = .ok x := by
  rw [handDown_cons]
  cases share group.1 w group.2 with
  | error e => simp [bind, Except.bind]
  | ok part => simp [bind, Except.bind]

/-! ## Every leaf is served -/

/-- An entry is that of a leaf: it has its course and what is handed down its path. -/
def IsServed (share : Sharing (Except ε) α) (w : α) (entry : String × α) (leaf : Leaf) : Prop :=
  entry.1 = leaf.course ∧ handDown share w leaf.path = .ok entry.2

theorem IsServed.inside {group : Logic × Nat} {part : α} (h : share group.1 w group.2 = .ok part)
    {entry : String × α} {leaf : Leaf} (hserved : IsServed share part entry leaf) :
    IsServed share w entry (leaf.inside group) :=
  ⟨hserved.1, handDown_cons_eq_ok_iff.mpr ⟨part, h, hserved.2⟩⟩

/-- What every requirement of a list does with its leaves, the list does. -/
theorem weightsOfList_forall₂ {R : String × α → Leaf → Prop} {ts : List Requirement}
    (h : ∀ t ∈ ts, ∀ ws, weights share w t = .ok ws → List.Forall₂ R ws t.leaves)
    {ws : List (String × α)} (hws : weightsOfList share w ts = .ok ws) :
    List.Forall₂ R ws (ts.flatMap leaves) := by
  induction ts generalizing ws with
  | nil =>
    obtain rfl := Except.ok.inj hws
    exact .nil
  | cons t rest ih =>
    obtain ⟨found, more, hfound, hmore, rfl⟩ := weightsOfList_cons_eq_ok_iff.mp hws
    rw [List.flatMap_cons]
    exact List.rel_append (h t List.mem_cons_self found hfound)
      (ih (fun t' ht' => h t' (List.mem_cons_of_mem _ ht')) hmore)

/-- **There is one entry for each leaf, in order, with what is handed down its path.** -/
theorem weights_forall₂_leaves {t : Requirement} {ws : List (String × α)}
    (h : weights share w t = .ok ws) : List.Forall₂ (IsServed share w) ws t.leaves := by
  induction t using inductionOnParts generalizing w ws with
  | step t ih =>
    cases t with
    | course id =>
      obtain rfl := Except.ok.inj h
      exact .cons ⟨rfl, rfl⟩ .nil
    | group logic first rest =>
      obtain ⟨part, hpart, hws⟩ := weights_group_eq_ok_iff.mp h
      rw [leaves_group, List.forall₂_map_right_iff]
      refine weightsOfList_forall₂ (fun p hp ws' hws' => ?_) hws
      exact (ih p hp hws').imp fun entry leaf hserved => hserved.inside hpart
    | _ =>
      obtain rfl := Except.ok.inj h
      exact .nil

/-! ## The first group that fails -/

/-- The fault of what fails. -/
def fault? {β : Type} : Except ε β → Option ε
  | .error e => some e
  | .ok _ => none

theorem fault?_eq_some_iff {β : Type} {x : Except ε β} : fault? x = some e ↔ x = .error e := by
  cases x <;> simp [fault?]

theorem fault?_eq_none_iff {β : Type} {x : Except ε β} : fault? x = none ↔ ∃ a, x = .ok a := by
  cases x <;> simp [fault?]

/-- The fault of the first of some paths down which nothing can be handed. -/
def firstFault? (share : Sharing (Except ε) α) (w : α) (paths : List (List (Logic × Nat))) :
    Option ε :=
  paths.findSome? fun path => fault? (handDown share w path)

/-- Below a group that shares its weight, faults are those of what it hands on. -/
theorem firstFault?_map_cons {group : Logic × Nat} {part : α}
    (h : share group.1 w group.2 = .ok part) (paths : List (List (Logic × Nat))) :
    firstFault? share w (paths.map (group :: ·)) = firstFault? share part paths := by
  have hdown : ∀ path, handDown share w (group :: path) = handDown share part path := by
    intro path
    rw [handDown_cons, h]
    rfl
  simp only [firstFault?, List.findSome?_map, Function.comp_def, hdown]

/-- A list of requirements is gone through from the left, up to the first fault. -/
theorem fault?_weightsOfList {ts : List Requirement}
    (h : ∀ t ∈ ts, fault? (weights share w t) = firstFault? share w t.groupPaths) :
    fault? (weightsOfList share w ts) = firstFault? share w (ts.flatMap groupPaths) := by
  induction ts with
  | nil => rfl
  | cons t rest ih =>
    obtain ⟨ht, hrest⟩ := List.forall_mem_cons.mp h
    have hsplit : firstFault? share w ((t :: rest).flatMap groupPaths)
        = (fault? (weights share w t)).or (fault? (weightsOfList share w rest)) := by
      rw [ht, ih hrest, List.flatMap_cons]
      exact List.findSome?_append
    rw [hsplit, weightsOfList]
    cases weights share w t with
    | error e => rfl
    | ok found => cases weightsOfList share w rest <;> rfl

/-- **The descent fails where the first group fails**, groups standing in the order in which they
begin. -/
theorem fault?_weights {t : Requirement} :
    fault? (weights share w t) = firstFault? share w t.groupPaths := by
  induction t using inductionOnParts generalizing w with
  | step t ih =>
    cases t with
    | group logic first rest =>
      have houter : handDown share w [(logic, rest.length + 1)]
          = share logic w (rest.length + 1) := by
        rw [handDown_cons]
        cases share logic w (rest.length + 1) <;> rfl
      rw [groupPaths_group, weights_group_eq, firstFault?, List.findSome?_cons, houter]
      cases hpart : share logic w (rest.length + 1) with
      | error e => rfl
      | ok part =>
        -- the group itself has something to share, so what counts is its parts
        exact (fault?_weightsOfList fun p hp => ih p hp).trans (firstFault?_map_cons hpart _).symm
    | _ => rfl

/-- There are weights exactly if each group has something to share. -/
theorem exists_weights_iff {t : Requirement} : (∃ ws, weights share w t = .ok ws) ↔
    ∀ path ∈ t.groupPaths, ∃ x, handDown share w path = .ok x := by
  rw [← fault?_eq_none_iff, fault?_weights, firstFault?, List.findSome?_eq_none_iff]
  simp only [fault?_eq_none_iff]

/-- Otherwise the fault is that of the first group that has nothing to share. -/
theorem weights_eq_error_iff {t : Requirement} : weights share w t = .error e ↔
    ∃ before path after, t.groupPaths = before ++ path :: after ∧
      (∀ p ∈ before, ∃ x, handDown share w p = .ok x) ∧ handDown share w path = .error e := by
  rw [← fault?_eq_some_iff, fault?_weights, firstFault?, List.findSome?_eq_some_iff]
  simp only [fault?_eq_some_iff, fault?_eq_none_iff]
  refine exists_congr fun before => exists_congr fun path => exists_congr fun after => ?_
  exact and_congr_right fun _ => and_comm

end Fallible

end Requirement

/-! ## Numbers that can be shared -/

namespace Number

open Binary64

/-- A number that can be divided, doubled or not: any floating-point number, and an integer unless
its double is beyond the range of finite ones. -/
def IsShareable : Number → Prop
  | .int n => 2 * n.natAbs < integerBound
  | .float _ => True

variable {n : Nat}

theorem nearestRank_div_lt_top {k : Int} (hk : k.natAbs < integerBound) (hn : 0 < n) :
    nearestRank (k.natAbs * unit) n < top := by
  have hone : nearestRank (k.natAbs * unit) 1 < top := by
    have hfinite := (ofInt_isFinite_iff k).mpr hk
    rw [ofInt_eq, ofRank, isFinite, decide_eq_true_eq] at hfinite
    omega
  have hmono : nearestRank (k.natAbs * unit) n ≤ nearestRank (k.natAbs * unit) 1 :=
    nearestRank_mono hn Nat.one_pos (Nat.mul_le_mul_left _ hn)
  omega

/-- Floating-point numbers are divided by counts within range. -/
theorem divideBy_float (x : Binary64) (hn : 0 < n) (hcount : n < integerBound) :
    (float x).divideBy n = .ok (.float (x.div (.ofCount n))) := by
  have hzero : ¬ (n : Int) = 0 := by omega
  have hfinite := (ofInt_isFinite_iff n).mpr (by rwa [Int.natAbs_natCast])
  -- the divisor is replaced before the branch is taken, so that nothing evaluates it
  have hd : ofInt? n = some (ofCount n) := by
    rw [ofInt?, if_pos hfinite, ofCount_eq_ofInt hcount]
  unfold divideBy
  rw [if_neg hzero, hd]

/-- An integer within range can be divided by any count, and so can any floating-point number. -/
theorem exists_divideBy {x : Number} (hn : 0 < n) (hcount : n < integerBound)
    (hx : ∀ k, x = .int k → k.natAbs < integerBound) : ∃ y, x.divideBy n = .ok (.float y) := by
  cases x with
  | int k =>
    have hzero : ¬ (n : Int) = 0 := by omega
    have hfinite : (ofRatio (decide (k < 0) != decide ((n : Int) < 0)) k.natAbs
        (n : Int).natAbs).isFinite = true := by
      have hlt := nearestRank_div_lt_top (hx k rfl) hn
      rw [Int.natAbs_natCast, ofRatio, ofRank, isFinite, decide_eq_true_eq]
      omega
    unfold divideBy
    rw [if_neg hzero]
    dsimp only
    rw [if_pos hfinite]
    exact ⟨_, rfl⟩
  | float y => exact ⟨_, divideBy_float y hn hcount⟩

/-- **The two ways of sharing agree** on floating-point numbers, among counts within range. -/
theorem share_float (logic : Logic) (x : Binary64) (hn : 0 < n) (hcount : n < integerBound) :
    Number.share logic (float x) n = .ok (.float (Binary64.share logic x n)) := by
  cases logic with
  | allOf => rfl
  | oneOf => rw [Number.share, handOn, divideBy_float x hn hcount, Binary64.share]
  | twoOf => rw [Number.share, handOn, double, divideBy_float _ hn hcount, Binary64.share]

/-- What can be shared leaves something that can be shared. -/
theorem IsShareable.share {x : Number} (hx : x.IsShareable) (logic : Logic) (hn : 0 < n)
    (hcount : n < integerBound) : ∃ y, Number.share logic x n = .ok y ∧ y.IsShareable := by
  have hdouble : ∀ k, x.double = .int k → k.natAbs < integerBound := by
    rintro k hk
    cases x with
    | int j =>
      obtain rfl := Number.int.inj hk
      rw [Int.natAbs_mul]
      show j.natAbs * 2 < integerBound
      rw [Nat.mul_comm]
      exact hx
    | float y => exact nomatch hk
  have hself : ∀ k, x = .int k → k.natAbs < integerBound := by
    rintro k rfl
    have : 2 * k.natAbs < integerBound := hx
    omega
  cases logic with
  | allOf => exact ⟨x, rfl, hx⟩
  | oneOf =>
    obtain ⟨y, hy⟩ := exists_divideBy hn hcount hself
    exact ⟨.float y, hy, trivial⟩
  | twoOf =>
    obtain ⟨y, hy⟩ := exists_divideBy hn hcount hdouble
    exact ⟨.float y, hy, trivial⟩

theorem IsShareable.handDown {x : Number} (hx : x.IsShareable) {path : List (Logic × Nat)}
    (hpos : ∀ group ∈ path, 0 < group.2) (hcount : ∀ group ∈ path, group.2 < integerBound) :
    ∃ y, Requirement.handDown Number.share x path = .ok y := by
  induction path generalizing x with
  | nil => exact ⟨x, rfl⟩
  | cons group path ih =>
    obtain ⟨hgroup, hpath⟩ := List.forall_mem_cons.mp hpos
    obtain ⟨hgroup', hpath'⟩ := List.forall_mem_cons.mp hcount
    obtain ⟨part, hpart, hshareable⟩ := hx.share group.1 hgroup hgroup'
    obtain ⟨y, hy⟩ := ih hshareable hpath hpath'
    exact ⟨y, Requirement.handDown_cons_eq_ok_iff.mpr ⟨part, hpart, hy⟩⟩

end Number

namespace Requirement

/-- A group has a part. -/
theorem size_pos_of_mem_groupPaths {t : Requirement} {path : List (Logic × Nat)}
    (h : path ∈ t.groupPaths) : ∀ group ∈ path, 0 < group.2 := by
  induction t using inductionOnParts generalizing path with
  | step t ih =>
    cases t with
    | group logic first rest =>
      rcases (mem_groupPaths_group logic first rest).mp h with rfl | ⟨p, hp, path', hpath', rfl⟩
      · exact List.forall_mem_singleton.mpr (Nat.succ_pos _)
      · exact List.forall_mem_cons.mpr ⟨Nat.succ_pos _, ih p hp hpath'⟩
    | _ => exact absurd h List.not_mem_nil

/-- The weights of a requirement are the same in both ways of sharing. -/
theorem weights_float {t : Requirement} (x : Binary64)
    (hcount : ∀ path ∈ t.groupPaths, ∀ group ∈ path, group.2 < Binary64.integerBound) :
    weights Number.share (.float x) t
      = .ok ((Id.run (weights Binary64.share x t)).map fun dep => (dep.1, .float dep.2)) := by
  induction t using inductionOnParts generalizing x with
  | step t ih =>
    cases t with
    | group logic first rest =>
      have hsize : rest.length + 1 < Binary64.integerBound :=
        hcount _ ((mem_groupPaths_group logic first rest).mpr (Or.inl rfl)) _ List.mem_cons_self
      have hparts : ∀ p ∈ first :: rest, ∀ path ∈ p.groupPaths, ∀ group ∈ path,
          group.2 < Binary64.integerBound := fun p hp path hpath group hgroup =>
        hcount _ ((mem_groupPaths_group logic first rest).mpr (Or.inr ⟨p, hp, path, hpath, rfl⟩))
          group (List.mem_cons_of_mem _ hgroup)
      rw [weights_group_eq, Number.share_float logic x (Nat.succ_pos _) hsize, weights_group]
      show weightsOfList Number.share _ (first :: rest) = .ok (List.map _ (List.flatMap _ _))
      rw [List.map_flatMap]
      exact weightsOfList_eq_ok fun p hp => ih p hp _ (hparts p hp)
    | _ => rfl

/-- So the weights that a graph uses are what is handed down the paths of the leaves. -/
theorem dependencies_forall₂_leaves {t : Requirement}
    (hcount : ∀ path ∈ t.groupPaths, ∀ group ∈ path, group.2 < Binary64.integerBound) :
    List.Forall₂ (fun dep leaf => dep.1 = leaf.course ∧
      handDown Number.share (.float (.ofNat 1)) leaf.path = .ok (.float dep.2))
      t.dependencies t.leaves :=
  List.forall₂_map_left_iff.mp (weights_forall₂_leaves (weights_float (.ofNat 1) hcount))

/-- **Weights follow the paths.** Whatever number one starts with, there are weights exactly if each
group of the requirement has something to share, and otherwise the fault is that of the first group
that has nothing to share. If there are weights, there is one entry for each course at a leaf, in the
order of the leaves, and its weight is what is handed down the path of the leaf. There are weights
for all floating-point numbers and for all integers whose double is in range, if no group has so many
parts that their number is out of range. -/
theorem weights_along_paths (t : Requirement) (w : Number) :
    ((∃ ws, weights Number.share w t = .ok ws) ↔
        ∀ path ∈ t.groupPaths, ∃ x, handDown Number.share w path = .ok x) ∧
      (∀ fault, weights Number.share w t = .error fault ↔
        ∃ before path after, t.groupPaths = before ++ path :: after ∧
          (∀ p ∈ before, ∃ x, handDown Number.share w p = .ok x) ∧
          handDown Number.share w path = .error fault) ∧
      (∀ ws, weights Number.share w t = .ok ws →
        List.Forall₂ (IsServed Number.share w) ws t.leaves) ∧
      (w.IsShareable →
        (∀ path ∈ t.groupPaths, ∀ group ∈ path, group.2 < Binary64.integerBound) →
        ∃ ws, weights Number.share w t = .ok ws) := by
  refine ⟨exists_weights_iff, fun _ => weights_eq_error_iff, fun _ => weights_forall₂_leaves,
    fun hw hcount => exists_weights_iff.mpr fun path hpath => ?_⟩
  exact hw.handDown (size_pos_of_mem_groupPaths hpath) (hcount path hpath)

/-- A course, or two of four things among which the course comes up again. -/
def nestedChoice : Requirement :=
  .group .oneOf (.course ⟨"CHEM 111", by decide⟩ none none none)
    [.group .twoOf (.course ⟨"CHEM 121", by decide⟩ none none none)
      [.permission ⟨"of the head", by decide⟩, .course ⟨"CHEM 111", by decide⟩ none none none,
        .course ⟨"CHEM 141", by decide⟩ none none none]]

/-- What is only permitted gets no weight, but it is one of the four parts. -/
theorem nestedChoice_weights :
    (Number.int 3).IsShareable ∧
      (∀ path ∈ nestedChoice.groupPaths, ∀ group ∈ path, group.2 < Binary64.integerBound) ∧
      nestedChoice.leaves.map Leaf.path = [[(.oneOf, 2)], [(.oneOf, 2), (.twoOf, 4)],
        [(.oneOf, 2), (.twoOf, 4)], [(.oneOf, 2), (.twoOf, 4)]] ∧
      ∃ ws, weights Number.share (.int 3) nestedChoice = .ok ws ∧
        List.Forall₂ (IsServed Number.share (.int 3)) ws nestedChoice.leaves := by
  have hw : (Number.int 3).IsShareable := by
    show 2 * 3 < Binary64.integerBound
    decide +kernel
  have hcount : ∀ path ∈ nestedChoice.groupPaths, ∀ group ∈ path,
      group.2 < Binary64.integerBound := by
    decide +kernel
  obtain ⟨-, -, hserved, hexists⟩ := weights_along_paths nestedChoice (.int 3)
  obtain ⟨ws, hws⟩ := hexists hw hcount
  exact ⟨hw, hcount, rfl, ws, hws, hserved ws hws⟩

/-- A course beside a group that names none. -/
def distantGroup : Requirement :=
  .group .allOf (.course ⟨"BIOL 112", by decide⟩ none none none)
    [.group .oneOf (.program ⟨"BSc", by decide⟩) []]

/-- The course would get the whole of an integer that is too large to be divided; but the group
beside it is to divide the integer, and so nothing gets a weight. -/
theorem distantGroup_weights_fail :
    (∀ leaf ∈ distantGroup.leaves,
        handDown Number.share (.int (10 ^ 309)) leaf.path = .ok (.int (10 ^ 309))) ∧
      ¬ ∃ ws, weights Number.share (.int (10 ^ 309)) distantGroup = .ok ws ∧
        List.Forall₂ (IsServed Number.share (.int (10 ^ 309))) ws distantGroup.leaves := by
  have hfail : weights Number.share (.int (10 ^ 309)) distantGroup = .error .quotientTooLarge := by
    decide +kernel
  have hleaves : distantGroup.leaves = [⟨"BIOL 112", [(.allOf, 2)]⟩] := rfl
  refine ⟨?_, ?_⟩
  · rw [hleaves]
    exact List.forall_mem_singleton.mpr rfl
  · rintro ⟨ws, hws, -⟩
    exact nomatch hfail.symm.trans hws

end Requirement

end Curriculum
