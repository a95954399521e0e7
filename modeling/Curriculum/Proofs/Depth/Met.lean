import Curriculum.Depth.Requirement
import Curriculum.Proofs.Requirement.Named

/-!
# When a requirement is met

Sorting the depths of a group's parts and picking one of them says little about what the depth is
for. This file gives the other reading: a student who has all courses of depth below `d` behind them
*meets* a leaf whose course is one of these, and meets a group when enough of the parts that count
are met (`Requirement.metAt`). The depth of a requirement is the least such `d`:

> `depth_le_iff_metAt`: `t.depth known ≤ d` exactly when `t` is met at `d`.

Being met only asks which leaves lie below `d` (`metAt_of_imp`), so bounds on a depth carry over
from one table to another without sorting anything again (`depth_le_of_imp`). What a whole course
asks for is in `Curriculum.Proofs.Depth.Course`.
-/

namespace Curriculum

/-! ## Picking from sorted depths -/

/-- How many of `n` counted parts a logic asks for. -/
def Logic.needed : Logic → Nat → Nat
  | .allOf, n => n
  | .oneOf, _ => 1
  | .twoOf, n => min 2 n

namespace Logic

theorem needed_pos (logic : Logic) {n : Nat} (h : 0 < n) : 0 < logic.needed n := by
  cases logic <;> simp only [needed] <;> omega

/-- The depth of a group is the last of those that its logic needs. -/
theorem getElem?_needed (logic : Logic) {l : List Int} (h : 0 < l.length) :
    l[logic.needed l.length - 1]? = some (logic.depthOf l) := by
  cases l with
  | nil => exact absurd h (Nat.lt_irrefl 0)
  | cons x xs =>
    cases logic with
    | oneOf => rfl
    | allOf =>
      rw [depthOf, List.getLast_eq_getElem]
      exact List.getElem?_eq_getElem _
    | twoOf =>
      cases xs with
      | nil => rfl
      | cons y ys =>
        have hidx : Logic.twoOf.needed (x :: y :: ys).length - 1 = 1 := by
          simp only [needed, List.length_cons]
          omega
        rw [hidx]
        rfl

theorem depthOf_mem (logic : Logic) {l : List Int} (h : 0 < l.length) : logic.depthOf l ∈ l :=
  List.mem_of_getElem? (logic.getElem?_needed h)

end Logic

/-- In ascending order, a member is at most `d` exactly when more members than stand before it
are. -/
theorem getElem?_le_iff {l : List Int} (hl : l.Pairwise (· ≤ ·)) {d x : Int} {k : Nat}
    (hk : l[k]? = some x) : x ≤ d ↔ k < l.countP fun y => decide (y ≤ d) := by
  induction l generalizing k with
  | nil => exact absurd hk (by simp)
  | cons z zs ih =>
    obtain ⟨hz, hzs⟩ := List.pairwise_cons.mp hl
    by_cases hzd : z ≤ d
    · rw [List.countP_cons_of_pos (by simpa using hzd)]
      cases k with
      | zero =>
        have hzx : z = x := by simpa using hk
        exact iff_of_true (hzx ▸ hzd) (Nat.succ_pos _)
      | succ k =>
        rw [List.getElem?_cons_succ] at hk
        rw [ih hzs hk]
        omega
    · -- all members are above `d`, so none is counted
      have hall : ∀ y ∈ z :: zs, ¬ y ≤ d := by
        intro y hy
        rcases List.mem_cons.mp hy with rfl | hy
        · exact hzd
        · have := hz y hy
          omega
      have hzero : (z :: zs).countP (fun y => decide (y ≤ d)) = 0 :=
        List.countP_eq_zero.mpr fun y hy => by simpa using hall y hy
      rw [hzero]
      exact iff_of_false (hall x (List.mem_of_getElem? hk)) (Nat.not_lt_zero k)

/-- The depth picked from depths in ascending order is at most `d` exactly when as many of them as
the logic needs are. -/
theorem Logic.depthOf_le_iff_of_sorted (logic : Logic) {l : List Int} (hl : l.Pairwise (· ≤ ·))
    (h : 0 < l.length) (d : Int) :
    logic.depthOf l ≤ d ↔ logic.needed l.length ≤ l.countP fun x => decide (x ≤ d) := by
  rw [getElem?_le_iff hl (logic.getElem?_needed h)]
  have := logic.needed_pos h
  omega

/-! ## The depths that are counted -/

theorem countedDepths_sorted (ds : List Int) : (countedDepths ds).Pairwise (· ≤ ·) := by
  have htrans : ∀ a b c : Int, decide (a ≤ b) = true → decide (b ≤ c) = true →
      decide (a ≤ c) = true := by
    intro a b c hab hbc
    simp only [decide_eq_true_eq] at hab hbc ⊢
    omega
  have htotal : ∀ a b : Int, (decide (a ≤ b) || decide (b ≤ a)) = true := by
    intro a b
    simp only [Bool.or_eq_true, decide_eq_true_eq]
    omega
  exact (List.pairwise_mergeSort htrans htotal _).imp fun hab => of_decide_eq_true hab

theorem countedDepths_perm (ds : List Int) :
    (countedDepths ds).Perm (ds.filter fun d => decide (0 < d)) :=
  List.mergeSort_perm _ _

theorem mem_countedDepths {ds : List Int} {d : Int} : d ∈ countedDepths ds ↔ d ∈ ds ∧ 0 < d := by
  rw [(countedDepths_perm ds).mem_iff, List.mem_filter, decide_eq_true_eq]

theorem length_countedDepths (ds : List Int) :
    (countedDepths ds).length = ds.countP fun d => decide (0 < d) := by
  rw [(countedDepths_perm ds).length_eq, List.countP_eq_length_filter]

/-- The depth of a group of which some part is counted is at most `d` exactly when as many counted
parts as its logic needs have a depth of at most `d`. -/
theorem Logic.depthOf_countedDepths_le_iff (logic : Logic) {ds : List Int}
    (h : ∃ x ∈ ds, 0 < x) (d : Int) :
    logic.depthOf (countedDepths ds) ≤ d ↔
      logic.needed (ds.countP fun x => decide (0 < x))
        ≤ ds.countP fun x => decide (0 < x) && decide (x ≤ d) := by
  obtain ⟨x, hx, hpos⟩ := h
  have hlen : 0 < (countedDepths ds).length :=
    List.length_pos_of_mem (mem_countedDepths.mpr ⟨hx, hpos⟩)
  -- sorting changes no count, so the rest is about the depths as they stand in the group
  rw [logic.depthOf_le_iff_of_sorted (countedDepths_sorted ds) hlen, length_countedDepths,
    (countedDepths_perm ds).countP_eq, List.countP_filter]
  simp only [Bool.and_comm]

/-- A group of which some part is counted has a depth above 0. -/
theorem Logic.depthOf_countedDepths_pos (logic : Logic) {ds : List Int} (h : ∃ x ∈ ds, 0 < x) :
    0 < logic.depthOf (countedDepths ds) := by
  obtain ⟨x, hx, hpos⟩ := h
  have hlen : 0 < (countedDepths ds).length :=
    List.length_pos_of_mem (mem_countedDepths.mpr ⟨hx, hpos⟩)
  exact (mem_countedDepths.mp (logic.depthOf_mem hlen)).2

/-- A group of which no part is counted has depth 0. -/
theorem Logic.depthOf_countedDepths_of_none (logic : Logic) {ds : List Int}
    (h : ∀ x ∈ ds, ¬ 0 < x) : logic.depthOf (countedDepths ds) = 0 := by
  have hnil : countedDepths ds = [] :=
    List.eq_nil_iff_forall_not_mem.mpr fun x hx =>
      h x (mem_countedDepths.mp hx).1 (mem_countedDepths.mp hx).2
  rw [hnil]
  cases logic <;> rfl

/-- No entry of a table is below 0. -/
def DepthTable.Nonneg (known : DepthTable) : Prop := ∀ c, 0 ≤ known.depthOf c

namespace Requirement

/-! ## Depth and counting -/

theorem depth_group (known : DepthTable) (logic : Logic) (first : Requirement)
    (rest : List Requirement) :
    (group logic first rest).depth known
      = logic.depthOf (countedDepths ((first :: rest).map (depth known))) := by
  rw [depth, depths_eq_map, List.map_cons]

/-- A requirement that names no course has depth 0. -/
theorem depth_of_not_counts (known : DepthTable) {t : Requirement} (h : ¬ t.counts = true) :
    t.depth known = 0 := by
  induction t using inductionOnParts with
  | step t ih =>
    cases t with
    | course id => exact absurd rfl h
    | group logic first rest =>
      rw [depth_group]
      refine logic.depthOf_countedDepths_of_none fun x hx => ?_
      obtain ⟨p, hp, rfl⟩ := List.mem_map.mp hx
      have hzero := ih p hp fun hc => h (counts_group.mpr ⟨p, hp, hc⟩)
      omega
    | _ => rfl

/-- A requirement that names a course is deeper than 0. -/
theorem depth_pos_of_counts {known : DepthTable} (hk : known.Nonneg) {t : Requirement}
    (h : t.counts = true) : 0 < t.depth known := by
  induction t using inductionOnParts with
  | step t ih =>
    cases t with
    | course id =>
      have := hk id.text
      simp only [depth]
      omega
    | group logic first rest =>
      obtain ⟨p, hp, hc⟩ := counts_group.mp h
      rw [depth_group]
      exact logic.depthOf_countedDepths_pos ⟨_, List.mem_map_of_mem hp, ih p hp hc⟩
    | _ => exact absurd h (by simp [counts, namedCourses])

theorem depth_pos_iff {known : DepthTable} (hk : known.Nonneg) {t : Requirement} :
    0 < t.depth known ↔ t.counts = true := by
  refine ⟨fun h => Decidable.byContradiction fun hc => ?_, depth_pos_of_counts hk⟩
  rw [depth_of_not_counts known hc] at h
  exact Int.lt_irrefl 0 h

theorem depth_nonneg {known : DepthTable} (hk : known.Nonneg) (t : Requirement) :
    0 ≤ t.depth known := by
  by_cases h : t.counts = true
  · exact Int.le_of_lt (depth_pos_of_counts hk h)
  · exact Int.le_of_eq (depth_of_not_counts known h).symm

/-! ## Being met -/

mutual

/-- Whether a requirement is met by someone who has done all courses of depth below `d`: a leaf by
its course, a group by as many of the parts that count as its logic needs. -/
def metAt (known : DepthTable) (d : Int) : Requirement → Bool
  | course id .. => decide (known.depthOf id.text < d)
  | group logic first rest =>
    decide (logic.needed ((first :: rest).countP counts)
      ≤ (first.counts && first.metAt known d).toNat + metAmong known d rest)
  | _ => false

/-- How many of some requirements count and are met. -/
def metAmong (known : DepthTable) (d : Int) : List Requirement → Nat
  | [] => 0
  | t :: rest => (t.counts && t.metAt known d).toNat + metAmong known d rest

end

theorem metAmong_eq_countP (known : DepthTable) (d : Int) (ts : List Requirement) :
    metAmong known d ts = ts.countP fun t => t.counts && t.metAt known d := by
  induction ts with
  | nil => rfl
  | cons t rest ih =>
    rw [metAmong, ih, List.countP_cons, Nat.add_comm]
    cases t.counts && t.metAt known d <;> rfl

theorem metAt_course {known : DepthTable} {d : Int} {id : Label} {g : Option Grade}
    {may must : Option Bool} :
    (course id g may must).metAt known d = true ↔ known.depthOf id.text < d := by
  rw [metAt, decide_eq_true_eq]

theorem metAt_group {known : DepthTable} {d : Int} {logic : Logic} {first : Requirement}
    {rest : List Requirement} :
    (group logic first rest).metAt known d = true ↔
      logic.needed ((first :: rest).countP counts)
        ≤ (first :: rest).countP fun t => t.counts && t.metAt known d := by
  rw [metAt, decide_eq_true_eq, ← metAmong_eq_countP, metAmong]

/-- Whether a requirement is met hangs only on which of its courses lie below the bound. -/
theorem metAt_of_imp {known known' : DepthTable} {d d' : Int} {t : Requirement}
    (h : ∀ c ∈ t.namedCourses, known.depthOf c < d → known'.depthOf c < d')
    (hm : t.metAt known d = true) : t.metAt known' d' = true := by
  induction t using inductionOnParts with
  | step t ih =>
    cases t with
    | course id =>
      rw [metAt_course] at hm ⊢
      exact h id.text (List.mem_singleton.mpr rfl) hm
    | group logic first rest =>
      rw [metAt_group] at hm ⊢
      refine Nat.le_trans hm (List.countP_mono_left fun p hp hpm => ?_)
      rw [Bool.and_eq_true] at hpm ⊢
      exact ⟨hpm.1, ih p hp (fun c hc => h c (mem_namedCourses_group.mpr ⟨p, hp, hc⟩)) hpm.2⟩
    | _ => exact hm

/-- **The depth is the least bound at which a requirement is met**, if it names a course. -/
theorem depth_le_iff_metAt {known : DepthTable} (hk : known.Nonneg) (d : Int) {t : Requirement}
    (h : t.counts = true) : t.depth known ≤ d ↔ t.metAt known d = true := by
  induction t using inductionOnParts with
  | step t ih =>
    cases t with
    | course id =>
      rw [metAt_course, depth]
      omega
    | group logic first rest =>
      obtain ⟨p, hp, hc⟩ := counts_group.mp h
      have hsome : ∃ x ∈ (first :: rest).map (depth known), 0 < x :=
        ⟨_, List.mem_map_of_mem hp, depth_pos_of_counts hk hc⟩
      rw [depth_group, logic.depthOf_countedDepths_le_iff hsome, metAt_group, List.countP_map,
        List.countP_map]
      -- part by part: its depth is above 0 when it counts, and then at most `d` when it is met
      have hcounts : (first :: rest).countP ((fun x => decide (0 < x)) ∘ depth known)
          = (first :: rest).countP counts :=
        List.countP_congr fun q _ => by simpa using depth_pos_iff hk
      have hmet : (first :: rest).countP
            ((fun x => decide (0 < x) && decide (x ≤ d)) ∘ depth known)
          = (first :: rest).countP fun t => t.counts && t.metAt known d :=
        List.countP_congr fun q hq => by
          simp only [Function.comp_apply, Bool.and_eq_true, decide_eq_true_eq, depth_pos_iff hk]
          exact and_congr_right fun hqc => ih q hq hqc
      rw [hcounts, hmet]
    | _ => exact absurd h (by simp [counts, namedCourses])

/-- A bound on the depth carries over to another table, if every course of the requirement that
lies below the one bound in the one table lies below the other in the other. -/
theorem depth_le_of_imp {known known' : DepthTable} (hk : known.Nonneg) (hk' : known'.Nonneg)
    {d d' : Int} (hd' : 0 ≤ d') {t : Requirement}
    (h : ∀ c ∈ t.namedCourses, known.depthOf c < d → known'.depthOf c < d')
    (hd : t.depth known ≤ d) : t.depth known' ≤ d' := by
  by_cases hc : t.counts = true
  · rw [depth_le_iff_metAt hk' d' hc]
    exact metAt_of_imp h ((depth_le_iff_metAt hk d hc).mp hd)
  · rw [depth_of_not_counts known' hc]
    exact hd'

end Requirement

end Curriculum
