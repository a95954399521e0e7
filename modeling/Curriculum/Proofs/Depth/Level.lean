import Curriculum.Proofs.Depth.Course

/-!
# The least level that is enough

The depth of a requirement is the least level at which it is met, if it names a course, and 0
otherwise (`Curriculum.Proofs.Depth.Met`). Two things follow that a reader of a catalog relies on:
the order in which the parts of a group are written says nothing (`depth_of_reordered`), and a
requirement asks for no less when the courses that it names turn out to be deeper (`depth_mono`).

Reordering may happen inside any group of a tree, so it is a relation between trees
(`Requirement.Reordered`) and not between lists of parts. That it changes no depth needs no table
without entries below 0, unlike everything else here: the depths of the parts are sorted before one
is picked.

> `depth_isLeastLevel`: the whole, for every tree and every table without entries below 0.
-/

namespace Curriculum

open DepthTable

/-- Sorting forgets the order that depths were given in. -/
theorem countedDepths_eq_of_perm {ds ds' : List Int} (h : ds.Perm ds') :
    countedDepths ds = countedDepths ds' := by
  have hperm : (countedDepths ds).Perm (countedDepths ds') :=
    (countedDepths_perm ds).trans ((h.filter _).trans (countedDepths_perm ds').symm)
  exact hperm.eq_of_pairwise (fun a b _ _ hab hba => Int.le_antisymm hab hba)
    (countedDepths_sorted ds) (countedDepths_sorted ds')

namespace Requirement

/-- The same tree with the parts of some groups in another order. -/
inductive Reordered : Requirement → Requirement → Prop
  | refl (t : Requirement) : Reordered t t
  | trans {t₁ t₂ t₃ : Requirement} (first : Reordered t₁ t₂) (second : Reordered t₂ t₃) :
      Reordered t₁ t₃
  /-- The parts of the root change places. -/
  | parts {logic : Logic} {first first' : Requirement} {rest rest' : List Requirement}
      (perm : (first :: rest).Perm (first' :: rest')) :
      Reordered (group logic first rest) (group logic first' rest')
  /-- One part is reordered and stays where it is. -/
  | inside {logic : Logic} {first first' p p' : Requirement}
      {rest rest' before behind : List Requirement} (part : Reordered p p')
      (old : first :: rest = before ++ p :: behind)
      (new : first' :: rest' = before ++ p' :: behind) :
      Reordered (group logic first rest) (group logic first' rest')

/-- **The order of parts does not matter.** -/
theorem depth_of_reordered (known : DepthTable) {t t' : Requirement} (h : Reordered t t') :
    t'.depth known = t.depth known := by
  induction h with
  | refl t => rfl
  | trans _ _ ih₁ ih₂ => exact ih₂.trans ih₁
  | parts perm =>
    rw [depth_group, depth_group, countedDepths_eq_of_perm (perm.map (depth known))]
  | inside _ old new ih =>
    rw [depth_group, depth_group, old, new, List.map_append, List.map_append, List.map_cons,
      List.map_cons, ih]

/-- A requirement asks for no less when entries rise. -/
theorem depth_mono {known known' : DepthTable} (hk : known.Nonneg) (hb : known.Below known')
    (t : Requirement) : t.depth known ≤ t.depth known' := by
  have hk' := hk.of_below hb
  refine depth_le_of_imp hk' hk (depth_nonneg hk' t) (fun c _ hc => ?_) (Int.le_refl _)
  exact Int.lt_of_le_of_lt (hb c) hc

/-- **The depth is the least level at which a requirement is met**, and at least 1, if it names a
course at all; it is the same in whatever order the parts are written, and no less when entries
rise. A requirement that names no course has depth 0. -/
theorem depth_isLeastLevel {known : DepthTable} (hk : known.Nonneg) (t : Requirement) :
    (t.counts = true →
        (∀ d, t.depth known ≤ d ↔ t.metAt known d = true) ∧ 1 ≤ t.depth known) ∧
      (∀ t', Reordered t t' → t'.depth known = t.depth known) ∧
      (∀ known' : DepthTable, known.Below known' → t.depth known ≤ t.depth known') ∧
      (t.counts = false → t.depth known = 0) := by
  refine ⟨fun hc => ⟨fun d => depth_le_iff_metAt hk d hc, depth_pos_of_counts hk hc⟩,
    fun t' h => depth_of_reordered known h, fun known' hb => depth_mono hk hb t, fun hc => ?_⟩
  exact depth_of_not_counts known (by rw [hc]; exact Bool.false_ne_true)

/-- Two of three parts, the first of which may be replaced by a permission. -/
def sampleChoice : Requirement :=
  .group .twoOf
    (.group .oneOf (.course ⟨"BIOL 3", by decide⟩ none none none)
      [.permission ⟨"ask the head", by decide⟩])
    [.course ⟨"BIOL 1", by decide⟩ none none none, .course ⟨"BIOL 2", by decide⟩ none none none]

/-- The least level is that of the second course done, not of the part written second. -/
theorem sampleChoice_isLeastLevel :
    DepthTable.Nonneg [("BIOL 3", 2), ("BIOL 1", 1)] ∧ sampleChoice.counts = true ∧
      sampleChoice.depth [("BIOL 3", 2), ("BIOL 1", 1)] = 2 := by
  have hk : DepthTable.Nonneg [("BIOL 3", 2), ("BIOL 1", 1)] := by
    intro c
    simp only [DepthTable.depthOf, Table.find?_cons, Table.find?_nil]
    split
    · decide
    · split <;> decide
  have hc : sampleChoice.counts = true := by decide
  obtain ⟨hlevel, -⟩ := (depth_isLeastLevel hk sampleChoice).1 hc
  have hmet := (hlevel 2).mpr (by decide)
  have hunmet := mt (hlevel 1).mp (by decide)
  exact ⟨hk, hc, by omega⟩

end Requirement

end Curriculum
