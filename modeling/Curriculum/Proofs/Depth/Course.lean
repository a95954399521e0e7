import Curriculum.Proofs.Depth.Met

/-!
# What a course asks for

The depth of a course is that of its deepest binding tree. It is compared here between tables: it
grows with the table (`depth_mono`), it commutes with cutting the table off at a bound
(`min_depth_le_depth`), it is one more than the depth of a course that is named
(`exists_named_of_depth_pos`), and it stays within any bound above all courses that are named
(`depth_le_of_named_lt`). All four come from `depth_le_of_imp`, which asks nothing about the shape
of the trees.

A table *covers* some courses when no entry is below what the course asks for, and *supports* them
when no entry is above it: the first is what a settled catalog has to satisfy, the second is what
the passes keep on the way there.
-/

namespace Curriculum

namespace DepthTable

/-- No entry of the first table is above that of the second. -/
def Below (known known' : DepthTable) : Prop := ∀ c, known.depthOf c ≤ known'.depthOf c

theorem Below.refl (known : DepthTable) : known.Below known := fun _ => Int.le_refl _

theorem Below.trans {t₁ t₂ t₃ : DepthTable} (h₁ : t₁.Below t₂) (h₂ : t₂.Below t₃) : t₁.Below t₃ :=
  fun c => Int.le_trans (h₁ c) (h₂ c)

theorem Nonneg.of_below {known known' : DepthTable} (h : known.Nonneg) (hb : known.Below known') :
    known'.Nonneg :=
  fun c => Int.le_trans (h c) (hb c)

end DepthTable

namespace CourseRequirements

/-- The courses that the binding trees name. -/
def namedCourses (r : CourseRequirements) : List String :=
  r.bindingTrees.flatMap Requirement.namedCourses

theorem mem_namedCourses {r : CourseRequirements} {c : String} :
    c ∈ r.namedCourses ↔ ∃ t ∈ r.bindingTrees, c ∈ t.namedCourses := by
  rw [namedCourses, List.mem_flatMap]

theorem foldl_max_depth_le_iff (known : DepthTable) (ts : List Requirement) (a d : Int) :
    ts.foldl (fun m t => max m (t.depth known)) a ≤ d ↔ a ≤ d ∧ ∀ t ∈ ts, t.depth known ≤ d := by
  induction ts generalizing a with
  | nil => simp
  | cons t rest ih =>
    rw [List.foldl_cons, ih, Int.max_le, List.forall_mem_cons, and_assoc]

/-- The depth of a course is the largest depth of a binding tree, or 0. -/
theorem depth_le_iff {known : DepthTable} {r : CourseRequirements} {d : Int} :
    r.depth known ≤ d ↔ 0 ≤ d ∧ ∀ t ∈ r.bindingTrees, t.depth known ≤ d :=
  foldl_max_depth_le_iff known r.bindingTrees 0 d

theorem depth_nonneg (known : DepthTable) (r : CourseRequirements) : 0 ≤ r.depth known :=
  (depth_le_iff.mp (Int.le_refl _)).1

/-- A bound on the depth carries over to another table, as it does for a single tree. -/
theorem depth_le_of_imp {known known' : DepthTable} (hk : known.Nonneg) (hk' : known'.Nonneg)
    {d d' : Int} (hd' : 0 ≤ d') {r : CourseRequirements}
    (h : ∀ c ∈ r.namedCourses, known.depthOf c < d → known'.depthOf c < d')
    (hd : r.depth known ≤ d) : r.depth known' ≤ d' := by
  refine depth_le_iff.mpr ⟨hd', fun t ht => ?_⟩
  exact Requirement.depth_le_of_imp hk hk' hd' (fun c hc => h c (mem_namedCourses.mpr ⟨t, ht, hc⟩))
    ((depth_le_iff.mp hd).2 t ht)

/-- A course asks for no less when entries rise. -/
theorem depth_mono {known known' : DepthTable} (hk : known.Nonneg) (hb : known.Below known')
    (r : CourseRequirements) : r.depth known ≤ r.depth known' := by
  refine depth_le_of_imp (hk.of_below hb) hk (depth_nonneg known' r) (fun c _ hc => ?_)
    (Int.le_refl _)
  exact Int.lt_of_le_of_lt (hb c) hc

/-- A table that has reached another one up to a bound asks for as much as the other one does, up
to one more than the bound. -/
theorem min_depth_le_depth {known limit : DepthTable} (hk : known.Nonneg) (hl : limit.Nonneg)
    {k : Int} (h : ∀ c, min (limit.depthOf c) k ≤ known.depthOf c) (r : CourseRequirements) :
    min (r.depth limit) (k + 1) ≤ r.depth known := by
  by_cases hlt : r.depth known < k + 1
  · -- every course below the smaller depth lies below the bound, where the tables agree
    have hle : r.depth limit ≤ r.depth known := by
      refine depth_le_of_imp hk hl (depth_nonneg known r) (fun c _ hc => ?_) (Int.le_refl _)
      have := h c
      omega
    omega
  · omega

/-- What a course asks for, if anything, is one more than the depth of a course that it names. -/
theorem exists_named_of_depth_pos {known : DepthTable} (hk : known.Nonneg)
    {r : CourseRequirements} (h : 0 < r.depth known) :
    ∃ c ∈ r.namedCourses, r.depth known = known.depthOf c + 1 := by
  refine Decidable.byContradiction fun hnone => ?_
  -- otherwise one less would do as well
  have hle : r.depth known ≤ r.depth known - 1 := by
    refine depth_le_of_imp hk hk (by omega) (fun c hc hlt => ?_) (Int.le_refl _)
    have hne : r.depth known ≠ known.depthOf c + 1 := fun he => hnone ⟨c, hc, he⟩
    omega
  omega

/-- A course asks for something exactly when it names a course. -/
theorem depth_pos_iff {known : DepthTable} (hk : known.Nonneg) {r : CourseRequirements} :
    0 < r.depth known ↔ ∃ c, c ∈ r.namedCourses := by
  constructor
  · intro h
    obtain ⟨c, hc, -⟩ := exists_named_of_depth_pos hk h
    exact ⟨c, hc⟩
  · intro h
    obtain ⟨c, hc⟩ := h
    obtain ⟨t, ht, hnamed⟩ := mem_namedCourses.mp hc
    have hpos := Requirement.depth_pos_of_counts hk (Requirement.counts_iff.mpr ⟨c, hnamed⟩)
    exact Int.lt_of_lt_of_le hpos ((depth_le_iff.mp (Int.le_refl _)).2 t ht)

/-- A course asks for no more than a bound above all courses that it names. -/
theorem depth_le_of_named_lt {known : DepthTable} (hk : known.Nonneg) {d : Int} (hd : 0 ≤ d)
    {r : CourseRequirements} (h : ∀ c ∈ r.namedCourses, known.depthOf c < d) : r.depth known ≤ d :=
  depth_le_of_imp hk hk hd (fun c hc _ => h c hc) (Int.le_refl _)

end CourseRequirements

namespace DepthTable

variable (courses : List ParsedCourse)

/-- No entry is below what its course asks for, whichever of its records is taken. -/
def Covers (known : DepthTable) : Prop := ∀ c ∈ courses, c.2.depth known ≤ known.depthOf c.1

/-- Every entry above 0 is asked for by a record of its course. -/
def Supported (known : DepthTable) : Prop :=
  ∀ id, 0 < known.depthOf id → ∃ r, (id, r) ∈ courses ∧ known.depthOf id ≤ r.depth known

end DepthTable

end Curriculum
