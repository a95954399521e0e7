import Curriculum.Proofs.Depth.Least
import Mathlib.Data.Finset.Card
import Mathlib.Data.Finset.Dedup
import Mathlib.Data.Int.LeastGreatest
import Mathlib.Order.Interval.Finset.Nat

/-!
# When the depths settle, and how soon

The depths of a catalog settle exactly when some table gives every course what it asks for, and then
with few passes. With `n` course ids:

* no entry of a table that covers the courses and has every entry asked for is above `n`
  (`depthOf_le_card`): below an entry of `d` there are entries of `d - 1`, `d - 2`, …, 1, and they
  belong to different courses;
* a table no entry of which rises above `k` with one pass more covers the courses after `k` passes
  (`covers_rounds_of_le`), by the measure `min_rounds_le`.

So `n + 1` passes are enough (`settles_iff_coverable`), whatever the order of the courses, and
although courses may ask for each other as long as each loop has a way out. In a catalog without
loops there is always such a table: give each course the number of courses it depends on, and one
more (`coverable_of_acyclic`).
-/

namespace Curriculum

open DepthTable Resolution

/-- Some table gives every course what it asks for. -/
def Coverable (courses : List ParsedCourse) : Prop :=
  ∃ T : DepthTable, T.Nonneg ∧ ∀ c ∈ courses, c.2.depth T ≤ T.depthOf c.1

/-- The courses that have a record. -/
def courseIds (courses : List ParsedCourse) : Finset String := (courses.map (·.1)).toFinset

theorem mem_courseIds {courses : List ParsedCourse} {id : String} :
    id ∈ courseIds courses ↔ ∃ r, (id, r) ∈ courses := by
  simp [courseIds]

theorem mem_courseIds_cons {c : ParsedCourse} {cs : List ParsedCourse} {id : String} :
    id ∈ courseIds (c :: cs) ↔ c.1 = id ∨ id ∈ courseIds cs := by
  rw [courseIds, List.map_cons, List.toFinset_cons, Finset.mem_insert, eq_comm, courseIds]

section Settling

variable {courses : List ParsedCourse} {t : DepthTable}

/-! ## No solution is deeper than there are courses -/

/-- Below an entry there is an entry for every smaller depth down to 1. -/
theorem exists_depthOf_eq (hn : t.Nonneg) (hc : t.Covers courses) (hs : t.Supported courses)
    {d : Nat} {id : String} (hd : t.depthOf id = d) {v : Nat} (hv : 1 ≤ v) (hvd : v ≤ d) :
    ∃ id' ∈ courseIds courses, t.depthOf id' = v := by
  -- down from the entry of depth `d`, one named course at a time, until `v` is reached
  induction d generalizing id with
  | zero => omega
  | succ d ih =>
    obtain ⟨r, hr, hle⟩ := hs id (by omega)
    rcases Nat.eq_or_lt_of_le hvd with rfl | hlt
    · exact ⟨id, mem_courseIds.mpr ⟨r, hr⟩, hd⟩
    · -- the record that asks for the entry names a course one less deep
      have hasked : r.depth t ≤ t.depthOf id := hc (id, r) hr
      obtain ⟨c, -, hcd⟩ := r.exists_named_of_depth_pos hn (by omega)
      have hcd' : t.depthOf c = d := by omega
      exact ih hcd' (Nat.le_of_lt_succ hlt)

theorem depthOf_le_card (hn : t.Nonneg) (hc : t.Covers courses) (hs : t.Supported courses)
    (id : String) : t.depthOf id ≤ (courseIds courses).card := by
  obtain ⟨d, hd⟩ : ∃ d : Nat, t.depthOf id = d := ⟨_, (Int.toNat_of_nonneg (hn id)).symm⟩
  have hsub : Finset.Icc 1 d ⊆ (courseIds courses).image fun c => (t.depthOf c).toNat := by
    intro v hv
    obtain ⟨h1, hvd⟩ := Finset.mem_Icc.mp hv
    obtain ⟨c, hmem, hcv⟩ := exists_depthOf_eq hn hc hs hd h1 hvd
    exact Finset.mem_image.mpr ⟨c, hmem, by rw [hcv]; rfl⟩
  have hcard := (Finset.card_le_card hsub).trans Finset.card_image_le
  rw [Nat.card_Icc] at hcard
  omega

/-! ## How many passes are enough -/

/-- If no course of the catalog stands above `k` after `k + 1` passes, then `k` passes were enough.
-/
theorem covers_rounds_of_le (h0 : t.AllZero) {k : Nat}
    (hk : ∀ c ∈ courses, (rounds courses (k + 1) t).depthOf c.1 ≤ k) :
    (rounds courses k t).Covers courses := by
  intro c hc
  have hasked : c.2.depth (rounds courses k t) ≤ (rounds courses (k + 1) t).depthOf c.1 := by
    rw [rounds_succ']
    exact Pass.asked_le_run (rounds_nonneg courses h0.nonneg k) hc
  have hreach := min_rounds_le courses h0 (show k ≤ k + 1 by omega) c.1
  have := hk c hc
  omega

theorem exists_bound (T : DepthTable) (courses : List ParsedCourse) :
    ∃ b : Nat, ∀ c ∈ courses, T.depthOf c.1 ≤ b := by
  induction courses with
  | nil => exact ⟨0, fun c hc => absurd hc List.not_mem_nil⟩
  | cons c cs ih =>
    obtain ⟨b, hb⟩ := ih
    refine ⟨max b (T.depthOf c.1).toNat, fun x hx => ?_⟩
    rcases List.mem_cons.mp hx with rfl | hx
    · omega
    · have := hb x hx
      omega

/-- If some table covers the courses, so does the table after as many passes as there are courses.
-/
theorem covers_rounds_card (h : Coverable courses) (h0 : t.AllZero) :
    (rounds courses (courseIds courses).card t).Covers courses := by
  obtain ⟨T, hT, hcT⟩ := h
  have hbelow : t.Below T := fun id => by rw [h0 id]; exact hT id
  have hn : ∀ k, (rounds courses k t).Nonneg := rounds_nonneg courses h0.nonneg
  -- first some number of passes is enough, for the entries stay below those of `T`
  obtain ⟨b, hb⟩ := exists_bound T courses
  have hsol : (rounds courses b t).Covers courses := covers_rounds_of_le h0 fun c hc =>
    Int.le_trans (rounds_below hcT h0.nonneg hbelow (b + 1) c.1) (hb c hc)
  -- the table reached is a solution, so no pass leads past the number of courses
  refine covers_rounds_of_le h0 fun c _ => ?_
  refine Int.le_trans (rounds_below hsol h0.nonneg (below_rounds courses b t) _ c.1) ?_
  exact depthOf_le_card (hn b) hsol (rounds_supported h0.nonneg h0.supported b) c.1

/-- With more passes than there are courses the depths settle, if they can at all. -/
theorem converged_of_coverable (h : Coverable courses) {ceiling : Int}
    (hceil : (courseIds courses).card + 1 ≤ ceiling) :
    (ofCourses courses ceiling).converged = true :=
  (converged_of_covers_rounds (by omega) (covers_rounds_card h (start_nil_allZero courses))).1

theorem depthOf_le_card_of_converged {ceiling : Int}
    (h : (ofCourses courses ceiling).converged = true) (id : String) :
    (ofCourses courses ceiling).depths.depthOf id ≤ (courseIds courses).card :=
  depthOf_le_card (ofCourses_nonneg courses ceiling) (covers_of_converged h)
    (ofCourses_supported courses ceiling) id

/-- If settled depths are at most `m`, then `m` passes were enough to reach them, and one more to
show it. -/
theorem passes_le_of_depthOf_le {ceiling : Int}
    (h : (ofCourses courses ceiling).converged = true) {m : Nat} (hlt : (m : Int) < ceiling)
    (hm : ∀ id, (ofCourses courses ceiling).depths.depthOf id ≤ m) :
    (ofCourses courses ceiling).passes ≤ m + 1 := by
  have h0 := start_nil_allZero courses
  have hbelow : (start courses []).Below (ofCourses courses ceiling).depths := by
    intro id
    rw [h0 id]
    exact ofCourses_nonneg courses ceiling id
  have hsol : (rounds courses m (start courses [])).Covers courses := by
    refine covers_rounds_of_le h0 fun c _ => ?_
    exact Int.le_trans (rounds_below (covers_of_converged h) h0.nonneg hbelow (m + 1) c.1) (hm c.1)
  exact (converged_of_covers_rounds (by omega) hsol).2

/-- Some course stands deepest in a table whose entries are bounded. -/
theorem exists_deepest {n : Int} (h : ∀ id, t.depthOf id ≤ n) :
    ∃ top, ∀ id, t.depthOf id ≤ t.depthOf top := by
  obtain ⟨m, ⟨top, rfl⟩, htop⟩ := Int.exists_greatest_of_bdd (P := fun d => ∃ id, t.depthOf id = d)
    ⟨n, by rintro d ⟨id, rfl⟩; exact h id⟩ ⟨_, "", rfl⟩
  exact ⟨top, fun id => htop _ ⟨id, rfl⟩⟩

end Settling

/-! ## Catalogs without loops -/

/-- A record of a course names another course in a binding tree. -/
def Refers (courses : List ParsedCourse) (other id : String) : Prop :=
  ∃ r, (id, r) ∈ courses ∧ other ∈ r.namedCourses

/-- No course depends on itself, directly or through others. -/
def Acyclic (courses : List ParsedCourse) : Prop :=
  ∀ id, ¬ Relation.TransGen (Refers courses) id id

section Acyclic

variable (courses : List ParsedCourse)

open Classical in
/-- The courses with a record that a course depends on, directly or through others. -/
noncomputable def ancestors (id : String) : Finset String :=
  (courseIds courses).filter fun other => Relation.TransGen (Refers courses) other id

/-- Each course with the number of courses that it depends on, and one more. -/
noncomputable def ancestorTable : DepthTable :=
  courses.map fun c => (c.1, ((ancestors courses c.1).card : Int) + 1)

variable {courses}

theorem mem_ancestors {other id : String} :
    other ∈ ancestors courses id ↔
      other ∈ courseIds courses ∧ Relation.TransGen (Refers courses) other id := by
  classical
  exact Finset.mem_filter

/-- A course that is named depends on fewer courses than the one that names it. -/
theorem card_ancestors_lt (ha : Acyclic courses) {other id : String}
    (hr : Refers courses other id) (ho : other ∈ courseIds courses) :
    (ancestors courses other).card < (ancestors courses id).card := by
  refine Finset.card_lt_card (Finset.ssubset_iff_of_subset ?_ |>.mpr ⟨other, ?_, ?_⟩)
  · intro c hc
    obtain ⟨hid, hpath⟩ := mem_ancestors.mp hc
    exact mem_ancestors.mpr ⟨hid, hpath.tail hr⟩
  · exact mem_ancestors.mpr ⟨ho, .single hr⟩
  · -- the other course is what makes the difference: it does not depend on itself
    exact fun hself => ha other (mem_ancestors.mp hself).2

theorem depthOf_map_ids (cs : List ParsedCourse) (f : String → Int) (id : String) :
    depthOf (cs.map fun c => (c.1, f c.1)) id = if id ∈ courseIds cs then f id else 0 := by
  induction cs with
  | nil => rfl
  | cons c cs ih =>
    have hcons : depthOf ((c :: cs).map fun c => (c.1, f c.1)) id
        = if c.1 = id then f c.1 else depthOf (cs.map fun c => (c.1, f c.1)) id := by
      unfold depthOf
      rw [List.map_cons, Table.find?_cons]
      split <;> rfl
    rw [hcons, ih]
    simp only [mem_courseIds_cons]
    by_cases h : c.1 = id
    · rw [if_pos h, if_pos (Or.inl h), h]
    · rw [if_neg h]
      simp only [h, false_or]

theorem coverable_of_acyclic (ha : Acyclic courses) : Coverable courses := by
  have hentry : ∀ id, (ancestorTable courses).depthOf id
      = if id ∈ courseIds courses then ((ancestors courses id).card : Int) + 1 else 0 :=
    depthOf_map_ids courses fun id => ((ancestors courses id).card : Int) + 1
  have hn : (ancestorTable courses).Nonneg := by
    intro id
    rw [hentry]
    split <;> omega
  refine ⟨ancestorTable courses, hn, fun c hc => ?_⟩
  have hmem : c.1 ∈ courseIds courses := mem_courseIds.mpr ⟨c.2, hc⟩
  refine c.2.depth_le_of_named_lt hn (hn c.1) fun other hother => ?_
  rw [hentry other, hentry c.1, if_pos hmem]
  -- a course without a record stands at 0, below every course that has one
  split
  · next ho =>
    have := card_ancestors_lt ha ⟨c.2, hc, hother⟩ ho
    omega
  · omega

end Acyclic

/-! ## The main result -/

/-- **Depths settle exactly when some table gives every course what it asks for.** They do so with
any number of passes above the number of courses, at depths of at most that number, and no more than
one pass after the deepest course is reached; catalogs without loops are among them. Otherwise no
number of passes settles the depths. -/
theorem settles_iff_coverable (courses : List ParsedCourse) :
    (Coverable courses → ∀ ceiling : Int, (courseIds courses).card + 1 ≤ ceiling →
      (ofCourses courses ceiling).converged = true ∧
      (∀ id, (ofCourses courses ceiling).depths.depthOf id ≤ (courseIds courses).card) ∧
      ∃ top, (∀ id, (ofCourses courses ceiling).depths.depthOf id
            ≤ (ofCourses courses ceiling).depths.depthOf top) ∧
          (ofCourses courses ceiling).passes
            ≤ (ofCourses courses ceiling).depths.depthOf top + 1) ∧
    (Acyclic courses → Coverable courses) ∧
    (¬ Coverable courses → ∀ ceiling : Int, (ofCourses courses ceiling).converged = false) := by
  refine ⟨fun h ceiling hceil => ?_, coverable_of_acyclic, fun h ceiling => ?_⟩
  · have hconv := converged_of_coverable h hceil
    have hcard := depthOf_le_card_of_converged hconv
    obtain ⟨top, htop⟩ := exists_deepest hcard
    obtain ⟨m, hm⟩ : ∃ m : Nat, (ofCourses courses ceiling).depths.depthOf top = m :=
      ⟨_, (Int.toNat_of_nonneg (ofCourses_nonneg courses ceiling top)).symm⟩
    refine ⟨hconv, hcard, top, htop, ?_⟩
    have hle := hcard top
    rw [hm]
    exact passes_le_of_depthOf_le hconv (by omega) fun id => hm ▸ htop id
  · rw [← Bool.not_eq_true]
    exact fun hconv => h ⟨_, ofCourses_nonneg courses ceiling, covers_of_converged hconv⟩

/-- Four passes that raise something and a fifth that does show that the bare loop never settles. -/
theorem loopCatalog_settles_with_way_out :
    (ofCourses (loopCatalog [plainCourse "MATH 1" (by decide)]) 5).converged = true ∧
      ∀ ceiling : Int, (ofCourses (loopCatalog []) ceiling).converged = false := by
  have hcard : ∀ wayOut, (courseIds (loopCatalog wayOut)).card = 4 := fun _ => rfl
  have hcover : Coverable (loopCatalog [plainCourse "MATH 1" (by decide)]) := by
    refine ⟨[("MATH 3", 2), ("MATH 2", 1), ("PHYS 1", 1), ("PHYS 2", 2)], fun id => ?_, ?_⟩
    · simp only [depthOf, Table.find?_cons, Table.find?_nil]
      split_ifs <;> decide
    · decide_cbv
  have hloop : ¬ Coverable (loopCatalog []) := by
    intro h
    have hconv := ((settles_iff_coverable (loopCatalog [])).1 h 5 (by rw [hcard]; decide)).1
    have hfive : (ofCourses (loopCatalog []) 5).converged = false := by cbv
    rw [hfive] at hconv
    exact Bool.false_ne_true hconv
  exact ⟨((settles_iff_coverable _).1 hcover 5 (by rw [hcard]; decide)).1,
    (settles_iff_coverable _).2.2 hloop⟩

end Curriculum
