import Curriculum.Depth.Relaxation
import Curriculum.Proofs.Depth.Course

/-!
# What a pass does to the table

A pass visits the courses in turn and works on one table, so a course sees the entries that were
raised before it in the same pass. What a visit does to every look-up is `depthOf_visit`; the rest
of the file carries that along the pass:

* entries only rise (`below_run`), and never past a table that covers the courses (`run_below`);
* every entry above 0 stays asked for by a record of its course (`run_supported`);
* after a pass each course has at least what it asked for before it (`asked_le_run`);
* a pass that raises nothing leaves the table as it is, and this happens exactly when the table
  covers the courses (`run_grown_eq_nil_iff`, `run_of_covers`);
* the courses that are noted are those whose entries were raised (`mem_run_grown_iff`), each once;
* the entries of all other courses stay as they are (`filter_foldl_visit`), and courses that had no
  entry come last, in the order in which they were noted (`newLast_run`).

Together they say that what a pass reports is what it did:

> `run_reports`: for any courses, the same one more than once or not, and any table.
-/

namespace Curriculum

open DepthTable

namespace Pass

/-! ## One visit -/

/-- A course that has what it asks for is passed by. -/
theorem visit_of_le {p : Pass} {c : ParsedCourse} (h : c.2.depth p.depths ≤ p.depths.depthOf c.1) :
    p.visit c = p := by
  unfold visit
  exact if_neg (Int.not_lt.mpr h)

/-- Any other course is raised to what it asks for, and noted. -/
theorem visit_of_lt {p : Pass} {c : ParsedCourse} (h : p.depths.depthOf c.1 < c.2.depth p.depths) :
    p.visit c = ⟨p.depths.insert c.1 (c.2.depth p.depths), noteGrown p.grown c.1⟩ := by
  unfold visit
  exact if_pos h

/-- A visit raises the entry of its own course to what the course asks for, and no other. -/
theorem depthOf_visit (p : Pass) (c : ParsedCourse) (id : String) :
    (p.visit c).depths.depthOf id
      = if c.1 = id then max (p.depths.depthOf id) (c.2.depth p.depths)
        else p.depths.depthOf id := by
  by_cases hid : c.1 = id
  · subst hid
    rw [if_pos rfl]
    rcases Int.lt_or_le (p.depths.depthOf c.1) (c.2.depth p.depths) with hlt | hle
    · rw [visit_of_lt hlt, depthOf_insert, if_pos rfl, Int.max_eq_right (Int.le_of_lt hlt)]
    · rw [visit_of_le hle, Int.max_eq_left hle]
  · rw [if_neg hid]
    rcases Int.lt_or_le (p.depths.depthOf c.1) (c.2.depth p.depths) with hlt | hle
    · rw [visit_of_lt hlt, depthOf_insert, if_neg hid]
    · rw [visit_of_le hle]

theorem below_visit (p : Pass) (c : ParsedCourse) : p.depths.Below (p.visit c).depths := by
  intro id
  rw [depthOf_visit]
  split
  · exact Int.le_max_left _ _
  · exact Int.le_refl _

/-- After its visit a course has at least what it asked for. -/
theorem asked_le_visit (p : Pass) (c : ParsedCourse) :
    c.2.depth p.depths ≤ (p.visit c).depths.depthOf c.1 := by
  rw [depthOf_visit, if_pos rfl]
  exact Int.le_max_right _ _

/-- A visit stays below any table that gives the course what it asks for there. -/
theorem visit_below {p : Pass} {c : ParsedCourse} {T : DepthTable} (hn : p.depths.Nonneg)
    (hb : p.depths.Below T) (hc : c.2.depth T ≤ T.depthOf c.1) : (p.visit c).depths.Below T := by
  intro id
  rw [depthOf_visit]
  split
  · next hid =>
    subst hid
    exact Int.max_le.mpr ⟨hb c.1, Int.le_trans (c.2.depth_mono hn hb) hc⟩
  · exact hb id

/-- A visit keeps every entry asked for: an old entry by the record that asked for it before, since
no record asks for less in a higher table; a raised one by the record that is visited. -/
theorem visit_supported {courses : List ParsedCourse} {p : Pass} {c : ParsedCourse}
    (hc : c ∈ courses) (hn : p.depths.Nonneg) (hs : p.depths.Supported courses) :
    (p.visit c).depths.Supported courses := by
  intro id hpos
  have hrise : ∀ r : CourseRequirements, r.depth p.depths ≤ r.depth (p.visit c).depths :=
    fun r => r.depth_mono hn (below_visit p c)
  rw [depthOf_visit] at hpos ⊢
  by_cases hraised : c.1 = id ∧ p.depths.depthOf id < c.2.depth p.depths
  · obtain ⟨hid, hlt⟩ := hraised
    rw [if_pos hid, Int.max_eq_right (Int.le_of_lt hlt)]
    exact ⟨c.2, hid ▸ hc, hrise c.2⟩
  · -- the entry is the old one, whether or not it is the visited course's
    have hold : (if c.1 = id then max (p.depths.depthOf id) (c.2.depth p.depths)
        else p.depths.depthOf id) = p.depths.depthOf id := by
      split
      · next hid => exact Int.max_eq_left (Int.not_lt.mp fun hlt => hraised ⟨hid, hlt⟩)
      · rfl
    rw [hold] at hpos ⊢
    obtain ⟨r, hr, hle⟩ := hs id hpos
    exact ⟨r, hr, Int.le_trans hle (hrise r)⟩

/-! ## The visits of a pass -/

theorem below_foldl_visit (cs : List ParsedCourse) (p : Pass) :
    p.depths.Below (cs.foldl visit p).depths := by
  induction cs generalizing p with
  | nil => exact Below.refl _
  | cons c cs ih => exact (below_visit p c).trans (ih (p.visit c))

/-- What each visit keeps of a table without entries below 0, a pass keeps. -/
theorem foldl_visit_induction {I : DepthTable → Prop} {cs : List ParsedCourse}
    (step : ∀ (p : Pass) (c), c ∈ cs → p.depths.Nonneg → I p.depths → I (p.visit c).depths)
    {p : Pass} (hn : p.depths.Nonneg) (h : I p.depths) : I (cs.foldl visit p).depths := by
  induction cs generalizing p with
  | nil => exact h
  | cons c cs ih =>
    exact ih (fun q x hx => step q x (List.mem_cons_of_mem _ hx)) (hn.of_below (below_visit p c))
      (step p c (List.mem_cons_self ..) hn h)

theorem asked_le_foldl_visit {cs : List ParsedCourse} {p : Pass} (hn : p.depths.Nonneg)
    {c : ParsedCourse} (hc : c ∈ cs) :
    c.2.depth p.depths ≤ (cs.foldl visit p).depths.depthOf c.1 := by
  induction cs generalizing p with
  | nil => exact absurd hc List.not_mem_nil
  | cons x cs ih =>
    rw [List.foldl_cons]
    rcases List.mem_cons.mp hc with rfl | hc
    · exact Int.le_trans (asked_le_visit p c) (below_foldl_visit cs _ c.1)
    · -- the visits before its own only raise what the course asks for
      have hb := below_visit p x
      exact Int.le_trans (c.2.depth_mono hn hb) (ih (hn.of_below hb) hc)

theorem noteGrown_ne_nil (grown : List String) (course : String) :
    noteGrown grown course ≠ [] := by
  unfold noteGrown
  split
  · next h => exact List.ne_nil_of_mem h
  · exact List.append_ne_nil_of_right_ne_nil _ (List.cons_ne_nil _ _)

/-- What was noted stays noted. -/
theorem foldl_visit_grown_ne_nil (cs : List ParsedCourse) {p : Pass} (h : p.grown ≠ []) :
    (cs.foldl visit p).grown ≠ [] := by
  induction cs generalizing p with
  | nil => exact h
  | cons c cs ih =>
    refine ih ?_
    rcases Int.lt_or_le (p.depths.depthOf c.1) (c.2.depth p.depths) with hlt | hle
    · rw [visit_of_lt hlt]
      exact noteGrown_ne_nil _ _
    · rw [visit_of_le hle]
      exact h

theorem mem_noteGrown {grown : List String} {course id : String} :
    id ∈ noteGrown grown course ↔ id ∈ grown ∨ id = course := by
  unfold noteGrown
  split
  · next h =>
    refine ⟨Or.inl, ?_⟩
    rintro (hid | rfl)
    · exact hid
    · exact h
  · rw [List.mem_append, List.mem_singleton]

theorem nodup_noteGrown {grown : List String} (h : grown.Nodup) (course : String) :
    (noteGrown grown course).Nodup := by
  unfold noteGrown
  split
  · exact h
  · next hout =>
    exact (List.perm_append_singleton course grown).nodup_iff.mpr (List.nodup_cons.mpr ⟨hout, h⟩)

/-- A visit notes a course exactly when it raises its entry. -/
theorem mem_grown_visit {p : Pass} {c : ParsedCourse} {id : String} :
    id ∈ (p.visit c).grown ↔
      id ∈ p.grown ∨ p.depths.depthOf id < (p.visit c).depths.depthOf id := by
  rcases Int.lt_or_le (p.depths.depthOf c.1) (c.2.depth p.depths) with hlt | hle
  · rw [visit_of_lt hlt, mem_noteGrown, depthOf_insert]
    refine or_congr_right ?_
    split
    · next hid =>
      subst hid
      exact iff_of_true rfl hlt
    · next hid => exact iff_of_false (Ne.symm hid) (Int.lt_irrefl _)
  · rw [visit_of_le hle]
    exact (or_iff_left (Int.lt_irrefl _)).symm

/-- So do the visits of a pass: no entry falls, so one that was raised stays above what it was. -/
theorem mem_grown_foldl_visit {cs : List ParsedCourse} {p : Pass} {id : String} :
    id ∈ (cs.foldl visit p).grown ↔
      id ∈ p.grown ∨ p.depths.depthOf id < (cs.foldl visit p).depths.depthOf id := by
  induction cs generalizing p with
  | nil => exact (or_iff_left (Int.lt_irrefl _)).symm
  | cons c cs ih =>
    have hfirst := below_visit p c id
    have hrest := below_foldl_visit cs (p.visit c) id
    rw [List.foldl_cons, ih, mem_grown_visit, or_assoc]
    refine or_congr_right ?_
    omega

theorem nodup_grown_foldl_visit (cs : List ParsedCourse) {p : Pass} (h : p.grown.Nodup) :
    (cs.foldl visit p).grown.Nodup := by
  induction cs generalizing p with
  | nil => exact h
  | cons c cs ih =>
    refine ih ?_
    rcases Int.lt_or_le (p.depths.depthOf c.1) (c.2.depth p.depths) with hlt | hle
    · rw [visit_of_lt hlt]
      exact nodup_noteGrown h c.1
    · rw [visit_of_le hle]
      exact h

theorem foldl_visit_of_covers {cs : List ParsedCourse} {p : Pass} (h : p.depths.Covers cs) :
    cs.foldl visit p = p := by
  induction cs with
  | nil => rfl
  | cons c cs ih =>
    rw [List.foldl_cons, visit_of_le (h c (List.mem_cons_self ..))]
    exact ih fun x hx => h x (List.mem_cons_of_mem _ hx)

theorem covers_of_foldl_visit_grown {cs : List ParsedCourse} {p : Pass}
    (h : (cs.foldl visit p).grown = []) : p.depths.Covers cs := by
  induction cs with
  | nil => exact fun c hc => absurd hc List.not_mem_nil
  | cons c cs ih =>
    rw [List.foldl_cons] at h
    rcases Int.lt_or_le (p.depths.depthOf c.1) (c.2.depth p.depths) with hlt | hle
    · -- the course would have been noted, for good
      have hne : (p.visit c).grown ≠ [] := by
        rw [visit_of_lt hlt]
        exact noteGrown_ne_nil _ _
      exact absurd h (foldl_visit_grown_ne_nil cs hne)
    · rw [visit_of_le hle] at h
      intro x hx
      rcases List.mem_cons.mp hx with rfl | hx
      · exact hle
      · exact ih h x hx

/-- Only a course of the list is noted. -/
theorem mem_grown_foldl_visit_imp {cs : List ParsedCourse} {p : Pass} {id : String}
    (h : id ∈ (cs.foldl visit p).grown) : id ∈ p.grown ∨ id ∈ cs.map (·.1) := by
  induction cs generalizing p with
  | nil => exact Or.inl h
  | cons c cs ih =>
    rw [List.map_cons, List.mem_cons]
    rcases ih h with hvisit | hrest
    · rcases mem_grown_visit.mp hvisit with hold | hraised
      · exact Or.inl hold
      · -- a visit raises no entry but that of its own course
        rw [depthOf_visit] at hraised
        split at hraised
        · next hid => exact Or.inr (Or.inl hid.symm)
        · exact absurd hraised (Int.lt_irrefl _)
    · exact Or.inr (Or.inr hrest)

/-! ## What a pass leaves alone -/

/-- A visit keeps the entries of all courses that are not noted. -/
theorem filter_visit {p : Pass} {c : ParsedCourse} {q : String → Bool}
    (h : ∀ id ∈ (p.visit c).grown, q id = false) :
    (p.visit c).depths.filter (fun e => q e.1) = p.depths.filter fun e => q e.1 := by
  rcases Int.lt_or_le (p.depths.depthOf c.1) (c.2.depth p.depths) with hlt | hle
  · rw [visit_of_lt hlt] at h ⊢
    exact Table.filter_insert p.depths (h c.1 (mem_noteGrown.mpr (Or.inr rfl))) _
  · rw [visit_of_le hle]

theorem filter_foldl_visit {cs : List ParsedCourse} {p : Pass} {q : String → Bool}
    (h : ∀ id ∈ (cs.foldl visit p).grown, q id = false) :
    (cs.foldl visit p).depths.filter (fun e => q e.1) = p.depths.filter fun e => q e.1 := by
  induction cs generalizing p with
  | nil => rfl
  | cons c cs ih =>
    -- what a visit notes is still noted at the end
    have hfirst : ∀ id ∈ (p.visit c).grown, q id = false :=
      fun id hid => h id (mem_grown_foldl_visit (p := p.visit c).mpr (Or.inl hid))
    exact (ih h).trans (filter_visit hfirst)

/-- The keys are those of a table in their order, and after them the courses that were noted and had
no entry there, in the order in which they were noted. -/
def NewLast (t : DepthTable) (p : Pass) : Prop :=
  p.depths.keys = t.keys ++ p.grown.filter fun id => id ∉ t.keys

theorem NewLast.visit {t : DepthTable} {p : Pass} (h : NewLast t p) (c : ParsedCourse) :
    NewLast t (p.visit c) := by
  rcases Int.lt_or_le (p.depths.depthOf c.1) (c.2.depth p.depths) with hlt | hle
  · have hknown : c.1 ∈ p.depths.keys ↔ c.1 ∈ t.keys ∨ c.1 ∈ p.grown := by
      rw [h, List.mem_append, List.mem_filter, decide_eq_true_eq, and_comm, or_and_left]
      exact and_iff_right (Decidable.em _)
    rw [visit_of_lt hlt]
    show (p.depths.insert c.1 _).keys = t.keys ++ (noteGrown p.grown c.1).filter _
    rw [Table.keys_insert, noteGrown]
    by_cases hgrown : c.1 ∈ p.grown
    · rw [if_pos (hknown.mpr (Or.inr hgrown)), if_pos hgrown, h]
    · -- the course is noted for the first time, so it has an entry only if it had one before
      rw [if_neg hgrown, List.filter_append, ← List.append_assoc, ← h]
      by_cases hold : c.1 ∈ t.keys
      · rw [if_pos (hknown.mpr (Or.inl hold))]
        simp [hold]
      · rw [if_neg (by simp [hknown, hold, hgrown])]
        simp [hold]
  · rw [visit_of_le hle]
    exact h

theorem NewLast.foldl_visit {t : DepthTable} {p : Pass} (h : NewLast t p) (cs : List ParsedCourse) :
    NewLast t (cs.foldl Pass.visit p) := by
  induction cs generalizing p with
  | nil => exact h
  | cons c cs ih => exact ih (h.visit c)

/-! ## A whole pass -/

variable {courses : List ParsedCourse} {t : DepthTable}

theorem below_run (courses : List ParsedCourse) (t : DepthTable) :
    t.Below (run courses t).depths :=
  below_foldl_visit courses ⟨t, []⟩

theorem run_below {T : DepthTable} (hT : T.Covers courses) (hn : t.Nonneg) (hb : t.Below T) :
    (run courses t).depths.Below T :=
  foldl_visit_induction (p := ⟨t, []⟩) (I := fun t => t.Below T)
    (fun _ c hc hq hqT => visit_below hq hqT (hT c hc)) hn hb

theorem run_supported (hn : t.Nonneg) (hs : t.Supported courses) :
    (run courses t).depths.Supported courses :=
  foldl_visit_induction (p := ⟨t, []⟩) (I := fun t => t.Supported courses)
    (fun _ _ hc hq hqs => visit_supported hc hq hqs) hn hs

theorem asked_le_run (hn : t.Nonneg) {c : ParsedCourse} (hc : c ∈ courses) :
    c.2.depth t ≤ (run courses t).depths.depthOf c.1 :=
  asked_le_foldl_visit (p := ⟨t, []⟩) hn hc

/-- A pass over courses that have what they ask for changes nothing. -/
theorem run_of_covers (h : t.Covers courses) : run courses t = ⟨t, []⟩ :=
  foldl_visit_of_covers (p := ⟨t, []⟩) h

/-- A pass raises nothing exactly when all courses have what they ask for. -/
theorem run_grown_eq_nil_iff : (run courses t).grown = [] ↔ t.Covers courses :=
  ⟨covers_of_foldl_visit_grown (p := ⟨t, []⟩), fun h => by rw [run_of_covers h]⟩

/-- A pass notes exactly the courses whose entries it raises. -/
theorem mem_run_grown_iff {id : String} :
    id ∈ (run courses t).grown ↔ t.depthOf id < (run courses t).depths.depthOf id :=
  (mem_grown_foldl_visit (p := ⟨t, []⟩)).trans (or_iff_right List.not_mem_nil)

theorem nodup_run_grown (courses : List ParsedCourse) (t : DepthTable) :
    (run courses t).grown.Nodup :=
  nodup_grown_foldl_visit (p := ⟨t, []⟩) courses List.nodup_nil

/-- A pass enters new courses after all others, each when it is first noted. -/
theorem newLast_run (courses : List ParsedCourse) (t : DepthTable) : NewLast t (run courses t) :=
  have hstart : NewLast t ⟨t, []⟩ := (List.append_nil _).symm
  hstart.foldl_visit courses

/-- What a pass that raised nothing leaves behind covers the courses. -/
theorem run_covers_of_grown (h : (run courses t).grown = []) :
    (run courses t).depths.Covers courses := by
  have hc := run_grown_eq_nil_iff.mp h
  rw [run_of_covers hc]
  exact hc

/-- What a pass over some courses reports is what it did to the table that it began with. -/
structure Reports (courses : List ParsedCourse) (t : DepthTable) (p : Pass) : Prop where
  /-- No entry falls. -/
  rises : t.Below p.depths
  /-- The courses that are noted are those whose entries rose. -/
  noted : ∀ id, id ∈ p.grown ↔ t.depthOf id < p.depths.depthOf id
  once : p.grown.Nodup
  listed : ∀ id ∈ p.grown, id ∈ courses.map (·.1)
  /-- The entries of all other courses are the same, in the same order. -/
  others : p.depths.filter (fun e => e.1 ∉ p.grown) = t.filter fun e => e.1 ∉ p.grown
  /-- No entry changes its place, and only courses that are noted get one. -/
  order : NewLast t p
  /-- If no course is noted, the table is what it was, and all courses have what they ask for. -/
  settled : p.grown = [] → p.depths = t ∧ t.Covers courses

/-- **A pass reports exactly what it changed**, whatever the courses and the table are. -/
theorem run_reports (courses : List ParsedCourse) (t : DepthTable) :
    (run courses t).Reports courses t where
  rises := below_run courses t
  noted _ := mem_run_grown_iff
  once := nodup_run_grown courses t
  listed _ hid := (mem_grown_foldl_visit_imp hid).resolve_left List.not_mem_nil
  others := filter_foldl_visit fun _ hid => decide_eq_false (not_not_intro hid)
  order := newLast_run courses t
  settled h := by
    have hc := run_grown_eq_nil_iff.mp h
    rw [run_of_covers hc]
    exact ⟨rfl, hc⟩

/-- A course that is listed twice is raised twice in one pass, because the course that it names was
raised in between. It is noted once, and entered last. -/
example :
    let asking (id : String) (h : id ≠ "") : CourseRequirements :=
      ⟨"", "", some (.course ⟨id, h⟩ none none none), none, none, none⟩
    let p := run [("B", asking "A" (by decide)), ("A", asking "C" (by decide)),
      ("B", asking "A" (by decide))] [("D", -1), ("A", 0)]
    p.depths = [("D", -1), ("A", 1), ("B", 2)] ∧ p.grown = ["B", "A"] := by
  decide

end Pass

end Curriculum
