import Curriculum.Proofs.Depth.Least
import Curriculum.Proofs.Graph.Nodes

/-!
# What the graph looks at

A record holds more than the graph uses. Of the trees that bind, the weights look at the groups, at
how many parts each has and at the courses in them; the depths look at less. What else a leaf says is
never looked at, but it must not be left out either: a leaf that names no course still takes its
share of a weight. So a tree is cut down to its *skeleton* (`Requirement.skeleton`): each leaf that
names no course becomes the same placeholder, and a course is left with nothing but its id.

Weights and depths are those of the skeleton (`dependencies_skeleton`, `depth_skeleton`). Two lists
of records whose courses have the same skeletons are then taken in lock-step: one course after the
other does the same to the draft of the graph (`SameSkeleton.addCourse_eq`) and to the table of a
pass (`SameSkeleton.visit_eq`), hence so does a pass, and pass after pass the whole settling
(`settle_eq_of_sameSkeleton`).

> `ofRecords_eq_of_sameSkeleton`: records whose parsed courses have the same skeletons, one by one,
> have the same graph.
-/

namespace Curriculum

namespace Requirement

/-! ## Skeletons of trees -/

/-- What stands in a skeleton for any leaf that names no course. -/
def placeholder : Requirement := .standing .first

mutual

/-- A requirement with nothing left but its groups, and the courses in them. -/
def skeleton : Requirement → Requirement
  | group logic first rest => group logic first.skeleton (skeletonOfList rest)
  | course id .. => course id none none none
  | _ => placeholder

/-- The skeletons of some requirements. -/
def skeletonOfList : List Requirement → List Requirement
  | [] => []
  | t :: rest => t.skeleton :: skeletonOfList rest

end

theorem skeletonOfList_eq (ts : List Requirement) : skeletonOfList ts = ts.map skeleton := by
  induction ts with
  | nil => rfl
  | cons t rest ih => rw [skeletonOfList, ih, List.map_cons]

theorem skeleton_group (logic : Logic) (first : Requirement) (rest : List Requirement) :
    (group logic first rest).skeleton = group logic first.skeleton (rest.map skeleton) := by
  rw [skeleton, skeletonOfList_eq]

/-- The skeleton hands down the same weights: a group has as many parts as before. -/
theorem weights_skeleton {α : Type} (share : Sharing Id α) (t : Requirement) (w : α) :
    Id.run (weights share w t.skeleton) = Id.run (weights share w t) := by
  induction t using inductionOnParts generalizing w with
  | step t ih =>
    cases t with
    | group logic first rest =>
      rw [skeleton_group, weights_group, weights_group, List.length_map, ← List.map_cons]
      show ((first :: rest).map skeleton).flatMap _ = (first :: rest).flatMap _
      rw [List.flatMap_map]
      apply List.flatMap_congr
      intro p hp
      exact ih p hp _
    | _ => rfl

theorem dependencies_skeleton (t : Requirement) : t.skeleton.dependencies = t.dependencies :=
  weights_skeleton Binary64.share t _

/-- The skeleton has the same depth, whatever the depths of the courses are. -/
theorem depth_skeleton (known : DepthTable) (t : Requirement) :
    t.skeleton.depth known = t.depth known := by
  induction t using inductionOnParts with
  | step t ih =>
    cases t with
    | group logic first rest =>
      have hparts : ((first :: rest).map skeleton).map (depth known)
          = (first :: rest).map (depth known) := by
        rw [List.map_map]
        apply List.map_congr_left
        intro p hp
        exact ih p hp
      rw [skeleton_group, depth_group, depth_group, ← hparts]
      rfl
    | _ => rfl

end Requirement

/-! ## Courses with the same skeleton -/

/-- Two courses with requirements agree in all that the graph looks at: the id, the department, and
the skeletons of the two trees that bind. -/
structure SameSkeleton (c c' : ParsedCourse) : Prop where
  course : c.1 = c'.1
  department : c.2.department = c'.2.department
  prerequisites : c.2.prerequisites.map Requirement.skeleton
    = c'.2.prerequisites.map Requirement.skeleton
  corequisites : c.2.corequisites.map Requirement.skeleton
    = c'.2.corequisites.map Requirement.skeleton

/-- What a tree contributes hangs on its skeleton if it is that of the skeleton. -/
theorem map_eq_of_skeleton_eq {α : Type} {f : Requirement → α} (hf : ∀ t, f t.skeleton = f t)
    {tree tree' : Option Requirement}
    (h : tree.map Requirement.skeleton = tree'.map Requirement.skeleton) :
    tree.map f = tree'.map f := by
  have hmap : ∀ o : Option Requirement, (o.map Requirement.skeleton).map f = o.map f := by
    intro o
    cases o with
    | none => rfl
    | some t => exact congrArg some (hf t)
  rw [← hmap tree, ← hmap tree', h]

namespace SameSkeleton

variable {c c' : ParsedCourse}

theorem depth_eq (h : SameSkeleton c c') (known : DepthTable) :
    c.2.depth known = c'.2.depth known := by
  -- the depth is a maximum over the depths of the two trees, where they are there
  have hdepth : ∀ r : CourseRequirements, r.depth known
      = ([r.prerequisites.map (Requirement.depth known),
          r.corequisites.map (Requirement.depth known)].filterMap id).foldl max 0 := by
    intro r
    unfold CourseRequirements.depth CourseRequirements.bindingTrees
    cases hp : r.prerequisites <;> cases hc : r.corequisites <;>
      simp [CourseRequirements.tree, hp, hc]
  rw [hdepth, hdepth,
    map_eq_of_skeleton_eq (Requirement.depth_skeleton known) h.prerequisites,
    map_eq_of_skeleton_eq (Requirement.depth_skeleton known) h.corequisites]

/-- Visiting either course does the same to a pass. -/
theorem visit_eq (h : SameSkeleton c c') (p : Pass) : p.visit c = p.visit c' := by
  unfold Pass.visit
  rw [h.depth_eq, h.course]

/-- Adding either course does the same to a draft. -/
theorem addCourse_eq (h : SameSkeleton c c') (d : Graph.Draft) :
    d.addCourse c = d.addCourse c' := by
  have hdeps : ∀ {tree tree' : Option Requirement},
      tree.map Requirement.skeleton = tree'.map Requirement.skeleton →
        Graph.Draft.dependenciesOf tree = Graph.Draft.dependenciesOf tree' := by
    intro tree tree' htree
    unfold Graph.Draft.dependenciesOf
    rw [map_eq_of_skeleton_eq Requirement.dependencies_skeleton htree]
  unfold Graph.Draft.addCourse
  rw [h.course, h.department, hdeps h.prerequisites, hdeps h.corequisites]

end SameSkeleton

/-! ## Two lists in lock-step -/

/-- If each element of one list does what its counterpart does, so do the lists. -/
theorem foldl_eq_of_forall₂ {α β : Type} {R : α → α → Prop} {f : β → α → β}
    (step : ∀ b x y, R x y → f b x = f b y) {xs ys : List α} (h : List.Forall₂ R xs ys) (b : β) :
    xs.foldl f b = ys.foldl f b := by
  induction h generalizing b with
  | nil => rfl
  | cons hxy _ ih => rw [List.foldl_cons, List.foldl_cons, step b _ _ hxy, ih]

section Settling

variable {courses courses' : List ParsedCourse}

theorem run_eq_of_sameSkeleton (h : List.Forall₂ SameSkeleton courses courses') (t : DepthTable) :
    Pass.run courses t = Pass.run courses' t := by
  show courses.foldl Pass.visit ⟨t, []⟩ = courses'.foldl Pass.visit ⟨t, []⟩
  exact foldl_eq_of_forall₂ (fun p _ _ hc => hc.visit_eq p) h _

/-- Pass after pass the two runs stay together, so they stop at the same pass. -/
theorem settle_eq_of_sameSkeleton (h : List.Forall₂ SameSkeleton courses courses')
    (left made : Nat) (p : Pass) :
    Resolution.settle courses left made p = Resolution.settle courses' left made p := by
  induction left generalizing made p with
  | zero => rfl
  | succ left ih =>
    unfold Resolution.settle
    by_cases hp : p.grown = []
    · rw [if_pos hp, if_pos hp]
    · rw [if_neg hp, if_neg hp, run_eq_of_sameSkeleton h]
      exact ih _ _

theorem resolution_eq_of_sameSkeleton (h : List.Forall₂ SameSkeleton courses courses')
    (ceiling : Int) :
    Resolution.ofCourses courses ceiling = Resolution.ofCourses courses' ceiling := by
  have hstart : Resolution.start courses [] = Resolution.start courses' [] := by
    refine foldl_eq_of_forall₂ ?_ h []
    intro t x y hxy
    show Table.insertIfNew t x.1 0 = Table.insertIfNew t y.1 0
    rw [hxy.course]
  have hgrown : courses.foldl (fun g c => Pass.noteGrown g c.1) []
      = courses'.foldl (fun g c => Pass.noteGrown g c.1) [] := by
    refine foldl_eq_of_forall₂ ?_ h []
    intro g x y hxy
    show Pass.noteGrown g x.1 = Pass.noteGrown g y.1
    rw [hxy.course]
  show Resolution.settle courses _ 0 ⟨Resolution.start courses [], _⟩ = _
  rw [settle_eq_of_sameSkeleton h, hstart, hgrown]
  rfl

end Settling

namespace Graph

theorem draft_eq_of_sameSkeleton {courses courses' : List ParsedCourse}
    (h : List.Forall₂ SameSkeleton courses courses') : draft courses = draft courses' := by
  show courses.foldl Draft.addCourse ⟨[], []⟩ = courses'.foldl Draft.addCourse ⟨[], []⟩
  exact foldl_eq_of_forall₂ (fun d _ _ hc => hc.addCourse_eq d) h _

/-- **The graph looks at skeletons only.** If the records of two lists that were parsed have the same
skeletons, one by one and in order, the two graphs are the same: nodes, edges, and how the depths
settled. -/
theorem ofRecords_eq_of_sameSkeleton {records records' : List Record}
    (h : List.Forall₂ SameSkeleton (parsedCourses records) (parsedCourses records'))
    (ceiling : Int) : ofRecords records ceiling = ofRecords records' ceiling := by
  show ofCourses (parsedCourses records) ceiling = ofCourses (parsedCourses records') ceiling
  unfold ofCourses
  rw [resolution_eq_of_sameSkeleton h, draft_eq_of_sameSkeleton h]

/-! ### A course told at length and in brief -/

/-- The grade of a pass. -/
def passGrade : Grade := ⟨.ofNat 64, by decide +kernel, by decide +kernel⟩

/-- A course that asks for one of two courses or a program, with all that may be said about them. -/
def detailedRecord : Record where
  schemaVersion := currentSchema
  course := "CPSC 210"
  prerequisiteText := some "One of CPSC 103, CPSC 111, or being in the honours program."
  corequisiteText := none
  status := .parsed
  requirements := some {
    department := "CPSC"
    code := "210"
    prerequisites := some (.group .oneOf
      (.course ⟨"CPSC 103", by decide⟩ (some passGrade) (some false) none)
      [.course ⟨"CPSC 111", by decide⟩ none none (some true),
        .program ⟨"Honours Computer Science", by decide⟩])
    corequisites := none
    recommendedPrerequisites := some (plainCourse "MATH 180" (by decide))
    recommendedCorequisites := some (.permission ⟨"Ask the instructor.", by decide⟩) }
  blacklistReason := none
  errorMessage := none
  lastUpdated := "2024-01-01T00:00:00Z"

/-- The same course with its skeleton for requirements. -/
def briefRecord : Record :=
  parsedRecord ("CPSC 210", ⟨"CPSC", "", some (.group .oneOf (plainCourse "CPSC 103" (by decide))
    [plainCourse "CPSC 111" (by decide), Requirement.placeholder]), none, none, none⟩)

/-- A record that was not parsed takes no part. -/
def openRecord : Record :=
  { detailedRecord with course := "CPSC 213", status := .unparsed }

theorem detailedRecord_same_graph :
    List.Forall₂ SameSkeleton (parsedCourses [openRecord, detailedRecord, openRecord])
        (parsedCourses [briefRecord]) ∧
      ofRecords [openRecord, detailedRecord, openRecord] 10 = ofRecords [briefRecord] 10 := by
  have h : List.Forall₂ SameSkeleton (parsedCourses [openRecord, detailedRecord, openRecord])
      (parsedCourses [briefRecord]) :=
    .cons ⟨rfl, rfl, rfl, rfl⟩ .nil
  exact ⟨h, ofRecords_eq_of_sameSkeleton h 10⟩

end Graph

end Curriculum
