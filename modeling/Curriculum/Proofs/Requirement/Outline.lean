import Curriculum.Proofs.Json.Word
import Curriculum.Proofs.Statistics.Sums
import Curriculum.Proofs.Text.Lines
import Curriculum.Requirement.Outline

/-!
# Outlines mirror the tree

An outline is put together from within: the outlines of the parts of a group are joined below its
title, each of them begun one level further in (`outline_group`). Taken apart at its line feeds, a
text that was joined falls into the lines of what was joined (`splitLines_joinLines`), so the lines
of an outline are found by the same recursion. Each of them belongs to one node of the tree: the
nodes are listed from top to bottom, each with the number of groups that it lies under
(`Requirement.nodes`), and that number is its indentation (`splitLines_outline`).

For this the words of a node have to be one line. They are as soon as the texts are that come from
outside (`isLine_headline`): grades, levels and numbers are written without line feeds.

> `outline_mirrors_tree`: the lines of an outline are the nodes of the tree; counting the kinds of
> its nodes counts as many; and the nesting is one more than the largest number of groups.
-/

namespace Curriculum

open Text

/-! ## The words of a node are one line -/

/-- A number is written as one word. -/
theorem isLine_ofList_writeNumber (n : Number) : IsLine (String.ofList (Json.writeNumber n)) := by
  unfold IsLine
  rw [String.toList_ofList]
  intro h
  exact absurd (Json.not_endsWord_writeNumber h) (by decide)

theorem isLine_letterGrade (percent : Number) : IsLine (letterGrade percent) := by
  unfold letterGrade
  split
  · next g hg =>
    have hscale : ∀ g ∈ gradeScale, IsLine g.2 := by decide
    exact hscale g (List.mem_of_find?_eq_some hg)
  · decide

theorem isLine_gradeOutline (g : Option Grade) : IsLine (gradeOutline g) := by
  cases g with
  | none => decide
  | some g =>
    show IsLine g.outline
    unfold Grade.outline
    split
    · decide
    · exact isLine_append.mpr ⟨isLine_append.mpr ⟨by decide, isLine_letterGrade _⟩, by decide⟩

theorem Binary64.isLine_text (x : Binary64) : IsLine x.text := by
  cases x with
  | nan => decide
  | number negative rank bounded =>
    by_cases htop : rank = top
    · rw [text, if_pos htop]
      cases negative <;> decide
    · have hword : text (.number negative rank bounded)
          = String.ofList (Json.writeNumber (.float (.number negative rank bounded))) := by
        rw [text, Json.writeNumber, if_neg htop, if_neg htop]
      rw [hword]
      exact isLine_ofList_writeNumber _

theorem Amount.isLine_outline (a : Amount) : IsLine a.outline := by
  unfold Amount.outline
  split
  · have hword := isLine_ofList_writeNumber (.int a.value.truncate)
    rwa [Json.writeNumber, String.ofList_toList] at hword
  · exact a.value.isLine_text

/-- The things of which there is one or a list. -/
def OneOrMany.toList {α : Type} : OneOrMany α → List α
  | .one a => [a]
  | .many as => as

theorem OneOrMany.isLine_outline {things : OneOrMany String} (h : ∀ s ∈ things.toList, IsLine s)
    {shown : String} (hshown : things.outline? = some shown) : IsLine shown := by
  unfold outline? at hshown
  split at hshown
  · split at hshown
    · exact absurd hshown nofun
    · rw [← Option.some.inj hshown]
      exact h _ List.mem_cons_self
  · exact absurd hshown nofun
  · rw [← Option.some.inj hshown]
    exact isLine_intercalate (by decide) h

/-- The departments that a scope names. -/
def Scope.departments (s : Scope) : List String :=
  (s.department.map OneOrMany.toList).getD []

theorem Level.isLine_name (l : Level) : IsLine l.name := by
  cases l <;> decide

theorem isLine_of_mem_levelNames {levels : OneOrMany Level} {name : String}
    (h : name ∈ (levels.map Level.name).toList) : IsLine name := by
  cases levels with
  | one l =>
    rw [List.mem_singleton.mp h]
    exact l.isLine_name
  | many ls =>
    obtain ⟨l, -, rfl⟩ := List.mem_map.mp h
    exact l.isLine_name

theorem Scope.isLine_outline {s : Scope} (h : ∀ d ∈ s.departments, IsLine d) :
    IsLine s.outline := by
  unfold Scope.outline
  refine isLine_append.mpr ⟨isLine_append.mpr ⟨?_, ?_⟩, isLine_gradeOutline _⟩
  · split
    · next shown hshown =>
      obtain ⟨things, hthings, hshown⟩ := Option.bind_eq_some_iff.mp hshown
      refine isLine_append.mpr ⟨by decide, OneOrMany.isLine_outline (fun d hd => h d ?_) hshown⟩
      rwa [Scope.departments, hthings]
    · decide
  · split
    · next shown hshown =>
      obtain ⟨names, hnames, hshown⟩ := Option.bind_eq_some_iff.mp hshown
      obtain ⟨levels, -, rfl⟩ := Option.map_eq_some_iff.mp hnames
      have hline : IsLine shown :=
        OneOrMany.isLine_outline (fun _ => isLine_of_mem_levelNames) hshown
      exact isLine_append.mpr ⟨isLine_append.mpr ⟨by decide, hline⟩, by decide⟩
    · decide

theorem isLine_remark (holds : Option Bool) {text : String} (h : IsLine text) :
    IsLine (remark holds text) := by
  unfold remark
  split
  · exact h
  · decide

namespace Requirement

/-- The texts of a node that come from outside. -/
def ownTexts : Requirement → List String
  | course id .. => [id.text]
  | credits _ scope => scope.departments
  | courses _ scope => scope.departments
  | program name => [name.text]
  | permission note => [note.text]
  | other note => [note.text]
  | _ => []

theorem isLine_headline {t : Requirement} (h : ∀ s ∈ t.ownTexts, IsLine s) :
    IsLine t.headline := by
  cases t with
  | group logic first rest =>
    show IsLine ("Group (" ++ logic.name ++ "):")
    cases logic <;> decide
  | course id minGrade mayOverlap mustOverlap =>
    have hid : IsLine id.text := h _ List.mem_cons_self
    have hmay : IsLine (remark mayOverlap " (can be concurrent)") :=
      isLine_remark mayOverlap (by decide)
    have hmust : IsLine (remark mustOverlap " (must be concurrent)") :=
      isLine_remark mustOverlap (by decide)
    exact isLine_append.mpr ⟨isLine_append.mpr ⟨isLine_append.mpr
      ⟨hid, isLine_gradeOutline minGrade⟩, hmay⟩, hmust⟩
  | credits amount scope =>
    exact isLine_append.mpr ⟨isLine_append.mpr ⟨amount.isLine_outline, by decide⟩,
      Scope.isLine_outline h⟩
  | courses amount scope =>
    exact isLine_append.mpr ⟨isLine_append.mpr ⟨amount.isLine_outline, by decide⟩,
      Scope.isLine_outline h⟩
  | standing year =>
    show IsLine ("Standing: " ++ year.name)
    cases year <;> decide
  | program name => exact isLine_append.mpr ⟨by decide, h _ List.mem_cons_self⟩
  | permission note => exact isLine_append.mpr ⟨by decide, h _ List.mem_cons_self⟩
  | other note => exact isLine_append.mpr ⟨by decide, h _ List.mem_cons_self⟩

/-! ## Nodes -/

/-- A node of a requirement: the tree that begins there, and how many groups it lies under. -/
structure Node where
  tree : Requirement
  groups : Nat

/-- A node with one more group around it. -/
def Node.inside (node : Node) : Node := ⟨node.tree, node.groups + 1⟩

mutual

/-- The nodes of a requirement, from top to bottom. -/
def nodes : Requirement → List Node
  | t@(group _ first rest) => ⟨t, 0⟩ :: (nodes first ++ nodesOfList rest).map Node.inside
  | t => [⟨t, 0⟩]

/-- The nodes of some requirements. -/
def nodesOfList : List Requirement → List Node
  | [] => []
  | t :: rest => nodes t ++ nodesOfList rest

end

theorem nodesOfList_eq (ts : List Requirement) : nodesOfList ts = ts.flatMap nodes := by
  induction ts with
  | nil => rfl
  | cons t rest ih => rw [nodesOfList, ih, List.flatMap_cons]

theorem nodes_group (logic : Logic) (first : Requirement) (rest : List Requirement) :
    (group logic first rest).nodes
      = ⟨group logic first rest, 0⟩ :: ((first :: rest).flatMap nodes).map Node.inside := by
  rw [nodes, nodesOfList_eq, List.flatMap_cons]

theorem mem_nodes_group {logic : Logic} {first : Requirement} {rest : List Requirement}
    {node : Node} : node ∈ (group logic first rest).nodes ↔ node = ⟨group logic first rest, 0⟩ ∨
      ∃ p ∈ first :: rest, ∃ node' ∈ p.nodes, node = node'.inside := by
  rw [nodes_group, List.mem_cons, List.mem_map]
  refine or_congr_right ⟨?_, ?_⟩
  · rintro ⟨node', hmem, rfl⟩
    obtain ⟨p, hp, hnode⟩ := List.mem_flatMap.mp hmem
    exact ⟨p, hp, node', hnode, rfl⟩
  · rintro ⟨p, hp, node', hnode, rfl⟩
    exact ⟨node', List.mem_flatMap.mpr ⟨p, hp, hnode⟩, rfl⟩

theorem root_mem_nodes (t : Requirement) : ⟨t, 0⟩ ∈ t.nodes := by
  cases t <;> exact List.mem_cons_self

/-- All texts of a requirement that come from outside: the ids of courses, the names of programs and
departments, and the notes. -/
def texts (t : Requirement) : List String := t.nodes.flatMap fun node => node.tree.ownTexts

theorem mem_texts_of_mem_ownTexts {t : Requirement} {s : String} (h : s ∈ t.ownTexts) :
    s ∈ t.texts :=
  List.mem_flatMap.mpr ⟨⟨t, 0⟩, root_mem_nodes t, h⟩

theorem mem_texts_group {logic : Logic} {first p : Requirement} {rest : List Requirement}
    (hp : p ∈ first :: rest) {s : String} (h : s ∈ p.texts) :
    s ∈ (group logic first rest).texts := by
  obtain ⟨node, hnode, hs⟩ := List.mem_flatMap.mp h
  exact List.mem_flatMap.mpr
    ⟨node.inside, mem_nodes_group.mpr (Or.inr ⟨p, hp, node, hnode, rfl⟩), hs⟩

/-- The kinds that are counted are those of the nodes. -/
theorem map_kind_nodes (t : Requirement) : (t.nodes.map fun node => node.tree.kind) = t.kinds := by
  induction t using inductionOnParts with
  | step t ih =>
    cases t with
    | group logic first rest =>
      rw [nodes_group, kinds_group, List.map_cons, List.map_map, List.map_flatMap]
      exact congrArg _ (List.flatMap_congr ih)
    | _ => rfl

/-! ## Nesting -/

theorem nodeNesting_group (logic : Logic) (first : Requirement) (rest : List Requirement) :
    (group logic first rest).nodeNesting = 1 + nodeNestingOfList (first :: rest) := rfl

theorem nodeNestingOfList_le_iff {ts : List Requirement} {k : Nat} :
    nodeNestingOfList ts ≤ k ↔ ∀ t ∈ ts, t.nodeNesting ≤ k := by
  induction ts with
  | nil => simp [nodeNestingOfList]
  | cons t rest ih => rw [nodeNestingOfList, Nat.max_le, ih, List.forall_mem_cons]

theorem exists_nodeNesting_eq {ts : List Requirement} (h : ts ≠ []) :
    ∃ t ∈ ts, t.nodeNesting = nodeNestingOfList ts := by
  induction ts with
  | nil => exact absurd rfl h
  | cons t rest ih =>
    rw [nodeNestingOfList]
    rcases Nat.le_total (nodeNestingOfList rest) t.nodeNesting with hle | hle
    · exact ⟨t, List.mem_cons_self, (Nat.max_eq_left hle).symm⟩
    · rw [Nat.max_eq_right hle]
      cases rest with
      | nil => exact ⟨t, List.mem_cons_self, Nat.le_zero.mp hle⟩
      | cons t' rest =>
        obtain ⟨u, hu, hnesting⟩ := ih (List.cons_ne_nil _ _)
        exact ⟨u, List.mem_cons_of_mem _ hu, hnesting⟩

theorem groups_lt_nodeNesting {t : Requirement} {node : Node} (h : node ∈ t.nodes) :
    node.groups < t.nodeNesting := by
  induction t using inductionOnParts generalizing node with
  | step t ih =>
    cases t with
    | group logic first rest =>
      rw [nodeNesting_group]
      rcases mem_nodes_group.mp h with rfl | ⟨p, hp, node', hnode', rfl⟩
      · exact Nat.add_pos_left Nat.one_pos _
      · have hin := ih p hp hnode'
        have hpart := nodeNestingOfList_le_iff.mp (Nat.le_refl _) p hp
        show node'.groups + 1 < _
        omega
    | _ =>
      rw [List.mem_singleton.mp h]
      exact Nat.one_pos

/-- Some node is as deep as the nesting says. -/
theorem exists_nodeNesting_eq_groups (t : Requirement) :
    ∃ node ∈ t.nodes, t.nodeNesting = node.groups + 1 := by
  induction t using inductionOnParts with
  | step t ih =>
    cases t with
    | group logic first rest =>
      obtain ⟨p, hp, hnesting⟩ := exists_nodeNesting_eq (List.cons_ne_nil first rest)
      obtain ⟨node, hnode, hgroups⟩ := ih p hp
      refine ⟨node.inside, mem_nodes_group.mpr (Or.inr ⟨p, hp, node, hnode, rfl⟩), ?_⟩
      rw [nodeNesting_group, ← hnesting, hgroups, Nat.add_comm]
      rfl
    | _ => exact ⟨_, root_mem_nodes _, rfl⟩

/-! ## Outlines -/

theorem linesOfList_eq (level : Int) (ts : List Requirement) :
    linesOfList level ts = ts.flatMap (lines level) := by
  induction ts with
  | nil => rfl
  | cons t rest ih => rw [linesOfList, ih, List.flatMap_cons]

theorem lines_ne_nil (level : Int) (t : Requirement) : t.lines level ≠ [] := by
  cases t <;> exact List.cons_ne_nil _ _

/-- The outline of a group is its title with the outlines of its parts below it, one level further
in. -/
theorem outline_group (level : Int) (logic : Logic) (first : Requirement)
    (rest : List Requirement) : (group logic first rest).outline level
      = joinLines (lineAt level (group logic first rest).headline
          :: (first :: rest).map fun p => p.outline (level + 1)) := by
  have hlines : (group logic first rest).lines level
      = lineAt level (group logic first rest).headline
        :: (first :: rest).flatMap (lines (level + 1)) := by
    rw [lines, linesOfList_eq, List.flatMap_cons]
  have hne : (first :: rest).flatMap (lines (level + 1)) ≠ [] :=
    List.append_ne_nil_of_left_ne_nil (lines_ne_nil (level + 1) first) _
  rw [outline, hlines, joinLines_cons _ hne, joinLines_cons _ (by simp),
    joinLines_flatMap fun p _ => lines_ne_nil (level + 1) p]
  rfl

/-- A leaf is outlined by one line. -/
theorem outline_of_parts_nil {t : Requirement} (h : t.parts = []) (level : Int) :
    t.outline level = lineAt level t.headline := by
  cases t with
  | group => exact nomatch h
  | _ => exact String.intercalate_singleton (s := "\n")

/-- What stands on the line of a node: the title of a group, and the outline of a leaf. -/
def ownWords : Requirement → String
  | group logic .. => "Group (" ++ logic.name ++ "):"
  | t => t.outline 0

theorem ownWords_eq (t : Requirement) : t.ownWords = t.headline := by
  have hzero : ∀ words, lineAt 0 words = words := fun _ => String.empty_append
  cases t with
  | group => rfl
  | _ => exact (outline_of_parts_nil rfl 0).trans (hzero _)

/-- The line of a node in an outline that begins at a level: two spaces for each level and for each
group that the node lies under, and then what stands on its line. -/
def Node.line (level : Nat) (node : Node) : String :=
  String.ofList (List.replicate (2 * (level + node.groups)) ' ') ++ node.tree.ownWords

theorem Node.line_root (level : Nat) (t : Requirement) :
    Node.line level ⟨t, 0⟩ = lineAt level t.headline := by
  have hspaces : (2 * (level : Int)).toNat = 2 * (level + 0) := by omega
  rw [Node.line, lineAt, ownWords_eq, spaces, hspaces]

theorem Node.line_inside (level : Nat) (node : Node) :
    node.inside.line level = node.line (level + 1) := by
  have hspaces : 2 * (level + (node.groups + 1)) = 2 * (level + 1 + node.groups) := by omega
  rw [Node.line, Node.line, Node.inside, hspaces]

/-- **Each node has its line.** -/
theorem splitLines_outline {t : Requirement} (h : ∀ s ∈ t.texts, IsLine s) (level : Nat) :
    splitLines (t.outline level) = t.nodes.map (Node.line level) := by
  induction t using inductionOnParts generalizing level with
  | step t ih =>
    have hroot : splitLines (lineAt level t.headline) = [Node.line level ⟨t, 0⟩] := by
      have hwords := isLine_headline fun s hs => h s (mem_texts_of_mem_ownTexts hs)
      rw [Node.line_root]
      exact splitLines_of_isLine (isLine_append.mpr ⟨isLine_spaces _, hwords⟩)
    cases t with
    | group logic first rest =>
      have hparts : ((first :: rest).map fun p => p.outline ((level : Int) + 1)).flatMap splitLines
          = (((first :: rest).flatMap nodes).map Node.inside).map (Node.line level) := by
        rw [List.flatMap_map, List.map_map, List.map_flatMap]
        refine List.flatMap_congr fun p hp => ?_
        -- a part begins one level further in, and its nodes lie under one group more
        have hpart : splitLines (p.outline ((level : Int) + 1))
            = p.nodes.map (Node.line (level + 1)) :=
          ih p hp (fun s hs => h s (mem_texts_group hp hs)) (level + 1)
        rw [hpart]
        exact List.map_congr_left fun node _ => (node.line_inside level).symm
      rw [outline_group, splitLines_joinLines (List.cons_ne_nil _ _), List.flatMap_cons, hroot,
        hparts, nodes_group]
      rfl
    | _ =>
      rw [outline_of_parts_nil rfl]
      exact hroot

/-- **An outline mirrors its tree**, wherever it begins: taken apart at its line feeds it has one
line for each node from top to bottom, as many as there are when the kinds of the nodes are counted,
each indented by the groups that the node lies under; and the nesting of the tree is one more than
the largest number of groups. All texts that come from outside have to be free of line feeds. -/
theorem outline_mirrors_tree (t : Requirement) (level : Nat) (h : ∀ s ∈ t.texts, IsLine s) :
    splitLines (t.outline level) = t.nodes.map (Node.line level) ∧
      (∀ counts : Tally Kind, (t.kinds.foldl Tally.add counts).total
        = counts.total + (splitLines (t.outline level)).length) ∧
      (∃ node ∈ t.nodes, t.nodeNesting = node.groups + 1) ∧
      ∀ node ∈ t.nodes, node.groups + 1 ≤ t.nodeNesting := by
  have hlines := splitLines_outline h level
  refine ⟨hlines, fun counts => ?_, exists_nodeNesting_eq_groups t,
    fun _ hnode => groups_lt_nodeNesting hnode⟩
  rw [Tally.total_foldl_add, ← map_kind_nodes, hlines, List.length_map, List.length_map]

/-- A course with a grade, a course that may be taken along, or two of a course, some credits and a
permission. -/
def mixedChoice : Requirement :=
  .group .oneOf
    (.course ⟨"PHYS 117", by decide⟩ (some ⟨.ofNat 68, by decide +kernel, by decide +kernel⟩) none
      none)
    [.course ⟨"PHYS 118", by decide⟩ none (some true) none,
      .group .twoOf (.course ⟨"MATH 100", by decide⟩ none none none)
        [.credits ⟨.ofNat 6, by decide +kernel⟩
            ⟨some (.many ["MATH", "STAT"]), some (.one .third), none⟩,
          .permission ⟨"of the instructor", by decide⟩]]

/-- The parts of the inner group are indented by two steps more than the outer group. -/
theorem mixedChoice_mirrored :
    (∀ s ∈ mixedChoice.texts, IsLine s) ∧
      splitLines (mixedChoice.outline 1) = ["  Group (ONE_OF):", "    PHYS 117 (minimum \"C+\")",
        "    PHYS 118 (can be concurrent)", "    Group (TWO_OF):", "      MATH 100",
        "      6 credits in MATH, STAT (level 300)", "      Permission: of the instructor"] ∧
      (mixedChoice.kinds.foldl Tally.add []).total = 7 ∧ mixedChoice.nodeNesting = 3 := by
  have htexts : ∀ s ∈ mixedChoice.texts, IsLine s := by decide
  obtain ⟨hlines, hcount, -, -⟩ := outline_mirrors_tree mixedChoice 1 htexts
  have hshown : mixedChoice.nodes.map (Node.line 1) = ["  Group (ONE_OF):",
      "    PHYS 117 (minimum \"C+\")", "    PHYS 118 (can be concurrent)", "    Group (TWO_OF):",
      "      MATH 100", "      6 credits in MATH, STAT (level 300)",
      "      Permission: of the instructor"] := by
    decide +kernel
  refine ⟨htexts, hlines.trans hshown, ?_, rfl⟩
  rw [hcount, hlines, hshown]
  rfl

end Requirement

end Curriculum
