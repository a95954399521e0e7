import Curriculum.Proofs.Candidate.Faults
import Curriculum.Statistics.Basic

/-!
# The sorts of refused candidates

An error is sorted by its message alone: by the first of five words that occurs in it. The message
of a refused tree names the tree first, so one would expect it to be sorted by the tree. But the
message of a node of unknown type quotes the type, and a candidate can write there whatever it likes.

A word has no blank in it, so it occurs in a message exactly if it occurs in one of the pieces
between the blanks that the message is made of (`occurs_blank_iff`). None of the words occurs in
what is said of the way (`occurs_wayText_iff`) or of a broken rule (`plain_of_mem_rules`). That
leaves the name of the tree and the type of the node that is at fault.

> `errorSort_of_badTree`: a refused tree has the sort that is named after it, unless a word that is
> looked for earlier occurs in the type of the node at fault.
-/

namespace Curriculum

/-! ## Words in texts -/

/-- A word occurs in a text. -/
def Occurs (word text : String) : Prop := word.toList <:+: text.toList

theorem occursIn_iff (part whole : List Char) : occursIn part whole = true ↔ part <:+: whole := by
  induction whole with
  | nil => simp [occursIn]
  | cons c rest ih =>
    rw [occursIn, Bool.or_eq_true, List.isPrefixOf_iff_prefix, ih, List.infix_cons_iff]

theorem not_occurs_of_occursIn {word text : String}
    (h : occursIn word.toList text.toList = false) : ¬ Occurs word text := by
  intro hin
  exact absurd (((occursIn_iff _ _).mpr hin).symm.trans h) (by decide)

/-- A word is not empty and has no blank, no colon and no digit in it. -/
structure IsWord (word : String) : Prop where
  nonempty : word.toList ≠ []
  blank : ' ' ∉ word.toList
  colon : ':' ∉ word.toList
  digits : ∀ c ∈ word.toList, c.isDigit = false

section Words

variable {word : String}

/-- A word that occurs in a text occurs on one side of a blank. -/
theorem occurs_blank_iff (h : IsWord word) (a b : String) :
    Occurs word (a ++ " " ++ b) ↔ Occurs word a ∨ Occurs word b := by
  have hbegins : ∀ l, l <+: ' ' :: b.toList → (∀ c ∈ l, c ∈ word.toList) → l = [] := by
    intro l hl hsub
    cases l with
    | nil => rfl
    | cons c l =>
      obtain ⟨rfl, -⟩ := List.cons_prefix_cons.mp hl
      exact absurd (hsub ' ' List.mem_cons_self) h.blank
  have htext : (a ++ " " ++ b).toList = a.toList ++ ' ' :: b.toList := by
    rw [String.toList_append, String.toList_append, List.append_assoc]
    rfl
  unfold Occurs
  rw [htext]
  constructor
  · intro hin
    rcases List.infix_append_iff.mp hin with ha | hb | ⟨l, l', hsplit, hl, hl'⟩
    · exact Or.inl ha
    · rcases List.infix_cons_iff.mp hb with hb | hb
      · exact absurd (hbegins _ hb fun _ hc => hc) h.nonempty
      · exact Or.inr hb
    · -- what lies to the right of the cut would begin with the blank
      have hnil := hbegins l' hl' fun c hc => hsplit ▸ List.mem_append_right l hc
      rw [hsplit, hnil, List.append_nil]
      exact Or.inl hl.isInfix
  · rintro (ha | hb)
    · exact ha.trans (List.infix_append' [] _ _)
    · exact hb.trans ⟨a.toList ++ [' '], [], by simp⟩

/-- A word does not occur in a text that shares no character with it. -/
theorem not_occurs_of_apart (h : IsWord word) {text : String}
    (happart : ∀ c ∈ text.toList, c ∉ word.toList) : ¬ Occurs word text := by
  intro hin
  obtain ⟨c, rest, hword⟩ := List.exists_cons_of_ne_nil h.nonempty
  have hmem : c ∈ word.toList := hword ▸ List.mem_cons_self
  exact happart c (hin.subset hmem) hmem

theorem not_occurs_index (h : IsWord word) (i : Nat) : ¬ Occurs word (toString i ++ ":") := by
  refine not_occurs_of_apart h fun c hc hmem => ?_
  rw [String.toList_append, List.mem_append] at hc
  rcases hc with hc | hc
  · rw [show toString i = Nat.repr i from rfl, Nat.repr_eq_ofList_toDigits,
      String.toList_ofList] at hc
    have hdigit := Nat.isDigit_of_mem_toDigits (by decide) (by decide) hc
    exact absurd (hdigit.symm.trans (h.digits c hmem)) (by decide)
  · obtain rfl := List.mem_singleton.mp hc
    exact h.colon hmem

end Words

/-! ## The words of the sorts -/

theorem isWord_of_mem : ∀ q ∈ errorSorts, IsWord q.1 := by
  intro q hq
  have hmarks : ∀ q ∈ errorSorts, q.1.toList ≠ [] ∧ ' ' ∉ q.1.toList ∧ ':' ∉ q.1.toList := by
    decide +kernel
  have hdigits : ∀ q ∈ errorSorts, q.1.toList.any Char.isDigit = false := by decide +kernel
  obtain ⟨hne, hblank, hcolon⟩ := hmarks q hq
  exact ⟨hne, hblank, hcolon, fun c hc => by simpa using List.any_eq_false.mp (hdigits q hq) c hc⟩

/-- The sort of an error is that of the first word that occurs in its message. -/
theorem errorSort_of_split {message : String} {before after : List (String × String)}
    {q : String × String} (hsplit : errorSorts = before ++ q :: after) (hq : Occurs q.1 message)
    (hbefore : ∀ p ∈ before, ¬ Occurs p.1 message) : errorSort message = q.2 := by
  have hfind : errorSorts.find? (fun s => occursIn s.1.toList message.toList) = some q := by
    refine List.find?_eq_some_iff_append.mpr ⟨(occursIn_iff _ _).mpr hq, before, after, hsplit, ?_⟩
    intro p hp
    rw [Bool.not_eq_true', ← Bool.not_eq_true, occursIn_iff]
    exact hbefore p hp
  rw [errorSort, hfind]

/-- A text in which no word occurs. -/
def Plain (text : String) : Prop := ∀ q ∈ errorSorts, ¬ Occurs q.1 text

theorem plain_of_occursIn {text : String}
    (h : ∀ q ∈ errorSorts, occursIn q.1.toList text.toList = false) : Plain text :=
  fun q hq => not_occurs_of_occursIn (h q hq)

namespace Candidate

/-- The text in the field `type` of a node. -/
def typeText (node : Json) : String :=
  match node.field? "type" with
  | some (.text name) => name
  | _ => ""

/-- The broken rules are told without the words. -/
theorem plain_of_mem_rules (k : Kind) : ∀ message ∈ (rules k).map Rule.message, Plain message := by
  have hall : ∀ message ∈ (rules k).map Rule.message, ∀ q ∈ errorSorts,
      occursIn q.1.toList message.toList = false := by
    cases k <;> decide +kernel
  exact fun message hmessage => plain_of_occursIn (hall message hmessage)

theorem plain_kind (k : Kind) : Plain k.name := by
  cases k <;> exact plain_of_occursIn (by decide +kernel)

section Messages

variable {q : String × String} (hq : q ∈ errorSorts)

include hq

/-- The way is told without the words. -/
theorem occurs_wayText_iff (way : List Nat) (reason : String) :
    Occurs q.1 (wayText way ++ reason) ↔ Occurs q.1 reason := by
  have hword := isWord_of_mem q hq
  have hstart : Plain "Invalid child at index" := plain_of_occursIn (by decide +kernel)
  induction way with
  | nil => rw [wayText_nil, String.empty_append]
  | cons i way ih =>
    have htext : wayText (i :: way) ++ reason = "Invalid child at index" ++ " " ++
        (toString i ++ ":" ++ " " ++ (wayText way ++ reason)) := by
      rw [wayText_cons]
      simp only [String.append_assoc]
      rfl
    rw [htext, occurs_blank_iff hword, occurs_blank_iff hword]
    simp only [hstart q hq, not_occurs_index hword i, false_or]
    exact ih

/-- What is wrong with a single node is told without the words, but for the type of the node. -/
theorem occurs_reason_iff {node : Json} {reason : String} (h : OwnFault node reason) :
    Occurs q.1 reason ↔ Occurs q.1 (typeText node) := by
  have hword := isWord_of_mem q hq
  have hempty : ¬ Occurs q.1 "" := not_occurs_of_apart hword (by simp)
  cases h with
  | notAnObject h =>
    have hplain : Plain "Requirement must be an object" := plain_of_occursIn (by decide +kernel)
    have htype : typeText node = "" := by
      cases node with
      | object fields => exact absurd rfl (h fields)
      | _ => rfl
    rw [htype]
    exact iff_of_false (hplain q hq) hempty
  | @noType fields h =>
    have hplain : Plain "Requirement must have a valid type field" :=
      plain_of_occursIn (by decide +kernel)
    have htype : typeText (.object fields) = "" := by
      unfold typeText
      split
      · next name hname =>
        by_contra hne
        exact h ⟨_, hname, name, rfl, hne⟩
      · rfl
    rw [htype]
    exact iff_of_false (hplain q hq) hempty
  | @unknownType fields name type nonempty unknown =>
    have hplain : Plain "Unknown requirement type:" := plain_of_occursIn (by decide +kernel)
    have htype : typeText (.object fields) = name := by
      simp only [typeText, Json.field?, type]
    have htext : "Unknown requirement type: " ++ name
        = "Unknown requirement type:" ++ " " ++ name := rfl
    rw [htype, htext, occurs_blank_iff hword]
    simp only [hplain q hq, false_or]
  | @rule fields _ k type broken =>
    have htype : typeText (.object fields) = k.name := by
      simp only [typeText, Json.field?, type]
    rw [htype]
    exact iff_of_false (plain_of_mem_rules k _ broken.message_mem q hq) (plain_kind k q hq)

end Messages

end Candidate

/-! ## The sort of a tree -/

namespace Section

/-- The sort that is named after a tree, recommended or not. -/
def sort : Section → String × String
  | prerequisites | recommendedPrerequisites => ("prerequisites", "Prerequisites Error")
  | corequisites | recommendedCorequisites => ("corequisites", "Corequisites Error")

/-- The sorts of which the words are looked for before that of a tree. -/
def sortsBefore (s : Section) : List (String × String) :=
  errorSorts.takeWhile fun q => q ≠ s.sort

theorem errorSorts_split (s : Section) :
    ∃ after, errorSorts = s.sortsBefore ++ s.sort :: after := by
  cases s <;> exact ⟨_, rfl⟩

/-- The start of a message names the tree. -/
theorem occurs_sort (s : Section) : Occurs s.sort.1 ("Invalid " ++ s.label ++ ":") := by
  refine (occursIn_iff _ _).mp ?_
  cases s <;> decide +kernel

/-- The start of a message has none of the words in it that are looked for before. -/
theorem not_occurs_of_mem_sortsBefore (s : Section) :
    ∀ q ∈ s.sortsBefore, ¬ Occurs q.1 ("Invalid " ++ s.label ++ ":") := by
  have hall : ∀ q ∈ s.sortsBefore,
      occursIn q.1.toList ("Invalid " ++ s.label ++ ":").toList = false := by
    cases s <;> decide +kernel
  exact fun q hq => not_occurs_of_occursIn (hall q hq)

end Section

namespace Candidate

/-- A word occurs in the message of a refused tree if it occurs in the name of the tree or in the
type of the node at fault. -/
theorem occurs_text_iff {q : String × String} (hq : q ∈ errorSorts) {s : Section} {r : Rejection}
    {node : Json} (h : OwnFault node r.flaw.message) :
    Occurs q.1 (Refusal.tree s r).text ↔
      Occurs q.1 ("Invalid " ++ s.label ++ ":") ∨ Occurs q.1 (typeText node) := by
  have htext : (Refusal.tree s r).text
      = "Invalid " ++ s.label ++ ":" ++ " " ++ (wayText r.way ++ r.flaw.message) := by
    show "Invalid " ++ s.label ++ ": " ++ r.message = _
    rw [r.message_eq]
    simp only [String.append_assoc]
    rfl
  rw [htext, occurs_blank_iff (isWord_of_mem q hq), occurs_wayText_iff hq, occurs_reason_iff hq h]

/-- **A refused tree has the sort that is named after it**, unless a word that is looked for earlier
occurs in the type of the node at fault; then it has the sort of the first of them. -/
theorem errorSort_of_badTree {j : Json} {s : Section} {r : Rejection}
    (h : accept j = .error (.tree s r)) :
    ∃ t node, j.field? s.key = some t ∧ nodeAt? t r.way = some node ∧
      OwnFault node r.flaw.message ∧
        ((∀ q ∈ s.sortsBefore, ¬ Occurs q.1 (typeText node)) →
          errorSort (Refusal.tree s r).text = s.sort.2) ∧
        ∀ before q after, s.sortsBefore = before ++ q :: after →
          (∀ p ∈ before, ¬ Occurs p.1 (typeText node)) → Occurs q.1 (typeText node) →
            errorSort (Refusal.tree s r).text = q.2 := by
  have hrefusal := (accept_eq_error_iff (by simp)).mp h
  obtain ⟨t, hfield, hcheck⟩ := exists_tree_of_refusal? hrefusal
  obtain ⟨node, hnode, hown⟩ := (firstFault_of_check t r hcheck).exists_node
  obtain ⟨later, hsplit⟩ := s.errorSorts_split
  have hbefore : ∀ q ∈ s.sortsBefore, q ∈ errorSorts := by
    intro q hq
    rw [hsplit]
    exact List.mem_append_left _ hq
  -- of the words that are looked for before that of the tree only those in the type occur
  have hearlier : ∀ q ∈ s.sortsBefore, ¬ Occurs q.1 (typeText node) →
      ¬ Occurs q.1 (Refusal.tree s r).text := by
    intro q hq hnot hin
    rcases (occurs_text_iff (hbefore q hq) hown).mp hin with hhead | htype
    · exact s.not_occurs_of_mem_sortsBefore q hq hhead
    · exact hnot htype
  refine ⟨t, node, hfield, hnode, hown, ?_, ?_⟩
  · intro hnone
    have hmem : s.sort ∈ errorSorts := hsplit ▸ List.mem_append_right _ List.mem_cons_self
    have hsort : Occurs s.sort.1 (Refusal.tree s r).text :=
      (occurs_text_iff hmem hown).mpr (Or.inl s.occurs_sort)
    exact errorSort_of_split hsplit hsort fun q hq => hearlier q hq (hnone q hq)
  · intro before q after hpart hnone hin
    have hq : q ∈ s.sortsBefore := hpart ▸ List.mem_append_right _ List.mem_cons_self
    have hp {p : String × String} (hp : p ∈ before) : p ∈ s.sortsBefore :=
      hpart ▸ List.mem_append_left _ hp
    have hsplit' : errorSorts = before ++ q :: (after ++ s.sort :: later) := by
      rw [hsplit, hpart, List.append_assoc, List.cons_append]
    have htext : Occurs q.1 (Refusal.tree s r).text :=
      (occurs_text_iff (hbefore q hq) hown).mpr (Or.inr hin)
    exact errorSort_of_split hsplit' htext fun p hp' => hearlier p (hp hp') (hnone p hp')

/-- A tree of corequisites of which the root has a type that is no type but a word of another
sort. -/
def misleadingCandidate : Json :=
  .object [("department", .text "CPSC"), ("code", .text "110"),
    ("corequisites", .object [("type", .text "prerequisites")])]

theorem misleadingCandidate_refused : accept misleadingCandidate =
    .error (.tree .corequisites ⟨[], .unknownType "prerequisites"⟩) :=
  rfl

theorem misleadingCandidate_sorted :
    accept misleadingCandidate = .error (.tree .corequisites ⟨[], .unknownType "prerequisites"⟩) ∧
      errorSort (Refusal.tree .corequisites ⟨[], .unknownType "prerequisites"⟩).text
        = "Prerequisites Error" := by
  refine ⟨misleadingCandidate_refused, ?_⟩
  obtain ⟨t, node, hfield, hnode, -, -, hsort⟩ := errorSort_of_badTree misleadingCandidate_refused
  obtain rfl := Option.some.inj hfield
  obtain rfl := Option.some.inj hnode
  have hbefore : ∀ p ∈ errorSorts.take 3, ¬ Occurs p.1 "prerequisites" := by
    have hall : ∀ p ∈ errorSorts.take 3,
        occursIn p.1.toList "prerequisites".toList = false := by decide +kernel
    exact fun p hp => not_occurs_of_occursIn (hall p hp)
  exact hsort (errorSorts.take 3) ("prerequisites", "Prerequisites Error") [] rfl hbefore
    (List.infix_refl _)

/-- The tree alone does not decide: the type of a node can carry the word of another sort. -/
theorem not_errorSort_of_tree_alone :
    ¬ ∀ j s r, accept j = .error (.tree s r) → errorSort (Refusal.tree s r).text = s.sort.2 := by
  intro h
  have hsort := h misleadingCandidate .corequisites _ misleadingCandidate_refused
  have hother : errorSort (Refusal.tree .corequisites ⟨[], .unknownType "prerequisites"⟩).text
      = "Prerequisites Error" := by decide +kernel
  exact absurd (hother.symm.trans hsort) (by decide)

end Candidate

end Curriculum
