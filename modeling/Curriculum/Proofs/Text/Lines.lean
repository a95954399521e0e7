import Curriculum.Text.Lines
import Mathlib.Logic.Basic

/-!
# Lines and what they are joined to

Joining texts puts a line feed between them, so the lines of the whole are the lines of each, one
after the other (`splitLines_joinLines`); all of it comes from one equation for a single line feed
(`splitLines_append`). Texts that are themselves one line (`IsLine`) come back as they were. Joining
may be done piece by piece (`joinLines_flatMap`).
-/

namespace Curriculum

namespace Text

/-- A text without a line feed. -/
def IsLine (s : String) : Prop := '\n' ∉ s.toList

instance (s : String) : Decidable (IsLine s) := inferInstanceAs (Decidable ('\n' ∉ s.toList))

/-- What stands between the line feeds of a text. -/
def splitLines (s : String) : List String := (s.split '\n').toList.map String.Slice.copy

theorem isLine_append {s s' : String} : IsLine (s ++ s') ↔ IsLine s ∧ IsLine s' := by
  unfold IsLine
  rw [String.toList_append, List.mem_append, not_or]

theorem isLine_intercalate {separator : String} {ss : List String} (hseparator : IsLine separator)
    (h : ∀ s ∈ ss, IsLine s) : IsLine (separator.intercalate ss) := by
  induction ss with
  | nil =>
    rw [String.intercalate_nil]
    decide
  | cons s rest ih =>
    obtain ⟨hs, hrest⟩ := List.forall_mem_cons.mp h
    cases rest with
    | nil =>
      rw [String.intercalate_singleton]
      exact hs
    | cons s' rest =>
      rw [String.intercalate_cons_cons]
      exact isLine_append.mpr ⟨isLine_append.mpr ⟨hs, hseparator⟩, ih hrest⟩

theorem isLine_spaces (n : Int) : IsLine (spaces n) := by
  unfold IsLine spaces
  rw [String.toList_ofList]
  intro h
  exact absurd (List.eq_of_mem_replicate h) (by decide)

theorem splitLines_eq (s : String) : splitLines s = (s.toList.splitOn '\n').map String.ofList :=
  String.toList_split_char

theorem splitLines_of_isLine {s : String} (h : IsLine s) : splitLines s = [s] := by
  rw [splitLines_eq, List.splitOn_eq_singleton h, List.map_singleton, String.ofList_toList]

theorem splitLines_append (s s' : String) :
    splitLines (s ++ "\n" ++ s') = splitLines s ++ splitLines s' := by
  have htext : (s ++ "\n" ++ s').toList = s.toList ++ '\n' :: s'.toList := by
    rw [String.toList_append, String.toList_append, List.append_assoc]
    rfl
  rw [splitLines_eq, htext, List.splitOn_append_cons_self, List.map_append, ← splitLines_eq,
    ← splitLines_eq]

theorem joinLines_cons (s : String) {ss : List String} (h : ss ≠ []) :
    joinLines (s :: ss) = s ++ "\n" ++ joinLines ss :=
  String.intercalate_cons_of_ne_nil h

/-- Joined texts have the lines of each. -/
theorem splitLines_joinLines {ss : List String} (h : ss ≠ []) :
    splitLines (joinLines ss) = ss.flatMap splitLines := by
  induction ss with
  | nil => exact absurd rfl h
  | cons s rest ih =>
    rw [List.flatMap_cons]
    rcases eq_or_ne rest [] with rfl | hrest
    · rw [joinLines, String.intercalate_singleton, List.flatMap_nil, List.append_nil]
    · rw [joinLines_cons s hrest, splitLines_append, ih hrest]

/-- Texts may be joined piece by piece. -/
theorem joinLines_flatMap {α : Type} {f : α → List String} {as : List α} (h : ∀ a ∈ as, f a ≠ []) :
    joinLines (as.flatMap f) = joinLines (as.map fun a => joinLines (f a)) := by
  induction as with
  | nil => rfl
  | cons a rest ih =>
    obtain ⟨ha, hrest⟩ := List.forall_mem_cons.mp h
    rw [List.flatMap_cons, List.map_cons]
    cases rest with
    | nil =>
      rw [List.flatMap_nil, List.append_nil, List.map_nil]
      rfl
    | cons a' rest =>
      have hne : (a' :: rest).flatMap f ≠ [] :=
        List.append_ne_nil_of_left_ne_nil (hrest a' List.mem_cons_self) _
      rw [joinLines_cons _ (by simp), ← ih hrest]
      exact String.intercalate_append_of_ne_nil ha hne

end Text

end Curriculum
