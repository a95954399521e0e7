import Curriculum.Model.Reply
import Curriculum.Proofs.Json.Extent
import Curriculum.Proofs.Reading.Success

/-!
# A reply in the midst of talk

The reply is taken from the first opening brace of a message to its last closing one, without regard
to which braces belong together. If no opening brace comes before the object, the excerpt begins
where the object does. Where it ends depends on what is said behind the object. With no closing brace
there, it ends where the object ends, however many braces there are inside of it. A closing brace
behind the object is taken along with all that stands in between, and what was a reply is no document
any more, even if the braces behind it are in order.

> `ofContent_around`: a text that is a reply stays that reply between two others, unless there is a
> closing brace in the one behind it; then nothing is read.
-/

namespace Curriculum

namespace Reply

open Reading

/-! ## The excerpt -/

/-- From a brace that is the first of its kind to one that is the last. -/
theorem excerpt?_between {before after : List Char} (hbefore : '{' ∉ before) (inner : List Char)
    (hafter : '}' ∉ after) :
    excerpt? (before ++ '{' :: (inner ++ '}' :: after)) = some ('{' :: (inner ++ ['}'])) := by
  have hopen : (before ++ '{' :: (inner ++ '}' :: after)).dropWhile (· ≠ '{')
      = '{' :: (inner ++ '}' :: after) := by
    rw [List.dropWhile_append_of_pos, List.dropWhile_cons_of_neg (by simp)]
    intro c hc
    simpa using fun h : c = '{' => hbefore (h ▸ hc)
  have hclose : ('{' :: (inner ++ '}' :: after)).reverse.dropWhile (· ≠ '}')
      = '}' :: (inner.reverse ++ ['{']) := by
    have hreverse : ('{' :: (inner ++ '}' :: after)).reverse
        = after.reverse ++ '}' :: (inner.reverse ++ ['{']) := by simp
    rw [hreverse, List.dropWhile_append_of_pos, List.dropWhile_cons_of_neg (by simp)]
    intro c hc
    simpa using fun h : c = '}' => hafter (h ▸ List.mem_reverse.mp hc)
  rw [excerpt?, hopen, hclose]
  simp

/-- The last place of a character. -/
theorem exists_last_of_mem {c : Char} {cs : List Char} (h : c ∈ cs) :
    ∃ before after, cs = before ++ c :: after ∧ c ∉ after := by
  obtain ⟨after, before, hsplit, hnot⟩ := List.eq_append_cons_of_mem (List.mem_reverse.mpr h)
  refine ⟨before.reverse, after.reverse, ?_, by simpa using hnot⟩
  rw [← List.reverse_reverse cs, hsplit]
  simp

/-! ## The document of a reply -/

/-- A text that is a reply is an object with a field. -/
theorem exists_object_of_ofText {text : String} {r : Reply} (h : ofText text = .ok r) :
    ∃ fields, fields ≠ [] ∧ Json.read? Requirement.textLimits text = some (.object fields) ∧
      read (.object fields) = .ok r := by
  unfold ofText at h
  split at h
  · next j hj =>
    cases j with
    | object fields =>
      refine ⟨fields, ?_, hj, h⟩
      rintro rfl
      -- the field that says whether it was a success may not be missing
      simp [read, Table.find?] at h
    | _ => exact absurd h (by simp [read])
  · exact absurd h (by simp)

theorem not_mem_of_gaps {c : Char} {cs : List Char} (h : Json.Gaps cs) (hc : Json.isGap c = false) :
    c ∉ cs := by
  intro hmem
  rw [h c hmem] at hc
  exact absurd hc (by simp)

/-- **A text that is a reply stays that reply behind a text without an opening brace**, unless there
is a closing brace in the text that follows it. Then the message holds no document. -/
theorem ofContent_around {before text : String} {r : Reply} (hbefore : '{' ∉ before.toList)
    (h : ofText text = .ok r) (behind : String) :
    ofContent (some (before ++ text ++ behind))
      = if '}' ∈ behind.toList then .error (.unreadable [⟨.notADocument, []⟩]) else .ok r := by
  obtain ⟨fields, hfields, hread, hr⟩ := exists_object_of_ofText h
  obtain ⟨front, inner, back, htext, hfront, hback, hcore, hnone⟩ :=
    Json.exists_extent_of_read? hfields hread
  have hopen : '{' ∉ before.toList ++ front := by
    simpa using ⟨hbefore, not_mem_of_gaps hfront rfl⟩
  have hcontent : (before ++ text ++ behind).toList
      = (before.toList ++ front) ++ '{' :: (inner ++ '}' :: (back ++ behind.toList)) := by
    simp [htext]
  split
  · next hclose =>
    obtain ⟨middle, last, hbehind, hlast⟩ := exists_last_of_mem hclose
    -- the excerpt goes on behind the object, up to a brace that is no part of it
    have hexcerpt : excerpt? (before ++ text ++ behind).toList
        = some ('{' :: (inner ++ '}' :: (back ++ middle ++ ['}']))) := by
      have hbetween := excerpt?_between hopen (inner ++ '}' :: (back ++ middle)) hlast
      simpa [hcontent, hbehind] using hbetween
    have hclosed : ¬ Json.Gaps (back ++ middle ++ ['}']) :=
      fun hgaps => not_mem_of_gaps hgaps (c := '}') rfl (by simp)
    have hlonger : ofText (String.ofList ('{' :: (inner ++ '}' :: (back ++ middle ++ ['}']))))
        = .faulty [⟨.notADocument, []⟩] := by
      rw [ofText, hnone _ hclosed]
      rfl
    simp only [ofContent, Option.getD_some, hexcerpt, hlonger]
  · next hclose =>
    have hlast : '}' ∉ back ++ behind.toList := by
      simpa using ⟨not_mem_of_gaps hback rfl, hclose⟩
    have halone : ofText (String.ofList ('{' :: (inner ++ ['}']))) = .ok r := by
      rw [ofText, hcore]
      exact hr
    simp only [ofContent, Option.getD_some, hcontent, excerpt?_between hopen inner hlast, halone]

/-- A reply with a brace in a text and an object inside of an object. -/
def nestedReply : String :=
  "\x7b\"success\": false, \"error\": \"see \x7d\", "
    ++ "\"parsedRequirements\": \x7b\"a\": \x7b\x7d\x7d\x7d"

theorem nestedReply_around :
    '{' ∉ "Sure! Here it is:\n".toList ∧
      ofText nestedReply = .ok ⟨false, .object [("a", .object [])], some "see \x7d"⟩ ∧
      ofContent (some ("Sure! Here it is:\n" ++ nestedReply ++ "\nThanks \x7b"))
        = .ok ⟨false, .object [("a", .object [])], some "see \x7d"⟩ := by
  have hbefore : '{' ∉ "Sure! Here it is:\n".toList := by decide
  have hread : ofText nestedReply
      = .ok ⟨false, .object [("a", .object [])], some "see \x7d"⟩ := rfl
  refine ⟨hbefore, hread, ?_⟩
  rw [ofContent_around hbefore hread "\nThanks \x7b", if_neg (by decide)]

/-- A reply is lost if the talk behind it has braces of its own. -/
theorem shortReply_lost :
    '{' ∉ "Here it is: ".toList ∧
      ofText "\x7b\"success\": true\x7d" = .ok ⟨true, .null, none⟩ ∧
      ofContent (some ("Here it is: " ++ "\x7b\"success\": true\x7d" ++ " (see \x7b1\x7d)"))
        = .error (.unreadable [⟨.notADocument, []⟩]) :=
  ⟨by decide, rfl, rfl⟩

end Reply

end Curriculum
