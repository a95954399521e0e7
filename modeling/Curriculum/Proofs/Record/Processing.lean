import Curriculum.CourseFolder.Parsing
import Curriculum.Record.Processing

/-!
# What processing a record does

Processing has four ways to end for an open record and one for a record that is not open. They are
listed once, for one answer of the model (`processed_cases`), with all that they change; facts about
records that are processed are shown by going through the list.
-/

namespace Curriculum

namespace Record

/-- A record has a text when one of its two texts is there and not empty. -/
theorem hasText_iff {r : Record} :
    r.hasText = true ↔ ∃ t ≠ "", r.prerequisiteText = some t ∨ r.corequisiteText = some t := by
  have hone : ∀ o : Option String, o.getD "" ≠ "" ↔ ∃ t ≠ "", o = some t := by
    intro o
    cases o <;> simp
  simp only [hasText, List.any_cons, List.any_nil, Bool.or_false, Bool.or_eq_true,
    decide_eq_true_eq, hone]
  constructor
  · rintro (⟨t, ht, h⟩ | ⟨t, ht, h⟩)
    · exact ⟨t, ht, Or.inl h⟩
    · exact ⟨t, ht, Or.inr h⟩
  · rintro ⟨t, ht, h | h⟩
    · exact Or.inl ⟨t, ht, h⟩
    · exact Or.inr ⟨t, ht, h⟩

/-- A record that is parsed or blacklisted is not open. -/
theorem isOpen_eq_false_iff {r : Record} :
    r.isOpen = false ↔ r.status = .parsed ∨ r.status = .blacklisted := by
  rw [isOpen]
  cases r.status <;> simp

/-- What one answer of the model makes of a record at a time. -/
def processed (answer : Answer) (now : String) (r : Record) :
    Except ModelFault (Outcome × Record) :=
  process (m := Id) (fun _ => answer) now r

/-- The ways in which a verdict settles a record. -/
inductive Settled (r : Record) : Verdict → Outcome → Record → Prop
  | declined (reason : Option String) :
      Settled r (.declined reason) .blacklisted (r.declined reason)
  | accepted {candidate : Json} {reqs : CourseRequirements}
      (h : Candidate.accept candidate = .ok reqs) :
      Settled r (.proposed candidate) .parsed (r.accepted reqs)
  | refused {candidate : Json} {refusal : Candidate.Refusal}
      (h : Candidate.accept candidate = .error refusal) :
      Settled r (.proposed candidate) .errored (r.refused refusal)

theorem settled_settle (r : Record) (verdict : Verdict) :
    Settled r verdict (r.settle verdict).1 (r.settle verdict).2 := by
  cases verdict with
  | declined reason => exact .declined reason
  | proposed candidate =>
    rw [settle]
    split
    · next reqs h => exact .accepted h
    · next refusal h => exact .refused h

/-- The ways in which processing ends. -/
inductive Processed (answer : Answer) (now : String) (r : Record) : Outcome → Record → Prop
  | skipped (shut : r.isOpen = false) : Processed answer now r .skipped r
  | untold (opened : r.isOpen = true) (h : r.hasText = false) :
      Processed answer now r .parsed (updated now { r with status := .parsed })
  | told {verdict : Verdict} {outcome : Outcome} {settled : Record} (opened : r.isOpen = true)
      (h : r.hasText = true) (answered : answer.verdict = .ok verdict)
      (settles : Settled r verdict outcome settled) :
      Processed answer now r outcome (updated now settled)

/-- **How processing ends when it ends.** -/
theorem processed_cases {answer : Answer} {now : String} {r r' : Record} {outcome : Outcome}
    (h : r.processed answer now = .ok (outcome, r')) : Processed answer now r outcome r' := by
  rw [processed, process] at h
  split at h
  · next hopen =>
    obtain ⟨rfl, rfl⟩ := Prod.mk.inj (Except.ok.inj h)
    exact .skipped (by simpa using hopen)
  · next hopen =>
    have hopen : r.isOpen = true := by simpa using hopen
    split at h
    · next htext =>
      obtain ⟨rfl, rfl⟩ := Prod.mk.inj (Except.ok.inj h)
      exact .untold hopen (by simpa using htext)
    · next htext =>
      have htext : r.hasText = true := by simpa using htext
      cases hverdict : answer.verdict with
      | error fault =>
        have hfault : Except.error fault = .ok (outcome, r') := by
          rw [← h]
          simp [bind, pure, hverdict, Except.map]
        exact absurd hfault (by simp)
      | ok verdict =>
        have hok : Except.ok (ε := ModelFault) ((r.settle verdict).1,
            updated now (r.settle verdict).2) = .ok (outcome, r') := by
          rw [← h]
          simp [bind, pure, hverdict, Except.map]
        obtain ⟨rfl, rfl⟩ := Prod.mk.inj (Except.ok.inj hok)
        exact .told hopen htext hverdict (settled_settle r verdict)

section Skipping

variable {m : Type → Type} [Monad m]

/-- A record that is not open is left alone, and the model is not asked. -/
theorem process_of_shut {r : Record} (h : r.isOpen = false) (ask : Record → m Answer)
    (now : String) : r.process ask now = pure (.ok (.skipped, r)) := by
  rw [process, h]
  rfl

/-- Nor is its file written. -/
theorem visit_of_shut [LawfulMonad m] {r : Record} (h : r.isOpen = false) (ask : Record → m Answer)
    (now name : String) (run : Run) :
    Run.visit ask now run (name, r) = pure (run.note name .skipped r) := by
  rw [Run.visit, process_of_shut h, pure_bind]

end Skipping

end Record

end Curriculum
