import Curriculum.Proofs.Candidate.Dump
import Curriculum.Proofs.Record.Listing
import Curriculum.Proofs.Record.Processing
import Curriculum.Proofs.Record.RoundTrip

/-!
# The life of a record

A record begins as an entry of the listing. After that it is processed, whatever the model answers
and whether or not it answers at all, and it is saved and loaded again, in any order and any number
of times (`Event`). The facts about a record that hold all along are `Sound`: they hold of a new
record (`sound_of_record?`), and each event keeps them (`sound_after`).

Nothing is lost when a record is saved because the requirements of a sound record are not nested too
deep for the reader (`Sound.shallow`). They came in a reply, which the reader of replies holds to the
same bound, and the reply nests them one deeper, as the record does.

> `sound_afterAll`: a record of the listing comes through all events, it is sound after them, and
> if it is then parsed or blacklisted it is final.
-/

namespace Curriculum

/-! ## Candidates in replies -/

namespace Reply

open Reading

/-- A candidate is nested less deep than the document of its reply. -/
theorem nesting_requirements_lt {j : Json} {reply : Reply} {n : Nat} (h : read j = .ok reply)
    (hn : 0 < n) (hj : j.nesting ≤ n) : reply.requirements.nesting < n := by
  cases j with
  | object fields =>
    simp only [read, apply_eq_ok_iff, combine_eq_ok_iff, Reading.ok.injEq] at h
    obtain ⟨_, error, ⟨success, _, -, rfl, rfl⟩, -, rfl⟩ := h
    cases hfind : Table.find? fields "parsedRequirements" with
    | none => exact hn
    | some candidate => exact Nat.lt_of_lt_of_le (Json.nesting_lt_of_find? hfind) hj
  | _ => exact absurd h (by simp [read])

theorem nesting_lt_of_ofContent {content : Option String} {reply : Reply}
    (h : ofContent content = .ok reply) : reply.requirements.nesting < 200 := by
  rw [ofContent] at h
  split at h
  · exact absurd h (by simp)
  · next cs hexcerpt =>
    split at h
    · next found htext =>
      obtain rfl := Except.ok.inj h
      rw [ofText] at htext
      split at htext
      · next j hj =>
        exact nesting_requirements_lt htext (by decide) (Json.nesting_le_of_read? hj)
      · exact absurd htext (by simp)
    · exact absurd h (by simp)

end Reply

/-- What the model proposes is nested less deep than the reader of replies allows. -/
theorem Answer.nesting_lt_of_proposed {answer : Answer} {candidate : Json}
    (h : answer.verdict = .ok (.proposed candidate)) : candidate.nesting < 200 := by
  cases answer with
  | failed message => exact absurd h (by simp [Answer.verdict])
  | content text =>
    rw [Answer.verdict] at h
    split at h
    · next reply hreply =>
      have hverdict : reply.verdict = .proposed candidate := Except.ok.inj h
      rw [Reply.verdict] at hverdict
      split at hverdict
      · obtain rfl := Verdict.proposed.inj hverdict
        exact Reply.nesting_lt_of_ofContent hreply
      · exact absurd hverdict (by simp)
    · exact absurd h (by simp)

/-- What happens to a record. -/
inductive Event where
  /-- It is processed at a time, with what the model answers if it is asked. -/
  | processed (now : String) (answer : Answer)
  /-- It is saved, and loaded from its file. -/
  | reloaded

namespace Record

/-! ## Events -/

/-- The record after an event; if the model gives no reply it stays as it was. -/
def after (r : Record) : Event → Except LoadFault Record
  | .processed now answer =>
    match r.processed answer now with
    | .ok (_, r') => .ok r'
    | .error _ => .ok r
  | .reloaded => CourseFolder.recordOf r.written

/-- The record after some events. -/
def afterAll (r : Record) (events : List Event) : Except LoadFault Record :=
  events.foldlM after r

/-- Nothing is done to a record any more: the model is not asked about it, its file is not written,
and no event changes it. -/
structure IsFinal (r : Record) : Prop where
  unasked : ∀ {m : Type → Type} [Monad m] (ask : Record → m Answer) (now : String),
    r.process ask now = pure (.ok (.skipped, r))
  unwritten : ∀ {m : Type → Type} [Monad m] [LawfulMonad m] (ask : Record → m Answer)
    (now name : String) (run : Run), ∃ run' : Run,
      Run.visit ask now run (name, r) = pure run' ∧ run'.folder = run.folder
  unchanged : ∀ events, r.afterAll events = .ok r

/-! ## Sound records -/

/-- What holds of a record all its life, `seed` being how it began. -/
structure Sound (seed r : Record) : Prop where
  course : r.course = seed.course
  schemaVersion : r.schemaVersion = seed.schemaVersion
  prerequisiteText : r.prerequisiteText = seed.prerequisiteText
  corequisiteText : r.corequisiteText = seed.corequisiteText
  unparsed : r.status = .unparsed →
    (∃ t ≠ "", r.prerequisiteText = some t ∨ r.corequisiteText = some t) ∧ r.requirements = none
  requirements : ∀ reqs, r.requirements = some reqs →
    r.status = .parsed ∧ Candidate.accept reqs.toJson = .ok reqs
  parsed : r.status = .parsed →
    (∃ t ≠ "", r.prerequisiteText = some t ∨ r.corequisiteText = some t) →
      ∃ reqs, r.requirements = some reqs
  error : r.status = .error → ∃ message, r.errorMessage = some message
  shallow : ∀ reqs, r.requirements = some reqs → reqs.toJson.nesting < 200

variable {seed r : Record}

/-- A sound record that is open has no requirements yet. -/
theorem Sound.requirements_ne_some (h : Sound seed r) (hopen : r.isOpen = true)
    (reqs : CourseRequirements) : r.requirements ≠ some reqs := by
  intro hreqs
  obtain ⟨hparsed, -⟩ := h.requirements reqs hreqs
  simp [isOpen, hparsed] at hopen

/-- A sound record can be loaded from its file. -/
theorem Sound.nesting_le (h : Sound seed r) : r.toJson.nesting ≤ 200 :=
  (nesting_toJson_le_iff (by decide)).mpr h.shallow

/-! ### New records -/

theorem sound_newRecord {now course : String} {prerequisite corequisite : Option String}
    (hprerequisite : prerequisite ≠ some "") (hcorequisite : corequisite ≠ some "") :
    Sound (Listing.newRecord now course prerequisite corequisite)
      (Listing.newRecord now course prerequisite corequisite) where
  course := rfl
  schemaVersion := rfl
  prerequisiteText := rfl
  corequisiteText := rfl
  unparsed := by
    intro hstatus
    refine ⟨?_, rfl⟩
    -- a new record is unparsed only if it has a text, and no text of it is empty
    cases prerequisite with
    | some t => exact ⟨t, fun h => hprerequisite (congrArg some h), Or.inl rfl⟩
    | none =>
      cases corequisite with
      | some t => exact ⟨t, fun h => hcorequisite (congrArg some h), Or.inr rfl⟩
      | none => exact absurd hstatus (by simp [Listing.newRecord])
  requirements := by simp [Listing.newRecord]
  parsed := by
    rintro hstatus ⟨t, -, ht⟩
    cases prerequisite <;> cases corequisite <;> simp [Listing.newRecord] at hstatus ht
  error := by
    intro hstatus
    cases prerequisite <;> cases corequisite <;> simp [Listing.newRecord] at hstatus
  shallow := by simp [Listing.newRecord]

/-- The record of an entry of the listing is sound. -/
theorem sound_of_record? {now : String} {entry : Json}
    (h : Listing.record? now entry = .ok (some seed)) : Sound seed seed := by
  obtain ⟨c, hstates, rfl⟩ := Listing.record?_eq_ok_some_iff.mp h
  exact sound_newRecord hstates.prerequisite_ne hstates.corequisite_ne

/-! ### Processing -/

theorem sound_updated (h : Sound seed r) (now : String) : Sound seed (updated now r) :=
  ⟨h.course, h.schemaVersion, h.prerequisiteText, h.corequisiteText, h.unparsed, h.requirements,
    h.parsed, h.error, h.shallow⟩

/-- A record without a text may be called parsed as it stands. -/
theorem sound_untold (h : Sound seed r) (hopen : r.isOpen = true) (htext : r.hasText = false) :
    Sound seed { r with status := .parsed } where
  __ := h
  unparsed := fun hstatus => absurd hstatus (by simp)
  requirements := fun reqs hreqs => absurd hreqs (h.requirements_ne_some hopen reqs)
  parsed := by
    intro _ htold
    have hhas : r.hasText = true := hasText_iff.mpr htold
    exact absurd (htext.symm.trans hhas) (by simp)
  error := fun hstatus => absurd hstatus (by simp)

/-- An open record of which the model declines to parse the texts. -/
theorem sound_declined (h : Sound seed r) (hopen : r.isOpen = true) (reason : Option String) :
    Sound seed (r.declined reason) where
  __ := h
  unparsed := fun hstatus => absurd hstatus (by simp [declined])
  requirements := fun reqs hreqs => absurd hreqs (h.requirements_ne_some hopen reqs)
  parsed := fun hstatus => absurd hstatus (by simp [declined])
  error := fun hstatus => absurd hstatus (by simp [declined])

/-- An open record of which a candidate was refused. -/
theorem sound_refused (h : Sound seed r) (hopen : r.isOpen = true) (refusal : Candidate.Refusal) :
    Sound seed (r.refused refusal) where
  __ := h
  unparsed := fun hstatus => absurd hstatus (by simp [refused])
  requirements := fun reqs hreqs => absurd hreqs (h.requirements_ne_some hopen reqs)
  parsed := fun hstatus => absurd hstatus (by simp [refused])
  error := fun _ => ⟨refusal.text, rfl⟩

/-- A record of which a candidate was accepted; the document of what was accepted is no deeper than
the candidate, and would be accepted in its place. -/
theorem sound_accepted (h : Sound seed r) {candidate : Json} {reqs : CourseRequirements}
    (haccept : Candidate.accept candidate = .ok reqs) (hdepth : candidate.nesting < 200) :
    Sound seed (r.accepted reqs) where
  course := h.course
  schemaVersion := h.schemaVersion
  prerequisiteText := h.prerequisiteText
  corequisiteText := h.corequisiteText
  unparsed := fun hstatus => absurd hstatus (by simp [accepted])
  requirements := by
    intro reqs' hreqs
    obtain rfl := Option.some.inj hreqs
    exact ⟨rfl, Candidate.accept_toJson haccept⟩
  parsed := fun _ _ => ⟨reqs, rfl⟩
  error := fun hstatus => absurd hstatus (by simp [accepted])
  shallow := by
    intro reqs' hreqs
    obtain rfl := Option.some.inj hreqs
    obtain ⟨-, hread⟩ := Candidate.accept_eq_ok_iff.mp haccept
    exact Nat.lt_of_le_of_lt (CourseRequirements.nesting_toJson_le hread) hdepth

/-- However processing a sound record ends, the record is sound after it. -/
theorem sound_processed {answer : Answer} {now : String} {outcome : Outcome} {r' : Record}
    (h : Sound seed r) (hprocessed : Processed answer now r outcome r') : Sound seed r' := by
  cases hprocessed with
  | skipped _ => exact h
  | untold hopen htext => exact sound_updated (sound_untold h hopen htext) now
  | told hopen _ hanswer hsettled =>
    refine sound_updated ?_ now
    cases hsettled with
    | declined reason => exact sound_declined h hopen reason
    | accepted haccept => exact sound_accepted h haccept (Answer.nesting_lt_of_proposed hanswer)
    | @refused _ refusal _ => exact sound_refused h hopen refusal

/-! ## Events keep records sound -/

/-- A sound record is saved and loaded unchanged. -/
theorem Sound.after_reloaded (h : Sound seed r) : r.after .reloaded = .ok r := by
  rw [after, CourseFolder.recordOf_eq_ok_iff]
  exact ofText_written h.nesting_le

/-- One event. -/
theorem sound_after (h : Sound seed r) (event : Event) :
    ∃ r', r.after event = .ok r' ∧ Sound seed r' := by
  cases event with
  | reloaded => exact ⟨r, h.after_reloaded, h⟩
  | processed now answer =>
    rw [after]
    -- a model that gives no reply leaves the record as it is
    split
    · next outcome r' hprocessed =>
      exact ⟨r', rfl, sound_processed h (processed_cases hprocessed)⟩
    · exact ⟨r, rfl, h⟩

/-- A sound record that is not open is final. -/
theorem Sound.isFinal (h : Sound seed r) (hshut : r.isOpen = false) : IsFinal r where
  unasked := process_of_shut hshut
  unwritten ask now name run :=
    ⟨run.note name .skipped r, visit_of_shut hshut ask now name run, rfl⟩
  unchanged := by
    -- reloading gives the record back, and processing skips it
    have hafter : ∀ event, r.after event = .ok r := by
      intro event
      cases event with
      | reloaded => exact h.after_reloaded
      | processed now answer =>
        rw [after, processed, process_of_shut hshut]
        rfl
    intro events
    induction events with
    | nil => rfl
    | cons event rest ih =>
      rw [afterAll, List.foldlM_cons, hafter]
      exact ih

/-- Any number of events. -/
theorem exists_sound_afterAll (h : Sound seed r) (events : List Event) :
    ∃ r', r.afterAll events = .ok r' ∧ Sound seed r' := by
  induction events generalizing r with
  | nil => exact ⟨r, rfl, h⟩
  | cons event rest ih =>
    obtain ⟨r₁, hstep, h₁⟩ := sound_after h event
    obtain ⟨r', hrest, h'⟩ := ih h₁
    refine ⟨r', ?_, h'⟩
    rw [afterAll, List.foldlM_cons, hstep]
    exact hrest

/-- **The life of a record.** Whatever happens to a record of the listing, it stays sound, and once
it is parsed or blacklisted it is final. -/
theorem sound_afterAll {now : String} {entry : Json}
    (h : Listing.record? now entry = .ok (some seed)) (events : List Event) :
    ∃ r, seed.afterAll events = .ok r ∧ Sound seed r ∧
      (r.status = .parsed ∨ r.status = .blacklisted → IsFinal r) := by
  obtain ⟨r, hr, hsound⟩ := exists_sound_afterAll (sound_of_record? h) events
  exact ⟨r, hr, hsound, fun hstatus => hsound.isFinal (isOpen_eq_false_iff.mpr hstatus)⟩

/-- An entry with one text. -/
def sampleEntry : Json := .object [("course", .text "MATH 200"), ("prer", .text "MATH 101")]

/-- The record of the entry, when it was listed. -/
def sampleSeed : Record := Listing.newRecord "" "MATH 200" (some "MATH 101") none

/-- The model proposes nothing, then it is not there, then it proposes requirements. -/
def sampleEvents : List Event :=
  [.processed "" (.content (some "\x7b\"success\": true\x7d")), .processed "" (.failed "timeout"),
    .processed "" (.content (some ("\x7b\"success\": true, \"parsedRequirements\": " ++
      "\x7b\"department\": \"MATH\", \"code\": \"200\"\x7d\x7d")))]

theorem sampleSeed_sound_afterAll :
    Listing.record? "" sampleEntry = .ok (some sampleSeed) ∧ ∃ r reqs,
      sampleSeed.afterAll sampleEvents = .ok r ∧ r.status = .parsed ∧ r.requirements = some reqs ∧
        Candidate.accept reqs.toJson = .ok reqs ∧ Sound sampleSeed r ∧ IsFinal r := by
  have hseed : Listing.record? "" sampleEntry = .ok (some sampleSeed) := rfl
  have hstatus : (sampleSeed.afterAll sampleEvents).toOption.map (·.status) = some .parsed := by
    decide +kernel
  obtain ⟨r, hr, hsound, hfinal⟩ := sound_afterAll hseed sampleEvents
  rw [hr] at hstatus
  have hparsed : r.status = .parsed := Option.some.inj hstatus
  have htext : r.prerequisiteText = some "MATH 101" := hsound.prerequisiteText
  obtain ⟨reqs, hreqs⟩ := hsound.parsed hparsed ⟨_, by decide, Or.inl htext⟩
  exact ⟨hseed, r, reqs, hr, hparsed, hreqs, (hsound.requirements reqs hreqs).2, hsound,
    hfinal (Or.inl hparsed)⟩

end Record

end Curriculum
