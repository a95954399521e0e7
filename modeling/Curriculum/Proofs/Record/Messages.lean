import Curriculum.Proofs.Record.LifeCycle
import Mathlib.Data.List.Induction

/-!
# Messages that outlive their cause

A record has room for two messages: why it is in error, and why it was blacklisted. They fit the
record if there is an error message exactly while it is in error, and a reason only once it is
blacklisted (`Record.MessagesFit`).

The reason always fits. The error message goes when a candidate is accepted, but not when the model
declines: a record that was in error and is then blacklisted keeps the message of the error. What an
event makes of the messages hangs on whether the record was in error before, so that is carried along
with the record (`Traced`); one event keeps it (`traced_after`), and so any number of them.

> `messagesFit_iff`: after any events the messages fit the record, unless it is blacklisted and was
> in error before.
-/

namespace Curriculum

namespace Record

/-- There is an error message exactly while the record is in error, and a reason only if it is
blacklisted. -/
structure MessagesFit (r : Record) : Prop where
  errorMessage : r.errorMessage ≠ none ↔ r.status = .error
  blacklistReason : r.status ≠ .blacklisted → r.blacklistReason = none

/-- At some point of a series of events the record is in error. -/
def WasInError (seed : Record) (events : List Event) : Prop :=
  ∃ before, before <+: events ∧ ∃ r, seed.afterAll before = .ok r ∧ r.status = .error

variable {seed r r' : Record} {events : List Event} {event : Event}

theorem not_wasInError_nil (h : seed.status ≠ .error) : ¬ seed.WasInError [] := by
  rintro ⟨before, hprefix, r, hr, hstatus⟩
  rw [List.prefix_nil.mp hprefix] at hr
  obtain rfl : seed = r := Except.ok.inj hr
  exact h hstatus

/-- The last event adds the record that it leads to. -/
theorem wasInError_append (h : seed.afterAll (events ++ [event]) = .ok r') :
    seed.WasInError (events ++ [event]) ↔ seed.WasInError events ∨ r'.status = .error := by
  constructor
  · rintro ⟨before, hprefix, r, hr, hstatus⟩
    rcases List.prefix_concat_iff.mp hprefix with rfl | hprefix
    · obtain rfl : r' = r := Except.ok.inj (h.symm.trans hr)
      exact Or.inr hstatus
    · exact Or.inl ⟨before, hprefix, r, hr, hstatus⟩
  · rintro (⟨before, hprefix, hbefore⟩ | hstatus)
    · exact ⟨before, hprefix.trans (List.prefix_append _ _), hbefore⟩
    · exact ⟨_, List.prefix_rfl, r', h, hstatus⟩

theorem afterAll_append (h : seed.afterAll events = .ok r) :
    seed.afterAll (events ++ [event]) = r.after event := by
  unfold afterAll at h ⊢
  rw [List.foldlM_append, h]
  show (r.after event >>= fun r' => pure r') = r.after event
  exact bind_pure (r.after event)

/-! ## What is carried along -/

/-- What the messages of a record have to do with its status, `erred` being whether it was in error
before or is so now. A record that is open has a text, so it is parsed only when a candidate is
accepted. -/
structure Traced (erred : Prop) (r : Record) : Prop where
  hasText : r.isOpen = true → r.hasText = true
  error : r.status = .error → erred
  unparsed : r.status = .unparsed → ¬ erred
  errorMessage : r.errorMessage ≠ none ↔ r.status = .error ∨ r.status = .blacklisted ∧ erred
  blacklistReason : r.status ≠ .blacklisted → r.blacklistReason = none

variable {erred : Prop}

/-- That a record is in error now adds nothing. -/
theorem Traced.or_error (h : Traced erred r) : Traced (erred ∨ r.status = .error) r := by
  rwa [or_iff_left_of_imp h.error]

/-- The messages fit, unless a record that was in error is blacklisted. -/
theorem Traced.fits_iff (h : Traced erred r) :
    r.MessagesFit ↔ ¬ (r.status = .blacklisted ∧ erred) := by
  constructor
  · rintro hfit ⟨hstatus, herred⟩
    have herror := hfit.errorMessage.mp (h.errorMessage.mpr (Or.inr ⟨hstatus, herred⟩))
    exact absurd (hstatus.symm.trans herror) (by decide)
  · intro hnot
    exact ⟨h.errorMessage.trans (or_iff_left hnot), h.blacklistReason⟩

/-- A new record is not in error, has no messages, and has a text if it is open. -/
theorem traced_of_record? {now : String} {entry : Json}
    (h : Listing.record? now entry = .ok (some seed)) : Traced False seed := by
  have hnew : (seed.status = .parsed ∨ seed.status = .unparsed) ∧ seed.errorMessage = none ∧
      seed.blacklistReason = none := by
    obtain ⟨c, -, rfl⟩ := Listing.record?_eq_ok_some_iff.mp h
    refine ⟨?_, rfl, rfl⟩
    unfold Listing.newRecord
    dsimp only
    split
    · exact Or.inl rfl
    · exact Or.inr rfl
  obtain ⟨hstatus, hmessage, hreason⟩ := hnew
  have herror : seed.status ≠ .error := by rcases hstatus with h | h <;> simp [h]
  have hblacklisted : seed.status ≠ .blacklisted := by rcases hstatus with h | h <;> simp [h]
  refine ⟨fun hopen => ?_, herror, fun _ => id, by simp [hmessage, herror], fun _ => hreason⟩
  have hunparsed : seed.status = .unparsed :=
    hstatus.resolve_left fun hparsed => by simp [isOpen, hparsed] at hopen
  exact hasText_iff.mpr ((sound_of_record? h).unparsed hunparsed).1

/-! ## One event -/

theorem Traced.updated (h : Traced erred r) (now : String) : Traced erred (updated now r) :=
  ⟨h.hasText, h.error, h.unparsed, h.errorMessage, h.blacklistReason⟩

/-- An open record has an error message exactly if it was in error. -/
theorem Traced.errorMessage_of_open (h : Traced erred r) (hopen : r.isOpen = true) :
    r.errorMessage ≠ none ↔ erred := by
  have hopen : r.status = .unparsed ∨ r.status = .error := by simpa [isOpen] using hopen
  rw [h.errorMessage]
  rcases hopen with hstatus | hstatus
  · simp [hstatus, h.unparsed hstatus]
  · simp [hstatus, h.error hstatus]

theorem Traced.blacklistReason_of_open (h : Traced erred r) (hopen : r.isOpen = true) :
    r.blacklistReason = none := by
  refine h.blacklistReason fun hstatus => ?_
  simp [isOpen, hstatus] at hopen

/-- Of a record that is shut only the messages have to be known. -/
theorem Traced.of_shut (hshut : r.isOpen = false)
    (hmessage : r.errorMessage ≠ none ↔ r.status = .blacklisted ∧ erred)
    (hreason : r.status ≠ .blacklisted → r.blacklistReason = none) : Traced erred r := by
  have herror : r.status ≠ .error := fun hstatus => by simp [isOpen, hstatus] at hshut
  have hunparsed : r.status ≠ .unparsed := fun hstatus => by simp [isOpen, hstatus] at hshut
  exact {
    hasText := fun hopen => absurd (hopen.symm.trans hshut) (by decide)
    error := fun hstatus => absurd hstatus herror
    unparsed := fun hstatus => absurd hstatus hunparsed
    errorMessage := hmessage.trans (or_iff_right herror).symm
    blacklistReason := hreason }

/-- If the model declines, the error message stays as it is. -/
theorem Traced.declined (h : Traced erred r) (hopen : r.isOpen = true) (reason : Option String) :
    Traced erred (r.declined reason) := by
  refine .of_shut rfl ?_ fun hstatus => absurd rfl hstatus
  have hmessage := h.errorMessage_of_open hopen
  simpa [Record.declined] using hmessage

/-- If a candidate is accepted, the error message goes. -/
theorem Traced.accepted (h : Traced erred r) (hopen : r.isOpen = true) (reqs : CourseRequirements) :
    Traced erred (r.accepted reqs) := by
  refine .of_shut rfl ?_ fun _ => h.blacklistReason_of_open hopen
  simp [Record.accepted]

/-- If a candidate is refused, the record is in error, with a message. -/
theorem Traced.refused (h : Traced erred r) (hopen : r.isOpen = true)
    (refusal : Candidate.Refusal) :
    Traced (erred ∨ (r.refused refusal).status = .error) (r.refused refusal) where
  hasText := fun _ => h.hasText hopen
  error := Or.inr
  unparsed := fun hstatus => absurd hstatus (by simp [Record.refused])
  errorMessage := by simp [Record.refused]
  blacklistReason := fun _ => h.blacklistReason_of_open hopen

theorem Traced.processed {answer : Answer} {now : String} {outcome : Outcome}
    (h : Traced erred r) (hprocessed : Processed answer now r outcome r') :
    Traced (erred ∨ r'.status = .error) r' := by
  cases hprocessed with
  | skipped _ => exact h.or_error
  | untold hopen htext => exact absurd (htext.symm.trans (h.hasText hopen)) (by decide)
  | told hopen _ _ hsettled =>
    cases hsettled with
    | declined reason => exact ((h.declined hopen reason).updated now).or_error
    | accepted _ => exact ((h.accepted hopen _).updated now).or_error
    | refused _ => exact (h.refused hopen _).updated now

theorem traced_after (hsound : Sound seed r) (h : Traced erred r)
    (hafter : r.after event = .ok r') : Traced (erred ∨ r'.status = .error) r' := by
  cases event with
  | reloaded =>
    obtain rfl : r = r' := Except.ok.inj (hsound.after_reloaded.symm.trans hafter)
    exact h.or_error
  | processed now answer =>
    rw [after] at hafter
    split at hafter
    · next outcome r₁ hprocessed =>
      obtain rfl := Except.ok.inj hafter
      exact h.processed (processed_cases hprocessed)
    · obtain rfl := Except.ok.inj hafter
      exact h.or_error

/-! ## All events -/

theorem traced_afterAll {now : String} {entry : Json}
    (h : Listing.record? now entry = .ok (some seed)) (events : List Event) :
    ∃ r, seed.afterAll events = .ok r ∧ Sound seed r ∧ Traced (seed.WasInError events) r := by
  induction events using List.reverseRecOn with
  | nil =>
    have htraced := traced_of_record? h
    refine ⟨seed, rfl, sound_of_record? h, ?_⟩
    rwa [iff_false_intro (not_wasInError_nil htraced.error)]
  | append_singleton events event ih =>
    obtain ⟨r, hr, hsound, htraced⟩ := ih
    obtain ⟨r', hafter, hsound'⟩ := sound_after hsound event
    have hr' : seed.afterAll (events ++ [event]) = .ok r' := (afterAll_append hr).trans hafter
    refine ⟨r', hr', hsound', ?_⟩
    rw [wasInError_append hr']
    exact traced_after hsound htraced hafter

/-- **When the messages of a record fit it.** After any events the messages of a record of the
listing fit it, unless it is blacklisted and was in error before; only the error message can be out
of place. -/
theorem messagesFit_iff {now : String} {entry : Json}
    (h : Listing.record? now entry = .ok (some seed)) (events : List Event) :
    ∃ r, seed.afterAll events = .ok r ∧
      (r.MessagesFit ↔ ¬ (r.status = .blacklisted ∧ seed.WasInError events)) ∧
      (r.status ≠ .blacklisted → r.blacklistReason = none) := by
  obtain ⟨r, hr, -, htraced⟩ := traced_afterAll h events
  exact ⟨r, hr, htraced.fits_iff, htraced.blacklistReason⟩

/-- A record that was in error has messages that fit once it is parsed. -/
theorem sampleSeed_messagesFit :
    Listing.record? "" sampleEntry = .ok (some sampleSeed) ∧
      ∃ r, sampleSeed.afterAll sampleEvents = .ok r ∧ r.status = .parsed ∧ r.MessagesFit := by
  have hseed : Listing.record? "" sampleEntry = .ok (some sampleSeed) := rfl
  have hstatus : (sampleSeed.afterAll sampleEvents).toOption.map (·.status) = some .parsed := by
    decide +kernel
  obtain ⟨r, hr, hfit, -⟩ := messagesFit_iff hseed sampleEvents
  rw [hr] at hstatus
  have hparsed : r.status = .parsed := Option.some.inj hstatus
  refine ⟨hseed, r, hr, hparsed, hfit.mpr ?_⟩
  rintro ⟨hblacklisted, -⟩
  exact absurd (hparsed.symm.trans hblacklisted) (by decide)

/-- The model proposes nothing, and then declines. -/
def declinedAfterError : List Event :=
  [.processed "" (.content (some "\x7b\"success\": true\x7d")),
    .processed "" (.content (some "\x7b\"success\": false, \"error\": \"too vague\"\x7d"))]

/-- A record that was in error keeps the message of the error when it is blacklisted. -/
theorem sampleSeed_not_messagesFit :
    Listing.record? "" sampleEntry = .ok (some sampleSeed) ∧
      ∃ r, sampleSeed.afterAll declinedAfterError = .ok r ∧ r.status = .blacklisted ∧
        r.errorMessage = some "Data must be an object" ∧ ¬ r.MessagesFit := by
  have hend : (sampleSeed.afterAll declinedAfterError).toOption.map
      (fun r => (r.status, r.errorMessage))
        = some (.blacklisted, some "Data must be an object") := by
    decide +kernel
  cases hr : sampleSeed.afterAll declinedAfterError with
  | error fault => simp [hr, Except.toOption] at hend
  | ok r =>
    rw [hr] at hend
    obtain ⟨hstatus, hmessage⟩ := Prod.mk.inj (Option.some.inj hend)
    refine ⟨rfl, r, rfl, hstatus, hmessage, fun hfit => ?_⟩
    have herror := hfit.errorMessage.mp (by simp [hmessage])
    exact absurd (hstatus.symm.trans herror) (by decide)

end Record

end Curriculum
