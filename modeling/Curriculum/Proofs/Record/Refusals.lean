import Curriculum.Proofs.CourseFolder.Conversation
import Curriculum.Proofs.Record.LifeCycle

/-!
# What is said of candidates of the model

A candidate can be refused for two reasons: it breaks a rule of the checks, or it passes them all
and cannot be read even so. The second takes 255 groups inside each other. Each group is an object
in an array, so such a candidate is nested more than 510 deep (`Candidate.two_mul_le_nesting`), and
a reply that is nested more than 200 deep is not read in the first place. So whatever the model
writes, a candidate of it is refused for a rule, and the message in the record is that of the rule.

> `errors_name_rules`: a record that processing leaves in error has a message of the checks, and
> processing fails only where the model gives no reply or one that cannot be read.
-/

namespace Curriculum

namespace Candidate

/-! ## Candidates that are not nested deep -/

/-- Each of the groups inside each other brings an object and an array. -/
theorem two_mul_le_nesting {n : Nat} {j : Json} (h : NestsGroups n j) : 2 * n ≤ j.nesting := by
  induction h with
  | zero => exact Nat.zero_le _
  | succ _ hitems hp _ ih =>
    have hitem := Json.nesting_lt_of_mem_items hp
    have hchildren := Json.nesting_lt_of_find? hitems
    omega

theorem not_nestsGroups_of_field? {j t : Json} {name : String} (hdepth : j.nesting < 510)
    (ht : j.field? name = some t) : ¬ NestsGroups 255 t := by
  intro hnest
  have hdeep := two_mul_le_nesting hnest
  cases j with
  | object fields =>
    have hfield : t.nesting < (Json.object fields).nesting := Json.nesting_lt_of_find? ht
    omega
  | _ => exact absurd ht (by simp [Json.field?])

/-- A candidate that is not nested deep is refused only for a rule. -/
theorem refusal?_of_refused {j : Json} {refusal : Refusal} (h : accept j = .error refusal)
    (hdepth : j.nesting < 510) : refusal? j = some refusal := by
  cases hrule : refusal? j with
  | none =>
    obtain ⟨reqs, hread⟩ :=
      exists_read_of_passing hrule fun _ _ ht => not_nestsGroups_of_field? hdepth ht
    have haccept := accept_eq_ok_iff.mpr ⟨hrule, hread⟩
    exact absurd (h.symm.trans haccept) (by simp)
  | some rule =>
    simp only [accept, hrule] at h
    exact congrArg some (Except.error.inj h)

/-! ## The messages of the checks -/

/-- The messages about a candidate as a whole. -/
def wholeMessages : List String :=
  ["Data must be an object", "Missing or invalid department field", "Missing or invalid code field"]

/-- How the messages about one of its trees begin. -/
def treeHeads : List String :=
  ["Invalid prerequisites: ", "Invalid corequisites: ", "Invalid recommended prerequisites: ",
    "Invalid recommended corequisites: "]

/-- How the messages about candidates that cannot be read begin. -/
def unreadableHead : String := "Validation error: "

/-- A message of the checks. -/
def IsRuleMessage (message : String) : Prop :=
  message ∈ wholeMessages ∨ ∃ head ∈ treeHeads, ∃ reason, message = head ++ reason

theorem exists_tree_of_firstBadTree? {fields : Table String Json} {sections : List Section}
    {refusal : Refusal} (h : firstBadTree? fields sections = some refusal) :
    ∃ s rejection, refusal = .tree s rejection := by
  induction sections with
  | nil => exact absurd h (by simp [firstBadTree?])
  | cons s rest ih =>
    rw [firstBadTree?] at h
    split at h
    · exact ih h
    · exact ih h
    · split at h
      · next rejection _ => exact ⟨s, rejection, (Option.some.inj h).symm⟩
      · exact ih h

theorem isRuleMessage_tree (s : Section) (rejection : Rejection) :
    IsRuleMessage (Refusal.tree s rejection).text := by
  refine Or.inr ⟨"Invalid " ++ s.label ++ ": ", ?_, rejection.message, rfl⟩
  cases s <;> decide

/-- A rule that a candidate breaks is reported by a message of the checks. -/
theorem isRuleMessage_of_refusal? {j : Json} {refusal : Refusal} (h : refusal? j = some refusal) :
    IsRuleMessage refusal.text := by
  unfold refusal? at h
  split at h
  · split at h
    · obtain rfl := Option.some.inj h
      exact Or.inl (by decide)
    · split at h
      · obtain rfl := Option.some.inj h
        exact Or.inl (by decide)
      · obtain ⟨s, rejection, rfl⟩ := exists_tree_of_firstBadTree? h
        exact isRuleMessage_tree s rejection
  · obtain rfl := Option.some.inj h
    exact Or.inl (by decide)

/-- No message of the checks looks like one about a candidate that cannot be read. -/
theorem IsRuleMessage.ne_unreadable {message : String} (h : IsRuleMessage message)
    (report : String) : message ≠ unreadableHead ++ report := by
  intro he
  -- the first character tells the messages apart
  have hfirst : message.toList.head? = some 'V' := by
    rw [he, String.toList_append]
    rfl
  obtain hwhole | ⟨head, hhead, reason, rfl⟩ := h
  · have hother : ∀ m ∈ wholeMessages, m.toList.head? ≠ some 'V' := by decide
    exact hother message hwhole hfirst
  · have hother : ∀ m ∈ treeHeads, m.toList.head? = some 'I' := by decide
    rw [String.toList_append, List.head?_append, hother head hhead, Option.some_or] at hfirst
    exact absurd hfirst (by decide)

end Candidate

namespace Record

open Candidate

variable {answer : Answer} {now : String} {r r' : Record}

/-- A record that processing leaves in error bears the rule that a candidate of the model broke. -/
theorem exists_rule_of_errored (h : r.processed answer now = .ok (.errored, r')) :
    ∃ candidate refusal, answer.verdict = .ok (.proposed candidate) ∧
      refusal? candidate = some refusal ∧ r' = updated now (r.refused refusal) := by
  cases processed_cases h with
  | told _ _ hanswer hsettled =>
    cases hsettled with
    | @refused candidate refusal hrefused =>
      have hdepth := Answer.nesting_lt_of_proposed hanswer
      exact ⟨candidate, refusal, hanswer, refusal?_of_refused hrefused (by omega), rfl⟩

theorem verdict_eq_error_iff {fault : ModelFault} :
    answer.verdict = .error fault ↔ (∃ message, answer = .failed message ∧
        fault = .unreachable message) ∨
      ∃ content unread, answer = .content content ∧ Reply.ofContent content = .error unread ∧
        fault = .unusable unread := by
  cases answer with
  | failed message => simp [Answer.verdict, eq_comm]
  | content content =>
    cases hreply : Reply.ofContent content <;> simp [Answer.verdict, hreply, eq_comm]

/-- **Errors name rules.** Whatever the model answers, a record that processing leaves in error
bears a message of the checks and none about a candidate that passed them. Processing fails only for
a record that needs the model, if the model could not be asked or its reply could not be read. -/
theorem errors_name_rules (answer : Answer) (now : String) (r : Record) :
    (∀ r', r.processed answer now = .ok (.errored, r') →
      ∃ message, r'.errorMessage = some message ∧ IsRuleMessage message ∧
        ∀ report, message ≠ unreadableHead ++ report) ∧
    ∀ fault, r.processed answer now = .error fault ↔ r.needsModel = true ∧
      ((∃ message, answer = .failed message ∧ fault = .unreachable message) ∨
        ∃ content unread, answer = .content content ∧ Reply.ofContent content = .error unread ∧
          fault = .unusable unread) := by
  refine ⟨fun r' h => ?_, fun fault => ?_⟩
  · obtain ⟨candidate, refusal, -, hrule, rfl⟩ := exists_rule_of_errored h
    have hmessage := isRuleMessage_of_refusal? hrule
    exact ⟨refusal.text, rfl, hmessage, hmessage.ne_unreadable⟩
  · rw [processed_eq_error_iff, verdict_eq_error_iff]

/-- A reply without a candidate. -/
def emptyReply : Answer := .content (some "\x7b\"success\": true\x7d")

/-- A reply without a candidate leaves an error, and no reply is a failure. -/
theorem sampleSeed_errors_name_rules :
    (∃ r', sampleSeed.processed emptyReply "" = .ok (.errored, r') ∧
      r'.errorMessage = some "Data must be an object" ∧
        ∃ message, r'.errorMessage = some message ∧ IsRuleMessage message ∧
          ∀ report, message ≠ unreadableHead ++ report) ∧
    sampleSeed.processed (.failed "timeout") "" = .error (.unreachable "timeout") := by
  have hend : (sampleSeed.processed emptyReply "").toOption.map
      (fun result => (result.1, result.2.errorMessage))
        = some (.errored, some "Data must be an object") := by
    decide +kernel
  cases hresult : sampleSeed.processed emptyReply "" with
  | error fault => simp [hresult, Except.toOption] at hend
  | ok result =>
    obtain ⟨outcome, r'⟩ := result
    rw [hresult] at hend
    obtain ⟨rfl, hmessage⟩ := Prod.mk.inj (Option.some.inj hend)
    refine ⟨⟨r', rfl, hmessage, (errors_name_rules emptyReply "" sampleSeed).1 r' hresult⟩, ?_⟩
    exact ((errors_name_rules (.failed "timeout") "" sampleSeed).2 _).mpr
      ⟨by decide, Or.inl ⟨"timeout", rfl, rfl⟩⟩

end Record

end Curriculum
