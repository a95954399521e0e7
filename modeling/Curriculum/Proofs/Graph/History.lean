import Curriculum.Proofs.Graph.Offers
import Curriculum.Proofs.Number
import Curriculum.Proofs.Table
import Mathlib.Data.List.Induction

/-!
# Which offers are stored

An offer is answered by whether it is stored, and the answer hangs on all offers made before it. The
edge map does not keep them, only one value for each pair; but that value is no smaller than any of
them (`EdgeMap.Holds`), so an offer beats the value in the map exactly when it beats all earlier
offers for its ends (`accepts_iff`).

What is stored in the end is the first of the largest offers for each pair (`FirstLargest`). Of equal
values it matters which one is kept, since an integer and a floating-point number may be equal and
are written differently. One more offer is the first of the largest if it beats all earlier ones, and
otherwise leaves the one that was there (`firstLargest_append_singleton`), which is what the edge map
does (`find?_offerAll_iff`).

> `offerAll_keeps_firstLargest`: the answers to any offers of numbers, and the edges they lead to.
-/

namespace Curriculum

/-- The ends of an edge. -/
def Edge.ends (e : Edge) : String × String := (e.source, e.target)

namespace EdgeMap

variable {edges : EdgeMap} {offers : List Edge} {e f : Edge}

/-- The answers to some offers, made one after the other: whether each of them is stored. -/
def answers (edges : EdgeMap) : List Edge → List Bool
  | [] => []
  | e :: rest => edges.accepts e.source e.target e.value
      :: answers (edges.offer e.source e.target e.value) rest

/-- An offer is the first of the largest for its ends: those before it are smaller, and those after
it are not larger. -/
def FirstLargest (offers : List Edge) (e : Edge) : Prop :=
  ∃ before after, offers = before ++ e :: after ∧
    (∀ e' ∈ before, e'.ends = e.ends → e'.value.Less e.value) ∧
    ∀ e' ∈ after, e'.ends = e.ends → e'.value.AtMost e.value

theorem FirstLargest.mem (h : FirstLargest offers e) : e ∈ offers := by
  obtain ⟨before, after, rfl, -, -⟩ := h
  exact List.mem_append_right _ List.mem_cons_self

theorem not_firstLargest_nil : ¬ FirstLargest [] e := fun h => absurd h.mem List.not_mem_nil

/-- One more offer is the first of the largest if it beats all that were made before; and the one
that was the first of the largest stays so unless it is beaten. -/
theorem firstLargest_append_singleton : FirstLargest (offers ++ [e]) f ↔
    (f = e ∧ ∀ e' ∈ offers, e'.ends = e.ends → e'.value.Less e.value) ∨
      (FirstLargest offers f ∧ (e.ends = f.ends → e.value.AtMost f.value)) := by
  constructor
  · rintro ⟨before, after, heq, hbefore, hafter⟩
    rcases List.eq_nil_or_concat after with rfl | ⟨after, last, rfl⟩
    · -- it is the last one
      obtain ⟨rfl, hlast⟩ := List.append_inj' heq rfl
      obtain rfl := (List.cons.inj hlast).1
      exact Or.inl ⟨rfl, hbefore⟩
    · rw [List.concat_eq_append, ← List.cons_append, ← List.append_assoc] at heq
      obtain ⟨rfl, hlast⟩ := List.append_inj' heq rfl
      obtain rfl := (List.cons.inj hlast).1
      rw [List.concat_eq_append] at hafter
      exact Or.inr ⟨⟨before, after, rfl, hbefore,
        fun e' he' => hafter e' (List.mem_append_left _ he')⟩,
        hafter e (List.mem_append_right _ (List.mem_singleton.mpr rfl))⟩
  · rintro (⟨rfl, hall⟩ | ⟨⟨before, after, rfl, hbefore, hafter⟩, hlast⟩)
    · exact ⟨offers, [], rfl, hall, fun _ he' => absurd he' List.not_mem_nil⟩
    · refine ⟨before, after ++ [e], by simp, hbefore, fun e' he' => ?_⟩
      rcases List.mem_append.mp he' with he' | he'
      · exact hafter e' he'
      · rw [List.mem_singleton.mp he']
        exact hlast

/-! ## Answers -/

theorem length_answers (edges : EdgeMap) (offers : List Edge) :
    (edges.answers offers).length = offers.length := by
  induction offers generalizing edges with
  | nil => rfl
  | cons e offers ih => rw [answers, List.length_cons, List.length_cons, ih]

/-- An offer meets the edges that the earlier offers have left. -/
theorem getElem?_answers (edges : EdgeMap) (before after : List Edge) (e : Edge) :
    (edges.answers (before ++ e :: after))[before.length]?
      = some ((edges.offerAll before).accepts e.source e.target e.value) := by
  induction before generalizing edges with
  | nil => rfl
  | cons e' before ih =>
    rw [List.cons_append, answers, List.length_cons, List.getElem?_cons_succ, ih]
    rfl

theorem accepts_eq_false_iff : edges.accepts e.source e.target e.value = false ↔
    ∃ current, Table.find? edges e.ends = some current ∧ e.value.AtMost current := by
  constructor
  · intro h
    obtain ⟨current, hc, hle⟩ := exists_le_of_not_accepts h
    exact ⟨current, hc, Number.le_iff_atMost.mp hle⟩
  · rintro ⟨current, hc, hle⟩
    have hfound : Table.find? edges (e.source, e.target) = some current := hc
    unfold accepts
    rw [hfound]
    simp [Number.le_iff_atMost.mpr hle]

/-- **An offer is stored exactly when it beats all earlier offers for its ends.** -/
theorem accepts_iff (hn : ∀ e' ∈ offers, e'.value.isNumber = true) (he : e.value.isNumber = true)
    (h : Holds edges offers) : edges.accepts e.source e.target e.value = true ↔
      ∀ e' ∈ offers, e'.ends = e.ends → e'.value.Less e.value := by
  rw [← Bool.not_eq_false, accepts_eq_false_iff]
  constructor
  · intro hstored e' he' hends
    obtain ⟨current, hc, hle⟩ := h.found e' he'
    have hfound : Table.find? edges e.ends = some current := hends ▸ hc
    have hcurrent := hn _ (h.offered _ _ _ hfound)
    -- what beats the value in the map beats what is at most that value
    have hless : current.Less e.value := by
      refine (Number.less_iff hcurrent he).mpr ?_
      rw [← Bool.not_eq_true, Number.le_iff_atMost]
      exact fun hle' => hstored ⟨current, hfound, hle'⟩
    exact (Number.le_iff_atMost.mp hle).trans_less hless
  · rintro hall ⟨current, hfound, hle⟩
    have hoffered := h.offered _ _ _ hfound
    exact (hall _ hoffered rfl).not_atMost hle

/-! ## The edges -/

/-- An offer leaves the pairs that entering its value would leave: for a new pair it is stored, as
there is nothing yet that it has to beat. -/
theorem keys_offer (edges : EdgeMap) (e : Edge) : (edges.offer e.source e.target e.value).keys
    = (Table.insert edges e.ends e.value).keys := by
  cases ha : edges.accepts e.source e.target e.value with
  | true =>
    rw [offer_of_accepts ha]
    rfl
  | false =>
    obtain ⟨current, hc, -⟩ := accepts_eq_false_iff.mp ha
    have hkey : e.ends ∈ edges.keys := (Table.find?_isSome_iff edges e.ends).mp (by rw [hc]; rfl)
    rw [offer_of_not_accepts ha, Table.keys_insert, if_pos hkey]

theorem find?_offer_of_accepts (h : edges.accepts e.source e.target e.value = true)
    (ends : String × String) : Table.find? (edges.offer e.source e.target e.value) ends
      = if e.ends = ends then some e.value else Table.find? edges ends := by
  rw [offer_of_accepts h]
  exact Table.find?_insert edges e.ends ends e.value

theorem offerAll_append_singleton (edges : EdgeMap) (offers : List Edge) (e : Edge) :
    edges.offerAll (offers ++ [e]) = (edges.offerAll offers).offer e.source e.target e.value :=
  offerAll_append edges offers [e]

/-- Pairs stand in the order in which they were first offered. -/
theorem keys_offerAll (offers : List Edge) :
    (offerAll [] offers).keys = (offers.map Edge.ends).eraseDups := by
  induction offers using List.reverseRecOn with
  | nil => rfl
  | append_singleton offers e ih =>
    rw [offerAll_append_singleton, List.map_append, List.map_singleton]
    exact Table.keys_eq_eraseDups_append_singleton ih
      ((keys_offer _ e).trans (Table.keys_insert _ _ _))

/-- An edge is determined by its ends and its value. -/
theorem eq_iff_ends_eq_and_value_eq : f = e ↔ f.ends = e.ends ∧ f.value = e.value := by
  obtain ⟨s, t, v⟩ := e
  obtain ⟨s', t', v'⟩ := f
  simp [Edge.ends, and_assoc]

/-- **What is stored for a pair is the first of the largest offers for it.** -/
theorem find?_offerAll_iff (hn : ∀ e ∈ offers, e.value.isNumber = true) :
    Table.find? (offerAll [] offers) f.ends = some f.value ↔ FirstLargest offers f := by
  induction offers using List.reverseRecOn with
  | nil => simp [offerAll, not_firstLargest_nil]
  | append_singleton offers e ih =>
    have hbefore : ∀ e' ∈ offers, e'.value.isNumber = true :=
      fun e' he' => hn e' (List.mem_append_left _ he')
    have he : e.value.isNumber = true :=
      hn e (List.mem_append_right _ (List.mem_singleton.mpr rfl))
    have haccepts := accepts_iff hbefore he (holds_offerAll hbefore)
    rw [offerAll_append_singleton, firstLargest_append_singleton, eq_iff_ends_eq_and_value_eq]
    cases h : (offerAll [] offers).accepts e.source e.target e.value with
    | true =>
      have hall := haccepts.mp h
      rw [find?_offer_of_accepts h]
      by_cases hends : e.ends = f.ends
      · -- whatever was stored for the pair is beaten
        have hbeaten : ¬ (FirstLargest offers f ∧ (e.ends = f.ends → e.value.AtMost f.value)) :=
          fun hf => (hall f hf.1.mem hends.symm).not_atMost (hf.2 hends)
        rw [or_iff_left hbeaten, and_iff_left hall, and_iff_right hends.symm, if_pos hends,
          Option.some.injEq, eq_comm]
      · rw [if_neg hends, ih hbefore]
        simp [hends, Ne.symm hends]
    | false =>
      have hsome := mt haccepts.mpr (Bool.not_eq_true _ ▸ h)
      obtain ⟨current, hc, hle⟩ := accepts_eq_false_iff.mp h
      rw [offer_of_not_accepts h, ih hbefore, or_iff_right (fun hf => hsome hf.2)]
      -- for the pair of the offer, the value that is no smaller is the one that is stored
      refine (and_iff_left_of_imp fun hf hends => ?_).symm
      have hf := (ih hbefore).mpr hf
      rw [← hends, hc] at hf
      exact Option.some.inj hf ▸ hle

/-! ## The main result -/

/-- **A sequence of offers keeps the first of the largest.** Of some offers of numbers, made one
after the other, each is stored exactly when it is larger than every earlier one for its ends. In the
end there is one edge for each pair that was offered, the pairs stand in the order in which they were
first offered, and the edges are the first of the largest offers. -/
theorem offerAll_keeps_firstLargest (offers : List Edge)
    (hn : ∀ e ∈ offers, e.value ≠ .float .nan) :
    (answers [] offers).length = offers.length ∧
      (∀ before e after, offers = before ++ e :: after →
        ∃ stored, (answers [] offers)[before.length]? = some stored ∧
          (stored = true ↔ ∀ e' ∈ before, e'.ends = e.ends → e'.value.Less e.value)) ∧
      (offerAll [] offers).toEdges.map Edge.ends = (offers.map Edge.ends).eraseDups ∧
      ((offerAll [] offers).toEdges.map Edge.ends).Nodup ∧
      ∀ e, e ∈ (offerAll [] offers).toEdges ↔ FirstLargest offers e := by
  have hnumber : ∀ e ∈ offers, e.value.isNumber = true := fun e he =>
    Number.isNumber_of_ne_nan (hn e he)
  have hends : (offerAll [] offers).toEdges.map Edge.ends = (offerAll [] offers).keys :=
    map_pair_toEdges _
  have hnodup := (holds_offerAll hnumber).nodup
  refine ⟨length_answers [] offers, ?_, ?_, ?_, fun e => ?_⟩
  · rintro before e after rfl
    have hbefore : ∀ e' ∈ before, e'.value.isNumber = true :=
      fun e' he' => hnumber e' (List.mem_append_left _ he')
    have he : e.value.isNumber = true := hnumber e (by simp)
    exact ⟨_, getElem?_answers [] before after e,
      accepts_iff hbefore he (holds_offerAll hbefore)⟩
  · rw [hends, keys_offerAll]
  · rw [hends]
    exact hnodup
  · rw [mem_toEdges_iff hnodup]
    exact find?_offerAll_iff hnumber

/-- Two pairs, offered in turn. -/
def interleavedOffers : List Edge :=
  [⟨"CPSC 110", "CPSC 210", .int 1⟩, ⟨"MATH 100", "CPSC 210", .float (.ofQuotient 1 2)⟩,
    ⟨"CPSC 110", "CPSC 210", .float (.ofNat 1)⟩, ⟨"MATH 100", "CPSC 210", .int 2⟩,
    ⟨"MATH 100", "CPSC 210", .float (.ofQuotient 3 2)⟩]

/-- A floating-point number does not replace an integer that is as large, but a larger integer
replaces a floating-point number, and its edge keeps its place. -/
theorem interleavedOffers_keep_firstLargest :
    (∀ e ∈ interleavedOffers, e.value ≠ .float .nan) ∧
      answers [] interleavedOffers = [true, true, false, true, false] ∧
      FirstLargest interleavedOffers ⟨"CPSC 110", "CPSC 210", .int 1⟩ ∧
      FirstLargest interleavedOffers ⟨"MATH 100", "CPSC 210", .int 2⟩ := by
  have hn : ∀ e ∈ interleavedOffers, e.value ≠ .float .nan := by decide +kernel
  have hedges : offerAll [] interleavedOffers
      = [(("CPSC 110", "CPSC 210"), .int 1), (("MATH 100", "CPSC 210"), .int 2)] := by
    decide +kernel
  obtain ⟨-, -, -, -, hmem⟩ := offerAll_keeps_firstLargest interleavedOffers hn
  rw [hedges] at hmem
  exact ⟨hn, by decide +kernel, (hmem _).mp (by simp [toEdges]), (hmem _).mp (by simp [toEdges])⟩

end EdgeMap

end Curriculum
