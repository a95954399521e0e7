import Curriculum.Graph.Basic

/-!
# Edges that were offered

However a graph is put together, its edges come from a list of offers, taken one after the other.
`EdgeMap.Holds edges offers` says what the edges have to do with the offers made so far: there is
one edge for each pair that was offered, and its value is the largest one offered for the pair. One
offer keeps this (`holds_offer`), so any list of offers leads to it (`holds_offerAll`).

All values offered have to be numbers: what is not a number is at most nothing, so it would replace
any value and be replaced by any.
-/

namespace Curriculum

namespace EdgeMap

/-- Offer some edges, one after the other. -/
def offerAll (edges : EdgeMap) (offers : List Edge) : EdgeMap :=
  offers.foldl (fun m e => m.offer e.source e.target e.value) edges

/-- There is one edge for each pair that was offered, with the largest value offered for it. -/
structure Holds (edges : EdgeMap) (offers : List Edge) : Prop where
  nodup : edges.keys.Nodup
  found : ∀ e ∈ offers, ∃ v, Table.find? edges (e.source, e.target) = some v ∧ e.value.le v = true
  offered : ∀ s t v, Table.find? edges (s, t) = some v → ⟨s, t, v⟩ ∈ offers

theorem holds_nil : Holds [] [] where
  nodup := List.nodup_nil
  found := fun _ he => absurd he List.not_mem_nil
  offered := fun _ _ _ hv => absurd hv (by simp)

/-! ## One offer -/

variable {edges : EdgeMap} {offers : List Edge} {s t : String} {value : Number}

theorem offer_of_accepts (h : edges.accepts s t value = true) :
    edges.offer s t value = Table.insert edges (s, t) value := by
  unfold offer
  exact if_pos h

theorem offer_of_not_accepts (h : edges.accepts s t value = false) :
    edges.offer s t value = edges := by
  unfold offer
  exact if_neg (by simp [h])

/-- An offer is refused only if there is an edge with a value at least as large. -/
theorem exists_le_of_not_accepts (h : edges.accepts s t value = false) :
    ∃ current, Table.find? edges (s, t) = some current ∧ value.le current = true := by
  unfold accepts at h
  split at h
  · next current hc => exact ⟨current, hc, by simpa using h⟩
  · exact absurd h (by simp)

/-- An offer that is stored is no smaller than the value that it replaces. -/
theorem le_of_accepts (h : edges.accepts s t value = true) {current : Number}
    (hc : Table.find? edges (s, t) = some current) (hv : value.isNumber = true)
    (hcn : current.isNumber = true) : current.le value = true := by
  unfold accepts at h
  rw [hc] at h
  rcases Number.le_total hcn hv with hle | hle
  · exact hle
  · exact absurd h (by simp [hle])

theorem holds_offer (hn : ∀ e ∈ offers, e.value.isNumber = true) (hv : value.isNumber = true)
    (h : Holds edges offers) : Holds (edges.offer s t value) (offers ++ [⟨s, t, value⟩]) := by
  cases ha : edges.accepts s t value with
  | false =>
    -- nothing is stored: the new offer is covered by the edge that is there
    rw [offer_of_not_accepts ha]
    refine ⟨h.nodup, fun e he => ?_, fun s' t' v hf => ?_⟩
    · rcases List.mem_append.mp he with he | he
      · exact h.found e he
      · rw [List.mem_singleton.mp he]
        exact exists_le_of_not_accepts ha
    · exact List.mem_append_left _ (h.offered s' t' v hf)
  | true =>
    rw [offer_of_accepts ha]
    refine ⟨Table.nodup_keys_insert h.nodup _ _, fun e he => ?_, fun s' t' v hf => ?_⟩
    · rw [Table.find?_insert]
      rcases List.mem_append.mp he with he | he
      · obtain ⟨current, hc, hle⟩ := h.found e he
        split
        · next hk =>
          -- an earlier offer for the pair is below the value that is now replaced
          rw [← hk] at hc
          have hcn := hn _ (h.offered s t current hc)
          exact ⟨value, rfl, Number.le_trans hle (le_of_accepts ha hc hv hcn)⟩
        · exact ⟨current, hc, hle⟩
      · rw [List.mem_singleton.mp he, if_pos rfl]
        exact ⟨value, rfl, (Number.le_total hv hv).elim id id⟩
    · rw [Table.find?_insert] at hf
      split at hf
      · next hk =>
        obtain ⟨rfl, rfl⟩ := Prod.mk.inj hk
        rw [← Option.some.inj hf]
        exact List.mem_append_right _ (List.mem_singleton.mpr rfl)
      · exact List.mem_append_left _ (h.offered s' t' v hf)

/-! ## A list of offers -/

theorem holds_offerAll_append (hn : ∀ e ∈ offers, e.value.isNumber = true) {more : List Edge}
    (hmore : ∀ e ∈ more, e.value.isNumber = true) (h : Holds edges offers) :
    Holds (edges.offerAll more) (offers ++ more) := by
  induction more generalizing edges offers with
  | nil => simpa [offerAll] using h
  | cons e more ih =>
    have he := hmore e (List.mem_cons_self ..)
    have hn' : ∀ e' ∈ offers ++ [e], e'.value.isNumber = true := by
      intro e' he'
      rcases List.mem_append.mp he' with he' | he'
      · exact hn e' he'
      · rw [List.mem_singleton.mp he']
        exact he
    have hstep := ih hn' (fun e' he' => hmore e' (List.mem_cons_of_mem _ he')) (holds_offer hn he h)
    rwa [List.append_assoc] at hstep

/-- After any offers of numbers there is one edge for each pair offered, with the largest value. -/
theorem holds_offerAll (hn : ∀ e ∈ offers, e.value.isNumber = true) :
    Holds (offerAll [] offers) offers := by
  show Holds (offerAll [] offers) ([] ++ offers)
  exact holds_offerAll_append (fun _ he => absurd he List.not_mem_nil) hn holds_nil

theorem offerAll_append (edges : EdgeMap) (xs ys : List Edge) :
    edges.offerAll (xs ++ ys) = (edges.offerAll xs).offerAll ys :=
  List.foldl_append ..

/-! ## Reading the edges off -/

theorem mem_toEdges_iff (h : edges.keys.Nodup) {e : Edge} :
    e ∈ edges.toEdges ↔ Table.find? edges (e.source, e.target) = some e.value := by
  rw [Table.find?_eq_some_iff h, toEdges, List.mem_map]
  constructor
  · rintro ⟨⟨⟨s, t⟩, v⟩, hmem, rfl⟩
    exact hmem
  · exact fun hmem => ⟨_, hmem, rfl⟩

theorem map_pair_toEdges (edges : EdgeMap) :
    edges.toEdges.map (fun e => (e.source, e.target)) = edges.keys := by
  unfold toEdges Table.keys
  rw [List.map_map]
  rfl

end EdgeMap

end Curriculum
