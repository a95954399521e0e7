/-!
# Tables in order of entry

A table is a list of keys with a value each. A key keeps the place where it was first entered;
entering it again only changes its value. Depth tables, edges, counters and the fields of a JSON
object are all tables, so the order in which they are written is the order of first entry.

`find?_insert` says what an entry does to every look-up, `keys_insert` what it does to the order.
-/

namespace Curriculum

universe u v w

/-- Keys with a value each, in the order in which the keys were first entered. -/
abbrev Table (κ : Type u) (α : Type v) : Type (max u v) := List (κ × α)

namespace Table

variable {κ : Type u} {α : Type v} {β : Type w} [DecidableEq κ]

/-- The value of a key, if the key was entered. -/
def find? (t : Table κ α) (k : κ) : Option α :=
  match t with
  | [] => none
  | (k', a) :: rest => if k' = k then some a else find? rest k

/-- Enter a value: a known key keeps its place, a new key comes last. -/
def insert (t : Table κ α) (k : κ) (a : α) : Table κ α :=
  match t with
  | [] => [(k, a)]
  | (k', a') :: rest => if k' = k then (k, a) :: rest else (k', a') :: insert rest k a

/-- Enter a value only if the key is new. -/
def insertIfNew (t : Table κ α) (k : κ) (a : α) : Table κ α :=
  match t.find? k with
  | some _ => t
  | none => t ++ [(k, a)]

/-- The keys, in order of entry. -/
def keys (t : Table κ α) : List κ :=
  t.map (·.1)

/-- The values, in order of entry of their keys. -/
def values (t : Table κ α) : List α :=
  t.map (·.2)

/-! ## Looking up after entering -/

@[simp] theorem find?_nil (k : κ) : find? ([] : Table κ α) k = none := rfl

@[simp] theorem find?_cons (k' : κ) (a : α) (rest : Table κ α) (k : κ) :
    find? ((k', a) :: rest) k = if k' = k then some a else find? rest k := rfl

@[simp] theorem insert_nil (k : κ) (a : α) : insert ([] : Table κ α) k a = [(k, a)] := rfl

@[simp] theorem insert_cons (k' : κ) (a' : α) (rest : Table κ α) (k : κ) (a : α) :
    insert ((k', a') :: rest) k a
      = if k' = k then (k, a) :: rest else (k', a') :: insert rest k a := rfl

/-- In two tables, what the first one has comes first. -/
theorem find?_append (t t' : Table κ α) (k : κ) :
    find? (t ++ t') k = (find? t k).or (find? t' k) := by
  induction t with
  | nil => rfl
  | cons entry rest ih =>
    obtain ⟨k₀, a₀⟩ := entry
    rw [List.cons_append, find?_cons, find?_cons, ih]
    split <;> rfl

/-- What is found is in the table. -/
theorem mem_of_find? {t : Table κ α} {k : κ} {a : α} (h : t.find? k = some a) : (k, a) ∈ t := by
  induction t with
  | nil => exact absurd h (by simp)
  | cons entry rest ih =>
    obtain ⟨k₀, a₀⟩ := entry
    rw [find?_cons] at h
    split at h
    · next hk =>
      subst hk
      obtain rfl := Option.some.inj h
      exact List.mem_cons_self
    · exact List.mem_cons_of_mem _ (ih h)

/-- An entry changes the look-up of its own key and of no other. -/
theorem find?_insert (t : Table κ α) (k k' : κ) (a : α) :
    (t.insert k a).find? k' = if k = k' then some a else t.find? k' := by
  induction t with
  | nil => simp
  | cons entry rest ih =>
    obtain ⟨k₀, a₀⟩ := entry
    by_cases h : k₀ = k
    · by_cases h' : k = k' <;> simp_all
    · by_cases h' : k₀ = k'
      · subst h'
        have hk : k ≠ k₀ := fun e => h e.symm
        simp [h, hk]
      · simp [h, h', ih]

/-- Entering only what is new changes the look-up of a key that was not found, and of no other. -/
theorem find?_insertIfNew (t : Table κ α) (k k' : κ) (a : α) :
    (t.insertIfNew k a).find? k' = (t.find? k').or (if k = k' then some a else none) := by
  unfold insertIfNew
  split
  · next b hb =>
    by_cases h : k = k'
    · subst h
      rw [hb]
      rfl
    · rw [if_neg h, Option.or_none]
  · rw [find?_append, find?_cons, find?_nil]

/-- Entering a value twice is as good as entering it once. -/
theorem insert_insert (t : Table κ α) (k : κ) (a : α) :
    (t.insert k a).insert k a = t.insert k a := by
  induction t with
  | nil => simp
  | cons entry rest ih =>
    obtain ⟨k₀, a₀⟩ := entry
    by_cases h : k₀ = k <;> simp [h, ih]

/-! ## The order of the keys -/

omit [DecidableEq κ] in
@[simp] theorem keys_nil : keys ([] : Table κ α) = [] := rfl

omit [DecidableEq κ] in
@[simp] theorem keys_cons (entry : κ × α) (rest : Table κ α) :
    keys (entry :: rest) = entry.1 :: keys rest := rfl

omit [DecidableEq κ] in
theorem keys_append (t t' : Table κ α) : keys (t ++ t') = keys t ++ keys t' :=
  List.map_append

/-- A key is found exactly when it is one of the keys. -/
theorem find?_isSome_iff (t : Table κ α) (k : κ) : (t.find? k).isSome ↔ k ∈ t.keys := by
  induction t with
  | nil => simp
  | cons entry rest ih =>
    obtain ⟨k₀, a₀⟩ := entry
    by_cases h : k₀ = k
    · simp [h]
    · have h' : k ≠ k₀ := fun e => h e.symm
      simp [h, h', ih]

/-- Among keys without repetition, look-ups find exactly what the table holds. -/
theorem find?_eq_some_iff {t : Table κ α} (h : t.keys.Nodup) {k : κ} {a : α} :
    t.find? k = some a ↔ (k, a) ∈ t := by
  induction t with
  | nil => simp
  | cons entry rest ih =>
    obtain ⟨k₀, a₀⟩ := entry
    obtain ⟨hk₀, hrest⟩ := List.nodup_cons.mp h
    rw [find?_cons, List.mem_cons, Prod.mk.injEq]
    split
    · next hk =>
      subst hk
      -- the key does not come up again
      have hout : (k₀, a) ∉ rest := fun hm => hk₀ (List.mem_map.mpr ⟨_, hm, rfl⟩)
      simp [hout, eq_comm]
    · next hk =>
      rw [ih hrest]
      simp [Ne.symm hk]

/-- Tables that have the same keys in the same order, none of them twice, are the same if they give
each key the same value. -/
theorem eq_of_find?_eq {t t' : Table κ α} (hkeys : t.keys = t'.keys) (h : t.keys.Nodup)
    (hfind : ∀ k ∈ t.keys, t.find? k = t'.find? k) : t = t' := by
  induction t generalizing t' with
  | nil => exact (List.map_eq_nil_iff.mp hkeys.symm).symm
  | cons entry rest ih =>
    obtain ⟨k, a⟩ := entry
    cases t' with
    | nil => exact absurd hkeys (by simp)
    | cons entry' rest' =>
      obtain ⟨k', a'⟩ := entry'
      obtain ⟨hk, hrest⟩ := List.cons.inj hkeys
      obtain ⟨hout, hnodup⟩ := List.nodup_cons.mp h
      have hk : k = k' := hk
      subst hk
      have ha := hfind k List.mem_cons_self
      rw [find?_cons, if_pos rfl, find?_cons, if_pos rfl] at ha
      rw [Option.some.inj ha, ih hrest hnodup]
      intro k₁ hk₁
      -- the first key is none of the others, so it hides none of their values
      have hne : k ≠ k₁ := fun he => hout (he ▸ hk₁)
      have hfound := hfind k₁ (List.mem_cons_of_mem _ hk₁)
      rwa [find?_cons, if_neg hne, find?_cons, if_neg hne] at hfound

/-- A known key keeps its place, a new key comes last. -/
theorem keys_insert (t : Table κ α) (k : κ) (a : α) :
    (t.insert k a).keys = if k ∈ t.keys then t.keys else t.keys ++ [k] := by
  induction t with
  | nil => simp
  | cons entry rest ih =>
    obtain ⟨k₀, a₀⟩ := entry
    by_cases h : k₀ = k
    · simp [h]
    · have h' : k ≠ k₀ := fun e => h e.symm
      by_cases hm : k ∈ keys rest <;> simp [h, h', ih, hm]

/-- Entering only what is new treats the keys alike. -/
theorem keys_insertIfNew (t : Table κ α) (k : κ) (a : α) :
    (t.insertIfNew k a).keys = if k ∈ t.keys then t.keys else t.keys ++ [k] := by
  unfold insertIfNew
  split
  · next b hb =>
    have hk : k ∈ t.keys := (find?_isSome_iff t k).mp (by rw [hb]; rfl)
    rw [if_pos hk]
  · next hnone =>
    have hk : k ∉ t.keys := fun hk => by simpa [hnone] using (find?_isSome_iff t k).mpr hk
    rw [if_neg hk, keys_append]
    rfl

theorem mem_keys_insert {t : Table κ α} {k k' : κ} {a : α} :
    k' ∈ (t.insert k a).keys ↔ k' ∈ t.keys ∨ k' = k := by
  rw [keys_insert]
  split
  · next hk =>
    constructor
    · exact Or.inl
    · rintro (hk' | rfl)
      · exact hk'
      · exact hk
  · rw [List.mem_append, List.mem_singleton]

theorem mem_keys_insertIfNew {t : Table κ α} {k k' : κ} {a : α} :
    k' ∈ (t.insertIfNew k a).keys ↔ k' ∈ t.keys ∨ k' = k := by
  rw [keys_insertIfNew, ← keys_insert t k a, mem_keys_insert]

/-- A new key comes last. -/
theorem insert_of_not_mem {t : Table κ α} {k : κ} (h : k ∉ t.keys) (a : α) :
    t.insert k a = t ++ [(k, a)] := by
  induction t with
  | nil => rfl
  | cons entry rest ih =>
    obtain ⟨k₀, a₀⟩ := entry
    rw [keys_cons, List.mem_cons, not_or] at h
    rw [insert_cons, if_neg (Ne.symm h.1), ih h.2, List.cons_append]

/-- What a table holds after an entry was there before, or is the entry. -/
theorem mem_of_mem_insert {t : Table κ α} {k : κ} {a : α} {e : κ × α} (h : e ∈ t.insert k a) :
    e ∈ t ∨ e = (k, a) := by
  induction t with
  | nil => exact Or.inr (List.mem_singleton.mp h)
  | cons entry rest ih =>
    obtain ⟨k₀, a₀⟩ := entry
    rw [insert_cons] at h
    split at h
    · rcases List.mem_cons.mp h with h | h
      · exact Or.inr h
      · exact Or.inl (List.mem_cons_of_mem _ h)
    · rcases List.mem_cons.mp h with h | h
      · exact Or.inl (h ▸ List.mem_cons_self)
      · exact (ih h).imp_left (List.mem_cons_of_mem _)

/-- Entering a value leaves the entries of other keys alone. -/
theorem filter_insert (t : Table κ α) {k : κ} {q : κ → Bool} (h : q k = false) (a : α) :
    (t.insert k a).filter (fun e => q e.1) = t.filter fun e => q e.1 := by
  have hout : ∀ b : α, ¬ q (k, b).1 = true := fun _ => Bool.eq_false_iff.mp h
  induction t with
  | nil => exact List.filter_cons_of_neg (hout a)
  | cons entry rest ih =>
    obtain ⟨k₀, a₀⟩ := entry
    rw [insert_cons]
    split
    · next hk =>
      subst hk
      rw [List.filter_cons, List.filter_cons, if_neg (hout a), if_neg (hout a₀)]
    · rw [List.filter_cons, List.filter_cons, ih]

/-- Entering keeps the keys free of repetition. -/
theorem nodup_keys_insert {t : Table κ α} (h : t.keys.Nodup) (k : κ) (a : α) :
    (t.insert k a).keys.Nodup := by
  rw [keys_insert]
  split
  · exact h
  · next hk =>
    refine List.nodup_append.mpr ⟨h, by simp, ?_⟩
    intro x hx y hy e
    rw [List.mem_singleton] at hy
    exact hk (hy ▸ e ▸ hx)

/-- So does entering only what is new. -/
theorem nodup_keys_insertIfNew {t : Table κ α} (h : t.keys.Nodup) (k : κ) (a : α) :
    (t.insertIfNew k a).keys.Nodup := by
  rw [keys_insertIfNew, ← keys_insert t k a]
  exact nodup_keys_insert h k a

end Table

end Curriculum
