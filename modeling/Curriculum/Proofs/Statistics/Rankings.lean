import Curriculum.Proofs.Statistics.Sums
import Curriculum.Proofs.Table
import Curriculum.Statistics.Report
import Mathlib.Data.List.Sigma

/-!
# The rankings of departments

Departments are counted twice: in a tally, and in a table of breakdowns that holds their totals. The
report ranks both. They are the same tally: one record counts the same department in either, so the
totals of the breakdowns are the counts, in the same order (`totals_breakdowns`). A sort that looks
at totals only then does the same to both (`totals_topBreakdowns`).

What comes out first is a matter of the sort being stable. Keys of a tally stand in the order of
first sight (`Table.pairwise_idxOf_eraseDups`), and the sort leaves equal counts as they stand
(`Tally.pairwise_ranked`), so a ranking goes by count and then by first sight (`Tally.IsRanking`).

> `report_rankings_agree`: the two lists of departments in the report of any records.
-/

namespace Curriculum

namespace Tally

variable {κ : Type} [DecidableEq κ] {ks : List κ}

/-! ## What a tally holds -/

theorem ofList_append_singleton (ks : List κ) (k : κ) : ofList (ks ++ [k]) = (ofList ks).add k := by
  unfold ofList
  rw [List.foldl_append]
  rfl

theorem keys_ofList (ks : List κ) : Table.keys (ofList ks) = ks.eraseDups := by
  induction ks using List.reverseRecOn with
  | nil => rfl
  | append_singleton seen k ih =>
    rw [ofList_append_singleton]
    exact Table.keys_eq_eraseDups_append_singleton ih (Table.keys_insert _ k _)

theorem nodup_keys_ofList (ks : List κ) : (Table.keys (ofList ks)).Nodup := by
  rw [keys_ofList]
  refine (Table.pairwise_idxOf_eraseDups ks).imp fun {k k'} hlt he => ?_
  rw [he] at hlt
  exact lt_irrefl _ hlt

/-- A tally holds every key that was counted, with how often it was. -/
theorem mem_ofList_iff {k : κ} {n : Nat} : (k, n) ∈ ofList ks ↔ k ∈ ks ∧ n = ks.count k := by
  have hkey : (Table.find? (ofList ks) k).isSome ↔ k ∈ ks := by
    rw [Table.find?_isSome_iff, keys_ofList, List.mem_eraseDups]
  have hcount : count (ofList ks) k = ks.count k := (count_foldl_add ks [] k).trans (Nat.zero_add _)
  rw [← Table.find?_eq_some_iff (nodup_keys_ofList ks), ← hkey, ← hcount, count]
  cases Table.find? (ofList ks) k with
  | none => simp
  | some m => simp [eq_comm]

/-! ## Rankings -/

/-- A sort puts in order, and leaves what it cannot tell apart as it stands. -/
theorem pairwise_mergeSort_of_pairwise {α : Type} {le : α → α → Bool}
    (htrans : ∀ a b c, le a b = true → le b c = true → le a c = true)
    (htotal : ∀ a b, (le a b || le b a) = true) {P : α → α → Prop} {l : List α}
    (h : l.Pairwise P) :
    (l.mergeSort le).Pairwise fun a b => le a b = true ∧ (le b a = true → P a b) := by
  -- with its position beside it, nothing is a match for anything else
  let tagged := l.zipIdx.mergeSort (List.zipIdxLE le)
  have hperm : tagged.Perm l.zipIdx := List.mergeSort_perm _ _
  have hsorted : tagged.Pairwise fun x y => List.zipIdxLE le x y = true :=
    List.pairwise_mergeSort (List.zipIdxLE_trans htrans) (List.zipIdxLE_total htotal) _
  have htags : tagged.Pairwise fun x y => x.2 ≠ y.2 :=
    List.pairwise_map.mp ((hperm.map Prod.snd).nodup_iff.mpr (List.nodup_zipIdx_map_snd l))
  rw [← List.mergeSort_zipIdx, List.pairwise_map]
  refine (hsorted.and htags).imp_of_mem fun {x y} hx hy ⟨hle, hne⟩ => ?_
  unfold List.zipIdxLE at hle
  split_ifs at hle with hxy hyx
  · refine ⟨hxy, fun _ => ?_⟩
    have hx : l[x.2]? = some x.1 := List.mem_zipIdx_iff_getElem?.mp (hperm.mem_iff.mp hx)
    have hy : l[y.2]? = some y.1 := List.mem_zipIdx_iff_getElem?.mp (hperm.mem_iff.mp hy)
    obtain ⟨hi, hx⟩ := List.getElem?_eq_some_iff.mp hx
    obtain ⟨hj, hy⟩ := List.getElem?_eq_some_iff.mp hy
    have hlt : x.2 < y.2 := Nat.lt_of_le_of_ne (decide_eq_true_iff.mp hle) hne
    rw [← hx, ← hy]
    exact List.pairwise_iff_getElem.mp h _ _ hi hj hlt
  · exact ⟨hxy, fun h => absurd h hyx⟩

/-- Of two keys, one leads the other if it occurs more often, or as often and first. -/
def Leads (ks : List κ) (k k' : κ) : Prop :=
  ks.count k' < ks.count k ∨ ks.count k' = ks.count k ∧ ks.idxOf k < ks.idxOf k'

/-- A ranking of the keys of a list: as many as are asked for or as there are, with how often they
occur, and each of them leads those that come after it and those that are left out. -/
structure IsRanking (ks : List κ) (limit : Nat) (top : List (κ × Nat)) : Prop where
  length : top.length = min limit ks.eraseDups.length
  counted : ∀ e ∈ top, e.1 ∈ ks ∧ e.2 = ks.count e.1
  ordered : top.Pairwise fun e e' => Leads ks e.1 e'.1
  best : ∀ k ∈ ks, k ∉ Table.keys top → ∀ e ∈ top, Leads ks e.1 k

omit [DecidableEq κ] in
/-- The ranking puts the larger counts first, and leaves equal counts as they stand. -/
theorem pairwise_ranked {P : κ × Nat → κ × Nat → Prop} {t : Tally κ} (h : t.Pairwise P) :
    (ranked t).Pairwise fun e e' => e'.2 < e.2 ∨ e'.2 = e.2 ∧ P e e' := by
  refine (pairwise_mergeSort_of_pairwise ?_ ?_ h).imp fun {e e'} ⟨hle, hstands⟩ => ?_
  · intro a b c hab hbc
    rw [decide_eq_true_iff] at hab hbc ⊢
    omega
  · intro a b
    rw [Bool.or_eq_true, decide_eq_true_iff, decide_eq_true_iff]
    omega
  · rw [decide_eq_true_iff] at hle hstands
    rcases Nat.lt_or_eq_of_le hle with hlt | heq
    · exact Or.inl hlt
    · exact Or.inr ⟨heq, hstands (Nat.le_of_eq heq.symm)⟩

/-- The first of the ranked keys of a tally are a ranking of what was counted. -/
theorem isRanking_top (ks : List κ) (limit : Nat) : IsRanking ks limit ((ofList ks).top limit) := by
  have hmem : ∀ e ∈ ranked (ofList ks), e.1 ∈ ks ∧ e.2 = ks.count e.1 := fun e he =>
    mem_ofList_iff.mp (List.mem_mergeSort.mp he)
  have hseen : (ofList ks).Pairwise fun e e' => ks.idxOf e.1 < ks.idxOf e'.1 := by
    have hkeys := Table.pairwise_idxOf_eraseDups ks
    rwa [← keys_ofList, Table.keys, List.pairwise_map] at hkeys
  have hleads : (ranked (ofList ks)).Pairwise fun e e' => Leads ks e.1 e'.1 := by
    refine (pairwise_ranked hseen).imp_of_mem fun he he' h => ?_
    rwa [(hmem _ he).2, (hmem _ he').2] at h
  have htop : (ofList ks).top limit = (ranked (ofList ks)).take limit := rfl
  rw [htop]
  refine ⟨?_, fun e he => hmem e (List.mem_of_mem_take he), hleads.sublist (List.take_sublist _ _),
    fun k hk hout e he => ?_⟩
  · have hlength : (ranked (ofList ks)).length = (ofList ks).length := List.length_mergeSort _
    rw [List.length_take, hlength, ← keys_ofList]
    exact congrArg _ (List.length_map _).symm
  · -- a key that is not among the first comes after all of them
    have hk : (k, ks.count k) ∈ ranked (ofList ks) :=
      List.mem_mergeSort.mpr (mem_ofList_iff.mpr ⟨hk, rfl⟩)
    rw [← List.take_append_drop limit (ranked (ofList ks))] at hk hleads
    rcases List.mem_append.mp hk with hfirst | hrest
    · exact absurd (List.mem_map.mpr ⟨_, hfirst, rfl⟩) hout
    · exact (List.pairwise_append.mp hleads).2.2 e he _ hrest

end Tally

namespace Statistics

variable {records : List Record}

/-! ## Two counts of departments -/

/-- The departments of some records, one for each record. -/
def departmentsOf (records : List Record) : List String := records.map Record.department

theorem departments_ofRecords (records : List Record) :
    (ofRecords records).departments = Tally.ofList (departmentsOf records) := by
  induction records using List.reverseRecOn with
  | nil => rfl
  | append_singleton records r ih =>
    rw [ofRecords_append_singleton, addRecord_departments, ih, departmentsOf, departmentsOf,
      List.map_append, List.map_singleton, Tally.ofList_append_singleton]

/-- A record in a breakdown is one more of its department. -/
theorem mapValues_addToBreakdown (t : Table String Breakdown) (d : String) (k : Status) :
    (addToBreakdown t d k).mapValues Breakdown.total
      = Tally.add (t.mapValues Breakdown.total) d := by
  have hcount : Tally.count (t.mapValues Breakdown.total) d
      = ((t.find? d).getD ⟨0, []⟩).total := by
    rw [Tally.count, Table.find?_mapValues]
    cases t.find? d <;> rfl
  unfold addToBreakdown Tally.add Tally.addTimes
  rw [Table.mapValues_insert, hcount]

/-- **The totals of the breakdowns are the counts of the departments**, in the same order. -/
theorem totals_breakdowns (records : List Record) :
    (ofRecords records).breakdowns.mapValues Breakdown.total = (ofRecords records).departments := by
  induction records using List.reverseRecOn with
  | nil => rfl
  | append_singleton records r ih =>
    rw [ofRecords_append_singleton, addRecord_breakdowns, addRecord_departments,
      mapValues_addToBreakdown, ih]

/-- A sort that looks at totals only does the same to the breakdowns as to their totals. -/
theorem totals_topBreakdowns (records : List Record) :
    Table.mapValues Breakdown.total (ofRecords records).topBreakdowns
      = (ofRecords records).topDepartments := by
  unfold topBreakdowns topDepartments Tally.top Tally.ranked
  rw [← totals_breakdowns, Table.mapValues, List.map_take]
  exact congrArg _ (List.map_mergeSort fun _ _ _ _ => rfl)

/-- What is ranked is the breakdown of its department. -/
theorem eq_breakdown_of_mem_topBreakdowns {d : String × Breakdown}
    (h : d ∈ (ofRecords records).topBreakdowns) : d.2 = (ofRecords records).breakdown d.1 := by
  have hkeys : (ofRecords records).breakdowns.keys.Nodup := by
    have hsame : Table.keys (ofRecords records).departments
        = (ofRecords records).breakdowns.keys := by
      rw [← totals_breakdowns, Table.keys, Table.mapValues, List.map_map]
      rfl
    rw [← hsame, departments_ofRecords]
    exact Tally.nodup_keys_ofList _
  have hmem : d ∈ (ofRecords records).breakdowns :=
    List.mem_mergeSort.mp (List.mem_of_mem_take h)
  rw [breakdown, (Table.find?_eq_some_iff hkeys).mpr hmem]
  rfl

/-! ## The main result -/

/-- The lines of the report before the first list of departments. -/
def linesBefore (s : Statistics) : List String :=
  ["COURSE PREREQUISITES PARSING STATISTICS", String.ofList (List.replicate 50 '='), ""]
    ++ s.statusLines ++ [""] ++ s.sectionLines ++ [""] ++ s.nestingLines
    ++ ["", "REQUIREMENT TYPES:"] ++ s.kinds.ranked.map (fun k => countLine k.1.name k.2)

/-- The blocks between the two lists of departments. -/
def blocksBetween (s : Statistics) : List String :=
  block "ERROR TYPES:" (s.errors.ranked.map fun e => countLine e.1 e.2)
    ++ block "BLACKLIST REASONS (top 5):"
      ((s.blacklistReasons.top reasonsShown).map fun r =>
        toString r.2 ++ "x: " ++ Text.shorten reasonLength r.1)

theorem report_eq (s : Statistics) : s.report = Text.joinLines (s.linesBefore
    ++ ["", "TOP DEPARTMENTS:"] ++ s.topDepartments.map (fun d => countLine d.1 d.2)
    ++ s.blocksBetween
    ++ ["", "DEPARTMENT BREAKDOWN (top 10):"]
    ++ s.topBreakdowns.map fun d => breakdownLine d.1 d.2) := by
  unfold report linesBefore blocksBetween
  rw [← List.append_assoc _ (block _ _) (block _ _)]

/-- An empty line ends what stands before it, whether or not there is a block in between. -/
theorem exists_blocksBetween_append_eq (s : Statistics) :
    ∃ between, s.blocksBetween ++ [""] = "" :: between := by
  unfold blocksBetween
  cases s.errors.ranked.map fun e => countLine e.1 e.2 with
  | cons line lines => exact ⟨_, rfl⟩
  | nil =>
    cases (s.blacklistReasons.top reasonsShown).map fun r =>
        toString r.2 ++ "x: " ++ Text.shorten reasonLength r.1 with
    | cons line lines => exact ⟨_, rfl⟩
    | nil => exact ⟨[], rfl⟩

/-- What stands in the row of a department after its total. -/
def sharesText (b : Breakdown) : String :=
  let parsed := b.byStatus.count .parsed
  Text.padStart 3 (toString parsed) ++ " parsed (" ++ percentText parsed b.total ++ "), "
    ++ toString (b.byStatus.count .blacklisted) ++ " blacklisted, "
    ++ toString (b.byStatus.count .error) ++ " errors"

theorem breakdownLine_eq (department : String) (b : Breakdown) :
    breakdownLine department b = Text.padEnd 8 department ++ ": "
      ++ Text.padStart 3 (toString b.total) ++ " total, " ++ sharesText b := by
  unfold breakdownLine sharesText
  simp only [String.append_assoc]

/-- **The two rankings of departments agree.** Under either title the report of some records lists
the same departments in the same order, with the same number of records beside each: the ten with
the most records, or all if there are fewer, and of those with as many records the one that comes up
first. -/
theorem report_rankings_agree (records : List Record) :
    ∃ top, Tally.IsRanking (departmentsOf records) departmentsShown top ∧
      (ofRecords records).topDepartments = top ∧
      Table.mapValues Breakdown.total (ofRecords records).topBreakdowns = top ∧
      ∃ (before between : List String) (shares : String → String),
        (ofRecords records).report = Text.joinLines (before
          ++ ["", "TOP DEPARTMENTS:"] ++ top.map (fun e => e.1 ++ ": " ++ toString e.2) ++ [""]
          ++ between
          ++ ["DEPARTMENT BREAKDOWN (top 10):"]
          ++ top.map fun e =>
            Text.padEnd 8 e.1 ++ ": " ++ Text.padStart 3 (toString e.2) ++ " total, "
              ++ shares e.1) := by
  have hrank := Tally.isRanking_top (departmentsOf records) departmentsShown
  rw [← departments_ofRecords] at hrank
  have hrows : (ofRecords records).topBreakdowns.map (fun d => breakdownLine d.1 d.2)
      = (ofRecords records).topDepartments.map fun e =>
        Text.padEnd 8 e.1 ++ ": " ++ Text.padStart 3 (toString e.2) ++ " total, "
          ++ sharesText ((ofRecords records).breakdown e.1) := by
    rw [← totals_topBreakdowns, Table.mapValues, List.map_map]
    refine List.map_congr_left fun d hd => ?_
    rw [breakdownLine_eq, Function.comp_apply, ← eq_breakdown_of_mem_topBreakdowns hd]
  obtain ⟨between, hbetween⟩ := exists_blocksBetween_append_eq (ofRecords records)
  have hend : (ofRecords records).blocksBetween ++ ["", "DEPARTMENT BREAKDOWN (top 10):"]
      = [""] ++ between ++ ["DEPARTMENT BREAKDOWN (top 10):"] :=
    (List.append_cons _ _ _).trans (congrArg (· ++ ["DEPARTMENT BREAKDOWN (top 10):"]) hbetween)
  refine ⟨_, hrank, rfl, totals_topBreakdowns records, (ofRecords records).linesBefore, between,
    fun d => sharesText ((ofRecords records).breakdown d), ?_⟩
  rw [report_eq, hrows, List.append_assoc _ (blocksBetween _), hend]
  simp only [List.append_assoc]
  rfl

end Statistics

end Curriculum
