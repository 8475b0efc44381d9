import Keplor.Lib.Saturating
import Keplor.Store.MemoryEngine
import Keplor.Store.Rollups
import Mathlib.Algebra.BigOperators.Ring.Finset

/-!
# Rollups, stats by model and overall stats come to the same

Three views of the same rows are built by two levels of merging: engines into rollups, rollups into
groups. Counters are added as they are and wrap; costs saturate. Both levels are the same fold
(`counter_foldl`, `cost_foldl`), so what one entry of a merged map holds, and what all its entries
together come to, is proved once and used at either level.

A counter is exact where the sum of the engines' own counters fits, since a wrapped total is congruent
to the exact one and parts of a sum of natural numbers are no larger than the sum. A cost is the exact
sum cut off at the largest `i64`, and cutting off first what is then added and cut off again makes no
difference.
-/

set_option autoImplicit false

namespace Keplor.Store

open Keplor.Lib

/-! ## The counters by name -/

/-- What is counted of a group of requests. -/
inductive Counter where
  | eventCount
  | errorCount
  | inputTokens
  | outputTokens
  | cacheRead
  | cacheCreation
  deriving DecidableEq

def EngineRollup.counter (v : EngineRollup) : Counter → UInt64
  | .eventCount => v.eventCount
  | .errorCount => v.counters COUNTER_IS_ERROR
  | .inputTokens => v.counters COUNTER_INPUT_TOKENS
  | .outputTokens => v.counters COUNTER_OUTPUT_TOKENS
  | .cacheRead => v.counters COUNTER_CACHE_READ
  | .cacheCreation => v.counters COUNTER_CACHE_CREATION

def RollupAcc.counter (acc : RollupAcc) : Counter → Int64
  | .eventCount => acc.eventCount
  | .errorCount => acc.errorCount
  | .inputTokens => acc.inputTokens
  | .outputTokens => acc.outputTokens
  | .cacheRead => acc.cacheRead
  | .cacheCreation => acc.cacheCreation

def RollupRow.counter (r : RollupRow) : Counter → Int64
  | .eventCount => r.eventCount
  | .errorCount => r.errorCount
  | .inputTokens => r.inputTokens
  | .outputTokens => r.outputTokens
  | .cacheRead => r.cacheReadInputTokens
  | .cacheCreation => r.cacheCreationInputTokens

def AggregateRow.counter (r : AggregateRow) : Counter → Int64
  | .eventCount => r.eventCount
  | .errorCount => r.errorCount
  | .inputTokens => r.inputTokens
  | .outputTokens => r.outputTokens
  | .cacheRead => r.cacheReadInputTokens
  | .cacheCreation => r.cacheCreationInputTokens

/-- The key of a rollup. -/
def RollupRow.key (r : RollupRow) : RollupKey := ⟨r.day, r.userId, r.apiKeyId, r.model, r.provider⟩

@[simp] theorem counter_rollupRow (p : RollupKey × RollupAcc) (c : Counter) :
    (rollupRow p).counter c = p.2.counter c := by
  cases c <;> rfl

@[simp] theorem counter_aggregateRow (p : (String × String) × RollupAcc) (c : Counter) :
    (aggregateRow p).counter c = p.2.counter c := by
  cases c <;> rfl

theorem counter_addRollup (acc : RollupAcc) (row : EngineRollupKey × EngineRollup) (c : Counter) :
    (acc.addRollup row).counter c = acc.counter c + (row.2.counter c).toInt64 := by
  cases c <;> rfl

theorem counter_addRow (acc : RollupAcc) (r : RollupRow) (c : Counter) :
    (acc.addRow r).counter c = acc.counter c + r.counter c := by
  cases c <;> rfl

theorem counter_default (c : Counter) : ({} : RollupAcc).counter c = 0 := by
  cases c <;> rfl

/-! ## One level of merging -/

section Merge

variable {ρ κ : Type} [DecidableEq κ] {key : ρ → κ} {add : RollupAcc → ρ → RollupAcc}
  {count : Counter → ρ → Int64} {cost : ρ → Int64} {rows : List ρ} {k : κ} {acc : RollupAcc}

section Counters

variable (hcount : ∀ acc r c, (add acc r).counter c = acc.counter c + count c r)

include hcount

theorem counter_foldl (rows : List ρ) (acc : RollupAcc) (c : Counter) :
    (rows.foldl add acc).counter c = (rows.map (count c)).foldl (· + ·) (acc.counter c) := by
  induction rows generalizing acc with
  | nil => rfl
  | cons r rows ih => rw [List.foldl_cons, ih, hcount, List.map_cons, List.foldl_cons]

/-- An entry holds the sum of its rows, up to wrapping. -/
theorem toInt_counter_entry (h : (k, acc) ∈ aggregate key add {} rows) (c : Counter) :
    (acc.counter c).toInt
      = ((rows.filter fun r => decide (key r = k)).map fun r => (count c r).toInt).sum.bmod (2 ^ 64) := by
  obtain ⟨-, rfl⟩ := mem_aggregate_iff.mp h
  rw [counter_foldl hcount, toInt_foldl_add, counter_default, Int64.toInt_zero, Int.zero_add,
    List.map_map]
  rfl

/-- The entries together hold the sum of all rows, where that fits. -/
theorem sum_counter_entries {c : Counter} (hnonneg : ∀ r ∈ rows, 0 ≤ (count c r).toInt)
    (hfits : (rows.map fun r => (count c r).toInt).sum < 2 ^ 63) :
    ((aggregate key add {} rows).map fun p => (p.2.counter c).toInt).sum
      = (rows.map fun r => (count c r).toInt).sum := by
  rw [← sum_of_groups key add {} (fun r => (count c r).toInt) rows]
  congr 1
  apply List.map_congr_left
  rintro ⟨k, acc⟩ hp
  have hpart : ∀ x ∈ (rows.filter fun r => decide (key r = k)).map fun r => (count c r).toInt, 0 ≤ x := by
    intro x hx
    obtain ⟨r, hr, rfl⟩ := List.mem_map.mp hx
    exact hnonneg r (List.mem_of_mem_filter hr)
  have hall : ∀ x ∈ rows.map fun r => (count c r).toInt, 0 ≤ x := by
    intro x hx
    obtain ⟨r, hr, rfl⟩ := List.mem_map.mp hx
    exact hnonneg r hr
  have hle := (List.filter_sublist (p := fun r => decide (key r = k)) (l := rows)).map
    (fun r => (count c r).toInt) |>.sum_le_sum hall
  rw [toInt_counter_entry hcount hp c]
  exact bmod_of_fits (List.sum_nonneg hpart) (by omega)

end Counters

section Costs

variable (hcost : ∀ acc r, (add acc r).cost = saturatingAdd acc.cost (cost r))
  (hnonneg : ∀ r ∈ rows, 0 ≤ cost r)

include hnonneg

theorem sum_cost_nonneg (k : κ) :
    0 ≤ ((rows.filter fun r => decide (key r = k)).map fun r => (cost r).toInt).sum := by
  apply List.sum_nonneg
  intro x hx
  obtain ⟨r, hr, rfl⟩ := List.mem_map.mp hx
  exact Int64.le_iff_toInt_le.mp (hnonneg r (List.mem_of_mem_filter hr))

include hcost

/-- An entry holds the sum of its rows, cut off. -/
theorem toInt_cost_entry (h : (k, acc) ∈ aggregate key add {} rows) :
    acc.cost.toInt
      = clamp ((rows.filter fun r => decide (key r = k)).map fun r => (cost r).toInt).sum := by
  obtain ⟨-, rfl⟩ := mem_aggregate_iff.mp h
  rw [cost_foldl hcost, toInt_foldl_saturatingAdd, List.map_map]
  · rfl
  · intro x hx
    obtain ⟨r, hr, rfl⟩ := List.mem_map.mp hx
    exact hnonneg r (List.mem_of_mem_filter hr)

/-- The entries together hold the sum of all rows, cut off. -/
theorem clamp_sum_cost_entries :
    clamp ((aggregate key add {} rows).map fun p => p.2.cost.toInt).sum
      = clamp (rows.map fun r => (cost r).toInt).sum := by
  have hparts : ∀ x ∈ (aggregate key add {} rows).map fun p =>
      ((rows.filter fun r => decide (key r = p.1)).map fun r => (cost r).toInt).sum, 0 ≤ x := by
    intro x hx
    obtain ⟨p, -, rfl⟩ := List.mem_map.mp hx
    exact sum_cost_nonneg hnonneg p.1
  rw [← sum_of_groups key add {} (fun r => (cost r).toInt) rows, ← clamp_sum_clamp hparts, List.map_map]
  congr 2
  apply List.map_congr_left
  rintro ⟨k, acc⟩ hp
  exact toInt_cost_entry hcost hnonneg hp

end Costs

end Merge

/-! ## Rows of the engines -/

/-- The rows of a key, from all engines. -/
def rowsOfKey (rows : List (EngineRollupKey × EngineRollup)) (k : RollupKey) :
    List (EngineRollupKey × EngineRollup) :=
  rows.filter fun row => decide (rollupKeyOf row.1 = k)

/-- The rows of a provider, or all of them. -/
def rowsOfProvider (rows : List (EngineRollupKey × EngineRollup)) (providerFilter : Option String) :
    List (EngineRollupKey × EngineRollup) :=
  rows.filter fun row => providerFilter.all fun p => (rollupKeyOf row.1).provider == p

/-- A counter of the engines, added up without bounds. -/
def counterSum (c : Counter) (rows : List (EngineRollupKey × EngineRollup)) : Nat :=
  (rows.map fun row => (row.2.counter c).toNat).sum

/-- The costs of the engines, added up without bounds. -/
def costSum (rows : List (EngineRollupKey × EngineRollup)) : Int :=
  (rows.map fun row => row.2.metric.toInt).sum

section Engines

variable {rows : List (EngineRollupKey × EngineRollup)} {c : Counter}

/-- Where the sum fits, so does every counter in it. -/
theorem toInt_counters (hfits : counterSum c rows < 2 ^ 63) :
    (∀ row ∈ rows, 0 ≤ (row.2.counter c).toInt64.toInt) ∧
    (rows.map fun row => (row.2.counter c).toInt64.toInt).sum = counterSum c rows := by
  have heach : ∀ row ∈ rows, (row.2.counter c).toInt64.toInt = (row.2.counter c).toNat := by
    intro row hrow
    have hle : (row.2.counter c).toNat ≤ counterSum c rows :=
      List.single_le_sum (fun _ _ => Nat.zero_le _) _ (List.mem_map_of_mem hrow)
    rw [toInt_toInt64]
    exact bmod_of_fits (Int.natCast_nonneg _) (by omega)
  constructor
  · intro row hrow
    rw [heach row hrow]
    exact Int.natCast_nonneg _
  · rw [List.map_congr_left heach, counterSum, Nat.cast_list_sum, List.map_map]
    rfl

/-- A rollup counts the rows with its key. -/
theorem toInt_counter_rollup {p : RollupKey × RollupAcc} (hp : p ∈ mergedRollups rows)
    (hfits : counterSum c (rowsOfKey rows p.1) < 2 ^ 63) :
    (p.2.counter c).toInt = counterSum c (rowsOfKey rows p.1) := by
  have hsum := (toInt_counters hfits).2
  rw [toInt_counter_entry counter_addRollup hp c, ← rowsOfKey, hsum]
  exact bmod_of_fits (Int.natCast_nonneg _) (by omega)

/-- A rollup costs what the rows with its key cost. -/
theorem toInt_cost_rollup (hmetric : ∀ r ∈ rows, 0 ≤ r.2.metric) {p : RollupKey × RollupAcc}
    (hp : p ∈ mergedRollups rows) :
    p.2.cost.toInt = min (costSum (rowsOfKey rows p.1)) Int64.maxValue.toInt := by
  rw [toInt_cost_entry (fun _ _ => rfl) hmetric hp]
  exact clamp_of_nonneg (sum_cost_nonneg hmetric p.1)

/-- All rollups together, where the sum of all rows fits. -/
theorem counters_of_rollups (hfits : counterSum c rows < 2 ^ 63) :
    (∀ r ∈ (mergedRollups rows).map rollupRow, 0 ≤ (r.counter c).toInt) ∧
    (((mergedRollups rows).map rollupRow).map fun r => (r.counter c).toInt).sum = counterSum c rows := by
  obtain ⟨hnonneg, hsum⟩ := toInt_counters hfits
  constructor
  · intro r hr
    obtain ⟨p, hp, rfl⟩ := List.mem_map.mp hr
    have hpart : counterSum c (rowsOfKey rows p.1) ≤ counterSum c rows :=
      (List.filter_sublist.map _).sum_le_sum fun _ _ => Nat.zero_le _
    rw [counter_rollupRow, toInt_counter_rollup hp (by omega)]
    exact Int.natCast_nonneg _
  · rw [List.map_map, ← hsum]
    exact sum_counter_entries counter_addRollup hnonneg (by omega)

end Engines

/-! ## Rollups into groups -/

/-- The rollups of a provider are those of its rows. -/
theorem ofProvider_mergedRollups (providerFilter : Option String)
    (rows : List (EngineRollupKey × EngineRollup)) :
    (ofProvider providerFilter ((mergedRollups rows).map rollupRow)).Perm
      ((mergedRollups (rowsOfProvider rows providerFilter)).map rollupRow) := by
  rw [ofProvider, List.filter_map]
  exact (filter_aggregate (fun k => providerFilter.all fun p => k.provider == p) rows).map rollupRow

section Groups

variable {rollups : List RollupRow} {groupByModel : Bool}
  {groups : List ((String × String) × RollupAcc)}

/-- The groups come to what the rollups come to, by model or all in one. -/
theorem sum_counter_groups {c : Counter} (hgroups : KdbStore.SortedGroups groupByModel rollups groups)
    (hnonneg : ∀ r ∈ rollups, 0 ≤ (r.counter c).toInt)
    (hfits : (rollups.map fun r => (r.counter c).toInt).sum < 2 ^ 63) :
    ((groups.map aggregateRow).map fun r => (r.counter c).toInt).sum
      = (rollups.map fun r => (r.counter c).toInt).sum := by
  rw [List.map_map, (hgroups.1.map _).sum_eq]
  exact sum_counter_entries counter_addRow hnonneg hfits

theorem clamp_sum_cost_groups (hgroups : KdbStore.SortedGroups groupByModel rollups groups)
    (hnonneg : ∀ r ∈ rollups, 0 ≤ r.costNanodollars) :
    clamp ((groups.map aggregateRow).map fun r => r.costNanodollars.toInt).sum
      = clamp (rollups.map fun r => r.costNanodollars.toInt).sum := by
  rw [List.map_map, (hgroups.1.map _).sum_eq]
  exact clamp_sum_cost_entries (fun _ _ => rfl) hnonneg

/-- The same with the upper end written out. -/
theorem min_sum_cost_groups (hgroups : KdbStore.SortedGroups groupByModel rollups groups)
    (hnonneg : ∀ r ∈ rollups, 0 ≤ r.costNanodollars) :
    min ((groups.map aggregateRow).map fun r => r.costNanodollars.toInt).sum Int64.maxValue.toInt
      = min (rollups.map fun r => r.costNanodollars.toInt).sum Int64.maxValue.toInt := by
  have hrollups : ∀ x ∈ rollups.map fun r => r.costNanodollars.toInt, 0 ≤ x := by
    intro x hx
    obtain ⟨r, hr, rfl⟩ := List.mem_map.mp hx
    exact Int64.le_iff_toInt_le.mp (hnonneg r hr)
  have hgroup : ∀ x ∈ (groups.map aggregateRow).map fun r => r.costNanodollars.toInt, 0 ≤ x := by
    rw [List.map_map]
    intro x hx
    obtain ⟨⟨g, acc⟩, hp, rfl⟩ := List.mem_map.mp hx
    have hentry := toInt_cost_entry (fun _ _ => rfl) hnonneg (hgroups.1.mem_iff.mp hp)
    exact (clamp_nonneg (sum_cost_nonneg hnonneg g)).trans_eq hentry.symm
  have hclamp := clamp_sum_cost_groups hgroups hnonneg
  rwa [clamp_of_nonneg (List.sum_nonneg hgroup), clamp_of_nonneg (List.sum_nonneg hrollups)] at hclamp

/-- Without a model there is one group, if there is anything. -/
theorem length_groupedRollups_false (rollups : List RollupRow) :
    (groupedRollups false rollups).length = if rollups.isEmpty then 0 else 1 := by
  have hkeys : ((groupedRollups false rollups).map Prod.fst).Perm
      (rollups.map (groupOf false)).dedup := keys_aggregate_perm rollups
  have hsame : rollups.map (groupOf false) = List.replicate rollups.length ("", "") :=
    List.eq_replicate_iff.mpr ⟨List.length_map _, by simp [groupOf]⟩
  rw [← List.length_map Prod.fst, hkeys.length_eq, hsame]
  cases rollups with
  | nil => rfl
  | cons r rollups =>
    rw [List.length_cons, List.replicate_dedup (Nat.succ_ne_zero _)]
    rfl

/-- One row, or none, holds no more than an `i64` can. -/
theorem min_sum_of_length_le_one {rows : List AggregateRow} (h : rows.length ≤ 1) :
    min (rows.map fun r => r.costNanodollars.toInt).sum Int64.maxValue.toInt
      = (rows.map fun r => r.costNanodollars.toInt).sum := by
  match rows, h with
  | [], _ => rfl
  | [r], _ =>
    rw [List.map_singleton, List.sum_singleton]
    exact Int.min_eq_left (Int64.toInt_le r.costNanodollars)

end Groups

/-! ## The three views -/

/-- For every store that sends its rollups, and whatever orders its hash maps have in each call:
`query_rollups` lists every key once; each of its rows holds the sums over all engines, counters exactly
where the sum fits, the cost up to the largest `i64`. For every provider filter, `aggregate_stats` by
model, `aggregate_stats` in one row and the rollups themselves come to the same. -/
theorem aggregation_conserves_totals (db : Keplordb) (s : KdbStore db) (ix : RollupIndex db)
    (userId apiKeyId : Option String) (fromDay toDay : Int64)
    (rows : List (EngineRollupKey × EngineRollup))
    (hsends : s.SendsRollups ix userId apiKeyId fromDay toDay rows)
    (orders ordersByModel ordersOverall : HashOrders db) :
    ∃ rollups : List RollupRow,
      (∀ limit offset, s.queryRollups ix orders userId apiKeyId fromDay toDay limit offset
        = .ok ((rollups.drop offset.toNat).take limit.toNat)) ∧
      (rollups.map RollupRow.key).Perm (distinctKeys rows) ∧
      (∀ r ∈ rollups,
        (∀ c, counterSum c (rowsOfKey rows r.key) < 2 ^ 63 →
          (r.counter c).toInt = counterSum c (rowsOfKey rows r.key)) ∧
        r.costNanodollars.toInt = min (costSum (rowsOfKey rows r.key)) Int64.maxValue.toInt) ∧
      ∀ providerFilter, ∃ byModel overall : List AggregateRow,
        (∀ limit offset, s.aggregateStats ix ordersByModel userId apiKeyId fromDay toDay providerFilter
          true limit offset = .ok ((byModel.drop offset.toNat).take limit.toNat)) ∧
        (∀ limit offset, s.aggregateStats ix ordersOverall userId apiKeyId fromDay toDay providerFilter
          false limit offset = .ok ((overall.drop offset.toNat).take limit.toNat)) ∧
        overall.length = (if (ofProvider providerFilter rollups).isEmpty then 0 else 1) ∧
        (∀ c, counterSum c (rowsOfProvider rows providerFilter) < 2 ^ 63 →
          (byModel.map fun r => (r.counter c).toInt).sum = (overall.map fun r => (r.counter c).toInt).sum ∧
          (overall.map fun r => (r.counter c).toInt).sum
            = ((ofProvider providerFilter rollups).map fun r => (r.counter c).toInt).sum) ∧
        min (byModel.map fun r => r.costNanodollars.toInt).sum Int64.maxValue.toInt
          = (overall.map fun r => r.costNanodollars.toInt).sum ∧
        (overall.map fun r => r.costNanodollars.toInt).sum
          = min ((ofProvider providerFilter rollups).map fun r => r.costNanodollars.toInt).sum
              Int64.maxValue.toInt := by
  obtain ⟨sorted, hsorted, hquery⟩ := KdbStore.queryRollups_spec hsends orders
  refine ⟨sorted.map rollupRow, fun limit offset => ?_, ?_, ?_, fun providerFilter => ?_⟩
  · rw [hquery, List.map_take, List.map_drop]
  · rw [List.map_map]
    exact (hsorted.1.map Prod.fst).trans (keys_aggregate_perm rows)
  · intro r hr
    obtain ⟨p, hp, rfl⟩ := List.mem_map.mp hr
    have hp := hsorted.1.mem_iff.mp hp
    refine ⟨fun c hfits => ?_, toInt_cost_rollup hsends.metric hp⟩
    rw [counter_rollupRow]
    exact toInt_counter_rollup hp hfits
  · have hrollups : (ofProvider providerFilter (sorted.map rollupRow)).Perm
        (ofProvider providerFilter ((mergedRollups rows).map rollupRow)) :=
      KdbStore.ofProvider_perm (hsorted.1.map rollupRow)
    have hcost : ∀ r ∈ ofProvider providerFilter ((mergedRollups rows).map rollupRow),
        0 ≤ r.costNanodollars := by
      intro r hr
      obtain ⟨p, hp, rfl⟩ := List.mem_map.mp (List.mem_of_mem_filter hr)
      exact cost_nonneg hsends.metric p hp
    obtain ⟨groups, hgroups, hbyModel⟩ :=
      KdbStore.aggregateStats_spec hsends providerFilter true ordersByModel
    obtain ⟨group, hgroup, hoverall⟩ :=
      KdbStore.aggregateStats_spec hsends providerFilter false ordersOverall
    refine ⟨groups.map aggregateRow, group.map aggregateRow, fun limit offset => ?_,
      fun limit offset => ?_, ?_, fun c hfits => ?_, ?_⟩
    · rw [hbyModel, List.map_take, List.map_drop]
    · rw [hoverall, List.map_take, List.map_drop]
    · rw [List.length_map, hgroup.1.length_eq, length_groupedRollups_false, hrollups.isEmpty_eq]
    · have hmerged := ofProvider_mergedRollups providerFilter rows
      obtain ⟨hnonneg, hsum⟩ := counters_of_rollups hfits
      rw [← (hmerged.map _).sum_eq] at hsum
      have hnonneg := fun r hr => hnonneg r (hmerged.mem_iff.mp hr)
      -- grouped or not, the counters add up to those of the rollups
      have htotal : ∀ {groupByModel groups}, KdbStore.SortedGroups groupByModel
          (ofProvider providerFilter ((mergedRollups rows).map rollupRow)) groups →
          ((groups.map aggregateRow).map fun r => (r.counter c).toInt).sum = counterSum c _ :=
        fun h => (sum_counter_groups h hnonneg (by omega)).trans hsum
      rw [htotal hgroups, htotal hgroup, (hrollups.map _).sum_eq, hsum]
      exact ⟨rfl, rfl⟩
    · -- one row cannot exceed the largest `i64`, so its cost needs no cutting off
      have hlength : (group.map aggregateRow).length ≤ 1 := by
        rw [List.length_map, hgroup.1.length_eq, length_groupedRollups_false]
        split <;> omega
      rw [min_sum_cost_groups hgroups hcost, ← min_sum_of_length_le_one hlength,
        min_sum_cost_groups hgroup hcost, (hrollups.map _).sum_eq]
      exact ⟨rfl, rfl⟩

/-- A store with two engines. -/
def twoEngines : KdbStore memoryDb where
  engines := [("free", { segs := [] }), ("pro", { segs := [] })]
  nodup := by decide

/-- Three requests of a user on a day, for five nanodollars. -/
def threeRequests : EngineRollupKey × EngineRollup :=
  (⟨1700006400, ["alice", "ci", "gpt-4o", "openai"]⟩, ⟨3, fun _ => 1, 5⟩)

/-- What the two send. -/
theorem sendsRollups_twoEngines :
    twoEngines.SendsRollups (fun _ _ _ _ => .ok [threeRequests]) none none 0 0
      [threeRequests, threeRequests] := by
  refine ⟨rfl, ?_, by decide⟩
  intro r hr
  simp only [List.mem_cons, List.not_mem_nil, or_false, or_self] at hr
  rw [hr]
  decide

/-- Both engines have seen three requests; the rollup of the day counts six, for ten nanodollars. -/
theorem two_engines_add_up :
    ∃ rollups : List RollupRow,
      (∀ limit offset, twoEngines.queryRollups (fun _ _ _ _ => .ok [threeRequests])
        ⟨.asInserted _, .asInserted _, .asInserted _⟩ none none 0 0 limit offset
          = .ok ((rollups.drop offset.toNat).take limit.toNat)) ∧
      ∀ r ∈ rollups, (r.counter .eventCount).toInt = 6 ∧ r.costNanodollars.toInt = 10 := by
  obtain ⟨rollups, hquery, hkeys, hexact, -⟩ := aggregation_conserves_totals memoryDb twoEngines
    (fun _ _ _ _ => .ok [threeRequests]) none none 0 0 [threeRequests, threeRequests]
    sendsRollups_twoEngines ⟨.asInserted _, .asInserted _, .asInserted _⟩
    ⟨.asInserted _, .asInserted _, .asInserted _⟩ ⟨.asInserted _, .asInserted _, .asInserted _⟩
  refine ⟨rollups, hquery, fun r hr => ?_⟩
  have hkey : r.key = rollupKeyOf threeRequests.1 := by
    have hmem := hkeys.mem_iff.mp (List.mem_map_of_mem hr)
    simpa [distinctKeys] using hmem
  obtain ⟨hcounters, hcost⟩ := hexact r hr
  have hrows : rowsOfKey [threeRequests, threeRequests] r.key = [threeRequests, threeRequests] := by
    rw [hkey]
    rfl
  rw [hrows] at hcounters hcost
  exact ⟨hcounters .eventCount (by decide), hcost⟩

end Keplor.Store
