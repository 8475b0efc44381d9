import Keplor.Lib.Aggregate
import Keplor.Lib.Fallible
import Keplor.Lib.Int64
import Keplor.Lib.Paging
import Keplor.Store.Kdb
import Mathlib.Data.Fin.VecNotation
import Mathlib.Data.Prod.Lex
import Mathlib.Data.String.Basic

/-!
# `KdbStore::query_rollups` and `KdbStore::aggregate_stats`

Every engine keeps sums by day, user, key, model and provider. `query_rollups` merges those of all
engines in a hash map, takes the entries out, sorts them by day and user, and cuts a page out of the
result; `aggregate_stats` folds all of them into a second hash map, by provider and model, and sorts
that by cost. Both maps are built anew by every call, each with an order of its own (`HashOrders`),
and neither sort looks at the whole key, so entries that tie come out in the order of the map.

The sums do not depend on any of that, as long as no cost is negative: `queryRollups_spec` and
`aggregateStats_spec` say that a call returns a cut of some sorted arrangement of one and the same
content. The counters wrap, as in a release build.
-/

set_option autoImplicit false

namespace Keplor.Store

open Keplor.Lib

/-! ## What an engine keeps -/

/-- `keplordb::RollupKey` -/
structure EngineRollupKey where
  day : Int64
  dims : List String

/-- `keplordb::RollupValue` -/
structure EngineRollup where
  eventCount : UInt64
  counters : Fin C → UInt64
  metric : Int64

/-- `Engine::query_rollups`: the first day, the last one, and a filter for each rollup dimension. -/
abbrev RollupIndex (db : Keplordb) : Type :=
  db.Engine → Int64 → Int64 → (Fin 4 → Option String) →
    Except String (List (EngineRollupKey × EngineRollup))

/-! ## The merge -/

/-- `RollupKey` -/
structure RollupKey where
  day : Int64
  user : String
  apiKey : String
  model : String
  provider : String
  deriving DecidableEq

/-- `RollupAcc`, and `AggregateAcc` with the same fields. -/
structure RollupAcc where
  eventCount : Int64 := 0
  errorCount : Int64 := 0
  inputTokens : Int64 := 0
  outputTokens : Int64 := 0
  cacheRead : Int64 := 0
  cacheCreation : Int64 := 0
  cost : Int64 := 0
  deriving DecidableEq

/-- `RollupRow` -/
structure RollupRow where
  day : Int64
  userId : String
  apiKeyId : String
  provider : String
  model : String
  eventCount : Int64
  errorCount : Int64
  inputTokens : Int64
  outputTokens : Int64
  cacheReadInputTokens : Int64
  cacheCreationInputTokens : Int64
  costNanodollars : Int64
  deriving DecidableEq

/-- `AggregateRow` -/
structure AggregateRow where
  provider : String
  model : String
  eventCount : Int64
  errorCount : Int64
  inputTokens : Int64
  outputTokens : Int64
  cacheReadInputTokens : Int64
  cacheCreationInputTokens : Int64
  costNanodollars : Int64
  deriving DecidableEq

/-- The key of the merge; a dimension the engine did not send is empty. -/
def rollupKeyOf (key : EngineRollupKey) : RollupKey where
  day := key.day
  user := key.dims[0]?.getD ""
  apiKey := key.dims[1]?.getD ""
  model := key.dims[2]?.getD ""
  provider := key.dims[3]?.getD ""

/-- One row of an engine into the sums of its key. -/
def RollupAcc.addRollup (acc : RollupAcc) (row : EngineRollupKey × EngineRollup) : RollupAcc where
  eventCount := acc.eventCount + row.2.eventCount.toInt64
  errorCount := acc.errorCount + (row.2.counters COUNTER_IS_ERROR).toInt64
  inputTokens := acc.inputTokens + (row.2.counters COUNTER_INPUT_TOKENS).toInt64
  outputTokens := acc.outputTokens + (row.2.counters COUNTER_OUTPUT_TOKENS).toInt64
  cacheRead := acc.cacheRead + (row.2.counters COUNTER_CACHE_READ).toInt64
  cacheCreation := acc.cacheCreation + (row.2.counters COUNTER_CACHE_CREATION).toInt64
  cost := saturatingAdd acc.cost row.2.metric

/-- One rollup into the sums of its group. -/
def RollupAcc.addRow (acc : RollupAcc) (r : RollupRow) : RollupAcc where
  eventCount := acc.eventCount + r.eventCount
  errorCount := acc.errorCount + r.errorCount
  inputTokens := acc.inputTokens + r.inputTokens
  outputTokens := acc.outputTokens + r.outputTokens
  cacheRead := acc.cacheRead + r.cacheReadInputTokens
  cacheCreation := acc.cacheCreation + r.cacheCreationInputTokens
  cost := saturatingAdd acc.cost r.costNanodollars

/-- An entry of the merged map as a row. -/
def rollupRow (p : RollupKey × RollupAcc) : RollupRow where
  day := p.1.day
  userId := p.1.user
  apiKeyId := p.1.apiKey
  provider := p.1.provider
  model := p.1.model
  eventCount := p.2.eventCount
  errorCount := p.2.errorCount
  inputTokens := p.2.inputTokens
  outputTokens := p.2.outputTokens
  cacheReadInputTokens := p.2.cacheRead
  cacheCreationInputTokens := p.2.cacheCreation
  costNanodollars := p.2.cost

/-- An entry of the map of groups as a row. -/
def aggregateRow (p : (String × String) × RollupAcc) : AggregateRow where
  provider := p.1.1
  model := p.1.2
  eventCount := p.2.eventCount
  errorCount := p.2.errorCount
  inputTokens := p.2.inputTokens
  outputTokens := p.2.outputTokens
  cacheReadInputTokens := p.2.cacheRead
  cacheCreationInputTokens := p.2.cacheCreation
  costNanodollars := p.2.cost

/-- The merged map. -/
def mergedRollups (rows : List (EngineRollupKey × EngineRollup)) : List (RollupKey × RollupAcc) :=
  aggregate (fun row => rollupKeyOf row.1) RollupAcc.addRollup {} rows

/-- What the rollups are sorted by: the day, then the user, the smallest first. -/
def rollupSortKey (k : RollupKey) : (Int64 ×ₗ String)ᵒᵈ := OrderDual.toDual (toLex (k.day, k.user))

/-- The merged entries in that order; the sort is stable. -/
def sortRollups (entries : List (RollupKey × RollupAcc)) : List (RollupKey × RollupAcc) :=
  entries.insertionSort (Desc fun p => rollupSortKey p.1)

/-- The group of a rollup. -/
def groupOf (groupByModel : Bool) (r : RollupRow) : String × String :=
  if groupByModel then (r.provider, r.model) else ("", "")

/-- The rollups a provider filter lets through. -/
def ofProvider (providerFilter : Option String) (rollups : List RollupRow) : List RollupRow :=
  rollups.filter fun r => providerFilter.all fun p => r.provider == p

/-- The map of groups. -/
def groupedRollups (groupByModel : Bool) (rollups : List RollupRow) :
    List ((String × String) × RollupAcc) :=
  aggregate (groupOf groupByModel) RollupAcc.addRow {} rollups

/-- The groups, the most expensive first; the sort is stable. -/
def sortGroups (entries : List ((String × String) × RollupAcc)) :
    List ((String × String) × RollupAcc) :=
  entries.insertionSort (Desc fun p => p.2.cost)

/-! ## The two calls -/

/-- The orders the hash maps have in one call: the published engines, the merged rollups, the
groups. -/
structure HashOrders (db : Keplordb) where
  engines : IterOrder (String × db.Engine)
  rollups : IterOrder (RollupKey × RollupAcc)
  groups : IterOrder ((String × String) × RollupAcc)

namespace KdbStore

variable {db : Keplordb}

/-- The rows of the engines, one engine after the other. -/
def collectRollups (ix : RollupIndex db) (fromDay toDay : Int64) (dims : Fin 4 → Option String) :
    List (String × db.Engine) → Except StoreError (List (EngineRollupKey × EngineRollup))
  | [] => .ok []
  | (_, eng) :: rest => do
    let rows ← kdbErr (ix eng fromDay toDay dims)
    let more ← collectRollups ix fromDay toDay dims rest
    return rows ++ more

/-- The filter of a call: user and key, the other two dimensions are open. -/
def rollupDims (userId apiKeyId : Option String) : Fin 4 → Option String := ![userId, apiKeyId, none, none]

/-- `KdbStore::query_rollups` -/
def queryRollups (s : KdbStore db) (ix : RollupIndex db) (orders : HashOrders db)
    (userId apiKeyId : Option String) (fromDay toDay : Int64) (limit offset : UInt32) :
    Except StoreError (List RollupRow) := do
  let rows ← collectRollups ix fromDay toDay (rollupDims userId apiKeyId)
    (orders.engines.arrange s.engines)
  let sorted := sortRollups (orders.rollups.arrange (mergedRollups rows))
  return ((sorted.drop offset.toNat).take limit.toNat).map rollupRow

/-- `KdbStore::aggregate_stats` -/
def aggregateStats (s : KdbStore db) (ix : RollupIndex db) (orders : HashOrders db)
    (userId apiKeyId : Option String) (fromDay toDay : Int64) (providerFilter : Option String)
    (groupByModel : Bool) (limit offset : UInt32) : Except StoreError (List AggregateRow) := do
  let rollups ← s.queryRollups ix orders userId apiKeyId fromDay toDay (UInt32.ofNat 4294967295) 0
  let sorted := sortGroups (orders.groups.arrange
    (groupedRollups groupByModel (ofProvider providerFilter rollups)))
  return ((sorted.drop offset.toNat).take limit.toNat).map aggregateRow

end KdbStore

/-! ## The sums do not depend on the order -/

theorem addRollup_right_comm {x y : EngineRollupKey × EngineRollup} (hx : 0 ≤ x.2.metric)
    (hy : 0 ≤ y.2.metric) (acc : RollupAcc) :
    (acc.addRollup x).addRollup y = (acc.addRollup y).addRollup x := by
  simp only [RollupAcc.addRollup, saturatingAdd_right_comm _ hx hy, int64_add_right_comm]

theorem addRow_right_comm {x y : RollupRow} (hx : 0 ≤ x.costNanodollars)
    (hy : 0 ≤ y.costNanodollars) (acc : RollupAcc) :
    (acc.addRow x).addRow y = (acc.addRow y).addRow x := by
  simp only [RollupAcc.addRow, saturatingAdd_right_comm _ hx hy, int64_add_right_comm]

theorem mergedRollups_perm {rows rows' : List (EngineRollupKey × EngineRollup)}
    (h : rows.Perm rows') (hmetric : ∀ r ∈ rows, 0 ≤ r.2.metric) :
    (mergedRollups rows).Perm (mergedRollups rows') := by
  apply aggregate_perm h
  intro x hx y hy acc
  exact addRollup_right_comm (hmetric x hx) (hmetric y hy) acc

theorem groupedRollups_perm {rollups rollups' : List RollupRow} (groupByModel : Bool)
    (h : rollups.Perm rollups') (hcost : ∀ r ∈ rollups, 0 ≤ r.costNanodollars) :
    (groupedRollups groupByModel rollups).Perm (groupedRollups groupByModel rollups') := by
  apply aggregate_perm h
  intro x hx y hy acc
  exact addRow_right_comm (hcost x hx) (hcost y hy) acc

/-- A merged cost is not negative. -/
theorem cost_nonneg {rows : List (EngineRollupKey × EngineRollup)}
    (hmetric : ∀ r ∈ rows, 0 ≤ r.2.metric) : ∀ p ∈ mergedRollups rows, 0 ≤ p.2.cost := by
  have hfold : ∀ (rows : List (EngineRollupKey × EngineRollup)) (acc : RollupAcc),
      (∀ r ∈ rows, 0 ≤ r.2.metric) → 0 ≤ acc.cost → 0 ≤ (rows.foldl RollupAcc.addRollup acc).cost := by
    intro rows
    induction rows with
    | nil => exact fun acc _ hacc => hacc
    | cons r rows ih =>
      intro acc hrows hacc
      rw [List.foldl_cons]
      apply ih
      · exact fun r' hr' => hrows r' (List.mem_cons_of_mem r hr')
      · exact saturatingAdd_nonneg hacc (hrows r List.mem_cons_self)
  rintro ⟨k, acc⟩ hp
  obtain ⟨-, rfl⟩ := mem_aggregate_iff.mp hp
  apply hfold
  · exact fun r hr => hmetric r (List.mem_of_mem_filter hr)
  · exact Int64.le_refl 0

theorem rollupRow_injective : Function.Injective rollupRow := by
  rintro ⟨k, acc⟩ ⟨k', acc'⟩ h
  cases k
  cases k'
  cases acc
  cases acc'
  simp only [rollupRow, RollupRow.mk.injEq] at h
  simp [h]

theorem aggregateRow_injective : Function.Injective aggregateRow := by
  rintro ⟨⟨p, m⟩, acc⟩ ⟨⟨p', m'⟩, acc'⟩ h
  cases acc
  cases acc'
  simp only [aggregateRow, AggregateRow.mk.injEq] at h
  simp [h]

/-! ## What a call returns -/

namespace KdbStore

variable {db : Keplordb} {s : KdbStore db} {ix : RollupIndex db} {orders : HashOrders db}
  {userId apiKeyId : Option String} {fromDay toDay : Int64}
  {rows : List (EngineRollupKey × EngineRollup)}

theorem collectRollups_cons {dims : Fin 4 → Option String} {p : String × db.Engine}
    {l : List (String × db.Engine)} {rows : List (EngineRollupKey × EngineRollup)} :
    collectRollups ix fromDay toDay dims (p :: l) = .ok rows ↔
      ∃ own more, ix p.2 fromDay toDay dims = .ok own ∧
        collectRollups ix fromDay toDay dims l = .ok more ∧ rows = own ++ more := by
  constructor
  · intro h
    obtain ⟨own, hown, h⟩ := bind_eq_ok h
    obtain ⟨more, hmore, h⟩ := bind_eq_ok h
    cases h
    exact ⟨own, more, kdbErr_eq_ok.mp hown, hmore, rfl⟩
  · rintro ⟨own, more, hown, hmore, rfl⟩
    rw [collectRollups, kdbErr_eq_ok.mpr hown, hmore]
    rfl

/-- In whatever order the engines are asked, they send the same rows. -/
theorem collectRollups_perm {dims : Fin 4 → Option String} {l l' : List (String × db.Engine)}
    (h : l.Perm l') : ∀ {rows : List (EngineRollupKey × EngineRollup)},
      collectRollups ix fromDay toDay dims l = .ok rows →
        ∃ rows', collectRollups ix fromDay toDay dims l' = .ok rows' ∧ rows.Perm rows' := by
  induction h with
  | nil => exact fun h => ⟨_, h, .refl _⟩
  | cons p _ ih =>
    intro rows h
    obtain ⟨own, more, hown, hmore, rfl⟩ := collectRollups_cons.mp h
    obtain ⟨more', hmore', hperm⟩ := ih hmore
    exact ⟨own ++ more', collectRollups_cons.mpr ⟨own, more', hown, hmore', rfl⟩,
      hperm.append_left own⟩
  | swap p p' l =>
    intro rows h
    obtain ⟨own', rest, hown', hrest, rfl⟩ := collectRollups_cons.mp h
    obtain ⟨own, more, hown, hmore, rfl⟩ := collectRollups_cons.mp hrest
    refine ⟨own ++ (own' ++ more), ?_, ?_⟩
    · exact collectRollups_cons.mpr
        ⟨own, own' ++ more, hown, collectRollups_cons.mpr ⟨own', more, hown', hmore, rfl⟩, rfl⟩
    · rw [← List.append_assoc, ← List.append_assoc]
      exact List.perm_append_comm.append_right more
  | trans _ _ ih ih' =>
    intro rows h
    obtain ⟨rows', hrows', hperm⟩ := ih h
    obtain ⟨rows'', hrows'', hperm'⟩ := ih' hrows'
    exact ⟨rows'', hrows'', hperm.trans hperm'⟩

/-- What a store sends for a filter and a range of days: the rows of its engines, no cost of them
negative, and no more of them than an offset can count. -/
structure SendsRollups (s : KdbStore db) (ix : RollupIndex db) (userId apiKeyId : Option String)
    (fromDay toDay : Int64) (rows : List (EngineRollupKey × EngineRollup)) : Prop where
  sent : collectRollups ix fromDay toDay (rollupDims userId apiKeyId) s.engines = .ok rows
  metric : ∀ r ∈ rows, 0 ≤ r.2.metric
  fits : (mergedRollups rows).length ≤ 4294967295

/-- A sorted arrangement of the merged rollups. -/
def SortedRollups (rows : List (EngineRollupKey × EngineRollup))
    (sorted : List (RollupKey × RollupAcc)) : Prop :=
  sorted.Perm (mergedRollups rows) ∧ sorted.Pairwise (Desc fun p => rollupSortKey p.1)

/-- A sorted arrangement of the groups. -/
def SortedGroups (groupByModel : Bool) (rollups : List RollupRow)
    (sorted : List ((String × String) × RollupAcc)) : Prop :=
  sorted.Perm (groupedRollups groupByModel rollups) ∧ sorted.Pairwise (Desc fun p => p.2.cost)

/-- A call cuts its page out of a sorted arrangement of the merged rollups. -/
theorem queryRollups_spec (hsends : s.SendsRollups ix userId apiKeyId fromDay toDay rows)
    (orders : HashOrders db) :
    ∃ sorted, SortedRollups rows sorted ∧ ∀ limit offset,
      s.queryRollups ix orders userId apiKeyId fromDay toDay limit offset =
        .ok (((sorted.drop offset.toNat).take limit.toNat).map rollupRow) := by
  obtain ⟨rows', hrows', hperm⟩ :=
    collectRollups_perm (orders.engines.perm s.engines).symm hsends.sent
  refine ⟨sortRollups (orders.rollups.arrange (mergedRollups rows')), ⟨?_, ?_⟩, fun limit offset => ?_⟩
  · refine (List.perm_insertionSort _ _).trans ((orders.rollups.perm _).trans ?_)
    exact (mergedRollups_perm hperm hsends.metric).symm
  · exact List.pairwise_insertionSort _ _
  · rw [queryRollups, hrows']
    rfl

/-- Any sorted arrangement can be the one. -/
theorem exists_orders_rollups (hsends : s.SendsRollups ix userId apiKeyId fromDay toDay rows)
    {sorted : List (RollupKey × RollupAcc)} (h : SortedRollups rows sorted) :
    ∃ orders : HashOrders db, ∀ limit offset,
      s.queryRollups ix orders userId apiKeyId fromDay toDay limit offset =
        .ok (((sorted.drop offset.toNat).take limit.toNat).map rollupRow) := by
  refine ⟨⟨.asInserted _, .showing h.1, .asInserted _⟩, fun limit offset => ?_⟩
  have hengines : (IterOrder.asInserted (String × db.Engine)).arrange s.engines = s.engines := rfl
  rw [queryRollups, hengines, hsends.sent]
  simp only [bind, Except.bind, IterOrder.arrange_showing, sortRollups, h.2.insertionSort_eq]
  rfl

section Stats

variable {providerFilter : Option String} {groupByModel : Bool}

theorem ofProvider_perm {rollups rollups' : List RollupRow} (h : rollups.Perm rollups') :
    (ofProvider providerFilter rollups).Perm (ofProvider providerFilter rollups') :=
  h.filter _

/-- All rollups of a call, as the groups are made from them. -/
theorem queryRollups_all {sorted : List (RollupKey × RollupAcc)} (hsorted : SortedRollups rows sorted)
    (hfit : (mergedRollups rows).length ≤ 4294967295)
    (h : ∀ limit offset, s.queryRollups ix orders userId apiKeyId fromDay toDay limit offset =
      .ok (((sorted.drop offset.toNat).take limit.toNat).map rollupRow)) :
    s.queryRollups ix orders userId apiKeyId fromDay toDay (UInt32.ofNat 4294967295) 0 =
      .ok (sorted.map rollupRow) := by
  have hall : (UInt32.ofNat 4294967295).toNat = 4294967295 := rfl
  rw [h, hall, UInt32.toNat_zero, List.drop_zero, List.take_of_length_le]
  rw [hsorted.1.length_eq]
  exact hfit

/-- A call cuts its page out of a sorted arrangement of the groups. -/
theorem aggregateStats_spec (hsends : s.SendsRollups ix userId apiKeyId fromDay toDay rows)
    (providerFilter : Option String) (groupByModel : Bool) (orders : HashOrders db) :
    ∃ sorted, SortedGroups groupByModel
        (ofProvider providerFilter ((mergedRollups rows).map rollupRow)) sorted ∧
      ∀ limit offset, s.aggregateStats ix orders userId apiKeyId fromDay toDay providerFilter
        groupByModel limit offset =
          .ok (((sorted.drop offset.toNat).take limit.toNat).map aggregateRow) := by
  obtain ⟨rollups, hsorted, hcall⟩ := queryRollups_spec hsends orders
  have hperm : (ofProvider providerFilter (rollups.map rollupRow)).Perm
      (ofProvider providerFilter ((mergedRollups rows).map rollupRow)) :=
    ofProvider_perm (hsorted.1.map rollupRow)
  have hcost : ∀ r ∈ ofProvider providerFilter (rollups.map rollupRow), 0 ≤ r.costNanodollars := by
    intro r hr
    obtain ⟨p, hp, rfl⟩ := List.mem_map.mp (List.mem_of_mem_filter hr)
    exact cost_nonneg hsends.metric p (hsorted.1.mem_iff.mp hp)
  refine ⟨sortGroups (orders.groups.arrange
    (groupedRollups groupByModel (ofProvider providerFilter (rollups.map rollupRow)))), ⟨?_, ?_⟩,
    fun limit offset => ?_⟩
  · refine (List.perm_insertionSort _ _).trans ((orders.groups.perm _).trans ?_)
    exact groupedRollups_perm groupByModel hperm hcost
  · exact List.pairwise_insertionSort _ _
  · rw [aggregateStats, queryRollups_all hsorted hsends.fits hcall]
    rfl

/-- Any sorted arrangement can be the one. -/
theorem exists_orders_groups (hsends : s.SendsRollups ix userId apiKeyId fromDay toDay rows)
    {sorted : List ((String × String) × RollupAcc)}
    (h : SortedGroups groupByModel
      (ofProvider providerFilter ((mergedRollups rows).map rollupRow)) sorted) :
    ∃ orders : HashOrders db, ∀ limit offset,
      s.aggregateStats ix orders userId apiKeyId fromDay toDay providerFilter groupByModel limit
        offset = .ok (((sorted.drop offset.toNat).take limit.toNat).map aggregateRow) := by
  have hmerged : SortedRollups rows (sortRollups (mergedRollups rows)) :=
    ⟨List.perm_insertionSort _ _, List.pairwise_insertionSort _ _⟩
  -- the rollups of the call are sorted, so its map of groups is not filled in the order of `h`
  have hgroups : sorted.Perm (groupedRollups groupByModel
      (ofProvider providerFilter ((sortRollups (mergedRollups rows)).map rollupRow))) := by
    refine h.1.trans (groupedRollups_perm groupByModel
      (ofProvider_perm (hmerged.1.map rollupRow)).symm ?_)
    intro r hr
    obtain ⟨p, hp, rfl⟩ := List.mem_map.mp (List.mem_of_mem_filter hr)
    exact cost_nonneg hsends.metric p hp
  refine ⟨⟨.asInserted _, .asInserted _, .showing hgroups⟩, fun limit offset => ?_⟩
  have hengines : (IterOrder.asInserted (String × db.Engine)).arrange s.engines = s.engines := rfl
  have hcall : ∀ limit offset, s.queryRollups ix
      ⟨.asInserted _, .asInserted _, .showing hgroups⟩ userId apiKeyId fromDay toDay limit offset =
      .ok ((((sortRollups (mergedRollups rows)).drop offset.toNat).take limit.toNat).map
        rollupRow) := by
    intro limit offset
    rw [queryRollups, hengines, hsends.sent]
    rfl
  rw [aggregateStats, queryRollups_all hmerged hsends.fits hcall]
  simp only [bind, Except.bind, IterOrder.arrange_showing, sortGroups, h.2.insertionSort_eq]
  rfl

end Stats

end KdbStore

/-! ## What ties -/

/-- The rollup keys of the rows, each once. -/
def distinctKeys (rows : List (EngineRollupKey × EngineRollup)) : List RollupKey :=
  (rows.map fun row => rollupKeyOf row.1).dedup

/-- The groups of the rollups, each once. -/
def distinctGroups (rollups : List RollupRow) : List (String × String) :=
  (rollups.map (groupOf true)).dedup

/-- What a group costs. -/
def groupCost (rollups : List RollupRow) (g : String × String) : Int64 :=
  ((rollups.filter fun r => decide (groupOf true r = g)).map RollupRow.costNanodollars).foldl
    saturatingAdd 0

theorem sortedKeys_mergedRollups (rows : List (EngineRollupKey × EngineRollup)) :
    sortedKeys (fun p : RollupKey × RollupAcc => rollupSortKey p.1) (mergedRollups rows) =
      sortedKeys rollupSortKey (distinctKeys rows) := by
  have hkeys : ((mergedRollups rows).map Prod.fst).Perm (distinctKeys rows) :=
    keys_aggregate_perm rows
  rw [← sortedKeys_of_perm rollupSortKey hkeys]
  unfold sortedKeys
  rw [List.map_map]
  rfl

/-- Whatever rows are added up, their costs are, up to the largest. -/
theorem cost_foldl {ρ : Type} {add : RollupAcc → ρ → RollupAcc} {cost : ρ → Int64}
    (hcost : ∀ acc r, (add acc r).cost = saturatingAdd acc.cost (cost r)) (rows : List ρ)
    (acc : RollupAcc) : (rows.foldl add acc).cost = (rows.map cost).foldl saturatingAdd acc.cost := by
  induction rows generalizing acc with
  | nil => rfl
  | cons r rows ih => rw [List.foldl_cons, ih, hcost, List.map_cons, List.foldl_cons]

theorem sortedKeys_groupedRollups (rollups : List RollupRow) :
    sortedKeys (fun p : (String × String) × RollupAcc => p.2.cost) (groupedRollups true rollups) =
      sortedKeys (groupCost rollups) (distinctGroups rollups) := by
  have hkeys : ((groupedRollups true rollups).map Prod.fst).Perm (distinctGroups rollups) :=
    keys_aggregate_perm rollups
  rw [← sortedKeys_of_perm (groupCost rollups) hkeys]
  unfold sortedKeys
  rw [List.map_map]
  congr 1
  apply List.map_congr_left
  rintro ⟨g, acc⟩ hp
  obtain ⟨-, rfl⟩ := mem_aggregate_iff.mp hp
  exact cost_foldl (fun _ _ => rfl) _ _

end Keplor.Store
