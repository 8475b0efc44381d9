import Keplor.Lib.Offsets
import Keplor.Server.Schema
import Keplor.Store.MemoryEngine
import Keplor.Store.Rollups

/-!
# `GET /v1/rollups` and `GET /v1/stats` — pages by offset

Both handlers ask the store for one row more than the page holds, and say `has_more` when they get
it. A client that wants everything asks at the offsets 0, L, 2L and so on.

Every one of these requests sorts anew, by day and user or by cost alone, a map that comes out in an
order of its own. So the pages list every row exactly once, whatever these orders are, if and only if
no two rows that tie in the sort are on different sides of the end of a page
(`offset_pages_partition_iff`).
-/

set_option autoImplicit false

namespace Keplor.Server

open Keplor.Lib Keplor.Store

variable {db : Keplordb}

/-! ## The handlers -/

/-- `RollupsQuery` -/
structure RollupsQuery where
  userId : Option String := none
  apiKeyId : Option String := none
  /-- `from` -/
  fromTs : Int64
  /-- `to` -/
  toTs : Int64
  limit : Option UInt32 := none
  offset : Option UInt32 := none

/-- `StatsQuery` -/
structure StatsQuery where
  userId : Option String := none
  apiKeyId : Option String := none
  /-- `from` -/
  fromTs : Int64
  /-- `to` -/
  toTs : Int64
  provider : Option String := none
  groupBy : Option String := none
  limit : Option UInt32 := none
  offset : Option UInt32 := none

/-- `RollupsResponse`; a `RollupEntry` is a `RollupRow` field by field. -/
structure RollupsResponse where
  rollups : List RollupRow
  hasMore : Bool

/-- `StatsResponse`; a `StatEntry` is an `AggregateRow` field by field. -/
structure StatsResponse where
  stats : List AggregateRow
  hasMore : Bool

/-- `ns_to_day_epoch` -/
def nsToDayEpoch (ns : Int64) : Int64 :=
  let secs := ns / 1000000000
  secs - secs % 86400

/-- The page size: 100 by default, 1000 at most. -/
def pageRows (limit : Option UInt32) : UInt32 := if limit.getD 100 ≤ 1000 then limit.getD 100 else 1000

/-- `query_rollups` -/
def queryRollups (s : KdbStore db) (ix : RollupIndex db) (orders : HashOrders db) (q : RollupsQuery) :
    Except ServerError RollupsResponse := do
  let limit := pageRows q.limit
  let rows ← (s.queryRollups ix orders q.userId q.apiKeyId (nsToDayEpoch q.fromTs)
    (nsToDayEpoch q.toTs) (limit + 1) (q.offset.getD 0)).mapError .store
  return { rollups := rows.take limit.toNat, hasMore := decide (limit.toNat < rows.length) }

/-- `query_stats` -/
def queryStats (s : KdbStore db) (ix : RollupIndex db) (orders : HashOrders db) (q : StatsQuery) :
    Except ServerError StatsResponse := do
  let limit := pageRows q.limit
  let rows ← (s.aggregateStats ix orders q.userId q.apiKeyId (nsToDayEpoch q.fromTs)
    (nsToDayEpoch q.toTs) q.provider (q.groupBy == some "model") (limit + 1)
    (q.offset.getD 0)).mapError .store
  return { stats := rows.take limit.toNat, hasMore := decide (limit.toNat < rows.length) }

theorem toNat_pageRows_succ (limit : Option UInt32) :
    (pageRows limit + 1).toNat = (pageRows limit).toNat + 1 := by
  have hle : (pageRows limit).toNat ≤ 1000 := by
    unfold pageRows
    split
    · rename_i h
      exact UInt32.le_iff_toNat_le.mp h
    · exact Nat.le_refl 1000
  rw [UInt32.toNat_add, UInt32.toNat_one]
  omega

/-! ## The client -/

/-- The rows of the pages, until one has no `has_more`; `none` when the fuel ends first. A request
that fails ends the walk. -/
def followOffsets {ρ : Type} (answer : Nat → Except ServerError (List ρ × Bool)) :
    Nat → Nat → Except ServerError (Option (List ρ))
  | 0, _ => .ok none
  | fuel + 1, i => do
    let (rows, hasMore) ← answer i
    if hasMore then
      let later ← followOffsets answer fuel (i + 1)
      return later.map (rows ++ ·)
    else
      return some rows

/-- The answer to the request for the `i`-th page of rollups. -/
def rollupsAnswer (s : KdbStore db) (ix : RollupIndex db) (q : RollupsQuery) (orders : HashOrders db)
    (i : Nat) : Except ServerError (List RollupRow × Bool) :=
  (queryRollups s ix orders
    { q with offset := some (UInt32.ofNat (i * (pageRows q.limit).toNat)) }).map
    fun r => (r.rollups, r.hasMore)

/-- The answer to the request for the `i`-th page of stats. -/
def statsAnswer (s : KdbStore db) (ix : RollupIndex db) (q : StatsQuery) (orders : HashOrders db)
    (i : Nat) : Except ServerError (List AggregateRow × Bool) :=
  (queryStats s ix orders
    { q with offset := some (UInt32.ofNat (i * (pageRows q.limit).toNat)) }).map
    fun r => (r.stats, r.hasMore)

/-- All rollups, page by page. -/
def walkRollups (s : KdbStore db) (ix : RollupIndex db) (orders : Nat → HashOrders db)
    (q : RollupsQuery) (fuel : Nat) : Except ServerError (Option (List RollupRow)) :=
  followOffsets (fun i => rollupsAnswer s ix q (orders i) i) fuel 0

/-- All stats, page by page. -/
def walkStats (s : KdbStore db) (ix : RollupIndex db) (orders : Nat → HashOrders db) (q : StatsQuery)
    (fuel : Nat) : Except ServerError (Option (List AggregateRow)) :=
  followOffsets (fun i => statsAnswer s ix q (orders i) i) fuel 0

/-- The `i`-th page of a sorted list. -/
def pageOf {α ρ : Type} (f : α → ρ) (n : Nat) (sorted : List α) (i : Nat) : List ρ × Bool :=
  ((((sorted.drop (i * n)).take (n + 1)).map f).take n,
    decide (n < (((sorted.drop (i * n)).take (n + 1)).map f).length))

section Walk

variable {α κ ρ ω : Type} [LinearOrder κ] {f : α → ρ} {n : Nat} {xs : List α}

/-- Where every request is answered with a page of a sorted list, the client's walk is the one over
these lists. -/
theorem followOffsets_eq_offsetWalk {answer : Nat → Except ServerError (List ρ × Bool)}
    {sorted : Nat → List α} {len : Nat} (hlen : ∀ i, (sorted i).length = len)
    (hanswer : ∀ i, i * n ≤ len → answer i = .ok (pageOf f n (sorted i) i)) :
    ∀ fuel i, i * n ≤ len →
      followOffsets answer fuel i = .ok ((offsetWalk n (cut n sorted) fuel i).map (·.map f)) := by
  intro fuel
  induction fuel with
  | zero => exact fun _ _ => rfl
  | succ fuel ih =>
    intro i hi
    unfold followOffsets offsetWalk
    rw [hanswer i hi]
    by_cases hmore : n < (cut n sorted i).length
    · have hnext : (i + 1) * n ≤ len := by
        have hlt := lt_length_cut.mp hmore
        rw [hlen] at hlt
        exact Nat.le_of_lt hlt
      have hflag : n < (((sorted i).drop (i * n)).take (n + 1)).length := hmore
      simp only [bind, Except.bind, pageOf, List.length_map, hflag, decide_true, if_true, ih _ hnext,
        hmore, Option.map_map]
      congr 2
      funext later
      simp [cut]
    · have hflag : ¬ n < (((sorted i).drop (i * n)).take (n + 1)).length := hmore
      simp only [bind, Except.bind, pageOf, List.length_map, hflag, decide_false, hmore, if_false]
      simp [cut, pure, Except.pure]

/-- Requests that are answered with pages of sorted arrangements of one content, of any arrangements:
the walk lists the content exactly once, whatever they are, if and only if no tie lies across the end
of a page. -/
theorem followOffsets_perm_iff (key : α → κ) (answer : ω → Nat → Except ServerError (List ρ × Bool))
    (hf : Function.Injective f) (hnd : xs.Nodup) (hn : 0 < n)
    (hpage : ∀ o, ∃ sorted, (sorted.Perm xs ∧ sorted.Pairwise (Desc key)) ∧
      ∀ i, i * n ≤ xs.length → answer o i = .ok (pageOf f n sorted i))
    (hany : ∀ sorted, sorted.Perm xs ∧ sorted.Pairwise (Desc key) →
      ∃ o, ∀ i, i * n ≤ xs.length → answer o i = .ok (pageOf f n sorted i)) :
    (∀ orders : Nat → ω, ∀ fuel, xs.length < fuel →
      ∃ listed, followOffsets (fun i => answer (orders i) i) fuel 0 = .ok (some listed) ∧
        listed.Perm (xs.map f)) ↔ NoTie n (sortedKeys key xs) := by
  rw [← offsets_perm_iff key hn hnd]
  constructor
  · intro h sorted hsort fuel hfuel
    have hany' := fun i => hany (sorted i) ⟨hsort.perm i, hsort.desc i⟩
    choose orders horders using hany'
    obtain ⟨listed, hlisted, hperm⟩ := h orders fuel hfuel
    rw [followOffsets_eq_offsetWalk (fun i => (hsort.perm i).length_eq)
      (fun i hi => horders i i hi) fuel 0 (by omega)] at hlisted
    obtain ⟨out, hout, rfl⟩ := Option.map_eq_some_iff.mp (Except.ok.inj hlisted)
    exact ⟨out, hout, (List.map_perm_map_iff hf).mp hperm⟩
  · intro h orders fuel hfuel
    have hpage' := fun i => hpage (orders i)
    choose sorted hsorted hanswer using hpage'
    obtain ⟨out, hout, hperm⟩ :=
      h sorted ⟨fun i => (hsorted i).1, fun i => (hsorted i).2⟩ fuel hfuel
    refine ⟨out.map f, ?_, hperm.map f⟩
    rw [followOffsets_eq_offsetWalk (fun i => (hsorted i).1.length_eq)
      (fun i hi => hanswer i i hi) fuel 0 (by omega), hout]
    rfl

end Walk

/-! ## The two walks -/

/-- Lists every merged rollup exactly once, whatever the orders of the hash maps. -/
def RollupsPartition (s : KdbStore db) (ix : RollupIndex db) (q : RollupsQuery)
    (rows : List (EngineRollupKey × EngineRollup)) : Prop :=
  ∀ orders : Nat → HashOrders db, ∀ fuel, (mergedRollups rows).length < fuel →
    ∃ listed, walkRollups s ix orders q fuel = .ok (some listed) ∧
      listed.Perm ((mergedRollups rows).map rollupRow)

/-- The rollups a request for stats is made from. -/
def StatsQuery.rollups (q : StatsQuery) (rows : List (EngineRollupKey × EngineRollup)) :
    List RollupRow :=
  ofProvider q.provider ((mergedRollups rows).map rollupRow)

/-- Lists every group exactly once, whatever the orders of the hash maps. -/
def StatsPartition (s : KdbStore db) (ix : RollupIndex db) (q : StatsQuery)
    (rows : List (EngineRollupKey × EngineRollup)) : Prop :=
  ∀ orders : Nat → HashOrders db, ∀ fuel, (groupedRollups true (q.rollups rows)).length < fuel →
    ∃ listed, walkStats s ix orders q fuel = .ok (some listed) ∧
      listed.Perm ((groupedRollups true (q.rollups rows)).map aggregateRow)

section Instances

variable {s : KdbStore db} {ix : RollupIndex db} {rows : List (EngineRollupKey × EngineRollup)}

theorem toNat_offset {i n len : Nat} (hi : i * n ≤ len) (hlen : len ≤ 4294967295) :
    (UInt32.ofNat (i * n)).toNat = i * n := by
  rw [UInt32.toNat_ofNat']
  omega

theorem rollupsAnswer_eq_page {q : RollupsQuery} {orders : HashOrders db}
    {sorted : List (RollupKey × RollupAcc)}
    (hcall : ∀ limit offset, s.queryRollups ix orders q.userId q.apiKeyId (nsToDayEpoch q.fromTs)
      (nsToDayEpoch q.toTs) limit offset =
        .ok (((sorted.drop offset.toNat).take limit.toNat).map rollupRow))
    {i : Nat} (hi : (UInt32.ofNat (i * (pageRows q.limit).toNat)).toNat = i * (pageRows q.limit).toNat) :
    rollupsAnswer s ix q orders i = .ok (pageOf rollupRow (pageRows q.limit).toNat sorted i) := by
  unfold rollupsAnswer queryRollups pageOf
  simp only [hcall, toNat_pageRows_succ, Option.getD_some, hi]
  rfl

theorem statsAnswer_eq_page {q : StatsQuery} {orders : HashOrders db}
    {sorted : List ((String × String) × RollupAcc)} (hgroup : (q.groupBy == some "model") = true)
    (hcall : ∀ limit offset, s.aggregateStats ix orders q.userId q.apiKeyId (nsToDayEpoch q.fromTs)
      (nsToDayEpoch q.toTs) q.provider true limit offset =
        .ok (((sorted.drop offset.toNat).take limit.toNat).map aggregateRow))
    {i : Nat} (hi : (UInt32.ofNat (i * (pageRows q.limit).toNat)).toNat = i * (pageRows q.limit).toNat) :
    statsAnswer s ix q orders i = .ok (pageOf aggregateRow (pageRows q.limit).toNat sorted i) := by
  unfold statsAnswer queryStats pageOf
  simp only [hgroup, hcall, toNat_pageRows_succ, Option.getD_some, hi]
  rfl

theorem rollupsPartition_iff {q : RollupsQuery}
    (hsends : s.SendsRollups ix q.userId q.apiKeyId (nsToDayEpoch q.fromTs) (nsToDayEpoch q.toTs) rows)
    (hlimit : 0 < (pageRows q.limit).toNat) :
    RollupsPartition s ix q rows ↔
      NoTie (pageRows q.limit).toNat (sortedKeys rollupSortKey (distinctKeys rows)) := by
  have hnd : (mergedRollups rows).Nodup := nodup_aggregate rows
  rw [← sortedKeys_mergedRollups]
  refine followOffsets_perm_iff (fun p : RollupKey × RollupAcc => rollupSortKey p.1)
    (rollupsAnswer s ix q) rollupRow_injective hnd hlimit ?_ ?_
  · intro orders
    obtain ⟨sorted, hsorted, hcall⟩ := KdbStore.queryRollups_spec hsends orders
    exact ⟨sorted, hsorted, fun i hi => rollupsAnswer_eq_page hcall (toNat_offset hi hsends.fits)⟩
  · intro sorted hsorted
    obtain ⟨orders, hcall⟩ := KdbStore.exists_orders_rollups hsends hsorted
    exact ⟨orders, fun i hi => rollupsAnswer_eq_page hcall (toNat_offset hi hsends.fits)⟩

/-- There are no more groups than rollups. -/
theorem length_groupedRollups_le (q : StatsQuery) (rows : List (EngineRollupKey × EngineRollup)) :
    (groupedRollups true (q.rollups rows)).length ≤ (mergedRollups rows).length := by
  have hkeys : ((groupedRollups true (q.rollups rows)).map Prod.fst).Perm
      ((q.rollups rows).map (groupOf true)).dedup := keys_aggregate_perm _
  calc (groupedRollups true (q.rollups rows)).length
      = ((groupedRollups true (q.rollups rows)).map Prod.fst).length := (List.length_map _).symm
    _ = ((q.rollups rows).map (groupOf true)).dedup.length := hkeys.length_eq
    _ ≤ ((q.rollups rows).map (groupOf true)).length := (List.dedup_sublist _).length_le
    _ = (q.rollups rows).length := List.length_map _
    _ ≤ ((mergedRollups rows).map rollupRow).length := List.length_filter_le _ _
    _ = (mergedRollups rows).length := List.length_map _

theorem statsPartition_iff {q : StatsQuery} (hgroup : q.groupBy = some "model")
    (hsends : s.SendsRollups ix q.userId q.apiKeyId (nsToDayEpoch q.fromTs) (nsToDayEpoch q.toTs) rows)
    (hlimit : 0 < (pageRows q.limit).toNat) :
    StatsPartition s ix q rows ↔ NoTie (pageRows q.limit).toNat
      (sortedKeys (groupCost (q.rollups rows)) (distinctGroups (q.rollups rows))) := by
  have hnd : (groupedRollups true (q.rollups rows)).Nodup := nodup_aggregate _
  have hbyModel : (q.groupBy == some "model") = true := by
    rw [hgroup]
    rfl
  have hfits := Nat.le_trans (length_groupedRollups_le q rows) hsends.fits
  rw [← sortedKeys_groupedRollups]
  refine followOffsets_perm_iff (fun p : (String × String) × RollupAcc => p.2.cost)
    (statsAnswer s ix q) aggregateRow_injective hnd hlimit ?_ ?_
  · intro orders
    obtain ⟨sorted, hsorted, hcall⟩ :=
      KdbStore.aggregateStats_spec hsends q.provider true orders
    exact ⟨sorted, hsorted, fun i hi => statsAnswer_eq_page hbyModel hcall (toNat_offset hi hfits)⟩
  · intro sorted hsorted
    obtain ⟨orders, hcall⟩ := KdbStore.exists_orders_groups hsends hsorted
    exact ⟨orders, fun i hi => statsAnswer_eq_page hbyModel hcall (toNat_offset hi hfits)⟩

end Instances

/-- For every store content whose costs are not negative and whose rows an offset can count, every
filter and every page size but zero. The pages of rollups list every merged row exactly once, whatever
the orders of the hash maps in each request, if and only if, with the distinct rollup keys in the
order of day and user, no two neighbours with the same day and user are on different sides of the end
of a page; and the pages of stats by model do so if and only if, with the groups in the order of
their cost, no two neighbours of the same cost are. -/
theorem offset_pages_partition_iff (db : Keplordb) (s : KdbStore db) (ix : RollupIndex db)
    (q : RollupsQuery) (q' : StatsQuery) (rows rows' : List (EngineRollupKey × EngineRollup))
    (hsends : s.SendsRollups ix q.userId q.apiKeyId (nsToDayEpoch q.fromTs) (nsToDayEpoch q.toTs) rows)
    (hsends' : s.SendsRollups ix q'.userId q'.apiKeyId (nsToDayEpoch q'.fromTs)
      (nsToDayEpoch q'.toTs) rows')
    (hlimit : 0 < (pageRows q.limit).toNat) (hlimit' : 0 < (pageRows q'.limit).toNat)
    (hgroup : q'.groupBy = some "model") :
    (RollupsPartition s ix q rows ↔
      NoTie (pageRows q.limit).toNat (sortedKeys rollupSortKey (distinctKeys rows))) ∧
    (StatsPartition s ix q' rows' ↔ NoTie (pageRows q'.limit).toNat
      (sortedKeys (groupCost (q'.rollups rows')) (distinctGroups (q'.rollups rows')))) :=
  ⟨rollupsPartition_iff hsends hlimit, statsPartition_iff hgroup hsends' hlimit'⟩

/-- One request of a user on a day, by its model. -/
def dayRollup (model : String) : EngineRollupKey × EngineRollup :=
  (⟨1700006400, ["alice", "ci", model, "openai"]⟩, ⟨1, fun _ => 0, 5⟩)

/-- A store with one engine. -/
def oneEngine : KdbStore memoryDb where
  engines := [("free", { segs := [] })]

/-- An engine that keeps the given rollups. -/
def keeping (rows : List (EngineRollupKey × EngineRollup)) : RollupIndex memoryDb :=
  fun _ _ _ _ => .ok rows

theorem sendsRollups_keeping {rows : List (EngineRollupKey × EngineRollup)}
    (hmetric : ∀ r ∈ rows, 0 ≤ r.2.metric) (hfits : rows.length ≤ 4294967295)
    (userId apiKeyId : Option String) (fromDay toDay : Int64) :
    oneEngine.SendsRollups (keeping rows) userId apiKeyId fromDay toDay rows := by
  refine ⟨?_, hmetric, ?_⟩
  · unfold oneEngine KdbStore.collectRollups keeping
    simp [kdbErr, Except.mapError, KdbStore.collectRollups, bind, Except.bind, pure, Except.pure]
  · have hkeys : ((mergedRollups rows).map Prod.fst).Perm (distinctKeys rows) :=
      keys_aggregate_perm rows
    calc (mergedRollups rows).length
        = ((mergedRollups rows).map Prod.fst).length := (List.length_map _).symm
      _ = (distinctKeys rows).length := hkeys.length_eq
      _ ≤ (rows.map fun row => rollupKeyOf row.1).length := (List.dedup_sublist _).length_le
      _ = rows.length := List.length_map _
      _ ≤ 4294967295 := hfits

/-- A user who used one model on a day: one page, and it lists the row. -/
theorem offset_pages_partition_one_model :
    RollupsPartition oneEngine (keeping [dayRollup "gpt-4o"])
        { fromTs := 0, toTs := 1, limit := some 1 } [dayRollup "gpt-4o"] ∧
      StatsPartition oneEngine (keeping [dayRollup "gpt-4o"])
        { fromTs := 0, toTs := 1, groupBy := some "model", limit := some 1 } [dayRollup "gpt-4o"] := by
  have hmetric : ∀ r ∈ [dayRollup "gpt-4o"], 0 ≤ r.2.metric := by
    intro r hr
    rw [List.mem_singleton.mp hr]
    decide
  have hsends := sendsRollups_keeping hmetric (by simp)
  obtain ⟨hrollups, hstats⟩ := offset_pages_partition_iff memoryDb oneEngine
    (keeping [dayRollup "gpt-4o"]) { fromTs := 0, toTs := 1, limit := some 1 }
    { fromTs := 0, toTs := 1, groupBy := some "model", limit := some 1 } _ _ (hsends _ _ _ _)
    (hsends _ _ _ _) (by decide) (by decide) rfl
  refine ⟨hrollups.mpr (noTie_of_length_lt ?_), hstats.mpr (noTie_of_length_lt ?_)⟩
  · rw [length_sortedKeys]
    decide
  · rw [length_sortedKeys]
    decide

/-- With two models on the day and one row to a page, some orders of the maps show one of the rows
twice and the other one not at all. -/
theorem two_models_share_a_boundary :
    ¬ RollupsPartition oneEngine (keeping [dayRollup "gpt-4o", dayRollup "o3"])
      { fromTs := 0, toTs := 1, limit := some 1 } [dayRollup "gpt-4o", dayRollup "o3"] := by
  have hmetric : ∀ r ∈ [dayRollup "gpt-4o", dayRollup "o3"], 0 ≤ r.2.metric := by
    intro r hr
    simp only [List.mem_cons, List.not_mem_nil, or_false] at hr
    rcases hr with rfl | rfl <;> decide
  have hsends := sendsRollups_keeping hmetric (by simp)
  rw [rollupsPartition_iff (hsends _ _ _ _) (by decide)]
  have hkeys : sortedKeys rollupSortKey (distinctKeys [dayRollup "gpt-4o", dayRollup "o3"]) =
      List.replicate 2 (OrderDual.toDual (toLex ((1700006400 : Int64), "alice"))) := by
    have hdistinct : (distinctKeys [dayRollup "gpt-4o", dayRollup "o3"]).length = 2 := by decide
    rw [← hdistinct]
    apply sortedKeys_of_const
    intro k hk
    have hmem := List.mem_dedup.mp hk
    simp only [List.map_cons, List.map_nil, List.mem_cons, List.not_mem_nil, or_false] at hmem
    rcases hmem with rfl | rfl <;> rfl
  intro hno
  have hfirst := hno 0 (OrderDual.toDual (toLex ((1700006400 : Int64), "alice")))
  rw [hkeys] at hfirst
  exact hfirst rfl rfl

end Keplor.Server
