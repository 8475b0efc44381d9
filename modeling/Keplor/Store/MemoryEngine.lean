import Mathlib.Data.List.Sort
import Keplor.Store.Kdb

/-!
# An engine in memory

The smallest engine that keeps the promises of `Keplordb`: a list of segments, a list of tombstones,
and a switch that makes every write fail as on a full disk. It is what the general results are
instantiated with when they are to be seen at work.
-/

set_option autoImplicit false

namespace Keplor.Store

/-- An engine in memory. -/
structure MemoryEngine where
  segs : List (List LogEvent)
  tombstones : List String := []
  full : Bool := false

namespace MemoryEngine

/-- The rows no tombstone hides. -/
def visible (e : MemoryEngine) : List LogEvent :=
  e.segs.flatten.filter fun r => !e.tombstones.contains r.id

/-- A filter's dimensions, its time window and its status window. -/
def admits (qf : QueryFilter) (r : LogEvent) : Bool :=
  (List.finRange D).all (fun i => (qf.dims i).all fun v => v == r.dims i) &&
    qf.fromTsNs.all (fun t => decide (t ≤ r.tsNs)) && qf.toTsNs.all (fun t => decide (r.tsNs ≤ t)) &&
    qf.statusMin.all (fun m => decide (m ≤ r.status)) &&
    qf.statusMax.all (fun m => decide (r.status < m))

/-- A row is not newer than the one before it. -/
abbrev Newer (a b : LogEvent) : Prop := b.tsNs ≤ a.tsNs

instance : Std.Total Newer := ⟨fun a b => by
  simp only [Newer, Int64.le_iff_toInt_le]
  omega⟩

instance : IsTrans LogEvent Newer := ⟨fun a b c => by
  simp only [Newer, Int64.le_iff_toInt_le]
  omega⟩

/-- The newest matching rows. -/
def query (e : MemoryEngine) (qf : QueryFilter) (n : Nat) : List LogEvent :=
  ((e.visible.filter fun r => admits qf r && qf.beforeCursor r).insertionSort Newer).take n

theorem query_newest (e : MemoryEngine) (qf : QueryFilter) (n : Nat) :
    ∃ rest, (e.visible.filter fun r => admits qf r && qf.beforeCursor r).Perm
        (e.query qf n ++ rest) ∧
      (e.query qf n).Pairwise (fun a b => b.tsNs ≤ a.tsNs) ∧
      (∀ a ∈ e.query qf n, ∀ b ∈ rest, b.tsNs ≤ a.tsNs) ∧
      (e.query qf n).length ≤ n ∧ ((e.query qf n).length < n → rest = []) := by
  have hsorted := List.pairwise_insertionSort Newer
    (e.visible.filter fun r => admits qf r && qf.beforeCursor r)
  have hperm := List.perm_insertionSort Newer
    (e.visible.filter fun r => admits qf r && qf.beforeCursor r)
  refine ⟨((e.visible.filter fun r => admits qf r && qf.beforeCursor r).insertionSort Newer).drop n,
    ?_, ?_, ?_, ?_, ?_⟩
  · rw [query, List.take_append_drop]
    exact hperm.symm
  · exact hsorted.sublist (List.take_sublist _ _)
  · rw [← List.take_append_drop n (List.insertionSort _ _), List.pairwise_append] at hsorted
    exact hsorted.2.2
  · rw [query, List.length_take]
    exact Nat.min_le_left _ _
  · intro h
    rw [query, List.length_take] at h
    exact List.drop_of_length_le (by omega)

end MemoryEngine

/-- The crate with engines in memory. A tier opened for the first time is empty. -/
def memoryDb : Keplordb where
  Engine := MemoryEngine
  openEngine := fun _ => .ok ⟨[], [], false⟩
  stored := fun e => e.segs.flatten
  visible := MemoryEngine.visible
  segments := MemoryEngine.segs
  appendBatchDurable := fun e rows =>
    if e.full then (.error "No space left on device (os error 28)", e)
    else (.ok (), { e with segs := e.segs ++ [rows] })
  append_ok := by
    intro e e' rows h
    split at h
    · cases h
    · cases h
      simp
  append_error := by
    intro e e' rows m h
    split at h
    · cases h
      rfl
    · cases h
  gc := fun e c =>
    let kept := e.segs.filter fun seg => seg.any fun r => decide (c ≤ r.tsNs)
    (.ok (e.segs.length - kept.length), { e with segs := kept })
  gc_drops := by
    intro e c
    refine ⟨e.segs.filter fun seg => !seg.any fun r => decide (c ≤ r.tsNs), ?_, ?_⟩
    · exact (List.filter_append_perm _ e.segs).symm
    · intro seg hseg r hr
      have := (List.mem_filter.mp hseg).2
      simp only [Bool.not_eq_true', List.any_eq_false, decide_eq_true_eq, Int64.not_le] at this
      exact this r hr
  deleteEvents := fun e ids =>
    if e.full then (.error "No space left on device (os error 28)", e)
    else (.ok (), { e with tombstones := ids ++ e.tombstones })
  delete_hides := by
    intro e ids r hr
    by_cases hid : r.id ∈ ids
    · exact Or.inr hid
    · refine Or.inl ?_
      split
      · exact hr
      · simpa [MemoryEngine.visible, hid] using hr
  delete_shows := by
    intro e ids r hr
    split at hr
    · exact hr
    · simp only [MemoryEngine.visible, List.mem_filter, List.contains_eq_mem, List.mem_append,
        Bool.not_eq_true', decide_eq_false_iff_not, not_or] at hr ⊢
      exact ⟨hr.1, hr.2.2⟩
  delete_ok := by
    intro e e' ids h r
    split at h
    · cases h
    · cases h
      simp only [MemoryEngine.visible, List.mem_filter, List.contains_eq_mem, List.mem_append]
      by_cases hid : r.id ∈ ids <;> simp [hid]
  admits := MemoryEngine.admits
  admits_cursor := fun _ _ _ => rfl
  queryRecent := fun e qf n => .ok (e.query qf n)
  query_newest := by
    intro e qf n rows h
    cases h
    exact e.query_newest qf n

/-- A store of one engine with one row shows that row. -/
theorem sees_single {tier : String} {row r : LogEvent} {full : Bool} {s : KdbStore memoryDb}
    (hs : s.engines = [(tier, { segs := [[row]], full := full })]) : s.Sees r ↔ r = row := by
  unfold KdbStore.Sees
  rw [hs]
  constructor
  · rintro ⟨p, hp, hr⟩
    obtain rfl := List.mem_singleton.mp hp
    simpa [memoryDb, MemoryEngine.visible] using hr
  · rintro rfl
    exact ⟨_, List.mem_singleton.mpr rfl, by simp [memoryDb, MemoryEngine.visible]⟩

/-- A store whose engines show no row shows none. -/
theorem not_sees_of_lengths {s : KdbStore memoryDb} {n : Nat}
    (h : s.engines.map (fun p => (memoryDb.visible p.2).length) = List.replicate n 0)
    (r : LogEvent) : ¬ s.Sees r := by
  rintro ⟨p, hp, hr⟩
  have hlen : (memoryDb.visible p.2).length ∈ List.replicate n 0 := h ▸ List.mem_map_of_mem hp
  rw [List.length_eq_zero_iff.mp (List.eq_of_mem_replicate hlen)] at hr
  cases hr

/-- The crate's filters mean what its documentation says they do, which is what they mean here. -/
def Keplordb.FiltersAsDocumented (db : Keplordb) : Prop :=
  ∀ qf r, db.admits qf r = MemoryEngine.admits qf r

theorem memoryDb_filtersAsDocumented : memoryDb.FiltersAsDocumented := fun _ _ => rfl

end Keplor.Store
