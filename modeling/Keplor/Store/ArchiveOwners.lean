import Keplor.Store.ArchiveCycle
import Keplor.Store.Days

/-!
# Whose events an archive chunk holds

`group_events` keys a group by a user text and a day text. The day text is exact. The user text is not:
an event without a user is filed under `"_none"`, and nothing keeps a client from sending that as a
user id. `groupEvents_owner_iff` says what that costs: the groups are always a partition in the order
of the list, and they keep owners apart exactly when no day of the list has both kinds of event.
-/

set_option autoImplicit false

namespace Keplor.Store

open Keplor.Lib Keplor.Core

instance : IsStrictTotalOrder GroupKey (· < ·) where
  irrefl a h := by
    rcases h with h | ⟨-, h⟩ <;> exact String.lt_irrefl _ h
  trans a b c hab hbc := by
    rcases hab with hab | ⟨hu, hab⟩ <;> rcases hbc with hbc | ⟨hu', hbc⟩
    · exact .inl (String.lt_trans hab hbc)
    · exact .inl (hu' ▸ hab)
    · exact .inl (hu ▸ hbc)
    · exact .inr ⟨hu.trans hu', String.lt_trans hab hbc⟩
  trichotomous a b hab hba := by
    have htotal (s t : String) (h : ¬ s < t) (h' : ¬ t < s) : s = t :=
      String.le_antisymm (String.not_lt.mp h') (String.not_lt.mp h)
    have huser : a.user = b.user :=
      htotal _ _ (fun h => hab (.inl h)) fun h => hba (.inl h)
    have hday : a.day = b.day :=
      htotal _ _ (fun h => hab (.inr ⟨huser, h⟩)) fun h => hba (.inr ⟨huser.symm, h⟩)
    cases a
    cases b
    exact congrArg₂ GroupKey.mk huser hday

/-- The UTC day of an event. -/
def utcDay (e : LlmEvent) : Int := e.tsNs.toInt / nsPerDay

/-- Two events are in one group. -/
def ShareGroup (events : List LlmEvent) (e e' : LlmEvent) : Prop :=
  ∃ g ∈ groupEvents events, e ∈ g.2 ∧ e' ∈ g.2

/-- One user, or no user, and one day. -/
def SameOwner (e e' : LlmEvent) : Prop := e.userId = e'.userId ∧ utcDay e = utcDay e'

/-- An event without a user, and one of a user who is called like the marker for none, on one day. -/
def MarkerClash (events : List LlmEvent) : Prop :=
  ∃ e ∈ events, ∃ e' ∈ events, e.userId = none ∧ e'.userId = some "_none" ∧ utcDay e = utcDay e'

/-- Every event of a chunk belongs to the user its manifest names, or none has a user and the manifest
says so. -/
def ChunkOfOwner (c : GroupKey × List LlmEvent) : Prop :=
  (∀ e ∈ c.2, e.userId = some c.1.user) ∨ (c.1.user = "_none" ∧ ∀ e ∈ c.2, e.userId = none)

variable {events : List LlmEvent} {e e' : LlmEvent}

theorem shareGroup_iff (he : e ∈ events) (he' : e' ∈ events) :
    ShareGroup events e e' ↔ groupKey e = groupKey e' := by
  constructor
  · rintro ⟨g, hg, h, h'⟩
    rw [key_of_mem_groupBy groupKey events g hg e h, key_of_mem_groupBy groupKey events g hg e' h']
  · intro hkey
    refine ⟨(groupKey e, _), mem_groupBy_iff.mpr ⟨rfl, e, he, rfl⟩, ?_, ?_⟩
    · simp [he]
    · simp [he', hkey]

theorem groupKey_eq_iff (he : 0 ≤ e.tsNs.toInt) (he' : 0 ≤ e'.tsNs.toInt) :
    groupKey e = groupKey e' ↔
      e.userId.getD "_none" = e'.userId.getD "_none" ∧ utcDay e = utcDay e' := by
  rw [groupKey, groupKey, GroupKey.mk.injEq, tsNsToDay_inj, unixDay_of_nonneg he,
    unixDay_of_nonneg he', utcDay, utcDay]

/-- Two users have one text exactly when they are one, the marker apart. -/
theorem getD_marker_eq_iff {u u' : Option String} :
    u.getD "_none" = u'.getD "_none" ↔
      u = u' ∨ (u = none ∧ u' = some "_none") ∨ (u = some "_none" ∧ u' = none) := by
  cases u <;> cases u' <;> simp [eq_comm]

theorem shareGroup_iff_sameOwner (hclash : ¬ MarkerClash events)
    (hpos : ∀ e ∈ events, 0 ≤ e.tsNs.toInt) (he : e ∈ events) (he' : e' ∈ events) :
    ShareGroup events e e' ↔ SameOwner e e' := by
  rw [shareGroup_iff he he', groupKey_eq_iff (hpos e he) (hpos e' he'), getD_marker_eq_iff, SameOwner]
  refine ⟨?_, fun ⟨hu, hd⟩ => ⟨.inl hu, hd⟩⟩
  rintro ⟨hu | ⟨hu, hu'⟩ | ⟨hu, hu'⟩, hd⟩
  · exact ⟨hu, hd⟩
  · exact absurd ⟨e, he, e', he', hu, hu', hd⟩ hclash
  · exact absurd ⟨e', he', e, he, hu', hu, hd.symm⟩ hclash

/-- The chunks of a cycle hold what their group holds. -/
theorem mem_of_mem_cycleChunks {batchSize : Nat} (hn : 0 < batchSize) {c : GroupKey × List LlmEvent}
    (hc : c ∈ cycleChunks batchSize events) (he : e ∈ c.2) : groupKey e = c.1 ∧ e ∈ events := by
  obtain ⟨g, hg, hc⟩ := List.mem_flatMap.mp hc
  obtain ⟨chunk, hchunk, rfl⟩ := List.mem_map.mp hc
  have hmem : e ∈ g.2 := mem_of_mem_chunks hn hchunk he
  rw [(mem_groupBy_iff.mp hg).1, List.mem_filter] at hmem
  exact ⟨of_decide_eq_true hmem.2, hmem.1⟩

theorem chunkOfOwner (hclash : ¬ MarkerClash events) (hpos : ∀ e ∈ events, 0 ≤ e.tsNs.toInt)
    {batchSize : Nat} (hn : 0 < batchSize) {c : GroupKey × List LlmEvent}
    (hc : c ∈ cycleChunks batchSize events) : ChunkOfOwner c := by
  have hkey : ∀ e ∈ c.2, groupKey e = c.1 ∧ e ∈ events := fun e he =>
    mem_of_mem_cycleChunks hn hc he
  by_cases hnone : ∃ e ∈ c.2, e.userId = none
  · -- one event without a user: then no other event of the chunk has one
    obtain ⟨e, he, hu⟩ := hnone
    obtain ⟨hk, hmem⟩ := hkey e he
    refine .inr ⟨?_, fun e' he' => ?_⟩
    · rw [← hk, groupKey, hu]
      rfl
    · obtain ⟨hk', hmem'⟩ := hkey e' he'
      have hshare := (shareGroup_iff hmem hmem').mpr (hk.trans hk'.symm)
      rw [← ((shareGroup_iff_sameOwner hclash hpos hmem hmem').mp hshare).1, hu]
  · refine .inl fun e he => ?_
    cases hu : e.userId with
    | none => exact absurd ⟨e, he, hu⟩ hnone
    | some u =>
      rw [← (hkey e he).1, groupKey, hu]
      rfl

/-- The groups partition the events in their order, always. They keep owners apart, and so do the
manifests of their chunks, exactly when no day has both an event without a user and one of a user
called `"_none"`. -/
theorem groupEvents_owner_iff (events : List LlmEvent) (hpos : ∀ e ∈ events, 0 ≤ e.tsNs) :
    ((groupEvents events).flatMap Prod.snd).Perm events ∧
    ((groupEvents events).map Prod.fst).Nodup ∧
    (∀ g ∈ groupEvents events,
      g.2 = events.filter (fun e => groupKey e = g.1) ∧ g.2 ≠ []) ∧
    (((∀ e ∈ events, ∀ e' ∈ events, ShareGroup events e e' ↔ SameOwner e e') ∧
        ∀ batchSize, 0 < batchSize → ∀ c ∈ cycleChunks batchSize events, ChunkOfOwner c) ↔
      ¬ MarkerClash events) := by
  have hpos' : ∀ e ∈ events, 0 ≤ e.tsNs.toInt := fun e he => Int64.le_iff_toInt_le.mp (hpos e he)
  refine ⟨perm_groupBy groupKey events, nodup_keys_groupBy groupKey events, fun g hg => ?_, ?_⟩
  · obtain ⟨hfilter, e, he, hkey⟩ := mem_groupBy_iff.mp hg
    refine ⟨hfilter, List.ne_nil_of_mem (a := e) ?_⟩
    rw [hfilter]
    simp [he, hkey]
  constructor
  · rintro ⟨hshare, -⟩ ⟨e, he, e', he', hu, hu', hday⟩
    have hkey : groupKey e = groupKey e' := by
      rw [groupKey_eq_iff (hpos' e he) (hpos' e' he'), hu, hu']
      exact ⟨rfl, hday⟩
    have hsame := ((hshare e he e' he').mp ((shareGroup_iff he he').mpr hkey)).1
    rw [hu, hu'] at hsame
    cases hsame
  · intro hclash
    exact ⟨fun e he e' he' => shareGroup_iff_sameOwner hclash hpos' he he',
      fun n hn c hc => chunkOfOwner hclash hpos' hn hc⟩

/-- Two events of one moment, the second of a given user. -/
def twoOwners (user : String) : List LlmEvent :=
  [{ sampleEvent with userId := none }, { sampleEvent with userId := some user }]

theorem tsNs_twoOwners (user : String) : ∀ e ∈ twoOwners user, 0 ≤ e.tsNs := by
  have h : (0 : Int64) ≤ sampleEvent.tsNs := by decide
  intro e he
  rcases List.mem_pair.mp he with rfl | rfl <;> exact h

theorem groupEvents_keep_alice_apart :
    (∀ e ∈ twoOwners "alice", 0 ≤ e.tsNs) ∧ ¬ MarkerClash (twoOwners "alice") ∧
    (∀ e ∈ twoOwners "alice", ∀ e' ∈ twoOwners "alice",
      ShareGroup (twoOwners "alice") e e' ↔ SameOwner e e') := by
  have hclash : ¬ MarkerClash (twoOwners "alice") := by
    rintro ⟨e, -, e', he', -, hu, -⟩
    rcases List.mem_pair.mp he' with rfl | rfl
    · cases hu
    · exact absurd hu (by decide)
  have h := (groupEvents_owner_iff _ (tsNs_twoOwners "alice")).2.2.2.mpr hclash
  exact ⟨tsNs_twoOwners "alice", hclash, h.1⟩

/-- A client whose user id is `"_none"` shares a group with the events that have no user. -/
theorem marker_user_shares_group :
    (∀ e ∈ twoOwners "_none", 0 ≤ e.tsNs) ∧
    ∃ e ∈ twoOwners "_none", ∃ e' ∈ twoOwners "_none",
      e.userId = none ∧ e'.userId = some "_none" ∧
      ShareGroup (twoOwners "_none") e e' ∧ ¬ SameOwner e e' := by
  refine ⟨tsNs_twoOwners "_none", _, List.mem_cons_self, _,
    List.mem_cons_of_mem _ List.mem_cons_self, rfl, rfl, ?_, fun h => ?_⟩
  · exact (shareGroup_iff (by simp [twoOwners]) (by simp [twoOwners])).mpr rfl
  · cases h.1

end Keplor.Store
