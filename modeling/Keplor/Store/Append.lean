import Keplor.Core.Formats
import Keplor.Lib.Grouping
import Keplor.Store.MemoryEngine

/-!
# `append_batch_durable` and `append_only` — one flush

A flush takes whatever requests a shard has buffered, whoever sent them. `append_batch_durable`
splits the events by tier and writes tier by tier, in the order a hash map happens to yield them, and
stops at the first tier that fails. `append_only` then tells every caller of the flush the same
outcome.

So a flush is atomic only as long as the failing tier, if there is one, is the first to be visited
(`failed_write_leaves_nothing_iff`). In every other failing flush the tiers before it have been
written, their callers are told that the write failed, and a client that retries stores its event
twice.
-/

set_option autoImplicit false

namespace Keplor.Store

open Keplor.Lib Keplor.Core

/-! ## The write -/

/-- The sub-batches of `append_batch_durable`, by tier. -/
def byTier (tf : TextFormats) (events : List LlmEvent) : List (String × List LogEvent) :=
  (collect LlmEvent.tier events).map fun g => (g.1, g.2.map (toLogEvent tf))

namespace KdbStore

variable {db : Keplordb}

/-- One turn of the loop over the tiers. -/
def appendTier (s : KdbStore db) (p : String × List LogEvent) :
    Except StoreError Unit × KdbStore db :=
  match s.engineFor p.1 with
  | (.error e, s) => (.error e, s)
  | (.ok eng, s) =>
    let r := db.appendBatchDurable eng p.2
    (kdbErr r.1, s.put p.1 r.2)

/-- The loop over the tiers: the first failure ends it. -/
def appendTiers : List (String × List LogEvent) → KdbStore db → Except StoreError Unit × KdbStore db
  | [], s => (.ok (), s)
  | p :: rest, s =>
    match s.appendTier p with
    | (.error e, s) => (.error e, s)
    | (.ok (), s) => appendTiers rest s

/-- `KdbStore::append_batch_durable`; `visit` is the order the hash map yields its tiers in. -/
def appendBatchDurable (s : KdbStore db) (events : List LlmEvent)
    (visit : List (String × List LogEvent)) : Except StoreError (List EventId) × KdbStore db :=
  if events.isEmpty then (.ok [], s)
  else
    let r := appendTiers visit s
    (r.1.map fun _ => events.map LlmEvent.id, r.2)

/-! ## What a tier holds -/

/-- The rows of a tier: those of its engine, or those opening it would find. -/
def storedRows (s : KdbStore db) (tier : String) : List LogEvent :=
  match s.get tier with
  | some e => db.stored e
  | none =>
    match db.openEngine tier with
    | .ok e => db.stored e
    | .error _ => []

theorem storedRows_of_get {s : KdbStore db} {tier : String} {e : db.Engine}
    (h : s.get tier = some e) : s.storedRows tier = db.stored e := by
  rw [storedRows, h]

@[simp] theorem storedRows_put (s : KdbStore db) (tier : String) (e : db.Engine) (t : String) :
    (s.put tier e).storedRows t = if t = tier then db.stored e else s.storedRows t := by
  by_cases ht : t = tier
  · rw [storedRows, get_put, if_pos ht, if_pos ht]
  · rw [storedRows, get_put, if_neg ht, if_neg ht, storedRows]

/-- Opening a tier changes nothing about what any tier holds. -/
theorem storedRows_engineFor (s : KdbStore db) (tier t : String) :
    (s.engineFor tier).2.storedRows t = s.storedRows t := by
  rw [engineFor]
  cases hs : s.get tier with
  | some e => rfl
  | none =>
    cases ho : db.openEngine tier with
    | error m => rfl
    | ok e =>
      rw [storedRows_put]
      split
      · rename_i ht
        rw [ht, storedRows, hs, ho]
      · rfl

theorem appendTier_of_engineFor {s s₁ : KdbStore db} {p : String × List LogEvent} {eng : db.Engine}
    (h : s.engineFor p.1 = (.ok eng, s₁)) :
    s.appendTier p = (kdbErr (db.appendBatchDurable eng p.2).1,
      s₁.put p.1 (db.appendBatchDurable eng p.2).2) := by
  rw [appendTier, h]

/-- Where the engine of its tier can be had, a sub-batch touches the rows of that tier alone. -/
theorem storedRows_appendTier {s s₁ : KdbStore db} {p : String × List LogEvent} {eng : db.Engine}
    (h : s.engineFor p.1 = (.ok eng, s₁)) :
    db.stored eng = s.storedRows p.1 ∧ ∀ t, (s.appendTier p).2.storedRows t =
      if t = p.1 then db.stored (db.appendBatchDurable eng p.2).2 else s.storedRows t := by
  have hopen : ∀ t, s₁.storedRows t = s.storedRows t := by
    intro t
    rw [← storedRows_engineFor s p.1 t, h]
  constructor
  · rw [← storedRows_of_get (get_of_engineFor h), hopen]
  · intro t
    rw [appendTier_of_engineFor h, storedRows_put, hopen]

/-- A sub-batch that fails leaves every tier as it was. -/
theorem appendTier_error {s s' : KdbStore db} {p : String × List LogEvent} {e : StoreError}
    (h : s.appendTier p = (.error e, s')) (t : String) : s'.storedRows t = s.storedRows t := by
  match hf : s.engineFor p.1 with
  | (.error m, s₁) =>
    have hopen := storedRows_engineFor s p.1 t
    rw [appendTier, hf] at h
    rw [hf] at hopen
    cases h
    exact hopen
  | (.ok eng, s₁) =>
    obtain ⟨hstored, hrows⟩ := storedRows_appendTier hf
    have hrow := hrows t
    rw [h] at hrow
    rw [appendTier_of_engineFor hf] at h
    match ha : db.appendBatchDurable eng p.2 with
    | (.ok (), eng') => rw [ha] at h; cases h
    | (.error m, eng') =>
      rw [hrow, ha]
      split
      · rename_i ht
        rw [ht, ← hstored]
        exact db.append_error ha
      · rfl

/-- A sub-batch that succeeds adds its rows to its tier and to no other. -/
theorem appendTier_ok {s s' : KdbStore db} {p : String × List LogEvent}
    (h : s.appendTier p = (.ok (), s')) (t : String) :
    (s'.storedRows t).Perm (if t = p.1 then s.storedRows t ++ p.2 else s.storedRows t) := by
  match hf : s.engineFor p.1 with
  | (.error m, s₁) => rw [appendTier, hf] at h; cases h
  | (.ok eng, s₁) =>
    obtain ⟨hstored, hrows⟩ := storedRows_appendTier hf
    have hrow := hrows t
    rw [h] at hrow
    rw [appendTier_of_engineFor hf] at h
    match ha : db.appendBatchDurable eng p.2 with
    | (.error m, eng') => rw [ha] at h; cases h
    | (.ok (), eng') =>
      rw [hrow, ha]
      split
      · rename_i ht
        rw [ht, ← hstored]
        exact db.append_ok ha
      · exact List.Perm.refl _

/-- The write of a sub-batch fails at this store. -/
def TierFails (s : KdbStore db) (p : String × List LogEvent) : Prop :=
  ∃ e, (s.appendTier p).1 = .error e

/-- Whether a sub-batch fails depends on its own tier's engine alone. -/
theorem tierFails_congr {s s' : KdbStore db} {p : String × List LogEvent}
    (h : s'.get p.1 = s.get p.1) : s'.TierFails p ↔ s.TierFails p := by
  have : (s'.appendTier p).1 = (s.appendTier p).1 := by
    rw [appendTier, appendTier, engineFor, engineFor, h]
    cases s.get p.1 with
    | some e => rfl
    | none =>
      cases db.openEngine p.1 with
      | error m => rfl
      | ok e => rfl
  rw [TierFails, TierFails, this]

/-- A write to one tier leaves the engine of another alone. -/
theorem get_appendTier {s : KdbStore db} {p : String × List LogEvent} {t : String} (ht : t ≠ p.1) :
    (s.appendTier p).2.get t = s.get t := by
  rw [appendTier, engineFor]
  cases s.get p.1 with
  | some e => simp [ht]
  | none =>
    cases db.openEngine p.1 with
    | error m => rfl
    | ok e => simp [ht]

/-- A loop that reaches a failing tier fails, and one that meets none succeeds. -/
theorem appendTiers_fails_iff {visit : List (String × List LogEvent)} :
    ∀ {s : KdbStore db}, (visit.map Prod.fst).Nodup →
      ((∃ e, (appendTiers visit s).1 = .error e) ↔ ∃ p ∈ visit, s.TierFails p) := by
  induction visit with
  | nil =>
    intro s _
    simp [appendTiers]
  | cons p rest ih =>
    intro s hnd
    simp only [List.map_cons, List.nodup_cons] at hnd
    rw [appendTiers]
    match ha : s.appendTier p with
    | (.error e, s') =>
      exact iff_of_true ⟨e, rfl⟩ ⟨p, by simp, e, by rw [ha]⟩
    | (.ok (), s') =>
      have hp : ¬ s.TierFails p := by
        rintro ⟨e, he⟩
        rw [ha] at he
        cases he
      have hrest : ∀ q ∈ rest, s'.TierFails q ↔ s.TierFails q := by
        intro q hq
        have hne : q.1 ≠ p.1 := fun h => hnd.1 (h ▸ List.mem_map_of_mem hq)
        have hget := get_appendTier (s := s) hne
        rw [ha] at hget
        exact tierFails_congr hget
      rw [ih hnd.2]
      simp only [List.mem_cons, exists_eq_or_imp, hp, false_or]
      exact exists_congr fun q => and_congr_right fun hq => hrest q hq

/-- Tiers that are not visited are not touched. -/
theorem storedRows_appendTiers {visit : List (String × List LogEvent)} {t : String} :
    ∀ {s : KdbStore db}, t ∉ visit.map Prod.fst →
      ((appendTiers visit s).2.storedRows t).Perm (s.storedRows t) := by
  induction visit with
  | nil => exact fun _ => List.Perm.refl _
  | cons p rest ih =>
    intro s ht
    simp only [List.map_cons, List.mem_cons, not_or] at ht
    rw [appendTiers]
    rcases ha : s.appendTier p with ⟨e | _, s'⟩
    · rw [appendTier_error ha]
    · have hp := appendTier_ok ha t
      rw [if_neg ht.1] at hp
      exact (ih ht.2).trans hp

/-- A loop whose first tier succeeds leaves that tier's rows behind, whatever comes after. -/
theorem storedRows_appendTiers_cons {p : String × List LogEvent}
    {rest : List (String × List LogEvent)} {s : KdbStore db}
    (hnd : ((p :: rest).map Prod.fst).Nodup) (hp : ¬ s.TierFails p) :
    ((appendTiers (p :: rest) s).2.storedRows p.1).Perm (s.storedRows p.1 ++ p.2) := by
  rw [appendTiers]
  match ha : s.appendTier p with
  | (.error e, s') => exact absurd ⟨e, by rw [ha]⟩ hp
  | (.ok (), s') =>
    rw [List.map_cons, List.nodup_cons] at hnd
    have hrows := appendTier_ok ha p.1
    rw [if_pos rfl] at hrows
    exact (storedRows_appendTiers hnd.1).trans hrows

/-- The failing tier, if there is one, is the first that is visited. -/
def FailsFirst (visit : List (String × List LogEvent)) (s : KdbStore db) : Prop :=
  (∀ p ∈ visit, ¬ s.TierFails p) ∨ ∃ p, visit.head? = some p ∧ s.TierFails p

/-- Then a failed loop leaves every tier as it was. -/
theorem storedRows_of_failsFirst {visit : List (String × List LogEvent)} {s : KdbStore db}
    (hnd : (visit.map Prod.fst).Nodup) (h : FailsFirst visit s) {e : StoreError}
    (he : (appendTiers visit s).1 = .error e) (t : String) :
    (appendTiers visit s).2.storedRows t = s.storedRows t := by
  obtain ⟨q, hq, hfail⟩ := (appendTiers_fails_iff hnd).mp ⟨e, he⟩
  rcases h with h | ⟨p, hhead, m, hm⟩
  · exact absurd hfail (h q hq)
  · cases visit with
    | nil => cases hhead
    | cons p' rest =>
      cases hhead
      match ha : s.appendTier p with
      | (.ok (), s') => rw [ha] at hm; cases hm
      | (.error m', s') =>
        rw [appendTiers, ha]
        exact appendTier_error ha t

/-- Otherwise the loop fails with the first tier written. -/
theorem of_not_failsFirst {visit : List (String × List LogEvent)} {s : KdbStore db}
    (hnd : (visit.map Prod.fst).Nodup) (h : ¬ FailsFirst visit s) :
    ∃ p ∈ visit, (∃ e, (appendTiers visit s).1 = .error e) ∧
      ((appendTiers visit s).2.storedRows p.1).Perm (s.storedRows p.1 ++ p.2) := by
  simp only [FailsFirst, not_or, not_forall, not_exists, not_and, not_not] at h
  obtain ⟨⟨q, hq, hfail⟩, hfirst⟩ := h
  cases visit with
  | nil => cases hq
  | cons p rest =>
    refine ⟨p, by simp, (appendTiers_fails_iff hnd).mpr ⟨q, hq, hfail⟩, ?_⟩
    exact storedRows_appendTiers_cons hnd (hfirst p rfl)

end KdbStore

/-! ## The replies -/

/-- The name of a request: the call it was made in, and its place among the call's events. -/
structure Token where
  call : Nat
  slot : Nat
  deriving DecidableEq

/-- `WriteRequest`. The reply channel is known by the request's name; without a caller waiting there
is none. -/
structure WriteRequest where
  token : Token
  event : LlmEvent
  awaited : Bool

/-- What a caller is told. -/
abbrev Reply := Except StoreError EventId

/-- The reply loop of `append_only`: ids are paired with requests by position, an error goes to
everyone. -/
def replies (batch : List WriteRequest) (result : Except StoreError (List EventId)) :
    List (WriteRequest × Reply) :=
  match result with
  | .ok ids => batch.zip (ids.map .ok)
  | .error e => batch.map fun r => (r, .error (.internal e.display))

theorem nodup_byTier (tf : TextFormats) (events : List LlmEvent) :
    ((byTier tf events).map Prod.fst).Nodup := by
  have := nodup_keys_collect LlmEvent.tier events
  simpa [byTier, Function.comp_def] using this

theorem ne_nil_of_mem_byTier {tf : TextFormats} {events : List LlmEvent} :
    ∀ p ∈ byTier tf events, p.2 ≠ [] := by
  intro p hp
  obtain ⟨g, hg, rfl⟩ := List.mem_map.mp hp
  simpa using ne_nil_of_mem_collect g hg

/-- A sub-batch has the row of one of the events, of its own tier. -/
theorem exists_of_mem_byTier {tf : TextFormats} {events : List LlmEvent}
    {p : String × List LogEvent} (hp : p ∈ byTier tf events) :
    ∃ ev ∈ events, ev.tier = p.1 ∧ toLogEvent tf ev ∈ p.2 := by
  obtain ⟨g, hg, rfl⟩ := List.mem_map.mp hp
  obtain ⟨ev, hev⟩ := List.exists_mem_of_ne_nil _ (ne_nil_of_mem_collect g hg)
  obtain ⟨hmem, hkey⟩ := mem_collect g hg ev hev
  exact ⟨ev, hmem, hkey, List.mem_map_of_mem hev⟩

theorem appendBatchDurable_eq {db : Keplordb} {tf : TextFormats} {s : KdbStore db}
    {events : List LlmEvent} {visit : List (String × List LogEvent)}
    (hvisit : visit.Perm (byTier tf events)) :
    s.appendBatchDurable events visit =
      ((KdbStore.appendTiers visit s).1.map fun _ => events.map LlmEvent.id,
        (KdbStore.appendTiers visit s).2) := by
  cases events with
  | nil =>
    obtain rfl : visit = [] := hvisit.eq_nil
    rfl
  | cons ev rest => rfl

theorem mem_replies_error {batch : List WriteRequest} {result : Except StoreError (List EventId)}
    {r : WriteRequest} {e : StoreError} (h : (r, .error e) ∈ replies batch result) :
    ∃ e', result = .error e' := by
  cases result with
  | error e' => exact ⟨e', rfl⟩
  | ok ids =>
    have := (List.of_mem_zip h).2
    simp at this

/-- When a flush fails its tiers are as before, and no caller is told of an error about an event
that was stored, exactly when the failing tier is the first that is visited. -/
theorem failed_write_leaves_nothing_iff (db : Keplordb) (tf : TextFormats) (s : KdbStore db)
    (batch : List WriteRequest) (visit : List (String × List LogEvent))
    (hvisit : visit.Perm (byTier tf (batch.map WriteRequest.event))) :
    ((∀ e, (s.appendBatchDurable (batch.map WriteRequest.event) visit).1 = .error e →
        ∀ t, ((s.appendBatchDurable (batch.map WriteRequest.event) visit).2.storedRows t).Perm
          (s.storedRows t)) ↔ KdbStore.FailsFirst visit s) ∧
    ((∀ r ∈ batch, toLogEvent tf r.event ∉ s.storedRows r.event.tier) →
      ((∀ r e, (r, .error e) ∈
          replies batch (s.appendBatchDurable (batch.map WriteRequest.event) visit).1 →
        toLogEvent tf r.event ∉
          (s.appendBatchDurable (batch.map WriteRequest.event) visit).2.storedRows r.event.tier) ↔
        KdbStore.FailsFirst visit s)) := by
  have hnd : (visit.map Prod.fst).Nodup :=
    (hvisit.map Prod.fst).nodup_iff.mpr (nodup_byTier tf _)
  have hne : ∀ p ∈ visit, p.2 ≠ [] := fun p hp => ne_nil_of_mem_byTier p (hvisit.mem_iff.mp hp)
  rw [appendBatchDurable_eq hvisit]
  refine ⟨⟨fun h => ?_, fun h e he t => ?_⟩, fun hfresh => ⟨fun h => ?_, fun h r e hr => ?_⟩⟩
  · by_contra hcond
    obtain ⟨p, hp, ⟨e, he⟩, hgrown⟩ := KdbStore.of_not_failsFirst hnd hcond
    have hlen := ((h e (by rw [he]; rfl) p.1).symm.trans hgrown).length_eq
    rw [List.length_append] at hlen
    exact hne p hp (List.length_eq_zero_iff.mp (by omega))
  · obtain ⟨e', he'⟩ : ∃ e', (KdbStore.appendTiers visit s).1 = .error e' := by
      cases hr : (KdbStore.appendTiers visit s).1 with
      | ok _ => rw [hr] at he; cases he
      | error e' => exact ⟨e', rfl⟩
    rw [KdbStore.storedRows_of_failsFirst hnd h he' t]
  · by_contra hcond
    obtain ⟨p, hp, ⟨e, he⟩, hgrown⟩ := KdbStore.of_not_failsFirst hnd hcond
    obtain ⟨ev, hev, htier, hrow⟩ := exists_of_mem_byTier (hvisit.mem_iff.mp hp)
    obtain ⟨r, hr, rfl⟩ := List.mem_map.mp hev
    refine h r (.internal e.display) ?_ ?_
    · rw [he]
      exact List.mem_map_of_mem hr
    · rw [htier]
      exact hgrown.mem_iff.mpr (List.mem_append_right _ hrow)
  · obtain ⟨e', he'⟩ := mem_replies_error hr
    obtain ⟨e'', he''⟩ : ∃ e'', (KdbStore.appendTiers visit s).1 = .error e'' := by
      cases hx : (KdbStore.appendTiers visit s).1 with
      | ok _ => rw [hx] at he'; cases he'
      | error e'' => exact ⟨e'', rfl⟩
    have hmem : r ∈ batch := by
      rw [he', replies] at hr
      obtain ⟨r', hr', heq⟩ := List.mem_map.mp hr
      cases heq
      exact hr'
    rw [KdbStore.storedRows_of_failsFirst hnd h he'']
    exact hfresh r hmem

/-- A store whose `pro` tier sits on a full disk. -/
def halfFull : KdbStore memoryDb where
  engines := [("free", { segs := [] }), ("pro", { segs := [], full := true })]

/-- A request for an event of a tier. -/
def requestFor (call : Nat) (tier : String) : WriteRequest :=
  ⟨⟨call, 0⟩, { sampleEvent with id := ⟨BitVec.ofNat 128 call⟩, tier := tier }, true⟩

/-- A flush of the failing tier alone leaves nothing behind. -/
theorem full_tier_leaves_nothing :
    (∃ e, (halfFull.appendBatchDurable ([requestFor 1 "pro"].map WriteRequest.event)
      (byTier textFormats ([requestFor 1 "pro"].map WriteRequest.event))).1 = .error e) ∧
    ∀ t, ((halfFull.appendBatchDurable ([requestFor 1 "pro"].map WriteRequest.event)
      (byTier textFormats ([requestFor 1 "pro"].map WriteRequest.event))).2.storedRows t).Perm
        (halfFull.storedRows t) := by
  have hcond : KdbStore.FailsFirst
      (byTier textFormats ([requestFor 1 "pro"].map WriteRequest.event)) halfFull :=
    .inr ⟨_, rfl, _, rfl⟩
  exact ⟨⟨_, rfl⟩, (failed_write_leaves_nothing_iff memoryDb textFormats halfFull
    [requestFor 1 "pro"] _ (List.Perm.refl _)).1.mpr hcond _ rfl⟩

/-- Two requests of different tiers in one flush: both callers are told of the full disk, and the
first one's event is in the store. -/
theorem mixed_tiers_half_written :
    (replies [requestFor 1 "free", requestFor 2 "pro"]
      (halfFull.appendBatchDurable ([requestFor 1 "free", requestFor 2 "pro"].map WriteRequest.event)
        (byTier textFormats
          ([requestFor 1 "free", requestFor 2 "pro"].map WriteRequest.event))).1).map
        (fun p => (p.1.token.call, p.2)) =
      [(1, .error (.internal "No space left on device (os error 28)")),
        (2, .error (.internal "No space left on device (os error 28)"))] ∧
    (halfFull.storedRows "free").map LogEvent.id = [] ∧
    ((halfFull.appendBatchDurable ([requestFor 1 "free", requestFor 2 "pro"].map WriteRequest.event)
        (byTier textFormats
          ([requestFor 1 "free", requestFor 2 "pro"].map WriteRequest.event))).2.storedRows
        "free").map LogEvent.id = ["00000000000000000000000001"] := by
  decide +kernel

end Keplor.Store
