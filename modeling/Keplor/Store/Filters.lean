import Keplor.Core.Formats
import Keplor.Store.MemoryEngine
import Keplor.Store.Query
import Mathlib.Tactic.FinCases

/-!
# `keplor-store/src/filter.rs` — what a filter says, and what the engine compares

`Satisfies` is the field documentation of `EventFilter`, about the event itself. The engine sees a
row instead, in which an absent text is `""` and an absent status is 0, and compares the raw columns.
For the texts that makes no difference: no filter names the empty text, so an absent value never
matches. For the status it does. A range that contains 0 takes in the events that have no status at
all, although their rows carry a bit that says so.
-/

set_option autoImplicit false

namespace Keplor.Store

open Keplor.Lib Keplor.Core

/-! ## What a filter says -/

/-- `$.key` of the metadata is this text. -/
def TaggedAs (e : LlmEvent) (key tag : String) : Prop :=
  ∃ v, e.metadata = some v ∧ v.get? key = some (.str tag)

/-- What the fields other than the two status bounds ask for. -/
structure SatisfiesOthers (f : EventFilter) (e : LlmEvent) : Prop where
  user : ∀ u, f.userId = some u → e.userId = some u
  apiKey : ∀ k, f.apiKeyId = some k → e.apiKeyId = some k
  model : ∀ m, f.model = some m → e.model = m
  provider : ∀ p, f.provider = some p → e.provider.idKey = p
  source : ∀ s, f.source = some s → e.source = some s
  after : ∀ t, f.fromTsNs = some t → t ≤ e.tsNs
  before : ∀ t, f.toTsNs = some t → e.tsNs ≤ t
  userTag : ∀ t, f.metaUserTag = some t → TaggedAs e "user_tag" t
  sessionTag : ∀ t, f.metaSessionTag = some t → TaggedAs e "session_tag" t

/-- What the status bounds ask for: a status, at or above the one and below the other. -/
structure SatisfiesStatus (f : EventFilter) (e : LlmEvent) : Prop where
  min : ∀ m, f.httpStatusMin = some m → ∃ s, e.httpStatus = some s ∧ m ≤ s
  max : ∀ m, f.httpStatusMax = some m → ∃ s, e.httpStatus = some s ∧ s < m

/-- The event is one the filter asks for. -/
def Satisfies (f : EventFilter) (e : LlmEvent) : Prop := SatisfiesOthers f e ∧ SatisfiesStatus f e

/-- No text of the filter is empty. -/
structure EventFilter.NonEmpty (f : EventFilter) : Prop where
  user : f.userId ≠ some ""
  apiKey : f.apiKeyId ≠ some ""
  model : f.model ≠ some ""
  provider : f.provider ≠ some ""
  source : f.source ≠ some ""
  userTag : f.metaUserTag ≠ some ""
  sessionTag : f.metaSessionTag ≠ some ""

/-- The status bounds of the filter are about a status of 0 as well. -/
structure EventFilter.TakesZero (f : EventFilter) : Prop where
  given : f.httpStatusMin ≠ none ∨ f.httpStatusMax ≠ none
  min : ∀ m, f.httpStatusMin = some m → m ≤ 0
  max : ∀ m, f.httpStatusMax = some m → 0 < m

/-! ## What the engine compares -/

/-- A column that holds an optional text matches a text that is not empty exactly when the text is
there. -/
theorem getD_eq_iff {o : Option String} {u : String} (h : u ≠ "") : o.getD "" = u ↔ o = some u := by
  cases o with
  | none => simp [Ne.symm h]
  | some s => simp

/-- The tag column matches a text that is not empty exactly when the metadata holds it. -/
theorem tagOf_eq_iff {v : JsonValue} {key tag : String} (h : tag ≠ "") :
    tagOf v key = tag ↔ v.get? key = some (.str tag) := by
  unfold tagOf
  split
  · rename_i s hs
    simp [hs]
  · rename_i hother
    constructor
    · intro hempty
      exact absurd hempty.symm h
    · intro hs
      exact absurd hs (hother tag)

theorem taggedAs_iff {e : LlmEvent} {key tag : String} (h : tag ≠ "") :
    (e.metadata.map fun v => tagOf v key).getD "" = tag ↔ TaggedAs e key tag := by
  unfold TaggedAs
  cases e.metadata with
  | none => simp [Ne.symm h]
  | some v => simp [tagOf_eq_iff h]

/-- A condition of a filter, on the column it names. -/
def Asks (o : Option String) (column : String) : Prop := ∀ v, o = some v → column = v

theorem asks_none (column : String) : Asks none column := by
  intro v h
  cases h

theorem all_beq_iff {o : Option String} {column : String} :
    (o.all fun v => v == column) = true ↔ Asks o column := by
  unfold Asks
  cases o with
  | none => simp
  | some v =>
    simp only [Option.all_some, beq_iff_eq, Option.some.injEq, forall_eq']
    exact eq_comm

/-- The dimensions a filter can name, against the columns of an event's row. -/
theorem dims_iff (tf : TextFormats) (f : EventFilter) (e : LlmEvent) :
    (∀ i, Asks ((toQueryFilter f).dims i) ((toLogEvent tf e).dims i)) ↔
      Asks f.userId (e.userId.getD "") ∧ Asks f.apiKeyId (e.apiKeyId.getD "") ∧
      Asks f.model e.model ∧ Asks f.provider e.provider.idKey ∧ Asks f.source (e.source.getD "") ∧
      Asks f.metaUserTag (extractTags e.metadata).1 ∧
      Asks f.metaSessionTag (extractTags e.metadata).2 := by
  constructor
  · intro h
    exact ⟨h DIM_USER_ID, h DIM_API_KEY_ID, h DIM_MODEL, h DIM_PROVIDER, h DIM_SOURCE,
      h DIM_USER_TAG, h DIM_SESSION_TAG⟩
  · rintro ⟨huser, hkey, hmodel, hprovider, hsource, hutag, hstag⟩ i
    -- position by position; seven of the fourteen are never asked about
    fin_cases i
    · exact huser
    · exact hkey
    · exact hmodel
    · exact hprovider
    · exact hsource
    · exact asks_none _
    · exact asks_none _
    · exact asks_none _
    · exact asks_none _
    · exact asks_none _
    · exact asks_none _
    · exact asks_none _
    · exact hutag
    · exact hstag

theorem extractTags_eq (o : Option JsonValue) :
    extractTags o
      = ((o.map fun v => tagOf v "user_tag").getD "", (o.map fun v => tagOf v "session_tag").getD "") := by
  cases o <;> rfl

/-- Each condition on a column says of the event what the filter's documentation says. -/
theorem dims_iff_of_nonEmpty (tf : TextFormats) {f : EventFilter} (hf : f.NonEmpty) (e : LlmEvent) :
    (∀ i, Asks ((toQueryFilter f).dims i) ((toLogEvent tf e).dims i)) ∧
        (∀ t, f.fromTsNs = some t → t ≤ e.tsNs) ∧ (∀ t, f.toTsNs = some t → e.tsNs ≤ t) ↔
      SatisfiesOthers f e := by
  have htext : ∀ {o : Option String} (column : Option String), o ≠ some "" →
      (Asks o (column.getD "") ↔ ∀ v, o = some v → column = some v) := by
    intro o column ho
    apply forall_congr'
    intro v
    apply imp_congr_right
    intro hv
    exact getD_eq_iff fun hempty => ho (hempty ▸ hv)
  have htag : ∀ {o : Option String} (key : String), o ≠ some "" →
      (Asks o ((e.metadata.map fun v => tagOf v key).getD "") ↔
        ∀ t, o = some t → TaggedAs e key t) := by
    intro o key ho
    apply forall_congr'
    intro t
    apply imp_congr_right
    intro ht
    exact taggedAs_iff fun hempty => ho (hempty ▸ ht)
  rw [dims_iff, extractTags_eq, htext _ hf.user, htext _ hf.apiKey, htext _ hf.source,
    htag _ hf.userTag, htag _ hf.sessionTag]
  constructor
  · rintro ⟨⟨huser, hkey, hmodel, hprovider, hsource, hutag, hstag⟩, hafter, hbefore⟩
    exact ⟨huser, hkey, hmodel, hprovider, hsource, hafter, hbefore, hutag, hstag⟩
  · intro h
    exact ⟨⟨h.user, h.apiKey, h.model, h.provider, h.source, h.userTag, h.sessionTag⟩, h.after,
      h.before⟩

/-- What the engine asks of the stored status, 0 where there is none. -/
def StatusColumn (f : EventFilter) (e : LlmEvent) : Prop :=
  (∀ m, f.httpStatusMin = some m → m ≤ e.httpStatus.getD 0) ∧
    ∀ m, f.httpStatusMax = some m → e.httpStatus.getD 0 < m

theorem option_all_decide {α : Type} {o : Option α} {p : α → Prop} [DecidablePred p] :
    (o.all fun a => decide (p a)) = true ↔ ∀ a, o = some a → p a := by
  cases o with
  | none => simp
  | some a => simp

/-- The engine's verdict on an event's row, in terms of the event. -/
theorem admits_iff {db : Keplordb} (hdoc : db.FiltersAsDocumented) (tf : TextFormats)
    {f : EventFilter} (hf : f.NonEmpty) (e : LlmEvent) :
    db.admits (toQueryFilter f) (toLogEvent tf e) = true ↔
      SatisfiesOthers f e ∧ StatusColumn f e := by
  rw [hdoc, MemoryEngine.admits, ← dims_iff_of_nonEmpty tf hf]
  simp only [Bool.and_eq_true, List.all_eq_true, List.mem_finRange, forall_const, all_beq_iff,
    option_all_decide]
  unfold StatusColumn
  constructor
  · rintro ⟨⟨⟨⟨hdims, hfrom⟩, hto⟩, hmin⟩, hmax⟩
    exact ⟨⟨hdims, hfrom, hto⟩, hmin, hmax⟩
  · rintro ⟨⟨hdims, hfrom, hto⟩, hmin, hmax⟩
    exact ⟨⟨⟨⟨hdims, hfrom⟩, hto⟩, hmin⟩, hmax⟩

/-- With a status, the column says what the documentation says. -/
theorem statusColumn_iff_of_some {f : EventFilter} {e : LlmEvent} {s : UInt16}
    (hs : e.httpStatus = some s) : StatusColumn f e ↔ SatisfiesStatus f e := by
  unfold StatusColumn
  rw [hs]
  constructor
  · rintro ⟨hmin, hmax⟩
    exact ⟨fun m hm => ⟨s, hs, hmin m hm⟩, fun m hm => ⟨s, hs, hmax m hm⟩⟩
  · intro h
    constructor
    · intro m hm
      obtain ⟨t, ht, hle⟩ := h.min m hm
      rw [hs] at ht
      cases ht
      exact hle
    · intro m hm
      obtain ⟨t, ht, hlt⟩ := h.max m hm
      rw [hs] at ht
      cases ht
      exact hlt

/-- Without one, they differ exactly on the filters whose bounds take in 0. -/
theorem statusColumn_iff_of_none {f : EventFilter} {e : LlmEvent} (hs : e.httpStatus = none) :
    (StatusColumn f e ↔ SatisfiesStatus f e) ↔ ¬ f.TakesZero := by
  have hnone : SatisfiesStatus f e ↔ f.httpStatusMin = none ∧ f.httpStatusMax = none := by
    constructor
    · intro h
      constructor
      · rw [Option.eq_none_iff_forall_ne_some]
        intro m hm
        obtain ⟨s, hsome, -⟩ := h.min m hm
        simp [hs] at hsome
      · rw [Option.eq_none_iff_forall_ne_some]
        intro m hm
        obtain ⟨s, hsome, -⟩ := h.max m hm
        simp [hs] at hsome
    · rintro ⟨hmin, hmax⟩
      constructor
      · simp [hmin]
      · simp [hmax]
  rw [hnone]
  unfold StatusColumn
  rw [hs, Option.getD_none]
  constructor
  · intro h hzero
    obtain ⟨hmin, hmax⟩ := h.mp ⟨hzero.min, hzero.max⟩
    rcases hzero.given with hgiven | hgiven
    · exact hgiven hmin
    · exact hgiven hmax
  · intro h
    constructor
    · rintro ⟨hmin, hmax⟩
      by_contra hgiven
      exact h ⟨not_and_or.mp hgiven, hmin, hmax⟩
    · rintro ⟨hmin, hmax⟩
      simp [hmin, hmax]

/-- The engine's predicate on an event's row is the documented meaning of the filter, except for an
event without a status that a filter whose status bounds take in 0 otherwise asks for. -/
theorem filter_means_what_it_says_iff {db : Keplordb} (hdoc : db.FiltersAsDocumented)
    (tf : TextFormats) (f : EventFilter) (hf : f.NonEmpty) (e : LlmEvent) :
    (db.admits (toQueryFilter f) (toLogEvent tf e) = true ↔ Satisfies f e) ↔
      ¬ (e.httpStatus = none ∧ f.TakesZero ∧ SatisfiesOthers f e) := by
  rw [admits_iff hdoc tf hf]
  unfold Satisfies
  cases hs : e.httpStatus with
  | some s => simp [statusColumn_iff_of_some hs]
  | none =>
    rw [and_congr_right_iff, statusColumn_iff_of_none hs]
    tauto

/-- A filter for server errors, on an event that has a status. -/
theorem filter_means_what_it_says_server_errors :
    memoryDb.FiltersAsDocumented ∧ EventFilter.NonEmpty { httpStatusMin := some 500 } ∧
    (memoryDb.admits (toQueryFilter { httpStatusMin := some 500 })
        (toLogEvent textFormats sampleEvent) = true ↔
      Satisfies { httpStatusMin := some 500 } sampleEvent) := by
  have hf : EventFilter.NonEmpty { httpStatusMin := some 500 } := by
    constructor <;> decide
  refine ⟨memoryDb_filtersAsDocumented, hf, ?_⟩
  apply (filter_means_what_it_says_iff memoryDb_filtersAsDocumented textFormats _ hf sampleEvent).mpr
  rintro ⟨-, hzero, -⟩
  exact absurd (hzero.min 500 rfl) (by decide)

/-- A filter for everything below 500 admits the row of an event that has no status. -/
theorem filter_admits_event_without_status :
    EventFilter.NonEmpty { httpStatusMax := some 500 } ∧
    memoryDb.admits (toQueryFilter { httpStatusMax := some 500 })
      (toLogEvent textFormats { sampleEvent with httpStatus := none }) = true ∧
    ¬ Satisfies { httpStatusMax := some 500 } { sampleEvent with httpStatus := none } := by
  refine ⟨by constructor <;> decide, by decide +kernel, ?_⟩
  intro h
  obtain ⟨s, hs, -⟩ := h.2.max 500 rfl
  cases hs

end Keplor.Store
