import Keplor.Server.Viewing

/-!
# No event vanishes from view

What the request of `Viewing.lean` returns, whatever the archiver does meanwhile. The invariant
follows one row through the request: it is still to be read where it lies, or it has been read, or it
is archived and still to be listed or fetched (`Found`). A row leaves its engine only by being
archived (`Archiving.visible_step`), and what is archived stays where it is
(`Archiving.archived_step`), so no step of the archiver breaks the chain.
-/

set_option autoImplicit false

namespace Keplor.Server

open Keplor.Lib Keplor.Core Keplor.Store

/-- The row is visible in the tier. -/
def InTier {db : Keplordb} (store : KdbStore db) (t : String) (r : LogEvent) : Prop :=
  ∃ e, store.get t = some e ∧ r ∈ db.visible e

namespace Viewing

section Chain

variable {db : Keplordb} (c : ViewCall) (eventOf : EventId → LlmEvent) (t : String) (r : LogEvent)

/-- Where the row is, as far as the request has got. -/
def Found (s : Archiving db) : ViewStage → Prop
  | .asking => InTier s.store t r ∨ Archived c.archiver s.bucket r
  | .reading tiers out =>
      (t ∈ tiers ∧ InTier s.store t r) ∨ (∃ e ∈ out, fromEventRef c.archiver.formats r = pure e) ∨
        Archived c.archiver s.bucket r
  | .listing page =>
      (∃ x ∈ page, Shows c.archiver.formats r x) ∨ Archived c.archiver s.bucket r
  | .fetching left fetched page =>
      (∃ x ∈ page, Shows c.archiver.formats r x) ∨ (∃ m ∈ left, ArchivedIn c.archiver s.bucket m r) ∨
        ∃ e ∈ (fetchedEvents fetched).filter c.keeps,
          Shows c.archiver.formats r (llmEventToResponse c.archiver.formats e)
  | .done (.ok xs) => ∃ x ∈ xs, Shows c.archiver.formats r x
  | .done (.error _) => True

/-- All that the request holds has been counted. -/
def Counted (matched : Nat) : ViewStage → Prop
  | .asking | .done _ => True
  | .reading _ out => out.length ≤ matched
  | .listing page => page.length ≤ matched
  | .fetching _ fetched page =>
      page.length + ((fetchedEvents fetched).filter c.keeps).length ≤ matched

/-- The row is found as long as there was room for all that matched. -/
structure Inv (s : Viewing db) : Prop where
  archiving : Archiving.Inv c.archiver eventOf s.archiving
  counted : Counted c s.matched s.view
  found : c.query.pageLimit < s.matched ∨ Found c t r s.archiving s.view

/-- What comes from outside: archive ids are new, rows are of events, and nobody but the archiver
takes the row from its tier. -/
def World (s : Viewing db) : Input db → Prop
  | .archive x => s.archiving.Sound c.archiver eventOf x ∧
      ∀ store, x = .world store → InTier s.archiving.store t r → InTier store t r
  | .look _ => True

/-- The listing and the fetches of the request succeed. -/
def succeeds (s : Viewing db) : Input db → Bool
  | .archive _ => true
  | .look error =>
    match s.view with
    | .listing _ => error.isNone
    | .fetching (m :: _) _ _ => (fetch c s.archiving.bucket error m).isOk
    | _ => true

/-- No more manifests overlap the window than the listing returns. -/
def lists (s : Viewing db) : Input db → Bool
  | .archive _ => true
  | .look _ =>
    match s.view with
    | .listing _ => decide ((s.archiving.bucket.manifests.filter fun m =>
        m.overlaps c.query.userId c.query.fromTs c.query.toTs).length ≤ 2 ^ 32 - 1)
    | _ => true

variable {c eventOf t r}

theorem found_archive {s : Archiving db} {x : Archiving.Input db} {view : ViewStage}
    (h : Archiving.Inv c.archiver eventOf s)
    (hworld : ∀ store, x = .world store → InTier s.store t r → InTier store t r)
    (hf : Found c t r s view) : Found c t r (s.step c.archiver x) view := by
  have hlive : InTier s.store t r →
      InTier (s.step c.archiver x).store t r ∨ Archived c.archiver (s.step c.archiver x).bucket r := by
    rintro ⟨e, hget, hr⟩
    exact Archiving.visible_step h (fun store hx => hworld store hx ⟨e, hget, hr⟩) hget hr
  have hkept : Archived c.archiver s.bucket r → Archived c.archiver (s.step c.archiver x).bucket r :=
    Archiving.archived_step h
  cases view with
  | asking => exact hf.elim hlive fun hr => .inr (hkept hr)
  | reading tiers out =>
    rcases hf with ⟨ht, hr⟩ | hread | hr
    · exact (hlive hr).elim (fun hr => .inl ⟨ht, hr⟩) fun hr => .inr (.inr hr)
    · exact .inr (.inl hread)
    · exact .inr (.inr (hkept hr))
  | listing page => exact hf.imp_right hkept
  | fetching left fetched page =>
    refine hf.imp_right fun hf => hf.imp_left ?_
    rintro ⟨m, hm, hr⟩
    exact ⟨m, hm, hr.step h x⟩
  | done result => cases result <;> exact hf

theorem inv_archive {s : Viewing db} {x : Archiving.Input db} (h : Inv c eventOf t r s)
    (hx : World c eventOf t r s (.archive x)) : Inv c eventOf t r (s.step c (.archive x)) := by
  exact ⟨Archiving.inv_of_sound h.archiving hx.1, h.counted,
    h.found.imp_right (found_archive h.archiving hx.2)⟩

/-! ## The request's own steps -/

theorem Counted.mono {n n' : Nat} (hle : n ≤ n') {view : ViewStage} (h : Counted c n view) :
    Counted c n' view := by
  cases view with
  | asking => trivial
  | reading tiers out => exact Nat.le_trans h hle
  | listing page => exact Nat.le_trans h hle
  | fetching left fetched page => exact Nat.le_trans h hle
  | done result => trivial

theorem fetchedEvents_append (fetched fetched' : List (Except StoreError (List LlmEvent))) :
    fetchedEvents (fetched ++ fetched') = fetchedEvents fetched ++ fetchedEvents fetched' :=
  List.flatMap_append

theorem length_pageOf_le (c : ViewCall) (out : List LlmEvent) : (pageOf c out).length ≤ out.length := by
  rw [pageOf, livePage, List.length_map, List.length_take, List.length_map, List.length_take,
    List.length_insertionSort]
  omega

/-- With room for all of it, all of it is on the page. -/
theorem exists_mem_pageOf {out : List LlmEvent} (hlen : out.length ≤ c.query.pageLimit) {e : LlmEvent}
    (he : e ∈ out) (hread : fromEventRef c.archiver.formats r = pure e) :
    ∃ x ∈ pageOf c out, Shows c.archiver.formats r x := by
  refine ⟨_, ?_, shows_summary hread⟩
  have hsorted : (out.insertionSort (Desc LlmEvent.tsNs)).length = out.length :=
    List.length_insertionSort _ _
  rw [pageOf, livePage, List.take_of_length_le (l := out.insertionSort _) (by omega),
    List.take_of_length_le (by rw [List.length_map]; omega)]
  apply List.mem_map_of_mem
  apply List.mem_map_of_mem
  rwa [List.mem_insertionSort]

/-- With room for all of it, the merge keeps all of it. -/
theorem mem_merged {page : List EventResponse} {fetched : List (Except StoreError (List LlmEvent))}
    (hlen : page.length + ((fetchedEvents fetched).filter c.keeps).length ≤ c.query.pageLimit)
    {x : EventResponse} (hx : x ∈ page ∨ ∃ e ∈ (fetchedEvents fetched).filter c.keeps,
      x = llmEventToResponse c.archiver.formats e) : x ∈ merged c page fetched := by
  rw [merged, mergeFetched, ← ViewCall.keeps, List.take_of_length_le, List.mem_insertionSort, List.mem_append]
  · rcases hx with hx | ⟨e, he, rfl⟩
    · exact .inl hx
    · exact .inr (List.mem_map_of_mem he)
  · rw [List.length_insertionSort, List.length_append, List.length_map]
    exact hlen

/-- What one engine returns is no more than what matches in it. -/
theorem length_read_le (hcursor : c.query.cursor = none) {store : KdbStore db} {tier : String}
    {events : List LlmEvent}
    (hread : store.readTier c.archiver.formats c.queryFilter (c.query.pageLimit + 1) tier
      = pure events) : events.length ≤ matchingIn c store tier := by
  cases hget : store.get tier with
  | none =>
    rw [KdbStore.readTier, hget] at hread
    rw [← Fallible.pure_inj hread]
    exact Nat.zero_le _
  | some eng =>
    obtain ⟨rows, rest, hspec⟩ := KdbStore.readTier_spec hget hread
    have hall : ((db.visible eng).filter fun r => db.admits c.queryFilter r &&
        c.queryFilter.beforeCursor r).length = matchingIn c store tier := by
      have hqf : c.queryFilter = toQueryFilter c.query.filter := by
        rw [ViewCall.queryFilter, hcursor]
        rfl
      simp only [matchingIn, hget, hqf, QueryFilter.beforeCursor, toQueryFilter, Bool.and_true]
    rw [hspec.length_eq, ← hall, hspec.perm.length_eq, List.length_append]
    exact Nat.le_add_right _ _

/-- A turn over an engine finds the row there, unless more matches than the page holds. -/
theorem found_read (hcursor : c.query.cursor = none)
    (hadmits : db.admits (toQueryFilter c.query.filter) r = true) {s : Archiving db} {tier : String}
    {tiers : List String} {out events : List LlmEvent}
    (hread : s.store.readTier c.archiver.formats c.queryFilter (c.query.pageLimit + 1) tier
      = pure events) (hf : Found c t r s (.reading (tier :: tiers) out)) :
    c.query.pageLimit < matchingIn c s.store tier ∨ Found c t r s (.reading tiers (out ++ events)) := by
  rcases hf with ⟨ht, eng, hget, hr⟩ | ⟨e, he, hre⟩ | hr
  · rcases List.mem_cons.mp ht with rfl | ht
    · obtain ⟨rows, rest, hspec⟩ := KdbStore.readTier_spec hget hread
      have hle := length_read_le hcursor hread
      by_cases hshort : events.length < c.query.pageLimit + 1
      · have hqf : c.queryFilter = toQueryFilter c.query.filter := by
          rw [ViewCall.queryFilter, hcursor]
          rfl
        obtain ⟨e, he, hre⟩ := hspec.exists_event (by rw [hqf]; rfl) hshort hr (hqf ▸ hadmits)
        exact .inr (.inr (.inl ⟨e, List.mem_append_right _ he, hre⟩))
      · exact .inl (by omega)
    · exact .inr (.inl ⟨ht, eng, hget, hr⟩)
  · exact .inr (.inr (.inl ⟨e, List.mem_append_left _ he, hre⟩))
  · exact .inr (.inr (.inr hr))

/-- The listing has the manifest of an archived row. -/
theorem found_list (hdoc : db.FiltersAsDocumented) (hname : c.query.userId ≠ some "")
    (hadmits : db.admits (toQueryFilter c.query.filter) r = true) {b : Bucket}
    (hfew : (b.manifests.filter fun m =>
      m.overlaps c.query.userId c.query.fromTs c.query.toTs).length ≤ 2 ^ 32 - 1)
    (hr : Archived c.archiver b r) : ∃ m ∈ manifestsOf c b, ArchivedIn c.archiver b m r := by
  obtain ⟨m, hm, hin⟩ := archived_iff.mp hr
  have hoverlaps := overlaps_of_admits hdoc hadmits hin
  rw [EventQuery.named_eq hname] at hoverlaps
  exact ⟨m, mem_listArchives hfew hm hoverlaps, hin⟩

/-- A fetched file with the row in it has an event that passes the check and shows the row. -/
theorem found_fetch (hdoc : db.FiltersAsDocumented) (hname : c.query.userId ≠ some "")
    (hadmits : db.admits (toQueryFilter c.query.filter) r = true) {b : Bucket} {m : ArchiveManifest}
    {error : Option StoreError} {events : List LlmEvent} (hin : ArchivedIn c.archiver b m r)
    (hok : fetch c b error m = .ok events) :
    ∃ e ∈ events.filter c.keeps,
      Shows c.archiver.formats r (llmEventToResponse c.archiver.formats e) := by
  cases error with
  | some e => cases hok
  | none =>
    obtain ⟨e, metadata, hread, hmem⟩ := hin.exists_event hok
    refine ⟨{ e with metadata := metadata }, List.mem_filter.mpr ⟨hmem, ?_⟩, e, metadata, hread, rfl⟩
    -- the check reads the user and the time only
    exact keepsArchived_of_admits (e := e) hdoc hadmits hname hread

/-- A turn over an engine. -/
theorem inv_read (hcursor : c.query.cursor = none)
    (hadmits : db.admits (toQueryFilter c.query.filter) r = true) {s : Viewing db}
    {error : Option StoreError} (h : Inv c eventOf t r s) {tier : String} {tiers : List String}
    {out : List LlmEvent} (hs : s.view = .reading (tier :: tiers) out) :
    Inv c eventOf t r (s.look c error) := by
  obtain ⟨harch, hcounted, hfound⟩ := h
  rw [hs] at hcounted hfound
  rw [look_read hs]
  rcases hread : (s.archiving.store.readTier c.archiver.formats c.queryFilter
    (c.query.pageLimit + 1) tier).run with _ | e | events
  · exact ⟨harch, trivial, .inr trivial⟩
  · exact ⟨harch, trivial, .inr trivial⟩
  · refine ⟨harch, ?_, ?_⟩
    · show (out ++ events).length ≤ s.matched + matchingIn c s.archiving.store tier
      rw [List.length_append]
      exact Nat.add_le_add hcounted (length_read_le hcursor hread)
    · rcases hfound with hover | hf
      · exact .inl (Nat.lt_of_lt_of_le hover (Nat.le_add_right _ _))
      · refine (found_read hcursor hadmits hread hf).imp_left fun hover => ?_
        exact Nat.lt_of_lt_of_le hover (Nat.le_add_left _ _)

/-- The page of the live half. -/
theorem inv_page {s : Viewing db} {error : Option StoreError} (h : Inv c eventOf t r s)
    {out : List LlmEvent} (hs : s.view = .reading [] out) : Inv c eventOf t r (s.look c error) := by
  obtain ⟨harch, hcounted, hfound⟩ := h
  rw [hs] at hcounted hfound
  rw [look_page hs]
  refine ⟨harch, Nat.le_trans (length_pageOf_le c out) hcounted, ?_⟩
  rcases Nat.lt_or_ge c.query.pageLimit s.matched with hover | hroom
  · exact .inl hover
  · refine .inr ?_
    rcases hfound.resolve_left (Nat.not_lt.mpr hroom) with ⟨ht, -⟩ | ⟨e, he, hre⟩ | hr
    · cases ht
    · exact .inl (exists_mem_pageOf (Nat.le_trans hcounted hroom) he hre)
    · exact .inr hr

/-- The listing. -/
theorem inv_list (hdoc : db.FiltersAsDocumented) (hname : c.query.userId ≠ some "")
    (hadmits : db.admits (toQueryFilter c.query.filter) r = true) {s : Viewing db}
    (h : Inv c eventOf t r s) {page : List EventResponse} (hs : s.view = .listing page)
    (hfew : (s.archiving.bucket.manifests.filter fun m =>
      m.overlaps c.query.userId c.query.fromTs c.query.toTs).length ≤ 2 ^ 32 - 1) :
    Inv c eventOf t r (s.look c none) := by
  obtain ⟨harch, hcounted, hfound⟩ := h
  rw [hs] at hcounted hfound
  by_cases hnil : manifestsOf c s.archiving.bucket = []
  · rw [look_none hs hnil]
    refine ⟨harch, trivial, hfound.imp_right fun hf => ?_⟩
    rcases hf with hx | hr
    · exact hx
    · obtain ⟨m, hm, -⟩ := found_list hdoc hname hadmits hfew hr
      rw [hnil] at hm
      cases hm
  · rw [look_listed hs hnil]
    refine ⟨harch, hcounted, hfound.imp_right fun hf => ?_⟩
    exact hf.imp_right fun hr => .inl (found_list hdoc hname hadmits hfew hr)

/-- A fetch. -/
theorem inv_fetch (hdoc : db.FiltersAsDocumented) (hname : c.query.userId ≠ some "")
    (hadmits : db.admits (toQueryFilter c.query.filter) r = true) {s : Viewing db}
    {error : Option StoreError} (h : Inv c eventOf t r s) {m : ArchiveManifest}
    {left : List ArchiveManifest} {fetched : List (Except StoreError (List LlmEvent))}
    {page : List EventResponse} (hs : s.view = .fetching (m :: left) fetched page)
    {events : List LlmEvent} (hok : fetch c s.archiving.bucket error m = .ok events) :
    Inv c eventOf t r (s.look c error) := by
  obtain ⟨harch, hcounted, hfound⟩ := h
  rw [hs] at hcounted hfound
  rw [look_fetch hs, hok]
  have hadd : (fetchedEvents (fetched ++ [.ok events])).filter c.keeps
      = (fetchedEvents fetched).filter c.keeps ++ events.filter c.keeps := by
    rw [fetchedEvents_append, List.filter_append]
    simp [fetchedEvents]
  refine ⟨harch, ?_, ?_⟩
  · show page.length + ((fetchedEvents (fetched ++ [.ok events])).filter c.keeps).length
      ≤ s.matched + matchingOf c (.ok events)
    have hnew : matchingOf c (.ok events) = (events.filter c.keeps).length := by
      simp [matchingOf, fetchedEvents]
    rw [hadd, List.length_append, hnew, ← Nat.add_assoc]
    exact Nat.add_le_add_right hcounted _
  · refine hfound.imp (fun hover => Nat.lt_of_lt_of_le hover (Nat.le_add_right _ _)) fun hf => ?_
    show (∃ x ∈ page, _) ∨ (∃ m ∈ left, _) ∨
      ∃ e ∈ (fetchedEvents (fetched ++ [.ok events])).filter c.keeps, _
    rw [hadd]
    rcases hf with hx | ⟨m', hm', hin⟩ | ⟨e, he, hshows⟩
    · exact .inl hx
    · rcases List.mem_cons.mp hm' with rfl | hm'
      · obtain ⟨e, he, hshows⟩ := found_fetch hdoc hname hadmits hin hok
        exact .inr (.inr ⟨e, List.mem_append_right _ he, hshows⟩)
      · exact .inr (.inl ⟨m', hm', hin⟩)
    · exact .inr (.inr ⟨e, List.mem_append_left _ he, hshows⟩)

/-- The merge. -/
theorem inv_merge {s : Viewing db} {error : Option StoreError} (h : Inv c eventOf t r s)
    {fetched : List (Except StoreError (List LlmEvent))} {page : List EventResponse}
    (hs : s.view = .fetching [] fetched page) : Inv c eventOf t r (s.look c error) := by
  obtain ⟨harch, hcounted, hfound⟩ := h
  rw [hs] at hcounted hfound
  rw [look_merge hs]
  refine ⟨harch, trivial, ?_⟩
  rcases Nat.lt_or_ge c.query.pageLimit s.matched with hover | hroom
  · exact .inl hover
  · have hlen := Nat.le_trans hcounted hroom
    refine .inr ?_
    rcases hfound.resolve_left (Nat.not_lt.mpr hroom) with ⟨x, hx, hshows⟩ | ⟨m, hm, -⟩ | ⟨e, he, hshows⟩
    · exact ⟨x, mem_merged hlen (.inl hx), hshows⟩
    · cases hm
    · exact ⟨_, mem_merged hlen (.inr ⟨e, he, rfl⟩), hshows⟩

theorem inv_look (hdoc : db.FiltersAsDocumented) (hcursor : c.query.cursor = none)
    (hname : c.query.userId ≠ some "")
    (hadmits : db.admits (toQueryFilter c.query.filter) r = true) {s : Viewing db}
    {error : Option StoreError} (h : Inv c eventOf t r s)
    (hok : succeeds c s (.look error) = true) (hfew : lists c s (.look error) = true) :
    Inv c eventOf t r (s.look c error) := by
  cases hs : s.view with
  | asking =>
    obtain ⟨harch, -, hfound⟩ := h
    rw [look_asking hs]
    refine ⟨harch, Nat.zero_le _, hfound.imp_right fun hf => ?_⟩
    rw [hs] at hf
    rcases hf with ⟨e, hget, hr⟩ | hr
    · exact .inl ⟨KdbStore.mem_tiers_of_get hget, e, hget, hr⟩
    · exact .inr (.inr hr)
  | reading tiers out =>
    cases tiers with
    | nil => exact inv_page h hs
    | cons tier tiers => exact inv_read hcursor hadmits h hs
  | listing page =>
    simp only [succeeds, lists, hs, Option.isNone_iff_eq_none, decide_eq_true_eq] at hok hfew
    subst hok
    exact inv_list hdoc hname hadmits h hs hfew
  | fetching left fetched page =>
    cases left with
    | nil => exact inv_merge h hs
    | cons m left =>
      simp only [succeeds, hs] at hok
      cases hfetch : fetch c s.archiving.bucket error m with
      | error e =>
        rw [hfetch] at hok
        cases hok
      | ok events => exact inv_fetch hdoc hname hadmits h hs hfetch
  | done result =>
    rw [look_done hs]
    exact h

theorem inv_step (hdoc : db.FiltersAsDocumented) (hcursor : c.query.cursor = none)
    (hname : c.query.userId ≠ some "")
    (hadmits : db.admits (toQueryFilter c.query.filter) r = true) (s : Viewing db) (x : Input db)
    (h : Inv c eventOf t r s)
    (hx : World c eventOf t r s x ∧ succeeds c s x = true ∧ lists c s x = true) :
    Inv c eventOf t r (s.step c x) := by
  cases x with
  | archive x => exact inv_archive h hx.1
  | look error => exact inv_look hdoc hcursor hname hadmits h hx.2.1 hx.2.2

end Chain

end Viewing

section CutOff

variable {db : Keplordb}

namespace Viewing

variable {c : ViewCall} {s₁ : Archiving db} {m₀ : ArchiveManifest} {events : List LlmEvent}

end Viewing

end CutOff

end Keplor.Server
