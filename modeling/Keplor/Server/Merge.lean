import Keplor.Lib.Leading
import Keplor.Server.Viewing
import Mathlib.Data.Prod.Lex
import Mathlib.Data.String.Basic

/-!
# What `include_archived` answers

The documentation of `include_archived` promises one answer: the newest events of the live store and
the archive together that satisfy the filter. The two halves are put together in a way that keeps
this promise only up to a point. The archived half is filtered by user and time and by nothing else,
an event that is in both halves stays there twice, and a request for the user with the empty name
lists no manifest at all.

`answers_iff_clean` says exactly when that does not show: when everything that is wrong with the
merged list comes after a full page of events that belong on it. It is an instance of
`leading_eq_iff`, with the keys by which the events are sorted.
-/

set_option autoImplicit false

namespace Keplor.Server

open Keplor.Lib Keplor.Core Keplor.Store

/-! ## Keys -/

/-- What events are sorted by: the time, then the text of the id. -/
abbrev ViewKey := Int64 ×ₗ String

def EventResponse.key (x : EventResponse) : ViewKey := toLex (x.timestamp, x.id)

def rowKey (r : LogEvent) : ViewKey := toLex (r.tsNs, r.id)

def eventKey (tf : TextFormats) (e : LlmEvent) : ViewKey := toLex (e.tsNs, tf.ulid.print e.id)

theorem newestFirst_iff {x y : EventResponse} : NewestFirst x y ↔ y.key ≤ x.key := by
  rw [EventResponse.key, EventResponse.key, Prod.Lex.toLex_le_toLex]
  rfl

/-- Sorting the responses sorts their keys. -/
theorem map_key_insertionSort (xs : List EventResponse) :
    (xs.insertionSort NewestFirst).map EventResponse.key
      = (xs.map EventResponse.key).insertionSort (· ≥ ·) :=
  List.map_insertionSort _ _ _ _ fun _ _ _ _ => newestFirst_iff

/-- Written rows of one key are one row. -/
theorem eq_of_rowKey {tf : TextFormats} {eventOf : EventId → LlmEvent} {r r' : LogEvent}
    (h : WrittenRow tf eventOf r) (h' : WrittenRow tf eventOf r') (hkey : rowKey r = rowKey r') :
    r = r' :=
  h.eq_of_id h' (congrArg (fun k => (ofLex k).2) hkey)

theorem rowKey_rowOf {a : Archiver} {eventOf : EventId → LlmEvent} {e : LlmEvent}
    (hread : fromEventRef a.formats (rowOf a eventOf e) = pure e) :
    rowKey (rowOf a eventOf e) = eventKey a.formats e := by
  obtain ⟨-, hid, hts⟩ := written_rowOf hread
  rw [rowKey, eventKey, hid, hts]

/-- The key of a written row is that of the event read from it. -/
theorem eventKey_of_read {a : Archiver} {eventOf : EventId → LlmEvent} {r : LogEvent} {e : LlmEvent}
    (hw : WrittenRow a.formats eventOf r) (hread : fromEventRef a.formats r = pure e) :
    eventKey a.formats e = rowKey r := by
  rw [eventKey, rowKey, hw.print_id hread, (fields_of_fromEventRef hread).2.1]

/-! ## The archived half -/

section Archive

variable {a : Archiver} {eventOf : EventId → LlmEvent} {b : Bucket} {q : EventQuery}

/-- The events of a file, none if it cannot be fetched. -/
def fileEvents (a : Archiver) (b : Bucket) (m : ArchiveManifest) : List LlmEvent :=
  fetchedEvents [fetchOne a b m]

/-- The events of the recorded files that pass the check of the archived half. -/
def keptEvents (a : Archiver) (b : Bucket) (q : EventQuery) : List LlmEvent :=
  (b.manifests.flatMap (fileEvents a b)).filter (keepsArchived q.userId q.fromTs q.toTs)

theorem fetchedEvents_map (ms : List ArchiveManifest) :
    fetchedEvents (ms.map (fetchOne a b)) = ms.flatMap (fileEvents a b) := by
  rw [fetchedEvents, List.flatMap_map]
  refine List.flatMap_congr fun m _ => ?_
  rw [fileEvents, fetchedEvents, List.flatMap_singleton]

theorem mem_fileEvents {m : ArchiveManifest} {e : LlmEvent} :
    e ∈ fileEvents a b m ↔ ∃ events, fetchOne a b m = .ok events ∧ e ∈ events := by
  rw [fileEvents, fetchedEvents, List.flatMap_singleton]
  cases fetchOne a b m with
  | error err => simp
  | ok events => simp

/-- What a file holds was read from a row, and its manifest is that of the event. -/
theorem of_mem_fileEvents (hrec : Recorded a eventOf b) {m : ArchiveManifest} (hm : m ∈ b.manifests)
    {e' : LlmEvent} (he' : e' ∈ fileEvents a b m) :
    ∃ e metadata, e' = { e with metadata := metadata } ∧
      fromEventRef a.formats (rowOf a eventOf e) = pure e ∧ ArchivedIn a b m (rowOf a eventOf e) ∧
      groupKey e = ⟨m.userId, m.day⟩ ∧ m.minTsNs ≤ e.tsNs ∧ e.tsNs ≤ m.maxTsNs := by
  obtain ⟨chunk, hchunk⟩ := hrec m hm
  obtain ⟨events, hfetch, hmem⟩ := mem_fileEvents.mp he'
  obtain ⟨e, he, metadata, rfl⟩ := hchunk.exists_mem hfetch hmem
  have hin := hchunk.archivedIn he
  obtain ⟨-, -, -, -, -, hread⟩ := hchunk
  exact ⟨e, metadata, rfl, (hread e he).1, hin, (hread e he).2⟩

/-- A manifest with an event that passes the check is listed. -/
theorem overlaps_of_keeps (hrec : Recorded a eventOf b) {m : ArchiveManifest} (hm : m ∈ b.manifests)
    {e : LlmEvent} (he : e ∈ fileEvents a b m)
    (hkeeps : keepsArchived q.userId q.fromTs q.toTs e = true) :
    m.overlaps q.userId q.fromTs q.toTs = true := by
  obtain ⟨e, metadata, rfl, -, -, hgroup, hmin, hmax⟩ := of_mem_fileEvents hrec hm he
  obtain ⟨huser, hfrom, hto⟩ := keepsArchived_iff.mp hkeeps
  refine ArchiveManifest.overlaps_iff.mpr ⟨fun u hq => ?_, fun t ht => ?_, fun t ht => ?_⟩
  · have hown : e.userId = some u := huser u hq
    have hkey := congrArg GroupKey.user hgroup
    rw [groupKey, hown] at hkey
    exact hkey.symm
  · exact Int64.le_trans (hfrom t ht) hmax
  · exact Int64.le_trans hmin (hto t ht)

theorem flatMap_filter_of_nil {α β : Type} {p : α → Bool} {f : α → List β} {l : List α}
    (h : ∀ x ∈ l, f x ≠ [] → p x = true) : (l.filter p).flatMap f = l.flatMap f := by
  induction l with
  | nil => rfl
  | cons x l ih =>
    have hrest := ih fun y hy => h y (List.mem_cons_of_mem _ hy)
    rw [List.flatMap_cons]
    by_cases hx : p x = true
    · rw [List.filter_cons_of_pos hx, List.flatMap_cons, hrest]
    · have hnil : f x = [] := by
        by_contra hne
        exact hx (h x List.mem_cons_self hne)
      rw [List.filter_cons_of_neg hx, hrest, hnil, List.nil_append]

/-- The archived half of a request, up to the order. -/
theorem perm_kept (hrec : Recorded a eventOf b)
    (hfew : (b.manifests.filter fun m => m.overlaps q.userId q.fromTs q.toTs).length ≤ 2 ^ 32 - 1) :
    ((fetchedEvents ((listArchives b q.userId q.fromTs q.toTs).map (fetchOne a b))).filter
      (keepsArchived q.userId q.fromTs q.toTs)).Perm (keptEvents a b q) := by
  rw [fetchedEvents_map, keptEvents]
  refine (((perm_listArchives hfew).flatMap_right _).filter _).trans (.of_eq ?_)
  rw [List.filter_flatMap, List.filter_flatMap]
  apply flatMap_filter_of_nil
  intro m hm hne
  obtain ⟨e, he⟩ := List.exists_mem_of_ne_nil _ hne
  obtain ⟨he, hkeeps⟩ := List.mem_filter.mp he
  exact overlaps_of_keeps hrec hm he hkeeps

end Archive

/-! ## The page as a whole -/

section Page

variable {db : Keplordb} {a : Archiver} {eventOf : EventId → LlmEvent} {store : KdbStore db}
  {b : Bucket} {q : EventQuery}

/-- Every row and event a request may return, each as often as it is there. -/
def candidates (a : Archiver) (store : KdbStore db) (b : Bucket) (q : EventQuery) : List ViewKey :=
  (store.matchingRows q.filter).map rowKey ++ (keptEvents a b q).map (eventKey a.formats)

/-- The live half leaves out what comes after a full page. -/
theorem exists_rest_of_livePage {n : Nat} {events page : List LlmEvent}
    (hpage : IsPage LlmEvent.tsNs (n + 1) events page) (hcut : CleanCut LlmEvent.tsNs n events) :
    ∃ rest, (events.map (eventKey a.formats)).Perm
        ((page.take n).map (eventKey a.formats) ++ rest) ∧
      ∀ k ∈ rest, n ≤ ((page.take n).map (eventKey a.formats)).countP (k ≤ ·) := by
  obtain ⟨rest, hperm, hcross, hfull⟩ := exists_rest_of_page hpage
  refine ⟨rest.map (eventKey a.formats), ?_, ?_⟩
  · rw [← List.map_append]
    exact hperm.map _
  · intro k hk
    obtain ⟨e, he, rfl⟩ := List.mem_map.mp hk
    rw [List.countP_eq_length.mpr, List.length_map, hfull (List.ne_nil_of_mem he)]
    intro k' hk'
    obtain ⟨e', he', rfl⟩ := List.mem_map.mp hk'
    have hlt := lt_of_cleanCut hcut hperm hcross hfull he' he
    exact decide_eq_true (Prod.Lex.toLex_le_toLex.mpr (.inl hlt))

/-- Without an archived half the page is not sorted again. -/
theorem pairwise_livePage {n : Nat} {events page : List LlmEvent}
    (hpage : IsPage LlmEvent.tsNs (n + 1) events page)
    (hdistinct : DistinctBefore LlmEvent.tsNs n events) :
    ((page.take n).map (eventKey a.formats)).Pairwise (· ≥ ·) := by
  refine List.pairwise_map.mpr ((pairwise_lt_of_distinctBefore hdistinct hpage).imp ?_)
  intro e e' hlt
  exact Prod.Lex.toLex_le_toLex.mpr (.inl hlt)

/-- The keys of both halves have the same first ones as all candidates. -/
theorem leading_merge {n : Nat} {ks live kept rest kept' : List ViewKey} (hks : ks.Perm (live ++ rest))
    (hbeaten : ∀ k ∈ rest, n ≤ live.countP (k ≤ ·)) (hkept : kept.Perm kept') :
    leading n (live ++ kept) = leading n (ks ++ kept') := by
  have hperm : (ks ++ kept').Perm ((live ++ kept) ++ rest) := by
    refine (hks.append hkept.symm).trans ?_
    rw [List.append_assoc, List.append_assoc]
    exact List.perm_append_comm.append_left live
  refine (isPage_of_beaten id hperm fun k hk => ?_).eq_leading
  rw [List.countP_append]
  exact Nat.le_add_right_of_le (hbeaten k hk)

theorem key_livePage (q : EventQuery) (page : List LlmEvent) :
    (livePage a.formats q page).map EventResponse.key
      = (page.take q.pageLimit).map (eventKey a.formats) := by
  rw [livePage, List.map_map, ← List.map_take, List.map_map]
  rfl

/-- The sorted and cut answer, from the keys of the two halves. -/
theorem key_mergeArchivedEvents (live : List EventResponse) (hlive : live.length ≤ q.pageLimit)
    (hsorted : listArchives b q.userId q.fromTs q.toTs = [] →
      (live.map EventResponse.key).Pairwise (· ≥ ·)) :
    (mergeArchivedEvents (some a) b live q.userId q.fromTs q.toTs q.pageLimit).map EventResponse.key
      = leading q.pageLimit (live.map EventResponse.key ++
        ((fetchedEvents ((listArchives b q.userId q.fromTs q.toTs).map (fetchOne a b))).filter
          (keepsArchived q.userId q.fromTs q.toTs)).map (eventKey a.formats)) := by
  rw [mergeArchivedEvents]
  split
  · rename_i hempty
    have hnil := List.isEmpty_iff.mp hempty
    rw [hnil, List.map_nil, fetchedEvents, List.flatMap_nil, List.filter_nil, List.map_nil,
      List.append_nil, leading_of_sorted (hsorted hnil) (by rwa [List.length_map])]
  · rw [mergeFetched, List.map_take, map_key_insertionSort, List.map_append, List.map_map]
    rfl

end Page

/-! ## The promise -/

section Promise

variable {db : Keplordb} (a : Archiver) (eventOf : EventId → LlmEvent) (store : KdbStore db)
  (b : Bucket) (q : EventQuery)

/-- A row whose event is live or archived and satisfies the whole filter. -/
def Wanted (r : LogEvent) : Prop :=
  Written a eventOf r ∧ (store.Sees r ∨ Archived a b r) ∧
    db.admits (toQueryFilter q.filter) r = true

/-- The answer is the first page of the wanted rows, each of them once. -/
structure Answers (wanted : List LogEvent) (xs : List EventResponse) : Prop where
  keys : xs.map EventResponse.key = leading q.pageLimit (wanted.map rowKey)
  shows : ∀ x ∈ xs, ∃ r ∈ wanted, Shows a.formats r x

/-- The engines answer, the rows can be read, and the files of the request can be fetched. -/
structure Serves : Prop where
  queries : ∀ p ∈ store.engines, ∀ qf n, ∃ rows, db.queryRecent p.2 qf n = .ok rows
  reads : ∀ r ∈ store.matchingRows q.filter, ∃ e, fromEventRef a.formats r = pure e
  fetches : ∀ m ∈ b.manifests, m.overlaps q.named q.fromTs q.toTs = true →
    ∃ events, fetchOne a b m = .ok events

/-- The listing has room for the manifests, the live page does not end between rows of one time, and
where it is not sorted again no two of its rows have one time. -/
structure Untied : Prop where
  few : (b.manifests.filter fun m => m.overlaps q.userId q.fromTs q.toTs).length ≤ 2 ^ 32 - 1
  cut : CleanCut LogEvent.tsNs q.pageLimit (store.matchingRows q.filter)
  alone : listArchives b q.userId q.fromTs q.toTs = [] →
    DistinctBefore LogEvent.tsNs q.pageLimit (store.matchingRows q.filter)

/-- What is wrong with the merged list comes after a full page of wanted rows. -/
structure Clean (wanted : List LogEvent) : Prop where
  /-- archived events of the user and the window that the rest of the filter excludes -/
  strangers : ∀ e ∈ keptEvents a b q,
    db.admits (toQueryFilter q.filter) (rowOf a eventOf e) = false →
      q.pageLimit ≤ (wanted.map rowKey).countP (eventKey a.formats e ≤ ·)
  /-- events that are there more than once, live or archived -/
  copies : ∀ k, (candidates a store b q).Duplicate k →
    q.pageLimit ≤ (wanted.map rowKey).countP (k ≤ ·)
  /-- archived events without a user, when the request is for the empty name -/
  nameless : q.userId = some "" → ∀ r ∈ wanted, ¬ store.Sees r →
    q.pageLimit ≤ (wanted.map rowKey).countP (rowKey r < ·)

variable {a eventOf store b q}

theorem mem_keptEvents {e : LlmEvent} : e ∈ keptEvents a b q ↔
    (∃ m ∈ b.manifests, e ∈ fileEvents a b m) ∧
      keepsArchived q.userId q.fromTs q.toTs e = true := by
  rw [keptEvents, List.mem_filter, List.mem_flatMap]

/-- A kept event was read from its row. -/
theorem read_of_mem_keptEvents (hrec : Recorded a eventOf b) {e : LlmEvent}
    (he : e ∈ keptEvents a b q) : Written a eventOf (rowOf a eventOf e) ∧
      Archived a b (rowOf a eventOf e) ∧ rowKey (rowOf a eventOf e) = eventKey a.formats e ∧
      Shows a.formats (rowOf a eventOf e) (llmEventToResponse a.formats e) := by
  obtain ⟨⟨m, hm, he⟩, -⟩ := mem_keptEvents.mp he
  obtain ⟨e₀, metadata, rfl, hread, hin, -⟩ := of_mem_fileEvents hrec hm he
  have hkey : rowKey (rowOf a eventOf e₀) = eventKey a.formats e₀ := rowKey_rowOf hread
  exact ⟨(written_rowOf hread).1, ⟨m, hm, hin⟩, hkey, e₀, metadata, hread, rfl⟩

/-- An archived row that matches is the row of an event of a file. -/
theorem exists_of_archived (hdoc : db.FiltersAsDocumented) (hserves : Serves a store b q)
    {r : LogEvent} (hw : Written a eventOf r) (hr : Archived a b r)
    (hadmits : db.admits (toQueryFilter q.filter) r = true) :
    ∃ m ∈ b.manifests, ∃ e ∈ fileEvents a b m, r = rowOf a eventOf e ∧
      ∃ e₀ metadata, e = { e₀ with metadata := metadata } ∧ fromEventRef a.formats r = pure e₀ := by
  obtain ⟨m, hm, hin⟩ := archived_iff.mp hr
  obtain ⟨events, hfetch⟩ := hserves.fetches m hm (overlaps_of_admits hdoc hadmits hin)
  obtain ⟨e₀, metadata, hread, hmem⟩ := hin.exists_event hfetch
  have hrow : r = rowOf a eventOf e₀ := eq_rowOf hw hread
  exact ⟨m, hm, _, mem_fileEvents.mpr ⟨events, hfetch, hmem⟩, hrow, e₀, metadata, rfl, hread⟩

open Classical in
/-- The wanted rows are a list. -/
theorem exists_wanted (hdoc : db.FiltersAsDocumented) (hrows : ∀ r, store.Sees r → Written a eventOf r)
    (hrec : Recorded a eventOf b) (hserves : Serves a store b q) :
    ∃ wanted : List LogEvent, wanted.Nodup ∧ ∀ r, r ∈ wanted ↔ Wanted a eventOf store b q r := by
  refine ⟨(store.matchingRows q.filter ++ ((b.manifests.flatMap (fileEvents a b)).map
    (rowOf a eventOf)).filter (db.admits (toQueryFilter q.filter))).dedup, List.nodup_dedup _, ?_⟩
  intro r
  rw [List.mem_dedup, List.mem_append, KdbStore.mem_matchingRows, List.mem_filter, List.mem_map]
  constructor
  · rintro (⟨hsees, hadmits⟩ | ⟨⟨e, he, rfl⟩, hadmits⟩)
    · exact ⟨hrows r hsees, .inl hsees, hadmits⟩
    · obtain ⟨m, hm, he⟩ := List.mem_flatMap.mp he
      obtain ⟨e₀, metadata, rfl, hread, hin, -⟩ := of_mem_fileEvents hrec hm he
      exact ⟨(written_rowOf hread).1, .inr ⟨m, hm, hin⟩, hadmits⟩
  · rintro ⟨hw, hsees | harch, hadmits⟩
    · exact .inl ⟨hsees, hadmits⟩
    · obtain ⟨m, hm, e, he, hrow, -⟩ := exists_of_archived hdoc hserves hw harch hadmits
      exact .inr ⟨⟨e, List.mem_flatMap.mpr ⟨m, hm, he⟩, hrow.symm⟩, hadmits⟩

/-! ## The answer -/

theorem mem_mergeArchivedEvents {live : List EventResponse} {limit : Nat} {x : EventResponse}
    (hx : x ∈ mergeArchivedEvents (some a) b live q.userId q.fromTs q.toTs limit) :
    x ∈ live ∨ ∃ e ∈ (fetchedEvents ((listArchives b q.userId q.fromTs q.toTs).map (fetchOne a b))).filter
      (keepsArchived q.userId q.fromTs q.toTs), x = llmEventToResponse a.formats e := by
  rw [mergeArchivedEvents] at hx
  split at hx
  · exact .inl hx
  · rw [mergeFetched] at hx
    have hmem := List.mem_of_mem_take hx
    rw [List.mem_insertionSort, List.mem_append] at hmem
    refine hmem.imp_right fun hmem => ?_
    obtain ⟨e, he, rfl⟩ := List.mem_map.mp hmem
    exact ⟨e, he, rfl⟩

/-- The live half of the answer. -/
theorem exists_livePage (hrows : ∀ r, store.Sees r → Written a eventOf r)
    (hserves : Serves a store b q) (huntied : Untied store b q) (hcursor : q.cursor = none) :
    ∃ page rest, store.query a.formats q.filter (q.pageLimit + 1) q.cursor = pure page ∧
      ((store.matchingRows q.filter).map rowKey).Perm
        ((page.take q.pageLimit).map (eventKey a.formats) ++ rest) ∧
      (∀ k ∈ rest, q.pageLimit ≤ ((page.take q.pageLimit).map (eventKey a.formats)).countP (k ≤ ·)) ∧
      (listArchives b q.userId q.fromTs q.toTs = [] →
        ((page.take q.pageLimit).map (eventKey a.formats)).Pairwise (· ≥ ·)) ∧
      ∀ e ∈ page, ∃ r, store.Sees r ∧ fromEventRef a.formats r = pure e := by
  have : Nonempty LlmEvent := ⟨sampleEvent⟩
  have hreads := hserves.reads
  choose! g hg using hreads
  obtain ⟨page, hpage, hisPage⟩ := KdbStore.query_isPage none (q.pageLimit + 1) hserves.queries hg
  rw [below] at hisPage
  have hts : ∀ r ∈ store.matchingRows q.filter, (g r).tsNs = r.tsNs :=
    fun r hr => (fields_of_fromEventRef (hg r hr)).2.1
  have hkeys : ((store.matchingRows q.filter).map g).map (eventKey a.formats)
      = (store.matchingRows q.filter).map rowKey := by
    rw [List.map_map]
    refine List.map_congr_left fun r hr => ?_
    exact eventKey_of_read (hrows r (KdbStore.mem_matchingRows.mp hr).1) (hg r hr)
  have hcount : ∀ p : Int64 → Bool, ((store.matchingRows q.filter).map g).countP (fun e => p e.tsNs)
      = (store.matchingRows q.filter).countP fun r => p r.tsNs := by
    intro p
    rw [List.countP_map]
    refine List.countP_congr fun r hr => ?_
    rw [Function.comp_apply, hts r hr]
  -- reading a row keeps its time, so the cut is as clean among the events as among the rows
  have hcut : CleanCut LlmEvent.tsNs q.pageLimit ((store.matchingRows q.filter).map g) := by
    intro t ht
    rw [hcount (t < ·)] at ht
    rw [hcount (t ≤ ·)]
    exact huntied.cut t ht
  obtain ⟨rest, hperm, hbeaten⟩ := exists_rest_of_livePage (a := a) hisPage hcut
  rw [hcursor]
  refine ⟨page, rest, hpage, hkeys ▸ hperm, hbeaten, fun hnil => ?_, fun e he => ?_⟩
  · refine pairwise_livePage hisPage fun t ht => ?_
    rw [hcount (t < ·)] at ht ⊢
    rw [hcount (t ≤ ·)]
    exact huntied.alone hnil t ht
  · obtain ⟨left, hall, -⟩ := hisPage
    obtain ⟨r, hr, rfl⟩ := List.mem_map.mp (hall.mem_iff.mpr (List.mem_append_left left he))
    exact ⟨r, (KdbStore.mem_matchingRows.mp hr).1, hg r hr⟩

theorem queryEvents_of_query (joinErrorText : String) {page : List LlmEvent}
    (h : store.query a.formats q.filter (q.pageLimit + 1) q.cursor = pure page)
    (hinclude : q.includeArchived = true) :
    ∃ resp, queryEvents a.formats joinErrorText (some a) store b q = .ok resp ∧
      resp.events = mergeArchivedEvents (some a) b (livePage a.formats q page) q.userId q.fromTs q.toTs
        q.pageLimit := by
  refine ⟨_, by rw [queryEvents, h]; rfl, ?_⟩
  exact if_pos hinclude

/-- What the handler returns: the first of all candidates, each showing the row of its key. -/
theorem key_queryEvents (hrows : ∀ r, store.Sees r → Written a eventOf r)
    (hrec : Recorded a eventOf b) (hserves : Serves a store b q) (huntied : Untied store b q)
    (hcursor : q.cursor = none) (hinclude : q.includeArchived = true) (joinErrorText : String) :
    ∃ resp, queryEvents a.formats joinErrorText (some a) store b q = .ok resp ∧
      resp.events.map EventResponse.key = leading q.pageLimit (candidates a store b q) ∧
      ∀ x ∈ resp.events, ∃ r, Written a eventOf r ∧ x.key = rowKey r ∧ Shows a.formats r x := by
  obtain ⟨page, rest, hquery, hperm, hbeaten, hsorted, hread⟩ :=
    exists_livePage hrows hserves huntied hcursor
  have hkept := perm_kept (q := q) hrec huntied.few
  obtain ⟨resp, hresp, hevents⟩ := queryEvents_of_query (b := b) joinErrorText hquery hinclude
  refine ⟨resp, hresp, ?_, ?_⟩
  · rw [hevents, key_mergeArchivedEvents, key_livePage, candidates]
    · exact leading_merge hperm hbeaten (hkept.map _)
    · rw [livePage, List.length_map]
      exact List.length_take_le _ _
    · intro hnil
      rw [key_livePage]
      exact hsorted hnil
  · intro x hx
    rw [hevents] at hx
    rcases mem_mergeArchivedEvents hx with hx | ⟨e, he, rfl⟩
    · rw [livePage, ← List.map_take, List.map_map] at hx
      obtain ⟨e, he, rfl⟩ := List.mem_map.mp hx
      obtain ⟨r, hsees, hre⟩ := hread e (List.mem_of_mem_take he)
      exact ⟨r, hrows r hsees, eventKey_of_read (hrows r hsees) hre, shows_summary hre⟩
    · obtain ⟨hw, -, hkey, hshows⟩ := read_of_mem_keptEvents hrec (hkept.mem_iff.mp he)
      exact ⟨_, hw, hkey.symm, hshows⟩

/-! ## When the promise is kept -/

variable {wanted : List LogEvent}

theorem nodup_wantedKeys (hnodup : wanted.Nodup)
    (hwanted : ∀ r, r ∈ wanted ↔ Wanted a eventOf store b q r) : (wanted.map rowKey).Nodup := by
  refine hnodup.map_on fun r hr r' hr' hkey => ?_
  exact eq_of_rowKey ((hwanted r).mp hr).1 ((hwanted r').mp hr').1 hkey

/-- A written row has the key of a wanted one only if it is wanted. -/
theorem rowKey_mem_iff (hwanted : ∀ r, r ∈ wanted ↔ Wanted a eventOf store b q r) {r : LogEvent}
    (hw : Written a eventOf r) : rowKey r ∈ wanted.map rowKey ↔ r ∈ wanted := by
  constructor
  · intro h
    obtain ⟨r', hr', hkey⟩ := List.mem_map.mp h
    rwa [← eq_of_rowKey ((hwanted r').mp hr').1 hw hkey]
  · exact List.mem_map_of_mem

/-- Rows carry no empty user name, so nothing is kept for it. -/
theorem keptEvents_nameless (hrec : Recorded a eventOf b) (hname : q.userId = some "") :
    keptEvents a b q = [] := by
  apply List.eq_nil_iff_forall_not_mem.mpr
  intro e he
  obtain ⟨⟨m, hm, he⟩, hkeeps⟩ := mem_keptEvents.mp he
  obtain ⟨e₀, metadata, rfl, hread, -⟩ := of_mem_fileEvents hrec hm he
  have huser : e₀.userId = some "" := (keepsArchived_iff.mp hkeeps).1 "" hname
  rw [(columns_of_fromEventRef hread).2.1, optSmol] at huser
  split at huser
  · cases huser
  · rename_i hne
    exact hne (Option.some.inj huser)

/-- The candidates lack a wanted row only where the request is for the empty name. -/
theorem notMem_candidates_iff (hdoc : db.FiltersAsDocumented)
    (hrows : ∀ r, store.Sees r → Written a eventOf r) (hrec : Recorded a eventOf b)
    (hserves : Serves a store b q) {r : LogEvent} (hr : Wanted a eventOf store b q r) :
    rowKey r ∉ candidates a store b q ↔ q.userId = some "" ∧ ¬ store.Sees r := by
  obtain ⟨hw, hthere, hadmits⟩ := hr
  constructor
  · intro hnot
    have hdead : ¬ store.Sees r := by
      intro hsees
      apply hnot
      exact List.mem_append_left _ (List.mem_map_of_mem (KdbStore.mem_matchingRows.mpr ⟨hsees, hadmits⟩))
    refine ⟨?_, hdead⟩
    by_contra hname
    obtain ⟨m, hm, e, he, hrow, e₀, metadata, rfl, hread⟩ :=
      exists_of_archived hdoc hserves hw (hthere.resolve_left hdead) hadmits
    apply hnot
    refine List.mem_append_right _ (List.mem_map.mpr ⟨_, mem_keptEvents.mpr ⟨⟨m, hm, he⟩, ?_⟩, ?_⟩)
    · exact keepsArchived_of_admits (e := e₀) hdoc hadmits hname hread
    · have hkey : eventKey a.formats e₀ = rowKey r := eventKey_of_read hw hread
      exact hkey
  · rintro ⟨hname, hdead⟩ hmem
    rw [candidates, keptEvents_nameless hrec hname, List.map_nil, List.append_nil] at hmem
    obtain ⟨r', hr', hkey⟩ := List.mem_map.mp hmem
    have hsees := (KdbStore.mem_matchingRows.mp hr').1
    exact hdead (eq_of_rowKey (hrows r' hsees) hw hkey ▸ hsees)

/-- What is wrong with the candidates, event by event. -/
theorem clean_iff (hdoc : db.FiltersAsDocumented) (hrows : ∀ r, store.Sees r → Written a eventOf r)
    (hrec : Recorded a eventOf b) (hserves : Serves a store b q)
    (hwanted : ∀ r, r ∈ wanted ↔ Wanted a eventOf store b q r) :
    ((∀ w ∈ wanted.map rowKey, w ∉ candidates a store b q →
        q.pageLimit ≤ (wanted.map rowKey).countP (w < ·)) ∧
      ∀ k ∈ candidates a store b q, k ∉ wanted.map rowKey ∨ (candidates a store b q).Duplicate k →
        q.pageLimit ≤ (wanted.map rowKey).countP (k ≤ ·)) ↔ Clean a eventOf store b q wanted := by
  constructor
  · rintro ⟨hlacks, hbad⟩
    refine ⟨fun e he hout => ?_, fun k htwice => ?_, fun hname r hr hdead => ?_⟩
    · obtain ⟨hw, -, hkey, -⟩ := read_of_mem_keptEvents hrec he
      apply hbad _ (List.mem_append_right _ (List.mem_map_of_mem he))
      left
      rw [← hkey, rowKey_mem_iff hwanted hw, hwanted]
      rintro ⟨-, -, hadmits⟩
      rw [hout] at hadmits
      cases hadmits
    · exact hbad k htwice.mem (.inr htwice)
    · apply hlacks _ (List.mem_map_of_mem hr)
      exact (notMem_candidates_iff hdoc hrows hrec hserves ((hwanted r).mp hr)).mpr ⟨hname, hdead⟩
  · intro hclean
    constructor
    · intro w hw hnot
      obtain ⟨r, hr, rfl⟩ := List.mem_map.mp hw
      obtain ⟨hname, hdead⟩ :=
        (notMem_candidates_iff hdoc hrows hrec hserves ((hwanted r).mp hr)).mp hnot
      exact hclean.nameless hname r hr hdead
    · rintro k hk (hnot | htwice)
      · rcases List.mem_append.mp hk with hk | hk
        · -- the live rows are all wanted
          obtain ⟨r, hr, rfl⟩ := List.mem_map.mp hk
          obtain ⟨hsees, hadmits⟩ := KdbStore.mem_matchingRows.mp hr
          exact absurd (List.mem_map_of_mem ((hwanted r).mpr ⟨hrows r hsees, .inl hsees, hadmits⟩)) hnot
        · obtain ⟨e, he, rfl⟩ := List.mem_map.mp hk
          obtain ⟨hw, harch, hkey, -⟩ := read_of_mem_keptEvents hrec he
          apply hclean.strangers e he
          rw [Bool.eq_false_iff]
          intro hadmits
          apply hnot
          rw [← hkey]
          exact List.mem_map_of_mem ((hwanted _).mpr ⟨hw, .inr harch, hadmits⟩)
      · exact hclean.copies k htwice

/-- The handler keeps the promise exactly when the merged list is clean. -/
theorem answers_iff_clean (hdoc : db.FiltersAsDocumented)
    (hrows : ∀ r, store.Sees r → Written a eventOf r) (hrec : Recorded a eventOf b)
    (hserves : Serves a store b q) (huntied : Untied store b q) (hcursor : q.cursor = none)
    (hinclude : q.includeArchived = true) (joinErrorText : String) (hnodup : wanted.Nodup)
    (hwanted : ∀ r, r ∈ wanted ↔ Wanted a eventOf store b q r) :
    ∃ resp, queryEvents a.formats joinErrorText (some a) store b q = .ok resp ∧
      (Answers a q wanted resp.events ↔ Clean a eventOf store b q wanted) := by
  obtain ⟨resp, hresp, hkeys, hshows⟩ :=
    key_queryEvents hrows hrec hserves huntied hcursor hinclude joinErrorText
  refine ⟨resp, hresp, ?_⟩
  rw [← clean_iff hdoc hrows hrec hserves hwanted, ← leading_eq_iff (nodup_wantedKeys hnodup hwanted),
    ← hkeys]
  constructor
  · exact Answers.keys
  · intro h
    refine ⟨h, fun x hx => ?_⟩
    obtain ⟨r, hw, hkey, hx'⟩ := hshows x hx
    refine ⟨r, (rowKey_mem_iff hwanted hw).mp ?_, hx'⟩
    rw [← hkey]
    exact mem_of_mem_leading (h ▸ List.mem_map_of_mem hx)

end Promise

/-- For every store of written rows and every bucket that runs of the archiver can produce, whatever
failed in them, and every request without a cursor: if the engines answer, the rows can be read and
the files can be fetched, and if no tie decides what is on the live page, then the answer is the first
page of the events, live or archived, that satisfy the whole filter, each once, if and only if the
merged list is clean: what the filter should have excluded, what is there twice, and what is missed
for want of a user name, comes after a full page of events that belong there. -/
theorem include_archived_answers_iff (db : Keplordb) (hdoc : db.FiltersAsDocumented) (a : Archiver)
    (eventOf : EventId → LlmEvent) (s₀ : Archiving db) (hidle : s₀.stage = .idle)
    (hnew : s₀.bucket.manifests = []) (hrows : ∀ r, s₀.store.Sees r → Written a eventOf r)
    (xs : List (Archiving.Input db))
    (hsound : Allowed (Archiving.step a) (Archiving.Sound a eventOf) s₀ xs) (s : Archiving db)
    (hs : s = run (Archiving.step a) s₀ xs) (q : EventQuery) (hcursor : q.cursor = none)
    (hinclude : q.includeArchived = true) (hserves : Serves a s.store s.bucket q)
    (huntied : Untied s.store s.bucket q) (joinErrorText : String) :
    ∃ wanted resp, wanted.Nodup ∧ (∀ r, r ∈ wanted ↔ Wanted a eventOf s.store s.bucket q r) ∧
      queryEvents a.formats joinErrorText (some a) s.store s.bucket q = .ok resp ∧
      (Answers a q wanted resp.events ↔ Clean a eventOf s.store s.bucket q wanted) := by
  have hrec₀ : Recorded a eventOf s₀.bucket := by
    intro m hm
    rw [hnew] at hm
    cases hm
  obtain ⟨hinv, hrec⟩ := recorded_run ⟨hrows, by rw [hidle]; trivial⟩ hrec₀ hsound
  rw [← hs] at hinv hrec
  obtain ⟨wanted, hnodup, hwanted⟩ := exists_wanted hdoc hinv.rows hrec hserves
  obtain ⟨resp, hresp, hiff⟩ := answers_iff_clean hdoc hinv.rows hrec hserves huntied hcursor hinclude
    joinErrorText hnodup hwanted
  exact ⟨wanted, resp, hnodup, hwanted, hresp, hiff⟩

/-! ## One archived event -/

/-- After a cycle over a store with one event. -/
def archivedOnce : Archiving memoryDb := run (Archiving.step sampleArchiver) beforeArchiving wholeCycle

theorem sound_wholeCycle : Allowed (Archiving.step sampleArchiver)
    (Archiving.Sound sampleArchiver fun _ => sampleEvent) beforeArchiving wholeCycle := by
  refine ⟨trivial, fun key chunk todo acc _ => ?_, trivial, trivial, trivial, trivial, trivial, trivial,
    trivial⟩
  rw [Archiving.bucket_start rfl]
  rfl

theorem written_beforeArchiving (r : LogEvent) (hr : beforeArchiving.store.Sees r) :
    Written sampleArchiver (fun _ => sampleEvent) r := by
  rw [(sees_single rfl).mp hr]
  exact ⟨sampleEvent.id, rfl, rfl⟩

theorem not_sees_archivedOnce (r : LogEvent) : ¬ archivedOnce.store.Sees r := by
  refine not_sees_of_lengths (n := 1) ?_ r
  decide +kernel

theorem recorded_archivedOnce : Recorded sampleArchiver (fun _ => sampleEvent) archivedOnce.bucket := by
  have hinv : Archiving.Inv sampleArchiver (fun _ => sampleEvent) beforeArchiving :=
    ⟨written_beforeArchiving, trivial⟩
  rw [archivedOnce]
  exact (recorded_run hinv (fun m hm => by cases hm) sound_wholeCycle).2

/-- Nothing is live, and one file has the one event. -/
structure OnlyArchived (store : KdbStore memoryDb) (b : Bucket) : Prop where
  empty : ∀ r, ¬ store.Sees r
  recorded : Recorded sampleArchiver (fun _ => sampleEvent) b
  file : ∃ m, b.manifests = [m] ∧ fetchOne sampleArchiver b m = .ok [norm sampleEvent]

/-- A file of one event that is not too large has the event in it. -/
theorem onlyArchived_of_size {store : KdbStore memoryDb} {b : Bucket} (hempty : ∀ r, ¬ store.Sees r)
    (hrec : Recorded sampleArchiver (fun _ => sampleEvent) b)
    (hfacts : b.manifests.map (fun m => (m.eventCount.toNat,
      decide (((b.get (sampleArchiver.objPath m.s3Key)).getD []).length ≤ decompressCap)))
        = [(1, true)]) : OnlyArchived store b := by
  refine ⟨hempty, hrec, ?_⟩
  obtain ⟨m, rest, hms, hm, hrest⟩ := List.map_eq_cons_iff.mp hfacts
  rw [List.map_eq_nil_iff.mp hrest] at hms
  refine ⟨m, hms, ?_⟩
  obtain ⟨hcount, hsize⟩ := Prod.mk.inj hm
  obtain ⟨chunk, jsonl, compressed, hget, hp, hlen, hread⟩ :=
    hrec m (by rw [hms]; exact List.mem_cons_self)
  have hreads : MetadataReads textFormats sampleEvent := by
    intro v hv
    cases hv
    exact TextFormats.fromJson_toJson (by decide) rfl
  have hchunk : chunk = [norm sampleEvent] := by
    rw [hcount] at hlen
    have hall : ∀ e ∈ chunk, e = norm sampleEvent := by
      intro e he
      have hre : fromEventRef textFormats (toLogEvent textFormats sampleEvent) = pure e := (hread e he).1
      rw [fromEventRef_toLogEvent hreads] at hre
      exact (Fallible.pure_inj hre).symm
    rw [List.eq_replicate_iff.mpr ⟨hlen.symm, hall⟩]
    rfl
  rw [hchunk] at hp hread
  refine (fetchOne_iff hp (fun e he => (fields_of_fromEventRef (hread e he).1).2.2) hget).mpr ⟨?_, ?_⟩
  · have hbytes : jsonl.bytes = compressed := Except.ok.inj (prepare_ok hp).2
    rw [hbytes]
    rw [hget] at hsize
    exact of_decide_eq_true hsize
  · intro e he v hv
    rw [List.mem_singleton.mp he] at hv
    cases hv
    exact ⟨by decide, by decide, rfl⟩

theorem onlyArchived_archivedOnce : OnlyArchived archivedOnce.store archivedOnce.bucket := by
  refine onlyArchived_of_size not_sees_archivedOnce recorded_archivedOnce ?_
  decide +kernel

namespace OnlyArchived

variable {store : KdbStore memoryDb} {b : Bucket}

/-- The archived half of a request that keeps the event. -/
theorem keptEvents_eq (h : OnlyArchived store b) {q : EventQuery}
    (hkeeps : keepsArchived q.userId q.fromTs q.toTs (norm sampleEvent) = true) :
    keptEvents sampleArchiver b q = [norm sampleEvent] := by
  obtain ⟨m, hms, hfetch⟩ := h.file
  rw [keptEvents, hms, List.flatMap_singleton, fileEvents, hfetch, fetchedEvents,
    List.flatMap_singleton]
  exact List.filter_cons_of_pos hkeeps

theorem serves (h : OnlyArchived store b) (q : EventQuery) : Serves sampleArchiver store b q := by
  obtain ⟨m, hms, hfetch⟩ := h.file
  refine ⟨fun _ _ _ _ => ⟨_, rfl⟩, fun r hr => ?_, fun m' hm' _ => ?_⟩
  · exact absurd (KdbStore.mem_matchingRows.mp hr).1 (h.empty r)
  · rw [hms, List.mem_singleton] at hm'
    exact ⟨_, hm' ▸ hfetch⟩

theorem matchingRows_eq (h : OnlyArchived store b) (f : EventFilter) : store.matchingRows f = [] := by
  apply List.eq_nil_iff_forall_not_mem.mpr
  exact fun r hr => h.empty r (KdbStore.mem_matchingRows.mp hr).1

theorem untied (h : OnlyArchived store b) (q : EventQuery) : Untied store b q := by
  obtain ⟨m, hms, -⟩ := h.file
  refine ⟨?_, ?_, fun _ => ?_⟩
  · refine Nat.le_trans (List.length_filter_le _ _) ?_
    rw [hms, List.length_singleton]
    decide
  · rw [h.matchingRows_eq]
    exact fun t _ => Nat.zero_le _
  · rw [h.matchingRows_eq]
    exact fun t _ => Nat.zero_le _

/-- A request that keeps the event is answered with it. -/
theorem exists_answer (h : OnlyArchived store b) {q : EventQuery} (hcursor : q.cursor = none)
    (hinclude : q.includeArchived = true) (hroom : 1 ≤ q.pageLimit)
    (hkeeps : keepsArchived q.userId q.fromTs q.toTs (norm sampleEvent) = true)
    (joinErrorText : String) :
    ∃ resp, queryEvents textFormats joinErrorText (some sampleArchiver) store b q = .ok resp ∧
      ∃ y ∈ resp.events, y.id = textFormats.ulid.print sampleEvent.id := by
  have hrows : ∀ r, store.Sees r → Written sampleArchiver (fun _ => sampleEvent) r :=
    fun r hr => absurd hr (h.empty r)
  obtain ⟨resp, hresp, hkeys, -⟩ := key_queryEvents hrows h.recorded (h.serves q) (h.untied q) hcursor
    hinclude joinErrorText
  rw [candidates, h.matchingRows_eq, h.keptEvents_eq hkeeps] at hkeys
  have hone : resp.events.map EventResponse.key = [eventKey textFormats (norm sampleEvent)] :=
    hkeys.trans (List.take_of_length_le hroom)
  have hmem : eventKey textFormats (norm sampleEvent) ∈ resp.events.map EventResponse.key := by
    rw [hone]
    exact List.mem_cons_self
  obtain ⟨y, hy, hkey⟩ := List.mem_map.mp hmem
  exact ⟨resp, hresp, y, hy, congrArg (fun k => (ofLex k).2) hkey⟩

end OnlyArchived

/-- A request for everything is answered with the archived event. -/
theorem include_archived_answers_one :
    ∃ wanted resp, (toLogEvent textFormats sampleEvent) ∈ wanted ∧
      queryEvents textFormats "task panicked" (some sampleArchiver) archivedOnce.store
        archivedOnce.bucket { includeArchived := true } = .ok resp ∧
      Answers sampleArchiver { includeArchived := true } wanted resp.events := by
  obtain ⟨wanted, resp, -, hwanted, hresp, hiff⟩ := include_archived_answers_iff memoryDb
    memoryDb_filtersAsDocumented sampleArchiver (fun _ => sampleEvent) beforeArchiving rfl rfl
    written_beforeArchiving wholeCycle sound_wholeCycle archivedOnce rfl { includeArchived := true } rfl
    rfl (onlyArchived_archivedOnce.serves _) (onlyArchived_archivedOnce.untied _) "task panicked"
  have hkept := onlyArchived_archivedOnce.keptEvents_eq (q := { includeArchived := true }) (by decide)
  have hmem : norm sampleEvent ∈ keptEvents sampleArchiver archivedOnce.bucket
      { includeArchived := true } := by
    rw [hkept]
    exact List.mem_cons_self
  obtain ⟨hw, harch, -⟩ := read_of_mem_keptEvents recorded_archivedOnce hmem
  refine ⟨wanted, resp, (hwanted _).mpr ⟨hw, .inr harch, rfl⟩, hresp, hiff.mpr ⟨?_, ?_, nofun⟩⟩
  · intro e he hout
    cases hout
  · intro k hk
    rw [candidates, onlyArchived_archivedOnce.matchingRows_eq, hkept] at hk
    exact absurd hk (List.not_duplicate_singleton _ _)

/-- A request for a model, over the same archive. -/
def otherModel : EventQuery := { model := some "claude-3-opus", includeArchived := true }

/-- It is answered with an event of another model. -/
theorem include_archived_ignores_model :
    ∃ wanted resp, wanted.Nodup ∧
      (∀ r, r ∈ wanted ↔ Wanted sampleArchiver (fun _ => sampleEvent) archivedOnce.store
        archivedOnce.bucket otherModel r) ∧
      queryEvents textFormats "task panicked" (some sampleArchiver) archivedOnce.store
        archivedOnce.bucket otherModel = .ok resp ∧
      ¬ Answers sampleArchiver otherModel wanted resp.events := by
  have hserves := onlyArchived_archivedOnce.serves otherModel
  have hrows : ∀ r, archivedOnce.store.Sees r → Written sampleArchiver (fun _ => sampleEvent) r :=
    fun r hr => absurd hr (not_sees_archivedOnce r)
  obtain ⟨wanted, hnodup, hwanted⟩ :=
    exists_wanted memoryDb_filtersAsDocumented hrows recorded_archivedOnce hserves
  obtain ⟨resp, hresp, hiff⟩ := answers_iff_clean memoryDb_filtersAsDocumented hrows
    recorded_archivedOnce hserves (onlyArchived_archivedOnce.untied otherModel) rfl rfl "task panicked"
    hnodup hwanted
  refine ⟨wanted, resp, hnodup, hwanted, hresp, fun h => ?_⟩
  have hout : memoryDb.admits (toQueryFilter otherModel.filter) (toLogEvent textFormats sampleEvent)
      = false := by decide
  have hnone : wanted = [] := by
    apply List.eq_nil_iff_forall_not_mem.mpr
    intro r hr
    obtain ⟨⟨id, -, rfl⟩, -, hadmits⟩ := (hwanted r).mp hr
    exact absurd (hout.symm.trans hadmits) Bool.false_ne_true
  have hkept := onlyArchived_archivedOnce.keptEvents_eq (q := otherModel) (by decide)
  have hroom := (hiff.mp h).strangers (norm sampleEvent) (hkept ▸ List.mem_cons_self) hout
  rw [hnone] at hroom
  exact absurd hroom (by decide)

end Keplor.Server
