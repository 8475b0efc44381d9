import Keplor.Lib.Fallible
import Keplor.Lib.Utf8
import Keplor.Server.Schema

/-!
# `keplor-server/src/validate.rs` — what a payload must satisfy

The checks run in the order of the source and the first that fails names its field. Lengths are
bytes. Two checks depend on more than the payload: a numeric timestamp is compared with the clock,
and the metadata with the size of its JSON text.
-/

set_option autoImplicit false

namespace Keplor.Server

open Keplor.Core Keplor.Lib

def MAX_TOKENS : UInt32 := 10000000
def MAX_COST_NANODOLLARS : Int64 := 1000000000000
def MAX_ATTR_LEN : Nat := 256
def MAX_ENDPOINT_LEN : Nat := 512
def MAX_METADATA_BYTES : Nat := 65536
/-- 2020-01-01T00:00:00Z -/
def MIN_TS_NS : Int64 := 1577836800000000000

/-- `str::len` -/
def byteLength (s : String) : Nat := Utf8.byteLen s.toList

/-- A failed check. -/
def invalid (message : String) : Except ServerError Unit := throw (.validation message)

/-- `check_len` -/
def checkLen (value : Option String) (name : String) (max : Nat) : Except ServerError Unit :=
  match value with
  | none => return
  | some v =>
    if max < byteLength v then invalid (name ++ " exceeds " ++ toString max ++ " characters")
    else return

/-- The counters `validate_tokens` goes through, in order. -/
def IngestUsage.fields (u : IngestUsage) : List (String × UInt32) :=
  [("input_tokens", u.inputTokens), ("output_tokens", u.outputTokens),
    ("cache_read_input_tokens", u.cacheReadInputTokens),
    ("cache_creation_input_tokens", u.cacheCreationInputTokens),
    ("reasoning_tokens", u.reasoningTokens), ("audio_input_tokens", u.audioInputTokens),
    ("audio_output_tokens", u.audioOutputTokens), ("image_tokens", u.imageTokens),
    ("tool_use_tokens", u.toolUseTokens)]

/-- `validate_tokens` -/
def validateTokens (u : IngestUsage) : Except ServerError Unit :=
  u.fields.forM fun (name, val) =>
    if MAX_TOKENS < val then
      invalid (name ++ " = " ++ toString val ++ " exceeds maximum " ++ toString MAX_TOKENS)
    else return

/-- The cost bounds of `validate`. -/
def validateCost (cost : Option Int64) : Except ServerError Unit :=
  match cost with
  | none => return
  | some c =>
    if c < 0 then invalid "cost_nanodollars must not be negative"
    else if MAX_COST_NANODOLLARS < c then
      invalid ("cost_nanodollars " ++ toString c ++ " exceeds maximum "
        ++ toString MAX_COST_NANODOLLARS)
    else return

/-- The timestamp bounds of `validate`; a textual timestamp is not looked at. -/
def validateTimestamp (now : Int64) (timestamp : Option TimestampInput) : Except ServerError Unit :=
  match timestamp with
  | some (.epochNanos ns) =>
    if ns < MIN_TS_NS then invalid "timestamp is before 2020-01-01"
    else if now + 86400 * 1000000000 < ns then
      invalid "timestamp is more than 24 hours in the future"
    else return
  | _ => return

/-- The metadata bound of `validate`. -/
def validateMetadata (tf : TextFormats) (metadata : Option JsonValue) : Except ServerError Unit :=
  match metadata with
  | none => return
  | some m =>
    let size := byteLength (tf.toJson m)
    if MAX_METADATA_BYTES < size then
      invalid ("metadata JSON exceeds " ++ toString MAX_METADATA_BYTES ++ " bytes ("
        ++ toString size ++ " bytes)")
    else return

/-- `validate` -/
def validate (tf : TextFormats) (now : Int64) (event : IngestEvent) : Except ServerError Unit := do
  if event.model.isEmpty then invalid "model is required"
  if event.provider.isEmpty then invalid "provider is required"
  if 256 < byteLength event.model then invalid "model exceeds 256 characters"
  if 128 < byteLength event.provider then invalid "provider exceeds 128 characters"
  validateTokens event.usage
  validateCost event.costNanodollars
  validateTimestamp now event.timestamp
  checkLen event.userId "user_id" MAX_ATTR_LEN
  checkLen event.apiKeyId "api_key_id" MAX_ATTR_LEN
  checkLen event.orgId "org_id" MAX_ATTR_LEN
  checkLen event.projectId "project_id" MAX_ATTR_LEN
  checkLen event.routeId "route_id" MAX_ATTR_LEN
  if MAX_ENDPOINT_LEN < byteLength event.endpoint then
    invalid ("endpoint exceeds " ++ toString MAX_ENDPOINT_LEN ++ " characters")
  validateMetadata tf event.metadata

theorem of_passed_check {c : Prop} [Decidable c] {message : String}
    {rest : Unit → Except ServerError Unit}
    (h : (if c then invalid message >>= rest else rest ()) = .ok ()) : rest () = .ok () := by
  split at h
  · cases h
  · exact h

theorem validateTimestamp_of_validate {tf : TextFormats} {now : Int64} {event : IngestEvent}
    (h : validate tf now event = .ok ()) : validateTimestamp now event.timestamp = .ok () := by
  unfold validate at h
  -- the four checks of the names, then the tokens and the cost, stand before it
  obtain ⟨_, -, h⟩ := bind_eq_ok
    (of_passed_check (of_passed_check (of_passed_check (of_passed_check h))))
  obtain ⟨_, -, h⟩ := bind_eq_ok h
  obtain ⟨_, hts, -⟩ := bind_eq_ok h
  exact hts

theorem validateTokens_of_validate {tf : TextFormats} {now : Int64} {event : IngestEvent}
    (h : validate tf now event = .ok ()) : validateTokens event.usage = .ok () := by
  unfold validate at h
  obtain ⟨_, htokens, -⟩ := bind_eq_ok
    (of_passed_check (of_passed_check (of_passed_check (of_passed_check h))))
  exact htokens

theorem le_of_validateTokens {u : IngestUsage} (h : validateTokens u = .ok ()) :
    ∀ field ∈ u.fields, field.2 ≤ MAX_TOKENS := by
  intro field hmem
  have hcheck := forM_eq_ok h field hmem
  dsimp only at hcheck
  split at hcheck
  · cases hcheck
  · rename_i hle
    exact UInt32.not_lt.mp hle

/-! ## Its errors -/

/-- When it fails, it fails with a validation error. -/
def Checks (x : Except ServerError Unit) : Prop := ∀ e, x = .error e → ∃ message, e = .validation message

theorem checks_pure : Checks (pure ()) := by
  intro e h
  cases h

theorem checks_invalid (message : String) : Checks (invalid message) := by
  intro e h
  cases h
  exact ⟨message, rfl⟩

theorem Checks.bind {x : Except ServerError Unit} {rest : Unit → Except ServerError Unit}
    (hx : Checks x) (hrest : Checks (rest ())) : Checks (x >>= rest) := by
  cases x with
  | error e =>
    intro e' h
    cases h
    exact hx e rfl
  | ok u => exact hrest

theorem Checks.ite {c : Prop} [Decidable c] {x y : Except ServerError Unit} (hx : Checks x)
    (hy : Checks y) : Checks (if c then x else y) := by
  split
  · exact hx
  · exact hy

theorem checks_forM {α : Type} {f : α → Except ServerError Unit} (hf : ∀ a, Checks (f a))
    (xs : List α) : Checks (xs.forM f) := by
  induction xs with
  | nil => exact checks_pure
  | cons x xs ih => exact (hf x).bind ih

theorem checks_validateTokens (u : IngestUsage) : Checks (validateTokens u) :=
  checks_forM (fun _ => (checks_invalid _).ite checks_pure) _

theorem checks_validateCost (cost : Option Int64) : Checks (validateCost cost) := by
  unfold validateCost
  split
  · exact checks_pure
  · exact (checks_invalid _).ite ((checks_invalid _).ite checks_pure)

theorem checks_validateTimestamp (now : Int64) (timestamp : Option TimestampInput) :
    Checks (validateTimestamp now timestamp) := by
  unfold validateTimestamp
  split
  · exact (checks_invalid _).ite ((checks_invalid _).ite checks_pure)
  · exact checks_pure

theorem checks_checkLen (value : Option String) (name : String) (max : Nat) :
    Checks (checkLen value name max) := by
  unfold checkLen
  split
  · exact checks_pure
  · exact (checks_invalid _).ite checks_pure

theorem checks_validateMetadata (tf : TextFormats) (metadata : Option JsonValue) :
    Checks (validateMetadata tf metadata) := by
  unfold validateMetadata
  split
  · exact checks_pure
  · exact (checks_invalid _).ite checks_pure

theorem checks_validate (tf : TextFormats) (now : Int64) (event : IngestEvent) :
    Checks (validate tf now event) := by
  have hif : ∀ {c : Prop} [Decidable c] {message : String} {rest : Unit → Except ServerError Unit},
      Checks (rest ()) → Checks (if c then invalid message >>= rest else rest ()) :=
    fun hrest => ((checks_invalid _).bind hrest).ite hrest
  unfold validate
  refine hif (hif (hif (hif ?_)))
  refine (checks_validateTokens _).bind ((checks_validateCost _).bind
    ((checks_validateTimestamp _ _).bind ?_))
  refine (checks_checkLen _ _ _).bind ((checks_checkLen _ _ _).bind ((checks_checkLen _ _ _).bind
    ((checks_checkLen _ _ _).bind ((checks_checkLen _ _ _).bind ?_))))
  exact hif (checks_validateMetadata _ _)

end Keplor.Server
