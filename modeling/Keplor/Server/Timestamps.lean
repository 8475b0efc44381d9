import Keplor.Lib.Int64
import Keplor.Server.Pipeline

/-!
# Which timestamps can be stored

A payload dates itself by a number, by a text, or not at all. `validate` bounds the number only, and
`parse_iso8601` narrows the instant of a text to 64 bits, so of a text nothing is checked but that
it parses.

Two clock readings are involved. `latest` is a day past the later of them.
-/

set_option autoImplicit false

namespace Keplor.Server

open Keplor.Core Keplor.Lib Keplor.Pricing

/-- The instant the client sent, before anything narrows it. -/
def sentInstant (env : Surroundings) : Option TimestampInput → Option Int
  | some (.epochNanos ns) => some ns.toInt
  | some (.iso8601 s) => (env.rfc3339 s).toOption
  | none => none

def latest (env : Surroundings) : Int :=
  max env.validatedAt.toInt env.builtAt.toInt + 86400 * 1000000000

/-- What is asked of a stored timestamp: from 2020 on, at most a day ahead of the clock, and exactly
the instant sent. -/
structure Trustworthy (env : Surroundings) (timestamp : Option TimestampInput) (tsNs : Int64) :
    Prop where
  notBefore : MIN_TS_NS ≤ tsNs
  notAfter : tsNs.toInt ≤ latest env
  exact : ∀ n, sentInstant env timestamp = some n → tsNs.toInt = n

/-- A textual timestamp names an instant from 2020 on, at most a day ahead of the clock, that 64
bits can hold. -/
def TextInWindow (env : Surroundings) : Option TimestampInput → Prop
  | some (.iso8601 s) =>
    ∀ n, env.rfc3339 s = .ok n → MIN_TS_NS.toInt ≤ n ∧ n ≤ latest env ∧ n < 2 ^ 63
  | _ => True

/-- The `ts_ns` of `build_llm_event`. -/
def chosenTsNs (env : Surroundings) : Option TimestampInput → Except ServerError Int64
  | some (.epochNanos ns) => .ok ns
  | some (.iso8601 s) => parseIso8601 env s
  | none => .ok env.builtAt

theorem tsNs_of_buildLlmEvent {env : Surroundings} {event : IngestEvent} {provider : Provider}
    {model : String} {cost : Int64} {usage : Usage} {tier : String} {e : LlmEvent}
    (h : buildLlmEvent env event provider model cost usage tier = .ok e) :
    chosenTsNs env event.timestamp = .ok e.tsNs := by
  unfold buildLlmEvent at h
  dsimp only at h
  split at h
  · rename_i ns hts
    cases h
    rw [hts]
    rfl
  · rename_i s hts
    obtain ⟨ts, hparse, h⟩ := bind_eq_ok h
    cases h
    rw [hts]
    exact hparse
  · rename_i hts
    cases h
    rw [hts]
    rfl

/-- A number that `validate` lets pass is within the window. Past 2262 the addition of a day wraps,
and then it is the clock's own reading minus almost 2⁶⁴: nothing passes that should not. -/
theorem in_window_of_validateTimestamp {now ns : Int64} (hnow : MIN_TS_NS ≤ now)
    (h : validateTimestamp now (some (.epochNanos ns)) = .ok ()) :
    MIN_TS_NS ≤ ns ∧ ns.toInt ≤ now.toInt + 86400 * 1000000000 := by
  unfold validateTimestamp at h
  dsimp only at h
  split at h
  · cases h
  rename_i hmin
  split at h
  · cases h
  rename_i hmax
  refine ⟨not_lt.mp hmin, ?_⟩
  have hday : (86400 * 1000000000 : Int64).toInt = 86400 * 1000000000 := by decide
  have hpos : (0 : Int) ≤ now.toInt :=
    le_trans (by decide) (Int64.le_iff_toInt_le.mp hnow)
  calc ns.toInt ≤ (now + 86400 * 1000000000).toInt := Int64.le_iff_toInt_le.mp (not_lt.mp hmax)
    _ = (now.toInt + 86400 * 1000000000).bmod (2 ^ 64) := by rw [Int64.toInt_add, hday]
    _ ≤ now.toInt + 86400 * 1000000000 := (bmod_le_self_iff _).mpr (by omega)

theorem timestamp_withAuthenticatedKey (event : IngestEvent) (key : Option String) :
    (withAuthenticatedKey event key).timestamp = event.timestamp := by
  cases key <;> rfl

theorem trustworthy_text_iff {env : Surroundings} {s : String} {ts : Int64}
    (h : parseIso8601 env s = .ok ts) :
    Trustworthy env (some (.iso8601 s)) ts ↔ TextInWindow env (some (.iso8601 s)) := by
  unfold parseIso8601 at h
  cases hn : env.rfc3339 s with
  | error e =>
    rw [hn] at h
    cases h
  | ok n =>
    rw [hn] at h
    cases h
    have hsent : sentInstant env (some (.iso8601 s)) = some n := by
      rw [sentInstant, hn]
      rfl
    constructor
    · rintro ⟨hmin, hmax, hexact⟩ m hm
      rw [hn] at hm
      cases hm
      have hts := hexact n hsent
      have hmin := Int64.le_iff_toInt_le.mp hmin
      have hlt := Int64.toInt_lt (Int64.ofInt n)
      rw [hts] at hmin hmax hlt
      exact ⟨hmin, hmax, hlt⟩
    · intro hwindow
      obtain ⟨hmin, hmax, hlt⟩ := hwindow n hn
      have hlo : -2 ^ 63 ≤ n := le_trans (by decide) hmin
      have hts := Int64.toInt_ofInt_of_le hlo hlt
      refine ⟨Int64.le_iff_toInt_le.mpr (hts.symm ▸ hmin), hts.symm ▸ hmax, fun m hm => ?_⟩
      rw [hsent] at hm
      cases hm
      exact hts

/-- An accepted payload is stored under a trustworthy timestamp if and only if a text in it names an
instant within the window. -/
theorem stored_timestamp_trustworthy_iff {env : Surroundings} {catalog : Catalog}
    {event : IngestEvent} {authenticatedKeyId : Option String} {tier : String}
    {built : LlmEvent × Provider × String × Int64} (hvalidated : MIN_TS_NS ≤ env.validatedAt)
    (hbuilt : MIN_TS_NS ≤ env.builtAt)
    (h : processEvent env catalog event authenticatedKeyId tier = pure built) :
    Trustworthy env event.timestamp built.1.tsNs ↔ TextInWindow env event.timestamp := by
  obtain ⟨hvalid, hbuild⟩ := processEvent_eq_pure h
  have hcheck := validateTimestamp_of_validate hvalid
  have hts := tsNs_of_buildLlmEvent hbuild
  rw [timestamp_withAuthenticatedKey] at hcheck hts
  have hday : env.validatedAt.toInt + 86400 * 1000000000 ≤ latest env :=
    Int.add_le_add_right (le_max_left _ _) _
  have hnow : env.builtAt.toInt ≤ latest env :=
    le_trans (le_max_right _ _) (Int.le_add_of_nonneg_right (by decide))
  cases ht : event.timestamp with
  | none =>
    rw [ht] at hts
    rw [← Except.ok.inj hts]
    exact iff_of_true ⟨hbuilt, hnow, fun n hn => by cases hn⟩ trivial
  | some t =>
    cases t with
    | epochNanos ns =>
      rw [ht] at hts hcheck
      rw [← Except.ok.inj hts]
      obtain ⟨hmin, hmax⟩ := in_window_of_validateTimestamp hvalidated hcheck
      refine iff_of_true ⟨hmin, le_trans hmax hday, fun n hn => ?_⟩ trivial
      cases hn
      rfl
    | iso8601 s =>
      rw [ht] at hts
      exact trustworthy_text_iff hts

/-! ## A parser to try it on

`OffsetDateTime::parse` on the texts `YYYY-MM-DDTHH:MM:SSZ`. -/

def daysInMonth (year month : Nat) : Nat :=
  if month = 2 then
    if year % 4 = 0 ∧ (year % 100 ≠ 0 ∨ year % 400 = 0) then 29 else 28
  else if month = 4 ∨ month = 6 ∨ month = 9 ∨ month = 11 then 30
  else 31

/-- Days from the first of January 1970. The year is counted from March, so that the leap day is
its last. -/
def daysFromCivil (year month day : Nat) : Int :=
  let y := if month ≤ 2 then (year : Int) - 1 else year
  let shifted := (month + 9) % 12
  365 * y + y / 4 - y / 100 + y / 400 + (153 * shifted + 2) / 5 + day - 1 - 719468

def readDigits (cs : List Char) : Option Nat :=
  if cs.all Char.isDigit then some (cs.foldl (fun n c => 10 * n + (c.toNat - 48)) 0) else none

def rfc3339Utc (s : String) : Except String Int :=
  match s.toList with
  | [y₃, y₂, y₁, y₀, '-', m₁, m₀, '-', d₁, d₀, 'T', h₁, h₀, ':', n₁, n₀, ':', s₁, s₀, 'Z'] =>
    match readDigits [y₃, y₂, y₁, y₀], readDigits [m₁, m₀], readDigits [d₁, d₀],
      readDigits [h₁, h₀], readDigits [n₁, n₀], readDigits [s₁, s₀] with
    | some year, some month, some day, some hour, some minute, some second =>
      if 1 ≤ month ∧ month ≤ 12 ∧ 1 ≤ day ∧ day ≤ daysInMonth year month ∧ hour < 24 ∧ minute < 60 ∧
          second < 60 then
        .ok ((86400 * daysFromCivil year month day + 3600 * hour + 60 * minute + second) * 1000000000)
      else .error "a component was not in range"
    | _, _, _, _, _, _ => .error "a component could not be parsed"
  | _ => .error "a character literal was not valid"

example : rfc3339Utc "1970-01-01T00:00:00Z" = .ok 0 ∧
    rfc3339Utc "2020-01-01T00:00:00Z" = .ok MIN_TS_NS.toInt := by decide +kernel

/-- A server on the first of January 2026 that reads such dates. -/
def datingSurroundings : Surroundings := { sampleSurroundings with rfc3339 := rfc3339Utc }

/-- A payload that names the instant `s` as a text. -/
def datedEvent (s : String) : IngestEvent :=
  { model := "gpt-4o", provider := "openai", costNanodollars := some 0, timestamp := some (.iso8601 s) }

/-- `process_event` on a dated payload. -/
def processDated (s : String) : Fallible ServerError (LlmEvent × Provider × String × Int64) :=
  processEvent datingSurroundings ⟨fun _ => none⟩ (datedEvent s) none "free"

/-- The last second of 2025 is stored as sent. -/
theorem stored_timestamp_trustworthy_at_new_year :
    ∃ built, processDated "2025-12-31T23:59:59Z" = pure built ∧
      Trustworthy datingSurroundings (some (.iso8601 "2025-12-31T23:59:59Z")) built.1.tsNs := by
  obtain ⟨built, h⟩ : ∃ built, processDated "2025-12-31T23:59:59Z" = pure built := ⟨_, rfl⟩
  refine ⟨built, h, (stored_timestamp_trustworthy_iff (by decide) (by decide) h).mpr ?_⟩
  intro n hn
  have hread : rfc3339Utc "2025-12-31T23:59:59Z" = .ok 1767225599000000000 := by decide +kernel
  rw [show datingSurroundings.rfc3339 = rfc3339Utc from rfl, hread] at hn
  cases hn
  decide

/-- The first of January 2600 is more than 2⁶³ nanoseconds after the epoch. It is accepted in 2026,
and stored as an instant of 2015. -/
theorem stored_timestamp_of_2600 :
    MIN_TS_NS ≤ datingSurroundings.validatedAt ∧ MIN_TS_NS ≤ datingSurroundings.builtAt ∧
    ∃ built, processDated "2600-01-01T00:00:00Z" = pure built ∧
      built.1.tsNs = 1434155126290448384 ∧
      ¬ Trustworthy datingSurroundings (some (.iso8601 "2600-01-01T00:00:00Z")) built.1.tsNs := by
  obtain ⟨built, h, hts⟩ : ∃ built, processDated "2600-01-01T00:00:00Z" = pure built ∧
      built.1.tsNs = 1434155126290448384 := ⟨_, rfl, by decide +kernel⟩
  refine ⟨by decide, by decide, built, h, hts, fun hgood => ?_⟩
  have hmin := hgood.notBefore
  rw [hts] at hmin
  exact absurd hmin (by decide)

end Keplor.Server
