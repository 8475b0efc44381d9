import Keplor.Core.Event
import Keplor.Lib.Fallible
import Keplor.Server.Config
import Mathlib

/-!
# `keplor-server/src/auth.rs` — who is asking

A key set is made from the configuration. `require_api_key` takes the bearer token of a request and
scans the whole set for its secret; what it finds, the id and the retention tier of the key, is all
that the handlers behind it learn about the client. An empty set lets everybody pass, without a key.

The digest that names a bare secret is a parameter.
-/

set_option autoImplicit false

namespace Keplor.Server

open Keplor.Core Keplor.Lib

/-- `AuthenticatedKey` -/
structure AuthenticatedKey where
  keyId : String
  tier : String
  deriving DecidableEq, Repr

/-- An element of `ApiKeySet::keys`. -/
structure ApiKey where
  secret : ByteArray
  id : String
  tier : String
  deriving DecidableEq

/-- `ApiKeySet` -/
structure ApiKeySet where
  keys : List ApiKey
  deriving DecidableEq

/-- `str::split_once` on a character -/
def splitOnce (sep : Char) (s : List Char) : Option (List Char × List Char) :=
  match s.dropWhile (· ≠ sep) with
  | [] => none
  | _ :: after => some (s.takeWhile (· ≠ sep), after)

/-- `{:x}`: no leading zeros -/
def lowerHex (b : UInt8) : List Char := Nat.toDigits 16 b.toNat

variable (digest : ByteArray → Sha256)

/-- The id of a bare secret. -/
def derivedId (raw : String) : String :=
  "key_" ++ String.ofList (((digest raw.toByteArray).bytes.take 4).flatMap lowerHex)

/-- `parse_key_entry` -/
def parseKeyEntry (raw : String) : String × String :=
  match splitOnce ':' raw.toList with
  | some (id, secret) =>
    if !id.isEmpty && !secret.isEmpty then (String.ofList id, String.ofList secret)
    else (derivedId digest raw, raw)
  | none => (derivedId digest raw, raw)

namespace ApiKeySet

/-- `ApiKeySet::new` -/
def new (keys : List String) (defaultTier : String) : ApiKeySet :=
  ⟨keys.map fun raw =>
    let (id, secret) := parseKeyEntry digest raw
    ⟨secret.toByteArray, id, defaultTier⟩⟩

/-- `ApiKeySet::from_entries` -/
def fromEntries (entries : List ApiKeyEntry) : ApiKeySet :=
  ⟨entries.map fun e => ⟨e.secret.toByteArray, e.id, e.tier⟩⟩

/-- `ApiKeySet::from_config` -/
def fromConfig (simpleKeys : List String) (entries : List ApiKeyEntry) (defaultTier : String) :
    ApiKeySet :=
  ⟨(new digest simpleKeys defaultTier).keys ++ (fromEntries entries).keys⟩

/-- The set a server makes of its configuration. -/
def ofConfig (config : ServerConfig) : ApiKeySet :=
  fromConfig digest config.auth.apiKeys config.auth.apiKeyEntries config.retention.defaultTier

/-- `ApiKeySet::is_open` -/
def isOpen (set : ApiKeySet) : Bool := set.keys.isEmpty

/-- `ApiKeySet::matched_key`: the scan goes on after a match, so the last one counts. -/
def matchedKey (set : ApiKeySet) (candidate : ByteArray) : Option (String × String) :=
  set.keys.foldl (fun matched k => if k.secret = candidate then some (k.id, k.tier) else matched) none

end ApiKeySet

/-! ## The middleware -/

/-- `HeaderValue::to_str`: visible ASCII and tabs only -/
def headerToStr (value : List UInt8) : Option (List Char) :=
  if value.all fun b => (decide (32 ≤ b) && decide (b < 127)) || b == 9 then
    some (value.map fun b => Char.ofNat b.toNat)
  else none

/-- The token of an `Authorization` header; everything that is not a bearer token counts as an empty
one. -/
def bearerToken (header : Option (List UInt8)) : String :=
  let text := (header.bind headerToStr).getD []
  if "Bearer ".toList.isPrefixOf text then String.ofList (text.drop 7) else ""

/-- `StatusCode::UNAUTHORIZED` -/
def UNAUTHORIZED : UInt16 := 401

/-- `require_api_key`, up to the handler: the status of a refusal, or the request extension. -/
def requireApiKey (set : ApiKeySet) (header : Option (List UInt8)) :
    Except UInt16 (Option AuthenticatedKey) :=
  if set.isOpen then return none
  else
    let token := bearerToken header
    if token.isEmpty then throw UNAUTHORIZED
    else
      match set.matchedKey token.toByteArray with
      | some (keyId, tier) => return some ⟨keyId, tier⟩
      | none => throw UNAUTHORIZED

/-! ## What a match says -/

/-- The configuration has an entry with this id, tier and secret. -/
inductive Configured (config : ServerConfig) (id tier secret : String) : Prop where
  | simple (raw : String) (mem : raw ∈ config.auth.apiKeys)
      (parsed : parseKeyEntry digest raw = (id, secret))
      (default : tier = config.retention.defaultTier)
  | extended (mem : ⟨id, secret, tier⟩ ∈ config.auth.apiKeyEntries)

variable {digest}

theorem configured_of_mem {config : ServerConfig} {k : ApiKey} {secret : String}
    (h : k ∈ (ApiKeySet.ofConfig digest config).keys) (hsecret : k.secret = secret.toByteArray) :
    Configured digest config k.id k.tier secret := by
  rcases List.mem_append.mp h with h | h
  · obtain ⟨raw, hraw, rfl⟩ := List.mem_map.mp h
    refine .simple raw hraw ?_ rfl
    -- the encoding is injective, so equal bytes are equal secrets
    rw [← String.toByteArray_inj.mp hsecret]
  · obtain ⟨e, he, rfl⟩ := List.mem_map.mp h
    apply Configured.extended
    rw [← String.toByteArray_inj.mp hsecret]
    exact he

theorem foldl_last_match {keys : List ApiKey} {candidate : ByteArray} {start : Option (String × String)}
    {found : String × String}
    (h : keys.foldl (fun matched k => if k.secret = candidate then some (k.id, k.tier) else matched)
      start = some found) :
    start = some found ∨ ∃ k ∈ keys, k.secret = candidate ∧ (k.id, k.tier) = found := by
  induction keys generalizing start with
  | nil => exact .inl h
  | cons k keys ih =>
    rcases ih h with hstart | ⟨k', hk', hfound⟩
    · dsimp only at hstart
      split at hstart
      · rename_i hsecret
        exact .inr ⟨k, by simp, hsecret, Option.some.inj hstart⟩
      · exact .inl hstart
    · exact .inr ⟨k', by simp [hk'], hfound⟩

/-- A request that passes with a key has the key's id and tier from the set. -/
theorem matchedKey_of_requireApiKey {set : ApiKeySet} {header : Option (List UInt8)}
    {key : AuthenticatedKey} (h : requireApiKey set header = .ok (some key)) :
    set.matchedKey (bearerToken header).toByteArray = some (key.keyId, key.tier) := by
  unfold requireApiKey at h
  split at h
  · cases h
  dsimp only at h
  split at h
  · cases h
  split at h
  · rename_i keyId tier hmatch
    cases h
    exact hmatch
  · cases h

/-- A request that passes with a key named a secret of the configuration. -/
theorem configured_of_requireApiKey {config : ServerConfig} {header : Option (List UInt8)}
    {key : AuthenticatedKey}
    (h : requireApiKey (ApiKeySet.ofConfig digest config) header = .ok (some key)) :
    Configured digest config key.keyId key.tier (bearerToken header) := by
  rcases foldl_last_match (matchedKey_of_requireApiKey h) with hnone | ⟨k, hk, hsecret, hfound⟩
  · cases hnone
  · obtain ⟨hid, htier⟩ := Prod.mk.inj hfound
    rw [← hid, ← htier]
    exact configured_of_mem hk hsecret

theorem derivedId_ne_empty (raw : String) : derivedId digest raw ≠ "" := by
  intro h
  have := congrArg String.toList h
  simp [derivedId] at this

theorem parseKeyEntry_id_ne_empty (raw : String) : (parseKeyEntry digest raw).1 ≠ "" := by
  unfold parseKeyEntry
  split
  · rename_i id secret hsplit
    split
    · rename_i hne
      simp only [Bool.and_eq_true, Bool.not_eq_true', List.isEmpty_eq_false_iff] at hne
      intro h
      have hid := congrArg String.toList h
      rw [String.toList_ofList] at hid
      exact hne.1 hid
    · exact derivedId_ne_empty raw
  · exact derivedId_ne_empty raw

/-- No key of a validated configuration has an empty id. -/
theorem Configured.id_ne_empty {config : ServerConfig} {pathExists : String → Bool}
    {id tier secret : String} (h : Configured digest config id tier secret)
    (hvalid : config.validate pathExists = .ok ()) : id ≠ "" := by
  cases h with
  | simple raw _ parsed _ =>
    have hne : (parseKeyEntry digest raw).1 ≠ "" := parseKeyEntry_id_ne_empty raw
    rwa [parsed] at hne
  | extended mem => exact (ServerConfig.entries_of_validate hvalid mem).1

end Keplor.Server
