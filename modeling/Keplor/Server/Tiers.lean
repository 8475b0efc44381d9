import Keplor.Server.Attribution
import Keplor.Server.Retention
import Keplor.Store.Query

/-!
# Where the tier of an event comes from

The collector goes through `retention.tiers`. An event gets its tier from the key of its request: a
simple key has the default tier, an extended key entry the one it names, or `free` if it names none.
`validate` holds the default tier against the list. It never looks at the tiers of the entries, so
the events of an entry with a tier of its own invention are collected by nobody.

Not every entry matters. One whose secret a later entry repeats is never found by the scan, one whose
secret does not fit a header value cannot be sent, and one with an id longer than an attribute may be
has all its events refused (`Usable`).
-/

set_option autoImplicit false

namespace Keplor.Server

open Keplor.Core Keplor.Lib Keplor.Pricing Keplor.Store

/-! ## The scan -/

/-- The scan finds the last key with the secret. -/
theorem matchedKey_eq_some {set : ApiKeySet} {candidate : ByteArray} {id tier : String} :
    set.matchedKey candidate = some (id, tier) ↔
      ∃ before after, set.keys = before ++ ⟨candidate, id, tier⟩ :: after ∧
        ∀ k ∈ after, k.secret ≠ candidate := by
  unfold ApiKeySet.matchedKey
  induction set.keys using List.reverseRecOn with
  | nil => simp
  | append_singleton keys k ih =>
    rw [List.foldl_append, List.foldl_cons, List.foldl_nil]
    by_cases hsecret : k.secret = candidate
    · rw [if_pos hsecret, Option.some.injEq, Prod.mk.injEq]
      constructor
      · rintro ⟨rfl, rfl⟩
        subst hsecret
        exact ⟨keys, [], rfl, by simp⟩
      · rintro ⟨before, after, hkeys, hafter⟩
        -- the key that was found is at the end, for the last one has the secret
        rcases List.eq_nil_or_concat after with rfl | ⟨after, k', rfl⟩
        · obtain ⟨-, rfl⟩ := List.append_singleton_inj.mp hkeys
          exact ⟨rfl, rfl⟩
        · rw [List.concat_eq_append, ← List.cons_append, ← List.append_assoc] at hkeys
          obtain ⟨-, rfl⟩ := List.append_singleton_inj.mp hkeys
          exact absurd hsecret (hafter k (by simp))
    · rw [if_neg hsecret, ih]
      constructor
      · rintro ⟨before, after, rfl, hafter⟩
        refine ⟨before, after ++ [k], by simp, ?_⟩
        intro k' hk'
        rcases List.mem_append.mp hk' with hk' | hk'
        · exact hafter k' hk'
        · rw [List.mem_singleton.mp hk']
          exact hsecret
      · rintro ⟨before, after, hkeys, hafter⟩
        rcases List.eq_nil_or_concat after with rfl | ⟨after, k', rfl⟩
        · obtain ⟨-, rfl⟩ := List.append_singleton_inj.mp hkeys
          exact absurd rfl hsecret
        · rw [List.concat_eq_append, ← List.cons_append, ← List.append_assoc] at hkeys
          obtain ⟨rfl, rfl⟩ := List.append_singleton_inj.mp hkeys
          exact ⟨before, after, rfl, fun k hk => hafter k (by simp [hk])⟩

/-! ## The header -/

/-- The text can stand in a header value: visible ASCII, spaces and tabs. -/
def Sendable (s : String) : Prop := ∀ c ∈ s.toList, (32 ≤ c.toNat ∧ c.toNat < 127) ∨ c.toNat = 9

theorem toNat_ofNat_toNat {b : UInt8} : (Char.ofNat b.toNat).toNat = b.toNat := by
  have hlt : b.toNat < 256 := b.toNat_lt
  have hvalid : b.toNat.isValidChar := Or.inl (by omega)
  rw [Char.ofNat, dif_pos hvalid]
  rfl

/-- A token is sendable. -/
theorem sendable_bearerToken (header : Option (List UInt8)) : Sendable (bearerToken header) := by
  unfold bearerToken
  dsimp only
  split
  · intro c hc
    rw [String.toList_ofList] at hc
    have hc := List.mem_of_mem_drop hc
    cases htext : header.bind headerToStr with
    | none => simp [htext] at hc
    | some text =>
      rw [htext, Option.getD_some] at hc
      obtain ⟨value, -, hvalue⟩ := Option.bind_eq_some_iff.mp htext
      unfold headerToStr at hvalue
      split at hvalue
      · rename_i hall
        cases hvalue
        obtain ⟨b, hb, rfl⟩ := List.mem_map.mp hc
        have hb := List.all_eq_true.mp hall b hb
        rw [toNat_ofNat_toNat]
        simp only [Bool.or_eq_true, Bool.and_eq_true, decide_eq_true_eq, beq_iff_eq] at hb
        rcases hb with ⟨hlow, hhigh⟩ | htab
        · left
          exact ⟨UInt8.le_iff_toNat_le.mp hlow, UInt8.lt_iff_toNat_lt.mp hhigh⟩
        · right
          rw [htab]
          rfl
      · cases hvalue
  · intro c hc
    simp at hc

/-- A sendable text is the token of a header. -/
theorem bearerToken_bearer {s : String} (h : Sendable s) : bearerToken (bearer s) = s := by
  have hbyte : ∀ c ∈ ("Bearer " ++ s).toList, (32 ≤ c.toNat ∧ c.toNat < 127) ∨ c.toNat = 9 := by
    intro c hc
    rw [String.toList_append, List.mem_append] at hc
    rcases hc with hc | hc
    · have hscheme : Sendable "Bearer " := by simp [Sendable]
      exact hscheme c hc
    · exact h c hc
  have htext : headerToStr (("Bearer " ++ s).toList.map fun c => c.toNat.toUInt8)
      = some ("Bearer " ++ s).toList := by
    unfold headerToStr
    rw [if_pos]
    · rw [List.map_map]
      congr 1
      conv_rhs => rw [← List.map_id ("Bearer " ++ s).toList]
      apply List.map_congr_left
      intro c hc
      have hsmall : c.toNat < 256 := by
        rcases hbyte c hc with h | h <;> omega
      simp [Function.comp, Nat.mod_eq_of_lt hsmall, Char.ofNat_toNat]
    · rw [List.all_eq_true]
      intro b hb
      obtain ⟨c, hc, rfl⟩ := List.mem_map.mp hb
      have hsmall : c.toNat < 256 := by
        rcases hbyte c hc with h | h <;> omega
      simp only [Bool.or_eq_true, Bool.and_eq_true, decide_eq_true_eq, beq_iff_eq,
        UInt8.le_iff_toNat_le, UInt8.lt_iff_toNat_lt, ← UInt8.toNat_inj, Nat.toUInt8,
        UInt8.toNat_ofNat', Nat.mod_eq_of_lt hsmall]
      exact hbyte c hc
  unfold bearerToken bearer
  rw [Option.bind_some, htext, Option.getD_some]
  simp

/-! ## The entries that matter -/

/-- No later entry repeats the secret of this one. -/
def LastWithSecret (config : ServerConfig) (entry : ApiKeyEntry) : Prop :=
  ∃ before after, config.auth.apiKeyEntries = before ++ entry :: after ∧
    ∀ e ∈ after, e.secret ≠ entry.secret

/-- An extended key entry that a request can authenticate with and have events stored. -/
structure ServerConfig.Usable (config : ServerConfig) (entry : ApiKeyEntry) : Prop where
  last : LastWithSecret config entry
  sendable : Sendable entry.secret
  short : byteLength entry.id ≤ MAX_ATTR_LEN

/-- The tier has a retention policy, so the collector comes to it. -/
def ServerConfig.HasPolicy (config : ServerConfig) (tier : String) : Prop :=
  ∃ t ∈ config.retention.tiers, t.name = tier

instance (config : ServerConfig) (tier : String) : Decidable (config.HasPolicy tier) :=
  inferInstanceAs (Decidable (∃ t ∈ config.retention.tiers, t.name = tier))

variable {digest : ByteArray → Sha256} {config : ServerConfig}

/-- A key found among the entries is the last entry with its secret. -/
theorem entry_of_split {before after : List ApiKey} {secret id tier : String}
    (hkeys : (ApiKeySet.fromEntries config.auth.apiKeyEntries).keys
      = before ++ ⟨secret.toByteArray, id, tier⟩ :: after)
    (hafter : ∀ k ∈ after, k.secret ≠ secret.toByteArray) :
    LastWithSecret config ⟨id, secret, tier⟩ := by
  obtain ⟨before', rest, hentries, rfl, hrest⟩ := List.map_eq_append_iff.mp hkeys
  obtain ⟨⟨id', secret', tier'⟩, after', rfl, hentry, rfl⟩ := List.map_eq_cons_iff.mp hrest
  obtain ⟨hsecret, rfl, rfl⟩ : secret'.toByteArray = secret.toByteArray ∧ id' = id ∧ tier' = tier := by
    simpa using hentry
  obtain rfl := String.toByteArray_inj.mp hsecret
  refine ⟨before', after', hentries, ?_⟩
  intro e he heq
  apply hafter ⟨e.secret.toByteArray, e.id, e.tier⟩ (List.mem_map_of_mem he)
  rw [heq]

/-- The key of a request is a simple one, with the default tier, or the last entry with its secret. -/
theorem tier_of_requireApiKey {header : Option (List UInt8)} {key : AuthenticatedKey}
    (h : requireApiKey (ApiKeySet.ofConfig digest config) header = .ok (some key)) :
    key.tier = config.retention.defaultTier ∨
      LastWithSecret config ⟨key.keyId, bearerToken header, key.tier⟩ := by
  obtain ⟨before, after, hkeys, hafter⟩ := matchedKey_eq_some.mp (matchedKey_of_requireApiKey h)
  -- the key stands among the simple ones, or among the entries behind them
  rcases List.append_eq_append_iff.mp hkeys with ⟨l, rfl, hentries⟩ | ⟨l, hsimple, hrest⟩
  · exact .inr (entry_of_split hentries hafter)
  · cases l with
    | nil => exact .inr (entry_of_split (hrest.symm.trans (List.nil_append _).symm) hafter)
    | cons k l =>
      obtain ⟨rfl, -⟩ := List.cons.inj hrest
      have hmem : (⟨(bearerToken header).toByteArray, key.keyId, key.tier⟩ : ApiKey) ∈
          (ApiKeySet.new digest config.auth.apiKeys config.retention.defaultTier).keys := by
        rw [hsimple]
        simp
      obtain ⟨raw, -, hraw⟩ := List.mem_map.mp hmem
      exact .inl (congrArg ApiKey.tier hraw).symm

/-- A request with the secret of a usable entry gets its id and its tier. -/
theorem requireApiKey_of_usable {pathExists : String → Bool}
    (hvalid : config.validate pathExists = .ok ()) {entry : ApiKeyEntry} (h : config.Usable entry) :
    requireApiKey (ApiKeySet.ofConfig digest config) (bearer entry.secret)
      = .ok (some ⟨entry.id, entry.tier⟩) := by
  obtain ⟨before, after, hentries, hafter⟩ := h.last
  have hsecret := (ServerConfig.entries_of_validate hvalid
    (e := entry) (by rw [hentries]; simp)).2
  have hkeys : (ApiKeySet.ofConfig digest config).keys
      = ((ApiKeySet.new digest config.auth.apiKeys config.retention.defaultTier).keys
          ++ (ApiKeySet.fromEntries before).keys)
        ++ ⟨entry.secret.toByteArray, entry.id, entry.tier⟩ :: (ApiKeySet.fromEntries after).keys := by
    simp [ApiKeySet.ofConfig, ApiKeySet.fromConfig, ApiKeySet.fromEntries, hentries]
  have hmatch : (ApiKeySet.ofConfig digest config).matchedKey entry.secret.toByteArray
      = some (entry.id, entry.tier) := by
    apply matchedKey_eq_some.mpr
    refine ⟨_, _, hkeys, ?_⟩
    intro k hk heq
    obtain ⟨e, he, rfl⟩ := List.mem_map.mp hk
    exact hafter e he (String.toByteArray_inj.mp heq)
  have hopen : (ApiKeySet.ofConfig digest config).isOpen = false := by
    rw [ApiKeySet.isOpen, hkeys]
    simp
  unfold requireApiKey
  rw [hopen, bearerToken_bearer h.sendable]
  dsimp only
  rw [hmatch]
  simp only [Bool.false_eq_true, if_false, String.isEmpty_iff, hsecret]
  rfl

/-! ## The events -/

theorem byteLength_le_of_checkLen {s name : String} {max : Nat}
    (h : checkLen (some s) name max = .ok ()) : byteLength s ≤ max := by
  unfold checkLen at h
  dsimp only at h
  split at h
  · cases h
  · rename_i hle
    exact Nat.not_lt.mp hle

/-- A payload that passes has a short enough key id. -/
theorem apiKeyId_short_of_validate {tf : TextFormats} {now : Int64} {event : IngestEvent} {id : String}
    (h : validate tf now event = .ok ()) (hid : event.apiKeyId = some id) :
    byteLength id ≤ MAX_ATTR_LEN := by
  unfold validate at h
  obtain ⟨_, -, h⟩ := bind_eq_ok
    (of_passed_check (of_passed_check (of_passed_check (of_passed_check h))))
  iterate 3 obtain ⟨_, -, h⟩ := bind_eq_ok h
  obtain ⟨_, hkey, -⟩ := bind_eq_ok h
  rw [hid] at hkey
  exact byteLength_le_of_checkLen hkey

/-- A payload with nothing but the required fields and a cost. -/
def plainEvent : IngestEvent := { model := "gpt-4o", provider := "openai", costNanodollars := some 0 }

/-- It is processed for every key whose id is short enough. -/
theorem processEvent_plainEvent {id : String} (h : byteLength id ≤ MAX_ATTR_LEN) (tier : String) :
    ∃ made, processEvent sampleSurroundings ⟨fun _ => none⟩ plainEvent (some id) tier = pure made := by
  have hkey : checkLen (some id) "api_key_id" MAX_ATTR_LEN = .ok () := by
    unfold checkLen
    dsimp only
    rw [if_neg (Nat.not_lt.mpr h)]
    rfl
  have hvalid : validate sampleSurroundings.tf sampleSurroundings.validatedAt
      (withAuthenticatedKey plainEvent (some id)) = .ok () := by
    have hmodel : "gpt-4o".isEmpty = false ∧ ¬ 256 < byteLength "gpt-4o" := by decide +kernel
    have hprovider : "openai".isEmpty = false ∧ ¬ 128 < byteLength "openai" := by decide +kernel
    have hendpoint : ¬ MAX_ENDPOINT_LEN < byteLength "" := by decide +kernel
    have htokens : validateTokens {} = .ok () := by decide +kernel
    unfold validate withAuthenticatedKey plainEvent
    dsimp only
    rw [hmodel.1, hprovider.1, if_neg hmodel.2, if_neg hprovider.2, htokens, hkey, if_neg hendpoint]
    rfl
  unfold processEvent
  dsimp only
  rw [hvalid]
  exact ⟨_, rfl⟩

/-- The tier of an event is the one of its request. -/
theorem MadeFor.tier_eq {settings : Settings} {r : Request} {e : LlmEvent}
    (h : MadeFor settings r e) : e.tier = (r.identity settings).2 := by
  obtain ⟨visit, payload, made, hmade, rfl⟩ := h
  exact (copied_of_buildLlmEvent (processEvent_eq_pure hmade).2).2.2.2.2

/-- And the id of its key is short. -/
theorem MadeFor.keyId_short {settings : Settings} {r : Request} {e : LlmEvent} {key : AuthenticatedKey}
    (h : MadeFor settings r e) (hauth : r.auth = some key) : byteLength key.keyId ≤ MAX_ATTR_LEN := by
  obtain ⟨visit, payload, made, hmade, rfl⟩ := h
  rw [Request.identity, hauth] at hmade
  exact apiKeyId_short_of_validate (processEvent_eq_pure hmade).1 rfl

/-- With policies for the tiers of all usable entries, every event has one. -/
theorem hasPolicy_of_madeFor {pathExists : String → Bool} (hvalid : config.validate pathExists = .ok ())
    {settings : Settings} (hdefault : settings.defaultTier = config.retention.defaultTier)
    (hentries : ∀ entry, config.Usable entry → config.HasPolicy entry.tier) {r : Request}
    (hkeys : r.keys = ApiKeySet.ofConfig digest config) {e : LlmEvent} (he : MadeFor settings r e) :
    config.HasPolicy e.tier := by
  have hpolicy : config.HasPolicy config.retention.defaultTier :=
    (ServerConfig.checked_of_validate hvalid).defaultTier
  rw [he.tier_eq, Request.identity]
  cases hauth : r.auth with
  | none =>
    dsimp only
    rwa [hdefault]
  | some key =>
    dsimp only
    have hauthentic := r.authentic
    rw [hkeys, hauth] at hauthentic
    rcases tier_of_requireApiKey hauthentic with htier | hlast
    · rwa [htier]
    · exact hentries ⟨key.keyId, bearerToken r.header, key.tier⟩
        ⟨hlast, sendable_bearerToken r.header, he.keyId_short hauth⟩

/-- A usable entry has events made for it. -/
theorem exists_madeFor_of_usable (settings : Settings) {pathExists : String → Bool}
    (hvalid : config.validate pathExists = .ok ()) {entry : ApiKeyEntry} (h : config.Usable entry) :
    ∃ (r : Request) (e : LlmEvent), r.keys = ApiKeySet.ofConfig digest config ∧ MadeFor settings r e ∧
      e.tier = entry.tier := by
  obtain ⟨made, hmade⟩ := processEvent_plainEvent h.short entry.tier
  have hauth : requireApiKey (ApiKeySet.ofConfig digest config) (bearer entry.secret)
      = .ok (some ⟨entry.id, entry.tier⟩) := requireApiKey_of_usable hvalid h
  obtain ⟨r, hr, hkeys⟩ : ∃ r : Request, r.auth = some ⟨entry.id, entry.tier⟩ ∧
      r.keys = ApiKeySet.ofConfig digest config :=
    ⟨⟨_, _, _, hauth, .fireAndForget, [], .returned, [], []⟩, rfl, rfl⟩
  have he : MadeFor settings r made.1 := by
    refine ⟨⟨sampleSurroundings, ⟨fun _ => none⟩, none⟩, plainEvent, made, ?_, rfl⟩
    rw [Request.identity, hr]
    exact hmade
  refine ⟨r, made.1, hkeys, he, ?_⟩
  rw [he.tier_eq, Request.identity, hr]

theorem Service.settings_run (settings : Settings) (batching : BatchConfig)
    (cache : Option IdempotencyCache) (xs : List Service.Input) :
    (run Service.step (.new settings batching cache) xs).settings = settings := by
  have hstep : ∀ (s : Service) (x : Service.Input), (s.step x).settings = s.settings := by
    intro s x
    have heffect := Service.effect s x
    cases hs : s.step x with
    | mk settings' writer cache requests stored =>
      rw [hs] at heffect
      cases heffect <;> rfl
  exact run_unchanged hstep _ xs

/-- For a configuration that passes `validate`, every event of every request has a tier with a
retention policy exactly when the tier of every usable key entry has one; and then every event that
any run of the service has stored for requests with these keys has one. -/
theorem stored_tiers_have_policies_iff (digest : ByteArray → Sha256) (config : ServerConfig)
    (pathExists : String → Bool) (hvalid : config.validate pathExists = .ok ()) (settings : Settings)
    (hdefault : settings.defaultTier = config.retention.defaultTier) :
    ((∀ r : Request, r.keys = ApiKeySet.ofConfig digest config →
        ∀ e, MadeFor settings r e → config.HasPolicy e.tier) ↔
      ∀ entry, config.Usable entry → config.HasPolicy entry.tier) ∧
    ((∀ entry, config.Usable entry → config.HasPolicy entry.tier) →
      ∀ (batching : BatchConfig) (cache : Option IdempotencyCache) (xs : List Service.Input),
        (∀ r ∈ (run Service.step (.new settings batching cache) xs).requests,
          r.keys = ApiKeySet.ofConfig digest config) →
        ∀ t ∈ (run Service.step (.new settings batching cache) xs).stored, ∃ e,
          Service.eventAt (run Service.step (.new settings batching cache) xs).writer t = some e ∧
          config.HasPolicy e.tier) := by
  refine ⟨⟨?_, ?_⟩, ?_⟩
  · intro h entry hentry
    obtain ⟨r, e, hkeys, he, htier⟩ := exists_madeFor_of_usable settings hvalid hentry
    rw [← htier]
    exact h r hkeys e he
  · intro h r hkeys e he
    exact hasPolicy_of_madeFor hvalid hdefault h hkeys he
  · intro h batching cache xs hkeys t ht
    obtain ⟨e, n, r, he, hn, -, hmade⟩ := (Service.inv_run settings batching cache xs).owner ht
    refine ⟨e, he, hasPolicy_of_madeFor hvalid hdefault h (hkeys r (List.mem_of_getElem? hn)) ?_⟩
    rwa [Service.settings_run] at hmade

/-- A configuration with one extended entry, whose tier is one of the defaults. -/
def proConfig : ServerConfig := { auth := { apiKeyEntries := [⟨"ci", "s3cret", "pro"⟩] } }

/-- All its events have a policy. -/
theorem stored_tiers_have_policies_pro :
    proConfig.validate (fun _ => false) = .ok () ∧
    sampleSettings.defaultTier = proConfig.retention.defaultTier ∧
    ∀ r : Request, r.keys = ApiKeySet.ofConfig (fun _ => Sha256.zero) proConfig →
      ∀ e, MadeFor sampleSettings r e → proConfig.HasPolicy e.tier := by
  have hvalid : proConfig.validate (fun _ => false) = .ok () := by decide +kernel
  refine ⟨hvalid, rfl, ?_⟩
  apply (stored_tiers_have_policies_iff (fun _ => Sha256.zero) proConfig (fun _ => false) hvalid
    sampleSettings rfl).1.mpr
  intro entry hentry
  obtain ⟨before, after, hentries, -⟩ := hentry.last
  have hmem : entry ∈ proConfig.auth.apiKeyEntries := by
    rw [hentries]
    simp
  rw [List.mem_singleton.mp hmem]
  decide

/-- One tier, and a key entry that leaves its tier out. -/
def teamConfig : ServerConfig where
  auth := { apiKeyEntries := [{ id := "ci", secret := "s3cret" }] }
  retention := { defaultTier := "team", tiers := [⟨"team", 30⟩] }

/-- The configuration passes, the events of the key are written to `free`, and the collector of the
year 2026, which would drop everything older than thirty days, does not come there: it leaves the
segment with an event of 2023. -/
theorem omitted_tier_is_kept_forever :
    teamConfig.validate (fun _ => false) = .ok () ∧
    (∃ (r : Request) (e : LlmEvent),
      r.keys = ApiKeySet.ofConfig (fun _ => Sha256.zero) teamConfig ∧
      MadeFor { sampleSettings with defaultTier := "team" } r e ∧ e.tier = "free") ∧
    ¬ teamConfig.HasPolicy "free" ∧
    (gcTieredPass newYear2026 teamConfig.retention.tiers oneEvent).engines.map
      (fun p => (p.1, p.2.segs.length)) = [("free", 1), ("team", 0)] := by
  have hvalid : teamConfig.validate (fun _ => false) = .ok () := by decide +kernel
  have husable : teamConfig.Usable { id := "ci", secret := "s3cret" } :=
    ⟨⟨[], [], rfl, by simp⟩, by simp [Sendable], by decide +kernel⟩
  exact ⟨hvalid, exists_madeFor_of_usable _ hvalid husable, by decide, by decide +kernel⟩

end Keplor.Server
