import Keplor.Lib.Fallible

/-!
# `keplor-server/src/config.rs` — the configuration and its validation

The fields are the ones `validate` reads, with the defaults of the source; settings it never looks
at are left out. `ServerConfig.validate` is the only thing between the file and the running server,
so what it lets through is what the rest of the program has to cope with.
-/

set_option autoImplicit false

namespace Keplor.Server

/-- `ListenConfig` -/
structure ListenConfig where
  requestTimeoutSecs : UInt64 := 30
  maxConnections : UInt64 := 10000
  deriving DecidableEq, Repr

/-- `StorageConfig` -/
structure StorageConfig where
  dataDir : String := "./keplor_data"
  /-- 0 = disabled -/
  retentionDays : UInt64 := 90
  gcIntervalSecs : UInt64 := 3600
  walShardCount : UInt64 := 4
  rollupLoopSecs : UInt64 := 60
  sizeCheckIntervalMs : UInt64 := 1000
  deriving DecidableEq, Repr

/-- `ApiKeyEntry` -/
structure ApiKeyEntry where
  id : String
  secret : String
  tier : String := "free"
  deriving DecidableEq, Repr

/-- `AuthConfig` -/
structure AuthConfig where
  apiKeys : List String := []
  apiKeyEntries : List ApiKeyEntry := []
  deriving DecidableEq, Repr

/-- `PipelineConfig` -/
structure PipelineConfig where
  batchSize : UInt64 := 64
  maxBodyBytes : UInt64 := 10 * 1024 * 1024
  writeTimeoutSecs : UInt64 := 10
  flushIntervalMs : UInt64 := 50
  flushShards : UInt64 := 4
  deriving DecidableEq, Repr

/-- `TlsConfig` -/
structure TlsConfig where
  certPath : String
  keyPath : String
  deriving DecidableEq, Repr

/-- `RetentionTier` -/
structure RetentionTier where
  name : String
  /-- 0 = keep forever -/
  days : UInt64
  deriving DecidableEq, Repr

/-- `RetentionConfig` -/
structure RetentionConfig where
  defaultTier : String := "free"
  tiers : List RetentionTier := [⟨"free", 7⟩, ⟨"pro", 90⟩]
  deriving DecidableEq, Repr

/-- `PricingConfig` -/
structure PricingConfig where
  refreshIntervalSecs : UInt64 := 86400
  sourceUrl : String :=
    "https://raw.githubusercontent.com/BerriAI/litellm/main/litellm/model_prices_and_context_window_backup.json"
  deriving DecidableEq, Repr

/-- `ServerConfig` -/
structure ServerConfig where
  server : ListenConfig := {}
  storage : StorageConfig := {}
  auth : AuthConfig := {}
  pipeline : PipelineConfig := {}
  tls : Option TlsConfig := none
  retention : RetentionConfig := {}
  pricing : PricingConfig := {}
  deriving DecidableEq, Repr

/-- A setting outside its range, reported as `name = value bound`. -/
def outOfRange (bad : Bool) (name : String) (value : UInt64) (bound : String) : Except String Unit :=
  if bad then throw (name ++ " = " ++ toString value ++ " " ++ bound) else return

/-- A condition that must not hold. -/
def refuseIf (bad : Bool) (message : String) : Except String Unit :=
  if bad then throw message else return

/-- `ServerConfig::validate`; `pathExists` is `Path::exists`. -/
def ServerConfig.validate (pathExists : String → Bool) (c : ServerConfig) : Except String Unit := do
  refuseIf (c.pipeline.batchSize == 0) "pipeline.batch_size must be > 0"
  outOfRange (decide (100000 < c.pipeline.batchSize)) "pipeline.batch_size" c.pipeline.batchSize
    "is dangerously large (max 100,000)"
  refuseIf (c.pipeline.maxBodyBytes == 0) "pipeline.max_body_bytes must be > 0"
  outOfRange (decide (100 * 1024 * 1024 < c.pipeline.maxBodyBytes)) "pipeline.max_body_bytes"
    c.pipeline.maxBodyBytes "exceeds 100 MB safety limit"
  refuseIf c.storage.dataDir.isEmpty "storage.data_dir must not be empty"
  outOfRange (c.server.requestTimeoutSecs == 0 || decide (300 < c.server.requestTimeoutSecs))
    "server.request_timeout_secs" c.server.requestTimeoutSecs "must be in [1, 300]"
  refuseIf (c.server.maxConnections == 0) "server.max_connections must be > 0"
  outOfRange (c.storage.walShardCount == 0 || decide (64 < c.storage.walShardCount))
    "storage.wal_shard_count" c.storage.walShardCount "must be in [1, 64]"
  outOfRange (c.pipeline.writeTimeoutSecs == 0 || decide (300 < c.pipeline.writeTimeoutSecs))
    "pipeline.write_timeout_secs" c.pipeline.writeTimeoutSecs "must be in [1, 300]"
  outOfRange (c.pipeline.flushIntervalMs == 0 || decide (10000 < c.pipeline.flushIntervalMs))
    "pipeline.flush_interval_ms" c.pipeline.flushIntervalMs "must be in [1, 10000]"
  outOfRange (c.pipeline.flushShards == 0 || decide (64 < c.pipeline.flushShards))
    "pipeline.flush_shards" c.pipeline.flushShards "must be in [1, 64]"
  outOfRange (decide (c.storage.rollupLoopSecs < 5) || decide (3600 < c.storage.rollupLoopSecs))
    "storage.rollup_loop_secs" c.storage.rollupLoopSecs "must be in [5, 3600]"
  outOfRange (decide (60000 < c.storage.sizeCheckIntervalMs)) "storage.size_check_interval_ms"
    c.storage.sizeCheckIntervalMs "must be <= 60000 (0 = disabled)"
  outOfRange (c.pricing.refreshIntervalSecs != 0 && (decide (c.pricing.refreshIntervalSecs < 60) ||
      decide (604800 < c.pricing.refreshIntervalSecs)))
    "pricing.refresh_interval_secs" c.pricing.refreshIntervalSecs
    "must be 0 (disabled) or in [60, 604800]"
  refuseIf c.pricing.sourceUrl.isEmpty "pricing.source_url must not be empty"
  if let some tls := c.tls then
    refuseIf (!pathExists tls.certPath) ("tls.cert_path does not exist: " ++ tls.certPath)
    refuseIf (!pathExists tls.keyPath) ("tls.key_path does not exist: " ++ tls.keyPath)
  refuseIf c.retention.tiers.isEmpty "retention.tiers must have at least one tier"
  refuseIf (c.retention.tiers.any fun t => t.name.isEmpty) "retention tier name must not be empty"
  refuseIf (!c.retention.tiers.any fun t => t.name == c.retention.defaultTier)
    ("retention.default_tier '" ++ c.retention.defaultTier ++ "' does not match any defined tier")
  refuseIf (c.auth.apiKeyEntries.any fun e => e.id.isEmpty || e.secret.isEmpty)
    "api_key_entries: id and secret must not be empty"

example : ServerConfig.validate (fun _ => false) {} = .ok () := by decide +kernel

theorem eq_false_of_refuseIf {bad : Bool} {message : String} (h : refuseIf bad message = .ok ()) :
    bad = false := by
  unfold refuseIf at h
  split at h
  · cases h
  · rename_i hbad
    exact Bool.eq_false_iff.mpr hbad

/-- What the last checks let through: the default tier is one of the tiers, and an extended key entry
has an id and a secret. -/
structure ServerConfig.Checked (c : ServerConfig) : Prop where
  defaultTier : ∃ t ∈ c.retention.tiers, t.name = c.retention.defaultTier
  tierNames : ∀ t ∈ c.retention.tiers, t.name ≠ ""
  entries : ∀ e ∈ c.auth.apiKeyEntries, e.id ≠ "" ∧ e.secret ≠ ""

open Keplor.Lib in
theorem ServerConfig.checked_of_validate {pathExists : String → Bool} {c : ServerConfig}
    (h : c.validate pathExists = .ok ()) : c.Checked := by
  unfold validate at h
  iterate 15 obtain ⟨_, -, h⟩ := bind_eq_ok h
  -- with or without TLS, the checks that follow are the same
  have hrest : (do
      refuseIf c.retention.tiers.isEmpty "retention.tiers must have at least one tier"
      refuseIf (c.retention.tiers.any fun t => t.name.isEmpty) "retention tier name must not be empty"
      refuseIf (!c.retention.tiers.any fun t => t.name == c.retention.defaultTier)
        ("retention.default_tier '" ++ c.retention.defaultTier ++ "' does not match any defined tier")
      refuseIf (c.auth.apiKeyEntries.any fun e => e.id.isEmpty || e.secret.isEmpty)
        "api_key_entries: id and secret must not be empty") = .ok () := by
    dsimp only at h
    split at h
    · iterate 2 obtain ⟨_, -, h⟩ := bind_eq_ok h
      exact h
    · exact h
  obtain ⟨_, -, hrest⟩ := bind_eq_ok hrest
  obtain ⟨_, hnames, hrest⟩ := bind_eq_ok hrest
  obtain ⟨_, hdefault, hentries⟩ := bind_eq_ok hrest
  have hdefault := eq_false_of_refuseIf hdefault
  have hnames := eq_false_of_refuseIf hnames
  have hentries := eq_false_of_refuseIf hentries
  refine ⟨?_, ?_, ?_⟩
  · simpa using hdefault
  · simpa using hnames
  · simpa using hentries

/-- An extended key entry has an id and a secret. -/
theorem ServerConfig.entries_of_validate {pathExists : String → Bool} {c : ServerConfig}
    (h : c.validate pathExists = .ok ()) {e : ApiKeyEntry} (he : e ∈ c.auth.apiKeyEntries) :
    e.id ≠ "" ∧ e.secret ≠ "" :=
  (checked_of_validate h).entries e he

end Keplor.Server
