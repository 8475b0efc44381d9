import Keplor.Lib.Run
import Keplor.Server.Auth

/-!
# `sighup_reload_loop` and `run_server` — where the key set comes from

The server starts with the keys of a file that exists, loads and validates, or with the defaults
when there is no file. From then on each SIGHUP loads the file again and puts its keys in force. The
reload checks less than the start: it does not ask whether the file is there, and it never calls
`validate`.

`extract` stands for figment: the configuration it makes of the text of a file and of the process
environment, or its error. A file that is absent is read like an empty one.
-/

set_option autoImplicit false

namespace Keplor.Server

open Keplor.Core Keplor.Lib

/-- What is at the path of the configuration. -/
inductive ConfigFile where
  | absent
  | present (text : String)
  deriving DecidableEq, Repr

/-- What the server finds when it looks: the file, and which other paths exist. -/
structure Disk where
  config : ConfigFile
  pathExists : String → Bool

section Reload

variable (digest : ByteArray → Sha256) (extract : String → Except String ServerConfig)

/-- `ServerConfig::load` -/
def load (file : ConfigFile) : Except String ServerConfig :=
  match file with
  | .absent => extract ""
  | .present text => extract text

/-- The start of `run_server`, up to the key set. -/
def startServer (disk : Disk) : Except String ApiKeySet := do
  let config ← match disk.config with
    | .present text => extract text
    | .absent => pure {}
  config.validate disk.pathExists
  return ApiKeySet.ofConfig digest config

/-- One SIGHUP. -/
def sighupReload (keys : ApiKeySet) (disk : Disk) : ApiKeySet :=
  match load extract disk.config with
  | .ok config => ApiKeySet.ofConfig digest config
  | .error _ => keys

/-- A reload that should change nothing: the file is absent, does not load, or holds a configuration
that `validate` rejects. -/
inductive Bad (disk : Disk) : Prop where
  | absent (h : disk.config = .absent)
  | unreadable (e : String) (h : load extract disk.config = .error e)
  | rejected (config : ServerConfig) (e : String) (h : load extract disk.config = .ok config)
      (hreject : config.validate disk.pathExists = .error e)

/-- What loads comes from a file that is there, and passes `validate`. -/
def Sound (disk : Disk) : Prop :=
  ∀ config, load extract disk.config = .ok config →
    disk.config ≠ .absent ∧ config.validate disk.pathExists = .ok ()

/-- The keys of a configuration that passed `validate`. -/
def Vetted (keys : ApiKeySet) : Prop :=
  ∃ config pathExists, ServerConfig.validate pathExists config = .ok () ∧
    keys = ApiKeySet.ofConfig digest config

variable {digest extract} {disk : Disk} {keys : ApiKeySet}

theorem sighupReload_of_error {e : String} (h : load extract disk.config = .error e) :
    sighupReload digest extract keys disk = keys := by
  unfold sighupReload
  rw [h]

theorem sighupReload_of_ok {config : ServerConfig} (h : load extract disk.config = .ok config) :
    sighupReload digest extract keys disk = ApiKeySet.ofConfig digest config := by
  unfold sighupReload
  rw [h]

/-- On a sound disk, the only bad reload left is one that fails to load. -/
theorem Sound.error_of_bad (h : Sound extract disk) (hbad : Bad extract disk) :
    ∃ e, load extract disk.config = .error e := by
  cases hload : load extract disk.config with
  | error e => exact ⟨e, rfl⟩
  | ok config =>
    obtain ⟨hpresent, hvalid⟩ := h config hload
    cases hbad with
    | absent habsent => exact absurd habsent hpresent
    | unreadable e he =>
      rw [hload] at he
      cases he
    | rejected config' e hok hreject =>
      rw [hload] at hok
      cases hok
      rw [hvalid] at hreject
      cases hreject

/-- A disk that is not sound loads all the same, and it is bad. -/
theorem bad_of_not_sound (h : ¬ Sound extract disk) :
    Bad extract disk ∧ ∃ config, load extract disk.config = .ok config := by
  unfold Sound at h
  push Not at h
  obtain ⟨config, hload, hfails⟩ := h
  refine ⟨?_, config, hload⟩
  by_cases habsent : disk.config = .absent
  · exact .absent habsent
  · cases hvalid : config.validate disk.pathExists with
    | ok u => exact absurd hvalid (hfails habsent)
    | error e => exact .rejected config e hload hvalid

/-- A set that differs from the given one by a further key. -/
def withFurtherKey (keys : ApiKeySet) : ApiKeySet := ⟨⟨"".toByteArray, "", ""⟩ :: keys.keys⟩

theorem withFurtherKey_ne (keys : ApiKeySet) : keys ≠ withFurtherKey keys := by
  intro h
  have hlength := congrArg (fun k => k.keys.length) h
  simp [withFurtherKey] at hlength

theorem reload_keeps_iff :
    (∀ keys, Bad extract disk → sighupReload digest extract keys disk = keys) ↔
      Sound extract disk := by
  constructor
  · intro h
    by_contra hsound
    obtain ⟨hbad, config, hload⟩ := bad_of_not_sound hsound
    have hkept := h (withFurtherKey (ApiKeySet.ofConfig digest config)) hbad
    rw [sighupReload_of_ok hload] at hkept
    exact withFurtherKey_ne _ hkept
  · intro h keys hbad
    obtain ⟨e, he⟩ := h.error_of_bad hbad
    exact sighupReload_of_error he

theorem vetted_startServer (h : startServer digest extract disk = .ok keys) : Vetted digest keys := by
  unfold startServer at h
  dsimp only at h
  split at h
  · obtain ⟨config, -, h⟩ := bind_eq_ok h
    obtain ⟨_, hvalid, h⟩ := bind_eq_ok h
    exact ⟨config, _, hvalid, (Except.ok.inj h).symm⟩
  · obtain ⟨config, -, h⟩ := bind_eq_ok h
    obtain ⟨_, hvalid, h⟩ := bind_eq_ok h
    exact ⟨config, _, hvalid, (Except.ok.inj h).symm⟩

theorem vetted_sighupReload (h : Vetted digest keys) (hsound : Sound extract disk) :
    Vetted digest (sighupReload digest extract keys disk) := by
  cases hload : load extract disk.config with
  | error e => rwa [sighupReload_of_error hload]
  | ok config =>
    rw [sighupReload_of_ok hload]
    exact ⟨config, disk.pathExists, (hsound config hload).2, rfl⟩

theorem vetted_run (h : Vetted digest keys) {disks : List Disk}
    (hsound : ∀ disk ∈ disks, Sound extract disk) :
    Vetted digest (run (sighupReload digest extract) keys disks) := by
  induction disks generalizing keys with
  | nil => exact h
  | cons disk disks ih =>
    apply ih (vetted_sighupReload h (hsound disk (by simp)))
    intro d hd
    exact hsound d (by simp [hd])

/-- A disk is sound exactly when a reload of it fails safe, whatever keys are in force. A server that
started, and whose reloads all met sound disks, always has the keys of a configuration that passed
`validate`; a bad reload then leaves them as they are, and required authentication stays required. -/
theorem reload_fails_safe_iff_sound {start : Disk} {started : ApiKeySet} {disks : List Disk}
    (hstart : startServer digest extract start = .ok started)
    (hsound : ∀ disk ∈ disks, Sound extract disk) :
    (∀ disk, (∀ keys, Bad extract disk → sighupReload digest extract keys disk = keys) ↔
      Sound extract disk) ∧
    ∀ before disk after, disks = before ++ disk :: after →
      let keys := run (sighupReload digest extract) started before
      Vetted digest keys ∧ (Bad extract disk →
        sighupReload digest extract keys disk = keys ∧
        (keys.isOpen = false → (sighupReload digest extract keys disk).isOpen = false)) := by
  refine ⟨fun disk => reload_keeps_iff, fun before disk after hsplit => ?_⟩
  have hbefore : ∀ d ∈ before, Sound extract d := fun d hd => hsound d (by simp [hsplit, hd])
  have hvetted := vetted_run (vetted_startServer hstart) hbefore
  refine ⟨hvetted, fun hbad => ?_⟩
  have hkept : sighupReload digest extract (run (sighupReload digest extract) started before) disk
      = run (sighupReload digest extract) started before :=
    reload_keeps_iff.mpr (hsound disk (by simp [hsplit])) _ hbad
  exact ⟨hkept, fun hclosed => by rw [hkept]; exact hclosed⟩

end Reload

/-! ## Three files -/

/-- A file with one key. -/
def keyedText : String := "[auth]\napi_keys = [\"ops:s3cret\"]\n"

/-- The same with a table header left open. -/
def brokenText : String := "[auth\napi_keys = [\"ops:s3cret\"]\n"

/-- figment on these texts and on the empty one, with no variable set in the environment. -/
def extractSample (text : String) : Except String ServerConfig :=
  if text = "" then .ok {}
  else if text = keyedText then .ok { auth := { apiKeys := ["ops:s3cret"] } }
  else .error "TOML parse error at line 1, column 6"

def diskWith (file : ConfigFile) : Disk := ⟨file, fun _ => false⟩

/-- A syntax error between two good reloads: the keys stay in force. -/
theorem reload_fails_safe_on_broken_file :
    ∃ keys, startServer (fun _ => Sha256.zero) extractSample (diskWith (.present keyedText)) = .ok keys ∧
      keys.isOpen = false ∧
      sighupReload (fun _ => Sha256.zero) extractSample keys (diskWith (.present brokenText)) = keys := by
  obtain ⟨keys, hkeys, hopen⟩ : ∃ keys,
      startServer (fun _ => Sha256.zero) extractSample (diskWith (.present keyedText)) = .ok keys ∧
        keys.isOpen = false := ⟨_, rfl, by decide +kernel⟩
  have hbroken : load extractSample (.present brokenText)
      = .error "TOML parse error at line 1, column 6" := by decide +kernel
  have hsound : ∀ disk ∈ [diskWith (.present brokenText)], Sound extractSample disk := by
    intro disk hdisk config hload
    rw [List.mem_singleton.mp hdisk, show (diskWith (.present brokenText)).config
      = .present brokenText from rfl, hbroken] at hload
    cases hload
  have hrun := (reload_fails_safe_iff_sound hkeys hsound).2 [] _ [] rfl
  exact ⟨keys, hkeys, hopen, (hrun.2 (.unreadable _ hbroken)).1⟩

/-- The file is moved away for a moment and a SIGHUP comes in: authentication is off. -/
theorem reload_of_absent_file_opens :
    ∃ keys, startServer (fun _ => Sha256.zero) extractSample (diskWith (.present keyedText)) = .ok keys ∧
      keys.isOpen = false ∧ Bad extractSample (diskWith .absent) ∧
      (sighupReload (fun _ => Sha256.zero) extractSample keys (diskWith .absent)).isOpen = true :=
  ⟨_, rfl, by decide +kernel, .absent rfl, by decide +kernel⟩

end Keplor.Server
