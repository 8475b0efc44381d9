import Keplor.Lib.Run
import Keplor.Lib.TokenBucket
import Keplor.Server.Auth
import Mathlib.Algebra.Order.Floor.Ring
import Mathlib.Data.Rat.Floor

/-!
# `keplor-server/src/rate_limit.rs` — a token bucket for each key

The limiter is sixteen maps from keys to buckets, and a key lives in the map its hash names. Times
and token counts are rationals here; the source works with `f64`. `DefaultHasher` is a parameter:
nothing depends on how keys are spread, because a call touches one entry of one map.

A key that was never seen gets a full bucket. As far as answers go it had one all along
(`Stands.full`), which lets one bucket stand for the key through the whole run.
-/

set_option autoImplicit false

namespace Keplor.Server

open Keplor.Lib

/-- `NUM_SHARDS` -/
def RateLimiter.NUM_SHARDS : Nat := 16

/-- `RateLimitConfig` -/
structure RateLimitConfig where
  requestsPerSecond : ℚ
  burst : UInt64

/-- `TokenBucket` -/
structure TokenBucket where
  tokens : ℚ
  lastRefill : ℚ
  deriving DecidableEq

/-- `RateLimiter` -/
structure RateLimiter where
  shards : Fin RateLimiter.NUM_SHARDS → String → Option TokenBucket
  config : RateLimitConfig

variable (hash : String → UInt64)

/-- `shard_index` -/
def RateLimiter.shardIndex (key : String) : Fin RateLimiter.NUM_SHARDS :=
  ⟨(hash key).toNat % RateLimiter.NUM_SHARDS, Nat.mod_lt _ (by decide)⟩

/-- `burst as f64` -/
def RateLimitConfig.capacity (c : RateLimitConfig) : ℚ := c.burst.toNat

namespace RateLimiter

/-- `RateLimiter::new` -/
def new (config : RateLimitConfig) : RateLimiter := ⟨fun _ _ => none, config⟩

/-- The entry of a key. -/
def bucket (l : RateLimiter) (key : String) : Option TokenBucket := l.shards (shardIndex hash key) key

/-- Write the entry of a key. -/
def setBucket (l : RateLimiter) (key : String) (b : TokenBucket) : RateLimiter :=
  { l with
    shards := Function.update l.shards (shardIndex hash key)
      (Function.update (l.shards (shardIndex hash key)) key (some b)) }

/-- `RateLimiter::try_acquire` at a clock value. `duration_since` never goes below zero. -/
def tryAcquire (l : RateLimiter) (key : String) (now : ℚ) : Except ℚ Unit × RateLimiter :=
  let burst := l.config.capacity
  let rps := l.config.requestsPerSecond
  let found := (l.bucket hash key).getD ⟨burst, now⟩
  let elapsed := max 0 (now - found.lastRefill)
  let tokens := min (found.tokens + elapsed * rps) burst
  if 1 ≤ tokens then (.ok (), l.setBucket hash key ⟨tokens - 1, now⟩)
  else (.error ((1 - tokens) / rps), l.setBucket hash key ⟨tokens, now⟩)

end RateLimiter

/-- `StatusCode::TOO_MANY_REQUESTS` -/
def TOO_MANY_REQUESTS : UInt16 := 429

/-- A float as `u64`: the fraction goes, and what does not fit is moved to the nearest end. -/
def asU64 (n : Int) : UInt64 := UInt64.ofNat (min n.toNat (2 ^ 64 - 1))

/-- `make_rate_limit_middleware`: the status and `Retry-After` of a refusal, or on to the handler. A
request without a key is not limited. -/
def rateLimit (l : RateLimiter) (auth : Option AuthenticatedKey) (now : ℚ) :
    Except (UInt16 × UInt64) Unit × RateLimiter :=
  match auth with
  | none => (.ok (), l)
  | some key =>
    let (answer, l) := l.tryAcquire hash key.keyId now
    (answer.mapError fun retryAfter => (TOO_MANY_REQUESTS, asU64 ⌈retryAfter⌉), l)

/-! ## Sequences of calls -/

/-- A call of `try_acquire`, and what its clock shows. -/
structure Acquire where
  key : String
  now : ℚ
  deriving DecidableEq

namespace RateLimiter

def step (l : RateLimiter) (c : Acquire) : RateLimiter := (l.tryAcquire hash c.key c.now).2

/-- The calls in the order in which they get hold of their shards, each with its answer. -/
def answers : RateLimiter → List Acquire → List (Acquire × Except ℚ Unit)
  | _, [] => []
  | l, c :: calls => (c, (l.tryAcquire hash c.key c.now).1) :: answers (l.step hash c) calls

end RateLimiter

/-- How many calls for a key are answered `Ok` in a closed window. -/
def okIn (key : String) (s t : ℚ) (answered : List (Acquire × Except ℚ Unit)) : Nat :=
  answered.countP fun a =>
    decide (a.1.key = key) && (a.2.isOk && (decide (s ≤ a.1.now) && decide (a.1.now ≤ t)))

variable {hash} {l : RateLimiter} {key : String} {now : ℚ}

namespace RateLimiter

@[simp] theorem bucket_setBucket (l : RateLimiter) (key k : String) (b : TokenBucket) :
    (l.setBucket hash key b).bucket hash k = if k = key then some b else l.bucket hash k := by
  unfold bucket setBucket
  by_cases hk : k = key
  · subst hk
    simp
  · by_cases hshard : shardIndex hash k = shardIndex hash key
    · simp [hshard, hk]
    · simp [hshard, hk]

@[simp] theorem config_setBucket (l : RateLimiter) (key : String) (b : TokenBucket) :
    (l.setBucket hash key b).config = l.config := rfl

end RateLimiter

/-- An entry as a token bucket. -/
def TokenBucket.view (b : TokenBucket) : FillingBucket ℚ := ⟨b.tokens, b.lastRefill⟩

/-- A token bucket stands for a key: it is the key's entry, or full where there is none. -/
def Stands (hash : String → UInt64) (l : RateLimiter) (key : String) (b : FillingBucket ℚ) : Prop :=
  match l.bucket hash key with
  | some found => b = found.view
  | none => b.level = l.config.capacity

namespace RateLimiter

@[simp] theorem config_step (l : RateLimiter) (c : Acquire) : (l.step hash c).config = l.config := by
  unfold step tryAcquire
  dsimp only
  split <;> rfl

/-- A call leaves the entries of the other keys alone. -/
theorem bucket_step_of_ne {c : Acquire} (h : c.key ≠ key) :
    (l.step hash c).bucket hash key = l.bucket hash key := by
  unfold step tryAcquire
  dsimp only
  split <;> simp [Ne.symm h]

/-- A full bucket, however old, is filled to the brim. -/
theorem fill_full {rate capacity : ℚ} {b : FillingBucket ℚ} (hrate : 0 ≤ rate)
    (hfull : b.level = capacity) (hnow : b.time ≤ now) :
    b.fill rate capacity now = ⟨capacity, now⟩ := by
  have hin : 0 ≤ (now - b.time) * rate := mul_nonneg (sub_nonneg.mpr hnow) hrate
  have hmin : min (capacity + (now - b.time) * rate) capacity = capacity := by
    apply min_eq_right
    linarith
  unfold FillingBucket.fill
  rw [hfull, hmin]

/-- The entry a call works on, filled up, is the filled bucket that stands for the key. -/
theorem fill_of_stands {b : FillingBucket ℚ} (hrate : 0 ≤ l.config.requestsPerSecond)
    (hb : Stands hash l key b) (hnow : b.time ≤ now) :
    let found := (l.bucket hash key).getD ⟨l.config.capacity, now⟩
    b.fill l.config.requestsPerSecond l.config.capacity now
      = ⟨min (found.tokens + max 0 (now - found.lastRefill) * l.config.requestsPerSecond)
          l.config.capacity, now⟩ := by
  unfold Stands at hb
  cases hfound : l.bucket hash key with
  | none =>
    rw [hfound] at hb
    rw [fill_full hrate hb hnow]
    simp
  | some found =>
    rw [hfound] at hb
    subst hb
    have helapsed : max 0 (now - found.lastRefill) = now - found.lastRefill :=
      max_eq_right (sub_nonneg.mpr hnow)
    simp [TokenBucket.view, FillingBucket.fill, helapsed]

/-- The answer is the one of the bucket that stands for the key, and afterwards the bucket's
successor stands for it. -/
theorem tryAcquire_spec {b : FillingBucket ℚ} (hrate : 0 ≤ l.config.requestsPerSecond)
    (hb : Stands hash l key b) (hnow : b.time ≤ now) :
    (l.tryAcquire hash key now).1.isOk
      = (b.take l.config.requestsPerSecond l.config.capacity now).1 ∧
    Stands hash (l.tryAcquire hash key now).2 key
      (b.take l.config.requestsPerSecond l.config.capacity now).2 := by
  unfold tryAcquire FillingBucket.take
  dsimp only
  rw [fill_of_stands hrate hb hnow]
  dsimp only
  split <;> simp [Stands, TokenBucket.view, Except.isOk, Except.toBool]

/-- Other calls change neither the entry of a key nor what stands for it. -/
theorem stands_step_of_ne {c : Acquire} {b : FillingBucket ℚ} (h : c.key ≠ key)
    (hb : Stands hash l key b) : Stands hash (l.step hash c) key b := by
  unfold Stands
  rw [bucket_step_of_ne h, config_step]
  exact hb

/-- The answers to a key are those of one bucket, called at the key's own times. -/
theorem answers_eq_takes {calls : List Acquire} {b : FillingBucket ℚ} (hb : Stands hash l key b)
    (hrate : 0 ≤ l.config.requestsPerSecond)
    (hsorted : calls.Pairwise fun c d => c.now ≤ d.now) (hfrom : ∀ c ∈ calls, b.time ≤ c.now) :
    ((l.answers hash calls).filter fun a => a.1.key = key).map (fun a => (a.1.now, a.2.isOk))
      = b.takes l.config.requestsPerSecond l.config.capacity
          ((calls.filter fun c => c.key = key).map (·.now)) := by
  induction calls generalizing l b with
  | nil => rfl
  | cons c calls ih =>
    have hlater : ∀ d ∈ calls, c.now ≤ d.now := fun d hd => List.rel_of_pairwise_cons hsorted hd
    have hrate' : 0 ≤ (l.step hash c).config.requestsPerSecond := by rwa [config_step]
    by_cases hkey : c.key = key
    · subst hkey
      obtain ⟨hanswer, hnext⟩ := tryAcquire_spec hrate hb (hfrom c (by simp))
      have hstands : Stands hash (l.step hash c) c.key _ := hnext
      have hrest := ih hstands hrate' hsorted.of_cons (by simpa using hlater)
      rw [config_step] at hrest
      simp [answers, FillingBucket.takes, hanswer, hrest]
    · have hrest := ih (stands_step_of_ne hkey hb) hrate' hsorted.of_cons
        (fun d hd => hfrom d (by simp [hd]))
      rw [config_step] at hrest
      simpa [answers, hkey] using hrest

/-- Limiters with the same entry for a key answer that key alike, whatever is asked for others. -/
theorem answers_filter {l' : RateLimiter} {calls : List Acquire} (hconfig : l.config = l'.config)
    (hbucket : l.bucket hash key = l'.bucket hash key) :
    (l.answers hash calls).filter (fun a => a.1.key = key)
      = l'.answers hash (calls.filter fun c => c.key = key) := by
  induction calls generalizing l l' with
  | nil => rfl
  | cons c calls ih =>
    by_cases hkey : c.key = key
    · subst hkey
      have hanswer : (l.tryAcquire hash c.key c.now).1 = (l'.tryAcquire hash c.key c.now).1 := by
        unfold tryAcquire
        rw [hconfig, hbucket]
        dsimp only
        split <;> rfl
      have hentry : (l.step hash c).bucket hash c.key = (l'.step hash c).bucket hash c.key := by
        unfold step tryAcquire
        rw [hconfig, hbucket]
        dsimp only
        split <;> simp
      have hsame : (l.step hash c).config = (l'.step hash c).config := by simpa using hconfig
      have hrest := ih hsame hentry
      simp [answers, hanswer, hrest]
    · have hsame : (l.step hash c).config = l'.config := by simpa using hconfig
      have hrest := ih hsame (by rw [bucket_step_of_ne hkey, hbucket])
      simpa [answers, hkey] using hrest

/-- Every entry holds between no tokens and a full burst. -/
structure Filled (hash : String → UInt64) (config : RateLimitConfig) (l : RateLimiter) : Prop where
  config_eq : l.config = config
  within : ∀ key b, l.bucket hash key = some b → 0 ≤ b.tokens ∧ b.tokens ≤ config.capacity

theorem filled_new (config : RateLimitConfig) : Filled hash config (new config) := by
  refine ⟨rfl, ?_⟩
  intro key b h
  cases h

theorem capacity_nonneg (c : RateLimitConfig) : 0 ≤ c.capacity := Nat.cast_nonneg _

theorem filled_step {config : RateLimitConfig} (hrate : 0 ≤ config.requestsPerSecond)
    (h : Filled hash config l) (c : Acquire) : Filled hash config (l.step hash c) := by
  obtain ⟨rfl, hwithin⟩ := h
  have hcapacity := capacity_nonneg l.config
  have hfound : 0 ≤ ((l.bucket hash c.key).getD ⟨l.config.capacity, c.now⟩).tokens := by
    cases hb : l.bucket hash c.key with
    | none => simpa using hcapacity
    | some b => simpa using (hwithin c.key b hb).1
  have hin : 0 ≤ max 0 (c.now - ((l.bucket hash c.key).getD ⟨l.config.capacity, c.now⟩).lastRefill)
      * l.config.requestsPerSecond := mul_nonneg (le_max_left _ _) hrate
  refine ⟨config_step l c, ?_⟩
  intro key b hb
  by_cases hkey : key = c.key
  · subst hkey
    unfold step tryAcquire at hb
    dsimp only at hb
    split at hb
    · rename_i hone
      simp only [bucket_setBucket, if_true, Option.some.injEq] at hb
      subst hb
      refine ⟨sub_nonneg.mpr hone, ?_⟩
      exact (sub_le_self _ zero_le_one).trans (min_le_right _ _)
    · simp only [bucket_setBucket, if_true, Option.some.injEq] at hb
      subst hb
      exact ⟨le_min (add_nonneg hfound hin) hcapacity, min_le_right _ _⟩
  · rw [bucket_step_of_ne (Ne.symm hkey)] at hb
    exact hwithin key b hb

theorem filled_run {config : RateLimitConfig} (hrate : 0 ≤ config.requestsPerSecond)
    (h : Filled hash config l) (calls : List Acquire) :
    Filled hash config (run (step hash) l calls) := by
  have hstep : ∀ l c, Filled hash config l → Filled hash config (step hash l c) :=
    fun _ c hl => filled_step hrate hl c
  exact run_invariant_of_step hstep h calls

end RateLimiter

/-- The calls for a key that a window counts are those of the bucket that stands for it. -/
theorem okIn_eq_grantedIn (key : String) (s t : ℚ) (answered : List (Acquire × Except ℚ Unit)) :
    okIn key s t answered
      = FillingBucket.grantedIn s t
          ((answered.filter fun a => a.1.key = key).map fun a => (a.1.now, a.2.isOk)) := by
  unfold okIn FillingBucket.grantedIn
  rw [List.countP_map, List.countP_filter]
  apply List.countP_congr
  intro a _
  simp only [Function.comp, Bool.and_eq_true, decide_eq_true_eq]
  tauto

/-- In every closed window the calls for a key that get through are at most a burst and the refill of
the window; every entry stays between none and a full burst; and the answers to a key do not depend
on the calls for other keys. -/
theorem rate_limit_window_bound (hash : String → UInt64) (config : RateLimitConfig)
    (hrps : 0 < config.requestsPerSecond) (calls : List Acquire)
    (hclock : calls.Pairwise fun c d => c.now ≤ d.now) (key : String) :
    (∀ s t, s ≤ t → (okIn key s t ((RateLimiter.new config).answers hash calls) : ℚ)
      ≤ config.burst.toNat + config.requestsPerSecond * (t - s)) ∧
    (∀ b, (run (RateLimiter.step hash) (RateLimiter.new config) calls).bucket hash key = some b →
      0 ≤ b.tokens ∧ b.tokens ≤ config.burst.toNat) ∧
    ((RateLimiter.new config).answers hash calls).filter (fun a => a.1.key = key)
      = (RateLimiter.new config).answers hash (calls.filter fun c => c.key = key) := by
  have hcapacity := RateLimiter.capacity_nonneg config
  refine ⟨?_, ?_, RateLimiter.answers_filter rfl rfl⟩
  · intro s t hst
    -- a bucket that was full before the first call stands for the key
    obtain ⟨start, hstart⟩ : ∃ start, ∀ c ∈ calls, start ≤ c.now := by
      cases calls with
      | nil => exact ⟨0, by simp⟩
      | cons c calls =>
        refine ⟨c.now, ?_⟩
        intro d hd
        rcases List.mem_cons.mp hd with rfl | hd
        · exact le_rfl
        · exact List.rel_of_pairwise_cons hclock hd
    have hstands : Stands hash (RateLimiter.new config) key ⟨config.capacity, start⟩ := rfl
    rw [okIn_eq_grantedIn, RateLimiter.answers_eq_takes hstands hrps.le hclock hstart]
    have htimes : (start :: (calls.filter fun c => c.key = key).map (·.now)).Pairwise (· ≤ ·) := by
      apply List.Pairwise.cons
      · intro now hnow
        obtain ⟨c, hc, rfl⟩ := List.mem_map.mp hnow
        exact hstart c (List.mem_of_mem_filter hc)
      · exact List.pairwise_map.mpr (hclock.sublist List.filter_sublist)
    rw [mul_comm config.requestsPerSecond]
    exact FillingBucket.grantedIn_le hrps.le hcapacity htimes ⟨hcapacity, le_rfl⟩ hst
  · intro b hb
    exact (RateLimiter.filled_run hrps.le (RateLimiter.filled_new config) calls).within key b hb

/-- The limiter of the tests: ten a second, five at once. -/
def tenASecond : RateLimitConfig := ⟨10, 5⟩

/-- Seven calls of one key at once, a call of another key between them. -/
def burstOfSeven : List Acquire :=
  List.replicate 3 ⟨"key-1", 0⟩ ++ ⟨"key-2", 0⟩ :: List.replicate 4 ⟨"key-1", 0⟩

/-- Five of the seven get through, as many as the window allows. -/
theorem rate_limit_window_bound_burst :
    0 < tenASecond.requestsPerSecond ∧ (burstOfSeven.Pairwise fun c d => c.now ≤ d.now) ∧
    okIn "key-1" 0 0 ((RateLimiter.new tenASecond).answers (fun _ => 0) burstOfSeven) = 5 ∧
    (okIn "key-1" 0 0 ((RateLimiter.new tenASecond).answers (fun _ => 0) burstOfSeven) : ℚ)
      ≤ 5 + 10 * (0 - 0) := by
  have hrps : 0 < tenASecond.requestsPerSecond := by decide +kernel
  have hclock : burstOfSeven.Pairwise fun c d => c.now ≤ d.now := by decide +kernel
  refine ⟨hrps, hclock, by decide +kernel, ?_⟩
  exact (rate_limit_window_bound (fun _ => 0) tenASecond hrps burstOfSeven hclock "key-1").1 0 0 le_rfl

/-! ## `Retry-After` -/

namespace RateLimiter

/-- What a refusal leaves: an entry short of a token, which fills up in the time it told. -/
theorem of_refused {wait : ℚ} (h : (l.tryAcquire hash key now).1 = .error wait) :
    ∃ tokens, tokens < 1 ∧ wait = (1 - tokens) / l.config.requestsPerSecond ∧
      (l.tryAcquire hash key now).2 = l.setBucket hash key ⟨tokens, now⟩ := by
  unfold tryAcquire at h ⊢
  dsimp only at h ⊢
  split at h
  · cases h
  · rename_i hless
    cases h
    rw [if_neg hless]
    exact ⟨_, not_le.mp hless, rfl, rfl⟩

theorem config_run (l : RateLimiter) (calls : List Acquire) :
    (run (step hash) l calls).config = l.config :=
  run_unchanged config_step l calls

/-- Refused calls for a key, and any calls for others, keep the key's bucket on its line. -/
theorem run_refused {calls : List Acquire} {b : FillingBucket ℚ}
    (hrate : 0 ≤ l.config.requestsPerSecond) (hone : 1 ≤ l.config.capacity)
    (hb : Stands hash l key b)
    (hclock : (b.time :: (calls.filter fun c => c.key = key).map (·.now)).Pairwise (· ≤ ·))
    (hrefused : ∀ a ∈ l.answers hash calls, a.1.key = key → a.2.isOk = false) :
    ∃ b', Stands hash (run (step hash) l calls) key b' ∧
      b'.start l.config.requestsPerSecond = b.start l.config.requestsPerSecond ∧
      b'.time ∈ b.time :: (calls.filter fun c => c.key = key).map (·.now) := by
  induction calls generalizing l b with
  | nil => exact ⟨b, hb, rfl, List.mem_singleton.mpr rfl⟩
  | cons c calls ih =>
    have hrate' : 0 ≤ (l.step hash c).config.requestsPerSecond := by rwa [config_step]
    have hone' : 1 ≤ (l.step hash c).config.capacity := by rwa [config_step]
    have hrest : ∀ a ∈ (l.step hash c).answers hash calls, a.1.key = key → a.2.isOk = false :=
      fun a ha => hrefused a (List.mem_cons_of_mem _ ha)
    by_cases hkey : c.key = key
    · subst hkey
      simp only [List.filter_cons, decide_true, if_true, List.map_cons] at hclock ⊢
      obtain ⟨hanswer, hnext⟩ := tryAcquire_spec hrate hb
        (List.rel_of_pairwise_cons hclock List.mem_cons_self)
      have hno : (b.take l.config.requestsPerSecond l.config.capacity c.now).1 = false := by
        rw [← hanswer]
        exact hrefused _ List.mem_cons_self rfl
      -- a refusal moves the clock of the bucket, along its line
      obtain ⟨b', hstands, hstart, htime⟩ := ih hrate' hone' hnext
        (by rw [FillingBucket.take_time]; exact hclock.of_cons) hrest
      rw [config_step, FillingBucket.start_take hone hno] at hstart
      rw [FillingBucket.take_time] at htime
      exact ⟨b', hstands, hstart, List.mem_cons_of_mem _ htime⟩
    · have hskip : (c :: calls).filter (fun c => c.key = key) = calls.filter fun c => c.key = key := by
        simp [hkey]
      rw [hskip] at hclock ⊢
      obtain ⟨b', hstands, hstart, htime⟩ := ih hrate' hone' (stands_step_of_ne hkey hb) hclock hrest
      rw [config_step] at hstart
      exact ⟨b', hstands, hstart, htime⟩

theorem one_le_capacity {config : RateLimitConfig} (h : 1 ≤ config.burst) : 1 ≤ config.capacity := by
  have hnat : 1 ≤ config.burst.toNat := UInt64.le_iff_toNat_le.mp h
  unfold RateLimitConfig.capacity
  exact_mod_cast hnat

/-- After a refusal the next call for the key gets through when the wait is over, and not before. -/
theorem isOk_iff_waited {wait later : ℚ} (hrps : 0 < l.config.requestsPerSecond)
    (hburst : 1 ≤ l.config.burst) (h : (l.tryAcquire hash key now).1 = .error wait)
    {calls : List Acquire}
    (hclock : (now :: ((calls.filter fun c => c.key = key).map (·.now) ++ [later])).Pairwise (· ≤ ·))
    (hrefused : ∀ a ∈ (l.tryAcquire hash key now).2.answers hash calls,
      a.1.key = key → a.2.isOk = false) :
    ((run (step hash) (l.tryAcquire hash key now).2 calls).tryAcquire hash key later).1.isOk = true ↔
      wait ≤ later - now := by
  obtain ⟨tokens, -, rfl, hentry⟩ := of_refused h
  rw [hentry] at hrefused ⊢
  have hone := one_le_capacity hburst
  have hstands : Stands hash (l.setBucket hash key ⟨tokens, now⟩) key ⟨tokens, now⟩ := by
    simp [Stands, TokenBucket.view]
  rw [← List.cons_append] at hclock
  obtain ⟨hbefore, -, hafter⟩ := List.pairwise_append.mp hclock
  obtain ⟨b, hb, hstart, htime⟩ := run_refused
    (l := l.setBucket hash key ⟨tokens, now⟩) (le_of_lt hrps) hone hstands hbefore hrefused
  have hlate : b.time ≤ later := hafter _ htime _ (List.mem_singleton.mpr rfl)
  obtain ⟨hanswer, -⟩ := tryAcquire_spec (by rw [config_run]; exact le_of_lt hrps) hb hlate
  -- both sides are now the line through the entry of the first refusal, read at `later`
  rw [hanswer, config_run, config_setBucket, FillingBucket.take_iff hone]
  rw [config_setBucket] at hstart
  rw [hstart, div_le_iff₀ hrps]
  unfold FillingBucket.start
  constructor
  · intro hle
    linarith
  · intro hle
    linarith

theorem wait_pos {wait : ℚ} (hrps : 0 < l.config.requestsPerSecond)
    (h : (l.tryAcquire hash key now).1 = .error wait) : 0 < wait := by
  obtain ⟨tokens, htokens, rfl, -⟩ := of_refused h
  exact div_pos (sub_pos.mpr htokens) hrps

theorem mem_of_mem_answers {calls : List Acquire} {a : Acquire × Except ℚ Unit}
    (h : a ∈ l.answers hash calls) : a.1 ∈ calls := by
  induction calls generalizing l with
  | nil => cases h
  | cons c calls ih =>
    rcases List.mem_cons.mp h with rfl | h
    · exact List.mem_cons_self
    · exact List.mem_cons_of_mem _ (ih h)

/-- A refused call is told how long to wait. If it comes back no sooner, and nobody else asked for
its key, it gets through. -/
theorem ok_after_wait {wait later : ℚ} (hrps : 0 < l.config.requestsPerSecond)
    (hburst : 1 ≤ l.config.burst) (h : (l.tryAcquire hash key now).1 = .error wait)
    {others : List Acquire} (hothers : ∀ c ∈ others, c.key ≠ key) (hlater : now + wait ≤ later) :
    ((run (step hash) (l.tryAcquire hash key now).2 others).tryAcquire hash key later).1.isOk = true := by
  have hwait := wait_pos hrps h
  have hnone : (others.filter fun c => c.key = key) = [] := by
    simpa [List.filter_eq_nil_iff] using hothers
  refine (isOk_iff_waited hrps hburst h ?_ fun a ha hkey => ?_).mpr (by linarith)
  · simp only [hnone, List.map_nil, List.nil_append, List.pairwise_pair]
    linarith
  · exact absurd hkey (hothers a.1 (mem_of_mem_answers ha))

end RateLimiter

theorem toNat_asU64 {n : Int} (hpos : 0 ≤ n) (hlt : n < 2 ^ 64) : ((asU64 n).toNat : Int) = n := by
  have hfits : n.toNat < 2 ^ 64 := by omega
  have hmin : min n.toNat (2 ^ 64 - 1) = n.toNat := by omega
  rw [asU64, hmin, UInt64.toNat_ofNat_of_lt' hfits, Int.toNat_of_nonneg hpos]

/-- A refusal with the wait `w` at the time `t`: the wait is positive; while every further call for
the key is refused, the next one, at a time `t'`, gets through exactly when `w` has passed; the
`Retry-After` header is `w` rounded up, as far as a `u64` goes; and a client that comes back after
that many seconds, and to whose key nobody else spoke, passes the middleware. -/
theorem retry_after_is_exact (hash : String → UInt64) (l : RateLimiter)
    (hrps : 0 < l.config.requestsPerSecond) (hburst : 1 ≤ l.config.burst) (auth : AuthenticatedKey)
    (t w : ℚ) (hrefused : (l.tryAcquire hash auth.keyId t).1 = .error w) :
    0 < w ∧
    (∀ (calls : List Acquire) (t' : ℚ),
      (t :: ((calls.filter fun c => c.key = auth.keyId).map (·.now) ++ [t'])).Pairwise (· ≤ ·) →
      (∀ a ∈ (l.tryAcquire hash auth.keyId t).2.answers hash calls,
        a.1.key = auth.keyId → a.2.isOk = false) →
      (((run (RateLimiter.step hash) (l.tryAcquire hash auth.keyId t).2 calls).tryAcquire hash
        auth.keyId t').1.isOk = true ↔ w ≤ t' - t)) ∧
    (rateLimit hash l (some auth) t).1 = .error (TOO_MANY_REQUESTS, asU64 ⌈w⌉) ∧
    (⌈w⌉ < 2 ^ 64 → ((asU64 ⌈w⌉).toNat : ℤ) = ⌈w⌉) ∧
    ∀ (others : List Acquire) (t' : ℚ), (∀ c ∈ others, c.key ≠ auth.keyId) → t + ⌈w⌉ ≤ t' →
      (rateLimit hash (run (RateLimiter.step hash) (rateLimit hash l (some auth) t).2 others)
        (some auth) t').1.isOk = true := by
  have hwait := RateLimiter.wait_pos hrps hrefused
  refine ⟨hwait, ?_, ?_, ?_, ?_⟩
  · intro calls t' hclock hno
    exact RateLimiter.isOk_iff_waited hrps hburst hrefused hclock hno
  · simp [rateLimit, hrefused, Except.mapError]
  · exact toNat_asU64 (Int.ceil_nonneg (le_of_lt hwait))
  · intro others t' hothers hlater
    have hceil : t + w ≤ t' := by
      have := Int.le_ceil w
      linarith
    have hok := RateLimiter.ok_after_wait hrps hburst hrefused hothers hceil
    have hanswer : ∀ (l' : RateLimiter), (l'.tryAcquire hash auth.keyId t').1.isOk = true →
        (rateLimit hash l' (some auth) t').1.isOk = true := by
      intro l' h
      rw [rateLimit]
      dsimp only
      cases hl : (l'.tryAcquire hash auth.keyId t').1 with
      | ok u => rfl
      | error e =>
        rw [hl] at h
        cases h
    exact hanswer _ hok

/-- The limiter of the tests after its burst, and one more call. -/
def spentLimiter : RateLimiter :=
  run (RateLimiter.step fun _ => 0) (RateLimiter.new tenASecond) (List.replicate 5 ⟨"key-1", 0⟩)

/-- The sixth call is told a tenth of a second. One more, at half of it, is refused as well; at the
tenth the next one gets through. -/
theorem retry_after_of_spent_limiter :
    (spentLimiter.tryAcquire (fun _ => 0) "key-1" 0).1 = .error (1 / 10) ∧
    ((run (RateLimiter.step fun _ => 0) (spentLimiter.tryAcquire (fun _ => 0) "key-1" 0).2
      [⟨"key-1", 1 / 20⟩]).tryAcquire (fun _ => 0) "key-1" (1 / 10)).1.isOk = true := by
  have hrefused : (spentLimiter.tryAcquire (fun _ => 0) "key-1" 0).1 = .error (1 / 10) := by
    decide +kernel
  have hexact := retry_after_is_exact (fun _ => 0) spentLimiter (by decide +kernel)
    (by decide +kernel) ⟨"key-1", "free"⟩ 0 (1 / 10) hrefused
  refine ⟨hrefused, (hexact.2.1 [⟨"key-1", 1 / 20⟩] (1 / 10) ?_ ?_).mpr ?_⟩
  · decide +kernel
  · decide +kernel
  · decide +kernel

end Keplor.Server
