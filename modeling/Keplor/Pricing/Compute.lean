import Keplor.Core.Event
import Keplor.Lib.Int64

/-!
# `keplor-pricing/src/{model,compute}.rs` — what a request costs

Rates and totals are nanodollars in an `i64`, and every addition and multiplication saturates. The
one step outside integer arithmetic is the geo multiplier, a multiplication in `f64`; it is the
parameter `scale`, and only `InferenceGeo::NonUs` reaches it.

`ModelPricing` keeps the fields `compute_cost` reads. The limits, capability flags and tags of a
catalog entry play no part in a price.
-/

set_option autoImplicit false

namespace Keplor.Pricing

open Keplor.Core Keplor.Lib

/-- `ModelPricing` -/
structure ModelPricing where
  inputCostPerToken : Int64 := 0
  outputCostPerToken : Int64 := 0
  cacheReadInputTokenCost : Option Int64 := none
  cacheCreationInputTokenCost : Option Int64 := none
  cacheCreationInputTokenCostAbove1hr : Option Int64 := none
  cacheCreationInputTokenCostAbove200kTokens : Option Int64 := none
  outputCostPerReasoningToken : Option Int64 := none
  inputCostPerAudioToken : Option Int64 := none
  inputCostPerVideoPerSecond : Option Int64 := none
  inputCostPerTokenBatches : Option Int64 := none
  outputCostPerTokenBatches : Option Int64 := none
  searchContextCostPerQuery : Option Int64 := none
  inputCostPerTokenAbove200k : Option Int64 := none
  outputCostPerTokenAbove200k : Option Int64 := none
  cacheReadInputTokenCostAbove200k : Option Int64 := none
  /-- The bits of an `f64`. -/
  inferenceGeoMultiplier : Option (BitVec 64) := none
  deriving DecidableEq

/-- `ServiceTier` -/
inductive ServiceTier where
  | standard
  | flex
  | priority
  deriving DecidableEq, Repr

/-- `InferenceGeo` -/
inductive InferenceGeo where
  | us
  | nonUs
  deriving DecidableEq, Repr

/-- `CacheTtl` -/
inductive CacheTtl where
  | minutes5
  | hours1
  deriving DecidableEq, Repr

/-- `ContextBucket` -/
inductive ContextBucket where
  | standard
  | above200k
  deriving DecidableEq, Repr

/-- `CostOpts` -/
structure CostOpts where
  isBatch : Bool := false
  serviceTier : ServiceTier := .standard
  inferenceGeo : InferenceGeo := .us
  cacheTtl : CacheTtl := .minutes5
  contextBucket : ContextBucket := .standard
  deriving DecidableEq, Repr

/-- The shape of `pick_input_rate` and `pick_output_rate`: batch, then above 200k, then standard. -/
def pickRate (opts : CostOpts) (batches above200k : Option Int64) (standard : Int64) : Int64 :=
  match opts.isBatch, batches with
  | true, some r => r
  | _, _ =>
    match opts.contextBucket, above200k with
    | .above200k, some r => r
    | _, _ => standard

/-- `pick_input_rate` -/
def pickInputRate (p : ModelPricing) (opts : CostOpts) : Int64 :=
  pickRate opts p.inputCostPerTokenBatches p.inputCostPerTokenAbove200k p.inputCostPerToken

/-- `pick_output_rate` -/
def pickOutputRate (p : ModelPricing) (opts : CostOpts) : Int64 :=
  pickRate opts p.outputCostPerTokenBatches p.outputCostPerTokenAbove200k p.outputCostPerToken

/-- `pick_cache_read_rate`. There is no batch rate, and the fallback is the standard input rate
whatever `opts` asks for. -/
def pickCacheReadRate (p : ModelPricing) (opts : CostOpts) : Int64 :=
  match opts.contextBucket, p.cacheReadInputTokenCostAbove200k with
  | .above200k, some r => r
  | _, _ => p.cacheReadInputTokenCost.getD p.inputCostPerToken

/-- `pick_cache_create_rate` -/
def pickCacheCreateRate (p : ModelPricing) (opts : CostOpts) : Int64 :=
  match opts.contextBucket, p.cacheCreationInputTokenCostAbove200kTokens with
  | .above200k, some r => r
  | _, _ =>
    match opts.cacheTtl, p.cacheCreationInputTokenCostAbove1hr with
    | .hours1, some r => r
    | _, _ => p.cacheCreationInputTokenCost.getD p.inputCostPerToken

/-- `mul_tokens` -/
def mulTokens (tokens : UInt32) (nanosPerToken : Int64) : Int64 :=
  saturatingMul (Int64.ofNat tokens.toNat) nanosPerToken

/-- `total.saturating_add(mul_tokens(tokens, rate))` -/
def bill (tokens : UInt32) (rate total : Int64) : Int64 := saturatingAdd total (mulTokens tokens rate)

/-- A charge that is made only when the entry has a rate for it. -/
def billOpt (tokens : UInt32) (rate : Option Int64) (total : Int64) : Int64 :=
  match rate with
  | some r => bill tokens r total
  | none => total

/-- `u32::saturating_sub` -/
def saturatingSub32 (a b : UInt32) : UInt32 := if b ≤ a then a - b else 0

/-- The input part of `compute_cost`. -/
def billInput (provider : Provider) (p : ModelPricing) (u : Usage) (opts : CostOpts) : Int64 :=
  let inputRate := pickInputRate p opts
  match provider with
  | .anthropic | .bedrock =>
      bill u.cacheCreationInputTokens (pickCacheCreateRate p opts)
        (bill u.cacheReadInputTokens (pickCacheReadRate p opts)
          (bill u.inputTokens inputRate 0))
  | _ =>
      -- here `input_tokens` already includes the cached reads
      billOpt u.cacheCreationInputTokens p.cacheCreationInputTokenCost
        (bill u.cacheReadInputTokens (p.cacheReadInputTokenCost.getD inputRate)
          (bill (saturatingSub32 u.inputTokens u.cacheReadInputTokens) inputRate 0))

/-- `compute_cost`; `scale total mult` is `(total as f64 * mult).round() as i64`. -/
def computeCost (scale : Int64 → BitVec 64 → Int64) (provider : Provider) (p : ModelPricing)
    (u : Usage) (opts : CostOpts) : Int64 :=
  let outputRate := pickOutputRate p opts
  let total := billInput provider p u opts
  let total := bill u.outputTokens outputRate total
  let total := bill u.reasoningTokens (p.outputCostPerReasoningToken.getD outputRate) total
  let total := billOpt u.audioInputTokens p.inputCostPerAudioToken total
  let total := billOpt u.videoSeconds p.inputCostPerVideoPerSecond total
  let total := billOpt u.searchQueries p.searchContextCostPerQuery total
  match p.inferenceGeoMultiplier, opts.inferenceGeo with
  | some mult, .nonUs => scale total mult
  | _, _ => total

end Keplor.Pricing
