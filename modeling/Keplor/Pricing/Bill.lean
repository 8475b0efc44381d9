import Keplor.Core.Usage
import Keplor.Lib.Saturating
import Keplor.Pricing.Compute
import Mathlib.Data.List.ReduceOption

/-!
# What a request should cost

`compute_cost` adds up saturating products, one dimension after the other. This is the same bill without
the ends of the range: a list of units, a list of rates, and the sum of their products in unbounded
integers (`exactCost`). The rates are chosen by the options in an order of precedence, and the units
depend on whether the provider counts cached tokens as part of the input.

The engine's total is the bill cut off at every step (`toInt_computeCost`). With rates that are not
negative that is the bill cut off once, so it is exact wherever the bill fits
(`compute_cost_is_capped_sum`), and it inherits the order of the bill: more of anything costs no less
(`cost_monotone`). At one rate for all prompt tokens it can be held against the core crate's count of
them, and the two disagree where a provider that counts its cache as input also reports tokens written
to the cache (`uniform_cost_is_billable_input`).
-/

set_option autoImplicit false

namespace Keplor.Pricing

open Keplor.Core Keplor.Lib

/-! ## The bill -/

/-- The providers whose `input_tokens` leaves out the tokens of the cache. -/
def countsCacheApart : Provider → Bool
  | .anthropic | .bedrock => true
  | _ => false

theorem countsCacheApart_iff {provider : Provider} :
    countsCacheApart provider = true ↔ provider = .anthropic ∨ provider = .bedrock := by
  cases provider <;> simp [countsCacheApart]

/-- A rate that only batch requests get. -/
def forBatch (opts : CostOpts) (rate : Option Int64) : Option Int64 := if opts.isBatch then rate else none

/-- A rate that only requests with a long context get. -/
def forLongContext (opts : CostOpts) (rate : Option Int64) : Option Int64 :=
  if opts.contextBucket = .above200k then rate else none

/-- A rate that only cache entries kept for an hour get. -/
def forHour (opts : CostOpts) (rate : Option Int64) : Option Int64 :=
  if opts.cacheTtl = .hours1 then rate else none

/-- Batch before long context before standard. -/
def tokenRate (opts : CostOpts) (batches above200k : Option Int64) (standard : Int64) : Int64 :=
  ((forBatch opts batches).or (forLongContext opts above200k)).getD standard

/-- The rate of an input token. -/
def inputRate (p : ModelPricing) (opts : CostOpts) : Int64 :=
  tokenRate opts p.inputCostPerTokenBatches p.inputCostPerTokenAbove200k p.inputCostPerToken

/-- The rate of an output token. -/
def outputRate (p : ModelPricing) (opts : CostOpts) : Int64 :=
  tokenRate opts p.outputCostPerTokenBatches p.outputCostPerTokenAbove200k p.outputCostPerToken

/-- The rate of a token read from the cache. -/
def cacheReadRate (provider : Provider) (p : ModelPricing) (opts : CostOpts) : Int64 :=
  if countsCacheApart provider then
    ((forLongContext opts p.cacheReadInputTokenCostAbove200k).or
      p.cacheReadInputTokenCost).getD p.inputCostPerToken
  else p.cacheReadInputTokenCost.getD (inputRate p opts)

/-- The rate of a token written to the cache, zero where it has no price. -/
def cacheCreationRate (provider : Provider) (p : ModelPricing) (opts : CostOpts) : Int64 :=
  if countsCacheApart provider then
    ((forLongContext opts p.cacheCreationInputTokenCostAbove200kTokens).or
      ((forHour opts p.cacheCreationInputTokenCostAbove1hr).or
        p.cacheCreationInputTokenCost)).getD p.inputCostPerToken
  else p.cacheCreationInputTokenCost.getD 0

/-- The rates of a bill, dimension by dimension. -/
def rates (provider : Provider) (p : ModelPricing) (opts : CostOpts) : List Int64 :=
  [ inputRate p opts,
    cacheReadRate provider p opts,
    cacheCreationRate provider p opts,
    outputRate p opts,
    p.outputCostPerReasoningToken.getD (outputRate p opts),
    p.inputCostPerAudioToken.getD 0,
    p.inputCostPerVideoPerSecond.getD 0,
    p.searchContextCostPerQuery.getD 0 ]

/-- The input tokens that are billed as such. -/
def plainInput (provider : Provider) (u : Usage) : Nat :=
  if countsCacheApart provider then u.inputTokens.toNat
  else u.inputTokens.toNat - u.cacheReadInputTokens.toNat

/-- The units of a bill, in the same order. -/
def units (provider : Provider) (u : Usage) : List Nat :=
  [ plainInput provider u,
    u.cacheReadInputTokens.toNat,
    u.cacheCreationInputTokens.toNat,
    u.outputTokens.toNat,
    u.reasoningTokens.toNat,
    u.audioInputTokens.toNat,
    u.videoSeconds.toNat,
    u.searchQueries.toNat ]

/-- The lines of a bill. -/
def lines (provider : Provider) (p : ModelPricing) (u : Usage) (opts : CostOpts) : List Int :=
  amounts (units provider u) ((rates provider p opts).map Int64.toInt)

/-- The sum of a bill, in unbounded integers. -/
def exactCost (provider : Provider) (p : ModelPricing) (u : Usage) (opts : CostOpts) : Int :=
  weighted (units provider u) ((rates provider p opts).map Int64.toInt)

/-- The total is multiplied for the region. -/
def GeoApplies (p : ModelPricing) (opts : CostOpts) : Prop :=
  p.inferenceGeoMultiplier.isSome ∧ opts.inferenceGeo = .nonUs

/-- The rates a catalog entry may have. -/
def ModelPricing.optionalPrices (p : ModelPricing) : List (Option Int64) :=
  [ p.cacheReadInputTokenCost, p.cacheCreationInputTokenCost, p.cacheCreationInputTokenCostAbove1hr,
    p.cacheCreationInputTokenCostAbove200kTokens, p.outputCostPerReasoningToken,
    p.inputCostPerAudioToken, p.inputCostPerVideoPerSecond, p.inputCostPerTokenBatches,
    p.outputCostPerTokenBatches, p.searchContextCostPerQuery, p.inputCostPerTokenAbove200k,
    p.outputCostPerTokenAbove200k, p.cacheReadInputTokenCostAbove200k ]

/-- All rates of a catalog entry. -/
def ModelPricing.prices (p : ModelPricing) : List Int64 :=
  p.inputCostPerToken :: p.outputCostPerToken :: p.optionalPrices.reduceOption

/-! ## The engine adds up the lines of the bill -/

section Engine

variable (p : ModelPricing) (u : Usage) (opts : CostOpts)

theorem pickRate_eq (batches above200k : Option Int64) (standard : Int64) :
    pickRate opts batches above200k standard = tokenRate opts batches above200k standard := by
  unfold pickRate tokenRate forBatch forLongContext
  cases opts.isBatch <;> cases batches <;> cases opts.contextBucket <;> cases above200k <;> rfl

theorem pickInputRate_eq : pickInputRate p opts = inputRate p opts := pickRate_eq opts _ _ _

theorem pickOutputRate_eq : pickOutputRate p opts = outputRate p opts := pickRate_eq opts _ _ _

theorem pickCacheReadRate_eq {provider : Provider} (h : countsCacheApart provider = true) :
    pickCacheReadRate p opts = cacheReadRate provider p opts := by
  unfold pickCacheReadRate cacheReadRate forLongContext
  rw [h]
  cases opts.contextBucket <;> cases p.cacheReadInputTokenCostAbove200k <;> rfl

theorem pickCacheCreateRate_eq {provider : Provider} (h : countsCacheApart provider = true) :
    pickCacheCreateRate p opts = cacheCreationRate provider p opts := by
  unfold pickCacheCreateRate cacheCreationRate forLongContext forHour
  rw [h]
  cases opts.contextBucket <;> cases p.cacheCreationInputTokenCostAbove200kTokens <;>
    cases opts.cacheTtl <;> cases p.cacheCreationInputTokenCostAbove1hr <;> rfl

theorem toInt_bill (tokens : UInt32) (rate total : Int64) :
    (bill tokens rate total).toInt
      = clamp (total.toInt + clamp ((tokens.toNat : Int) * rate.toInt)) := by
  have htokens : (Int64.ofNat tokens.toNat).toInt = tokens.toNat := by
    have hlt := tokens.toNat_lt
    exact Int64.toInt_ofNat_of_lt (by omega)
  rw [bill, mulTokens, toInt_saturatingAdd_clamp, toInt_saturatingMul, htokens]

/-- A charge without a rate is a charge of nothing. -/
theorem billOpt_eq (tokens : UInt32) (rate : Option Int64) (total : Int64) :
    billOpt tokens rate total = bill tokens (rate.getD 0) total := by
  cases rate with
  | some r => rfl
  | none =>
    apply Int64.toInt_inj.mp
    rw [billOpt, toInt_bill, Option.getD_none, Int64.toInt_zero, Int.mul_zero]
    have hzero : clamp 0 = 0 := rfl
    rw [hzero, Int.add_zero, clamp_toInt]

theorem toNat_saturatingSub32 (a b : UInt32) : (saturatingSub32 a b).toNat = a.toNat - b.toNat := by
  unfold saturatingSub32
  split
  · rename_i hle
    exact UInt32.toNat_sub_of_le a b hle
  · rename_i hlt
    have hlt := UInt32.not_le.mp hlt
    rw [UInt32.lt_iff_toNat_lt] at hlt
    exact (Nat.sub_eq_zero_of_le (Nat.le_of_lt hlt)).symm

/-- The input part, in the order of the bill. -/
theorem billInput_eq (provider : Provider) :
    ∃ plain : UInt32, plain.toNat = plainInput provider u ∧
      billInput provider p u opts
        = bill u.cacheCreationInputTokens (cacheCreationRate provider p opts)
            (bill u.cacheReadInputTokens (cacheReadRate provider p opts)
              (bill plain (inputRate p opts) 0)) := by
  cases happart : countsCacheApart provider with
  | true =>
    refine ⟨u.inputTokens, by rw [plainInput, happart]; rfl, ?_⟩
    rw [← pickCacheCreateRate_eq p opts happart, ← pickCacheReadRate_eq p opts happart,
      ← pickInputRate_eq]
    cases provider with
    | anthropic | bedrock => rfl
    | _ => cases happart
  | false =>
    refine ⟨saturatingSub32 u.inputTokens u.cacheReadInputTokens, ?_, ?_⟩
    · rw [toNat_saturatingSub32, plainInput, happart]
      rfl
    · have hread : cacheReadRate provider p opts
          = p.cacheReadInputTokenCost.getD (pickInputRate p opts) := by
        rw [cacheReadRate, happart, pickInputRate_eq]
        rfl
      have hcreate : cacheCreationRate provider p opts = p.cacheCreationInputTokenCost.getD 0 := by
        rw [cacheCreationRate, happart]
        rfl
      rw [hread, hcreate, ← billOpt_eq, ← pickInputRate_eq]
      cases provider with
      | anthropic | bedrock => cases happart
      | _ => rfl

variable {p u opts}

/-- The total is the bill, cut off line by line. -/
theorem toInt_computeCost (scale : Int64 → BitVec 64 → Int64) (provider : Provider)
    (hgeo : ¬ GeoApplies p opts) :
    (computeCost scale provider p u opts).toInt = clampedSum 0 (lines provider p u opts) := by
  obtain ⟨plain, hplain, hinput⟩ := billInput_eq p u opts provider
  have hzero : (0 : Int64).toInt = 0 := rfl
  unfold computeCost
  dsimp only
  split
  · rename_i hmult hnonUs
    exact absurd ⟨by rw [hmult]; rfl, hnonUs⟩ hgeo
  · rw [hinput]
    simp only [billOpt_eq, toInt_bill, pickOutputRate_eq, hplain, hzero]
    rfl

end Engine

/-! ## Rates that are not negative -/

section Rates

variable {P : Int64 → Prop}

theorem forall_getD {rate : Option Int64} {default : Int64} (hrate : ∀ r ∈ rate, P r)
    (hdefault : P default) : P (rate.getD default) := by
  cases rate with
  | none => exact hdefault
  | some r => exact hrate r rfl

theorem forall_or {rate rate' : Option Int64} (h : ∀ r ∈ rate, P r) (h' : ∀ r ∈ rate', P r) :
    ∀ r ∈ rate.or rate', P r := by
  cases rate with
  | none => exact h'
  | some r => exact h

theorem forall_ite {c : Prop} [Decidable c] {rate : Option Int64} (h : ∀ r ∈ rate, P r) :
    ∀ r ∈ (if c then rate else none), P r := by
  split
  · exact h
  · exact fun r hr => by cases hr

variable {p : ModelPricing} (hprices : ∀ r ∈ p.prices, P r)

include hprices

theorem forall_optional {rate : Option Int64} (hmem : rate ∈ p.optionalPrices) : ∀ r ∈ rate, P r := by
  rintro r rfl
  apply hprices
  apply List.mem_cons_of_mem
  apply List.mem_cons_of_mem
  exact List.reduceOption_mem_iff.mpr hmem

theorem forall_tokenRate (opts : CostOpts) {batches above200k : Option Int64} {standard : Int64}
    (hbatches : batches ∈ p.optionalPrices) (habove : above200k ∈ p.optionalPrices)
    (hstandard : standard ∈ p.prices) : P (tokenRate opts batches above200k standard) := by
  apply forall_getD
  · apply forall_or
    · exact forall_ite (forall_optional hprices hbatches)
    · exact forall_ite (forall_optional hprices habove)
  · exact hprices standard hstandard

theorem forall_inputRate (opts : CostOpts) : P (inputRate p opts) := by
  refine forall_tokenRate hprices opts ?_ ?_ List.mem_cons_self <;>
    simp [ModelPricing.optionalPrices]

theorem forall_outputRate (opts : CostOpts) : P (outputRate p opts) := by
  refine forall_tokenRate hprices opts ?_ ?_ (List.mem_cons_of_mem _ List.mem_cons_self) <;>
    simp [ModelPricing.optionalPrices]

theorem forall_cacheReadRate (provider : Provider) (opts : CostOpts) :
    P (cacheReadRate provider p opts) := by
  have hread : ∀ r ∈ p.cacheReadInputTokenCost, P r :=
    forall_optional hprices (by simp [ModelPricing.optionalPrices])
  unfold cacheReadRate
  split
  · refine forall_getD (forall_or (forall_ite ?_) hread) (hprices _ List.mem_cons_self)
    exact forall_optional hprices (by simp [ModelPricing.optionalPrices])
  · exact forall_getD hread (forall_inputRate hprices opts)

theorem forall_cacheCreationRate (hzero : P 0) (provider : Provider) (opts : CostOpts) :
    P (cacheCreationRate provider p opts) := by
  have hcreation : ∀ r ∈ p.cacheCreationInputTokenCost, P r :=
    forall_optional hprices (by simp [ModelPricing.optionalPrices])
  unfold cacheCreationRate
  split
  · refine forall_getD (forall_or (forall_ite ?_) (forall_or (forall_ite ?_) hcreation))
      (hprices _ List.mem_cons_self)
    · exact forall_optional hprices (by simp [ModelPricing.optionalPrices])
    · exact forall_optional hprices (by simp [ModelPricing.optionalPrices])
  · exact forall_getD hcreation hzero

/-- What is true of zero and of every rate of the entry is true of every rate of the bill. -/
theorem forall_rates (hzero : P 0) (provider : Provider) (opts : CostOpts) :
    ∀ r ∈ rates provider p opts, P r := by
  have hdim : ∀ {rate : Option Int64} {default : Int64}, rate ∈ p.optionalPrices → P default →
      P (rate.getD default) := fun hmem => forall_getD (forall_optional hprices hmem)
  have houtput := forall_outputRate hprices opts
  simp only [rates, List.mem_cons, List.not_mem_nil, or_false, forall_eq_or_imp, forall_eq]
  refine ⟨forall_inputRate hprices opts, forall_cacheReadRate hprices provider opts,
    forall_cacheCreationRate hprices hzero provider opts, houtput, hdim ?_ houtput, hdim ?_ hzero,
    hdim ?_ hzero, hdim ?_ hzero⟩ <;> simp [ModelPricing.optionalPrices]

end Rates

section Nonneg

variable {p : ModelPricing} {opts : CostOpts} (hprices : ∀ r ∈ p.prices, 0 ≤ r)

include hprices

theorem rates_nonneg (provider : Provider) (opts : CostOpts) :
    ∀ x ∈ (rates provider p opts).map Int64.toInt, 0 ≤ x := by
  intro x hx
  obtain ⟨r, hr, rfl⟩ := List.mem_map.mp hx
  exact Int64.le_iff_toInt_le.mp (forall_rates hprices (Int64.le_refl 0) provider opts r hr)

theorem exactCost_nonneg (provider : Provider) (u : Usage) (opts : CostOpts) :
    0 ≤ exactCost provider p u opts :=
  weighted_nonneg (rates_nonneg hprices provider opts)

/-- The total is the bill, cut off once. -/
theorem toInt_computeCost_of_nonneg (scale : Int64 → BitVec 64 → Int64) (provider : Provider)
    (u : Usage) (hgeo : ¬ GeoApplies p opts) :
    (computeCost scale provider p u opts).toInt = clamp (exactCost provider p u opts) := by
  have hlines : ∀ x ∈ lines provider p u opts, 0 ≤ x :=
    amounts_nonneg (rates_nonneg hprices provider opts)
  have hsum := clampedSum_of_nonneg (Int.le_refl 0) hlines
  rw [Int.zero_add] at hsum
  rw [toInt_computeCost scale provider hgeo]
  exact hsum

/-- What is due in full comes to no less after the cut. -/
theorem computeCost_le_of_exactCost_le {scale : Int64 → BitVec 64 → Int64} {provider : Provider}
    {u u' : Usage} {opts' : CostOpts} (hgeo : ¬ GeoApplies p opts) (hgeo' : ¬ GeoApplies p opts')
    (h : exactCost provider p u opts ≤ exactCost provider p u' opts') :
    computeCost scale provider p u opts ≤ computeCost scale provider p u' opts' := by
  rw [Int64.le_iff_toInt_le, toInt_computeCost_of_nonneg hprices scale provider u hgeo,
    toInt_computeCost_of_nonneg hprices scale provider u' hgeo']
  exact clamp_mono h

end Nonneg

/-- A bill of counters and rates within bounds. -/
theorem exactCost_le {provider : Provider} {p : ModelPricing} {u : Usage} {opts : CostOpts}
    (hcounters : ∀ n ∈ u.counters, n ≤ 10000000) (hprices : ∀ r ∈ p.prices, r ≤ 100000000000) :
    exactCost provider p u opts ≤ 8 * (10000000 * 100000000000) := by
  have hunits : List.Forall₂ (· ≤ ·) (units provider u) (List.replicate 8 10000000) := by
    have hplain : plainInput provider u ≤ u.inputTokens.toNat := by
      unfold plainInput
      split
      · exact Nat.le_refl _
      · exact Nat.sub_le _ _
    simp only [Usage.counters, List.mem_cons, List.not_mem_nil, or_false, forall_eq_or_imp, forall_eq,
      UInt32.le_iff_toNat_le] at hcounters
    obtain ⟨hin, hout, hread, hcreate, hreason, haudio, -, -, hvideo, -, hsearch⟩ := hcounters
    exact .cons (Nat.le_trans hplain hin) (.cons hread (.cons hcreate (.cons hout (.cons hreason
      (.cons haudio (.cons hvideo (.cons hsearch .nil)))))))
  have hrates : List.Forall₂ (· ≤ ·) ((rates provider p opts).map Int64.toInt)
      (List.replicate 8 100000000000) := by
    have hall := forall_rates hprices (by decide) provider opts
    simp only [rates, List.mem_cons, List.not_mem_nil, or_false, forall_eq_or_imp, forall_eq,
      Int64.le_iff_toInt_le] at hall
    obtain ⟨h₁, h₂, h₃, h₄, h₅, h₆, h₇, h₈⟩ := hall
    exact .cons h₁ (.cons h₂ (.cons h₃ (.cons h₄ (.cons h₅ (.cons h₆ (.cons h₇ (.cons h₈ .nil)))))))
  refine Int.le_trans (weighted_mono hunits hrates ?_) ?_
  · intro r hr
    rw [List.eq_of_mem_replicate hr]
    decide
  · decide

/-- A bill of counters and rates within bounds is not cut off. -/
theorem toInt_computeCost_of_bounded {scale : Int64 → BitVec 64 → Int64} {provider : Provider}
    {p : ModelPricing} {u : Usage} {opts : CostOpts} (hprices : ∀ r ∈ p.prices, 0 ≤ r)
    (hgeo : ¬ GeoApplies p opts) (hcounters : ∀ n ∈ u.counters, n ≤ 10000000)
    (hbounded : ∀ r ∈ p.prices, r ≤ 100000000000) :
    (computeCost scale provider p u opts).toInt = exactCost provider p u opts := by
  rw [toInt_computeCost_of_nonneg hprices scale provider u hgeo,
    clamp_of_nonneg (exactCost_nonneg hprices provider u opts)]
  apply Int.min_eq_left
  exact Int.le_trans (exactCost_le hcounters hbounded) (by decide)

/-- For every provider, every entry with rates that are not negative, every usage and all options under
which no geo multiplier applies: the cost is the sum of the bill, or the largest `i64` where that is
less. For counters and rates within bounds it is the sum itself. -/
theorem compute_cost_is_capped_sum (scale : Int64 → BitVec 64 → Int64) (provider : Provider)
    (p : ModelPricing) (u : Usage) (opts : CostOpts) (hprices : ∀ r ∈ p.prices, 0 ≤ r)
    (hgeo : ¬ GeoApplies p opts) :
    (computeCost scale provider p u opts).toInt
      = min (exactCost provider p u opts) Int64.maxValue.toInt ∧
    ((∀ n ∈ u.counters, n ≤ 10000000) → (∀ r ∈ p.prices, r ≤ 100000000000) →
      (computeCost scale provider p u opts).toInt = exactCost provider p u opts) := by
  refine ⟨?_, fun hcounters hbounded =>
    toInt_computeCost_of_bounded hprices hgeo hcounters hbounded⟩
  rw [toInt_computeCost_of_nonneg hprices scale provider u hgeo,
    clamp_of_nonneg (exactCost_nonneg hprices provider u opts)]
  rfl

/-- Two and a half dollars for a million input tokens, ten for a million output tokens. -/
def samplePricing : ModelPricing where
  inputCostPerToken := 2500
  outputCostPerToken := 10000
  cacheReadInputTokenCost := some 1250

def sampleUsage : Usage where
  inputTokens := 1000
  outputTokens := 500
  cacheReadInputTokens := 200

/-- The bill of the source's first example. -/
theorem compute_cost_of_sample :
    (∀ r ∈ samplePricing.prices, 0 ≤ r) ∧ ¬ GeoApplies samplePricing {} ∧
    exactCost .openAI samplePricing sampleUsage {} = 7250000 ∧
    (computeCost (fun total _ => total) .openAI samplePricing sampleUsage {}).toInt
      = min 7250000 Int64.maxValue.toInt := by
  have hprices : ∀ r ∈ samplePricing.prices, 0 ≤ r := List.forall_iff_forall_mem.mp (by decide)
  have hgeo : ¬ GeoApplies samplePricing {} := by
    rintro ⟨hsome, -⟩
    cases hsome
  have hbill : exactCost .openAI samplePricing sampleUsage {} = 7250000 := by decide
  refine ⟨hprices, hgeo, hbill, ?_⟩
  rw [← hbill]
  exact (compute_cost_is_capped_sum _ .openAI samplePricing sampleUsage {} hprices hgeo).1

/-! ## Order -/

section Order

variable {provider : Provider} {p : ModelPricing} {u u' : Usage} {opts : CostOpts}

/-- Raising counters raises the units of the bill, except that tokens read from a cache are taken off
the input where they are part of it. -/
theorem units_mono (h : List.Forall₂ (· ≤ ·) u.counters u'.counters)
    (hread : countsCacheApart provider = true ∨ u.cacheReadInputTokens = u'.cacheReadInputTokens) :
    List.Forall₂ (· ≤ ·) (units provider u) (units provider u') := by
  simp only [Usage.counters, List.forall₂_cons, List.Forall₂.nil, and_true,
    UInt32.le_iff_toNat_le] at h
  obtain ⟨hin, hout, hcached, hcreate, hreason, haudio, -, -, hvideo, -, hsearch⟩ := h
  have hplain : plainInput provider u ≤ plainInput provider u' := by
    unfold plainInput
    split
    · exact hin
    · rename_i hwithin
      rw [hread.resolve_left hwithin]
      exact Nat.sub_le_sub_right hin _
  exact .cons hplain (.cons hcached (.cons hcreate (.cons hout (.cons hreason (.cons haudio
    (.cons hvideo (.cons hsearch .nil)))))))

/-- No batch rate exceeds the rate that a request outside a batch gets. -/
def BatchesAreNotDearer (p : ModelPricing) (opts : CostOpts) : Prop :=
  (∀ r, p.inputCostPerTokenBatches = some r → r ≤ pickInputRate p { opts with isBatch := false }) ∧
  ∀ r, p.outputCostPerTokenBatches = some r → r ≤ pickOutputRate p { opts with isBatch := false }

theorem tokenRate_batch_le {batches above200k : Option Int64} {standard : Int64}
    (h : ∀ r, batches = some r →
      r ≤ tokenRate { opts with isBatch := false } batches above200k standard) :
    tokenRate { opts with isBatch := true } batches above200k standard
      ≤ tokenRate { opts with isBatch := false } batches above200k standard := by
  cases batches with
  | none => exact Int64.le_refl _
  | some r => exact h r rfl

theorem getD_le_getD {rate : Option Int64} {a b : Int64} (h : a ≤ b) : rate.getD a ≤ rate.getD b := by
  cases rate with
  | none => exact h
  | some r => exact Int64.le_refl r

/-- A batch lowers the input and the output rate, and what falls back on them. -/
theorem rates_batch_le (h : BatchesAreNotDearer p opts) (provider : Provider) :
    List.Forall₂ (· ≤ ·) (rates provider p { opts with isBatch := true })
      (rates provider p { opts with isBatch := false }) := by
  have hin : inputRate p { opts with isBatch := true } ≤ inputRate p { opts with isBatch := false } :=
    tokenRate_batch_le fun r hr => by
      rw [← inputRate, ← pickInputRate_eq]
      exact h.1 r hr
  have hout : outputRate p { opts with isBatch := true }
      ≤ outputRate p { opts with isBatch := false } :=
    tokenRate_batch_le fun r hr => by
      rw [← outputRate, ← pickOutputRate_eq]
      exact h.2 r hr
  have hread : cacheReadRate provider p { opts with isBatch := true }
      ≤ cacheReadRate provider p { opts with isBatch := false } := by
    unfold cacheReadRate
    split
    · exact Int64.le_refl _
    · exact getD_le_getD hin
  exact .cons hin (.cons hread (.cons (Int64.le_refl _) (.cons hout (.cons (getD_le_getD hout)
    (.cons (Int64.le_refl _) (.cons (Int64.le_refl _) (.cons (Int64.le_refl _) .nil)))))))

end Order

/-- With rates that are not negative and no geo multiplier: counters that are raised, any of them but
the cached reads of a provider that counts them as input, do not lower the cost; and where no batch rate
exceeds what is charged outside a batch, a batch costs no more. -/
theorem cost_monotone (scale : Int64 → BitVec 64 → Int64) (provider : Provider) (p : ModelPricing)
    (opts : CostOpts) (hprices : ∀ r ∈ p.prices, 0 ≤ r) (hgeo : ¬ GeoApplies p opts) :
    (∀ u u' : Usage, List.Forall₂ (· ≤ ·) u.counters u'.counters →
      (provider = .anthropic ∨ provider = .bedrock ∨
        u.cacheReadInputTokens = u'.cacheReadInputTokens) →
      computeCost scale provider p u opts ≤ computeCost scale provider p u' opts) ∧
    (BatchesAreNotDearer p opts → ∀ u : Usage,
      computeCost scale provider p u { opts with isBatch := true }
        ≤ computeCost scale provider p u { opts with isBatch := false }) := by
  constructor
  · intro u u' hcounters hread
    have hread : countsCacheApart provider = true ∨
        u.cacheReadInputTokens = u'.cacheReadInputTokens := by
      rw [countsCacheApart_iff, or_assoc]
      exact hread
    apply computeCost_le_of_exactCost_le hprices hgeo hgeo
    apply weighted_mono (units_mono hcounters hread)
    · exact List.forall₂_refl _
    · exact rates_nonneg hprices provider opts
  · intro hbatches u
    have hrates : List.Forall₂ (· ≤ ·) ((rates provider p { opts with isBatch := true }).map Int64.toInt)
        ((rates provider p { opts with isBatch := false }).map Int64.toInt) := by
      rw [List.forall₂_map_left_iff, List.forall₂_map_right_iff]
      exact (rates_batch_le hbatches provider).imp fun a b hab => Int64.le_iff_toInt_le.mp hab
    have hexact : exactCost provider p u { opts with isBatch := true }
        ≤ exactCost provider p u { opts with isBatch := false } :=
      weighted_mono (List.forall₂_refl _) hrates (rates_nonneg hprices provider _)
    exact computeCost_le_of_exactCost_le hprices hgeo hgeo hexact

/-- A larger answer costs no less, and a batch at half the price no more. -/
theorem cost_monotone_sample :
    computeCost (fun total _ => total) .openAI samplePricing sampleUsage {}
      ≤ computeCost (fun total _ => total) .openAI samplePricing
          { sampleUsage with outputTokens := 600 } {} ∧
    computeCost (fun total _ => total) .openAI
        { samplePricing with inputCostPerTokenBatches := some 1250 } sampleUsage { isBatch := true }
      ≤ computeCost (fun total _ => total) .openAI
          { samplePricing with inputCostPerTokenBatches := some 1250 } sampleUsage { isBatch := false } := by
  have hgeo : ∀ p : ModelPricing, p.inferenceGeoMultiplier = none → ¬ GeoApplies p {} := by
    rintro p hnone ⟨hsome, -⟩
    rw [hnone] at hsome
    cases hsome
  constructor
  · apply (cost_monotone (fun total _ => total) .openAI samplePricing {}
      (List.forall_iff_forall_mem.mp (by decide))
      (hgeo _ rfl)).1
    · decide
    · exact .inr (.inr rfl)
  · apply (cost_monotone (fun total _ => total) .openAI
      { samplePricing with inputCostPerTokenBatches := some 1250 } {}
      (List.forall_iff_forall_mem.mp (by decide))
      (hgeo _ rfl)).2
    constructor
    · rintro r ⟨⟩
      decide
    · rintro r ⟨⟩

/-! ## Every billable token once

`Usage::total_billable_input_tokens` is the core crate's table of the tokens that are billed as input.
An entry with one rate for all of them shows whether the engine bills the same ones.
-/

/-- An entry that charges the same for an input token, a cached one and one that is written to the
cache, and nothing else. -/
def uniformPricing (r : Int64) : ModelPricing where
  inputCostPerToken := r
  cacheReadInputTokenCost := some r
  cacheCreationInputTokenCost := some r

section Uniform

variable {provider : Provider} {u : Usage} {r : Int64}

/-- The input tokens of the bill. Where the cache is part of the input this is the larger of the two
counters, and the tokens written to the cache come on top. -/
def billedInput (provider : Provider) (u : Usage) : Nat :=
  plainInput provider u + u.cacheReadInputTokens.toNat + u.cacheCreationInputTokens.toNat

theorem exactCost_uniform (opts : CostOpts) :
    exactCost provider (uniformPricing r) u opts = r.toInt * billedInput provider u := by
  have hin : inputRate (uniformPricing r) opts = r := by
    cases opts with
    | mk isBatch _ _ _ bucket => cases isBatch <;> cases bucket <;> rfl
  have hout : outputRate (uniformPricing r) opts = 0 := by
    cases opts with
    | mk isBatch _ _ _ bucket => cases isBatch <;> cases bucket <;> rfl
  have hread : cacheReadRate provider (uniformPricing r) opts = r := by
    cases opts with
    | mk _ _ _ _ bucket => cases bucket <;> cases provider <;> rfl
  have hcreate : cacheCreationRate provider (uniformPricing r) opts = r := by
    cases opts with
    | mk _ _ _ ttl bucket => cases ttl <;> cases bucket <;> cases provider <;> rfl
  have hrates : rates provider (uniformPricing r) opts = [r, r, r, 0, 0, 0, 0, 0] := by
    rw [rates, hin, hread, hcreate, hout]
    rfl
  rw [exactCost, hrates]
  simp only [units, weighted, amounts, List.map_cons, List.map_nil, List.zipWith_cons_cons,
    List.zipWith_nil_left, List.sum_cons, List.sum_nil, Int64.toInt_zero, Int.mul_zero, Int.add_zero,
    billedInput, Int.natCast_add, Int.add_mul, Int.mul_comm r.toInt, Int.add_assoc]

theorem billedInput_of_apart (happart : countsCacheApart provider = true)
    (hcounters : ∀ n ∈ u.counters, n ≤ 10000000) :
    billedInput provider u = (u.totalBillableInputTokens provider).toNat := by
  simp only [Usage.counters, List.mem_cons, List.not_mem_nil, or_false, forall_eq_or_imp, forall_eq,
    UInt32.le_iff_toNat_le] at hcounters
  obtain ⟨hin, -, hread, hcreate, -⟩ := hcounters
  have htotal : u.totalBillableInputTokens provider
      = saturatingAdd32 (saturatingAdd32 u.inputTokens u.cacheCreationInputTokens)
          u.cacheReadInputTokens := by
    rcases countsCacheApart_iff.mp happart with rfl | rfl
    · rfl
    · rfl
  have hbound : (10000000 : UInt32).toNat = 10000000 := rfl
  rw [hbound] at hin hread hcreate
  rw [htotal, toNat_saturatingAdd32, toNat_saturatingAdd32, billedInput, plainInput, happart, if_pos rfl]
  omega

theorem billedInput_of_within (hwithin : countsCacheApart provider = false) :
    billedInput provider u = (u.totalBillableInputTokens provider).toNat ↔
      u.cacheCreationInputTokens = 0 ∧ u.cacheReadInputTokens ≤ u.inputTokens := by
  have htotal : u.totalBillableInputTokens provider = u.inputTokens := by
    cases provider with
    | anthropic | bedrock => cases hwithin
    | _ => rfl
  rw [htotal, billedInput, plainInput, hwithin, if_neg Bool.false_ne_true, UInt32.le_iff_toNat_le,
    ← UInt32.toNat_inj]
  have hzero : (0 : UInt32).toNat = 0 := rfl
  rw [hzero]
  omega

end Uniform

/-- At one rate for all prompt tokens the cost is that rate times the billable input exactly when the
provider counts its cache apart, the rate is zero, or nothing is written to the cache and no more is
read from it than was sent. -/
theorem uniform_cost_is_billable_input (scale : Int64 → BitVec 64 → Int64) (provider : Provider)
    (u : Usage) (opts : CostOpts) (r : Int64) (hcounters : ∀ n ∈ u.counters, n ≤ 10000000)
    (hnonneg : 0 ≤ r) (hbound : r ≤ 100000000000) :
    (computeCost scale provider (uniformPricing r) u opts).toInt
        = r.toInt * (u.totalBillableInputTokens provider).toNat ↔
      (provider = .anthropic ∨ provider = .bedrock) ∨ r = 0 ∨
        (u.cacheCreationInputTokens = 0 ∧ u.cacheReadInputTokens ≤ u.inputTokens) := by
  have hgeo : ¬ GeoApplies (uniformPricing r) opts := by
    rintro ⟨hsome, -⟩
    cases hsome
  have hprices : (uniformPricing r).prices = [r, 0, r, r] := rfl
  have hcost : (computeCost scale provider (uniformPricing r) u opts).toInt
      = r.toInt * billedInput provider u := by
    rw [← exactCost_uniform opts]
    apply toInt_computeCost_of_bounded _ hgeo hcounters
    · rw [hprices]
      simp [hbound]
    · rw [hprices]
      simp [hnonneg]
  rw [hcost]
  cases happart : countsCacheApart provider with
  | true =>
    rw [billedInput_of_apart happart hcounters]
    exact iff_of_true rfl (.inl (countsCacheApart_iff.mp happart))
  | false =>
    have hfamily : ¬ (provider = .anthropic ∨ provider = .bedrock) := by
      rw [← countsCacheApart_iff, happart]
      exact Bool.false_ne_true
    -- here the bill and the table differ by what is in the cache, times the rate
    rw [← billedInput_of_within happart]
    have hcancel : r.toInt * (billedInput provider u : Int)
        = r.toInt * (u.totalBillableInputTokens provider).toNat ↔
          billedInput provider u = (u.totalBillableInputTokens provider).toNat ∨ r.toInt = 0 := by
      rw [mul_eq_mul_left_iff, Int.ofNat_inj]
    have hzero : r.toInt = 0 ↔ r = 0 := by
      rw [← Int64.toInt_inj, Int64.toInt_zero]
    rw [hcancel, hzero, or_comm]
    exact (or_iff_right hfamily).symm

/-- The source's own example of cached input, at one rate. -/
theorem uniform_cost_of_sample :
    sampleUsage.cacheCreationInputTokens = 0 ∧
    sampleUsage.cacheReadInputTokens ≤ sampleUsage.inputTokens ∧
    (computeCost (fun total _ => total) .openAI (uniformPricing 2500) sampleUsage {}).toInt
      = (2500 : Int64).toInt * (sampleUsage.totalBillableInputTokens .openAI).toNat := by
  have hcreated : sampleUsage.cacheCreationInputTokens = 0 := rfl
  have hread : sampleUsage.cacheReadInputTokens ≤ sampleUsage.inputTokens := by decide
  refine ⟨hcreated, hread, ?_⟩
  exact (uniform_cost_is_billable_input (fun total _ => total) .openAI sampleUsage {} 2500
    (List.forall_iff_forall_mem.mp (by decide)) (by decide) (by decide)).mpr
    (.inr (.inr ⟨hcreated, hread⟩))

/-- A thousand prompt tokens, fifty of them written to the cache: the fifty are charged twice. -/
theorem openai_cache_creation_is_charged_twice :
    (computeCost (fun total _ => total) .openAI (uniformPricing 2500)
        { inputTokens := 1000, cacheCreationInputTokens := 50 } {}).toInt = 2500 * 1050 ∧
    ¬ ∀ (provider : Provider) (u : Usage) (r : Int64), (∀ n ∈ u.counters, n ≤ 10000000) → 0 ≤ r →
      r ≤ 100000000000 →
      (computeCost (fun total _ => total) provider (uniformPricing r) u {}).toInt
        = r.toInt * (u.totalBillableInputTokens provider).toNat := by
  have hcost : (computeCost (fun total _ => total) .openAI (uniformPricing 2500)
      { inputTokens := 1000, cacheCreationInputTokens := 50 } {}).toInt = 2500 * 1050 := by decide
  refine ⟨hcost, fun h => ?_⟩
  have hclaimed := h .openAI { inputTokens := 1000, cacheCreationInputTokens := 50 } 2500
    (List.forall_iff_forall_mem.mp (by decide)) (by decide) (by decide)
  rw [hcost] at hclaimed
  revert hclaimed
  decide

end Keplor.Pricing
