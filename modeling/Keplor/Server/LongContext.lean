import Keplor.Pricing.Bill
import Keplor.Server.Pipeline

/-!
# Which rates an ingested event is priced at

A catalog entry may have rates of its own for a context of more than 200k tokens, and `compute_cost`
charges them when the options say `ContextBucket::Above200k`. The pipeline prices every event with the
same options, `DEFAULT_COST_OPTS`, whose bucket is `Standard`. So a long prompt is charged what it
should be only where the other rates come to the same total (`stored_cost_is_bucket_cost_iff`).
-/

set_option autoImplicit false

namespace Keplor.Server

open Keplor.Core Keplor.Lib Keplor.Pricing

/-- The bucket that the billable input of a request belongs in. -/
def contextBucketOf (provider : Provider) (u : Usage) : ContextBucket :=
  if 200000 < u.totalBillableInputTokens provider then .above200k else .standard

/-- The options of the pipeline, in a bucket. -/
def costOptsIn (bucket : ContextBucket) : CostOpts := { DEFAULT_COST_OPTS with contextBucket := bucket }

/-- The bill comes to the same at the long-context rates as at the standard ones, where both are added
up as an `i64`. -/
def SameAtBothRates (provider : Provider) (p : ModelPricing) (u : Usage) : Prop :=
  clampedSum 0 (lines provider p u (costOptsIn .standard))
    = clampedSum 0 (lines provider p u (costOptsIn .above200k))

/-- What the long-context rates add to a bill, in unbounded integers. -/
def surcharge (provider : Provider) (p : ModelPricing) (u : Usage) : Int :=
  weighted (units provider u) (List.zipWith (fun long standard => long.toInt - standard.toInt)
    (rates provider p (costOptsIn .above200k)) (rates provider p (costOptsIn .standard)))

theorem not_geoApplies (p : ModelPricing) (bucket : ContextBucket) :
    ¬ GeoApplies p (costOptsIn bucket) := by
  rintro ⟨-, hgeo⟩
  cases hgeo

theorem computeCost_eq_iff (scale : Int64 → BitVec 64 → Int64) (provider : Provider) (p : ModelPricing)
    (u : Usage) :
    computeCost scale provider p u (costOptsIn .standard)
        = computeCost scale provider p u (costOptsIn .above200k) ↔ SameAtBothRates provider p u := by
  rw [← Int64.toInt_inj, toInt_computeCost scale provider (not_geoApplies p _),
    toInt_computeCost scale provider (not_geoApplies p _)]
  rfl

/-- Where nothing is cut off, the two bills agree exactly when nothing is added. -/
theorem sameAtBothRates_iff {provider : Provider} {p : ModelPricing} {u : Usage}
    (hcounters : ∀ n ∈ u.counters, n ≤ 10000000)
    (hprices : ∀ r ∈ p.prices, 0 ≤ r ∧ r ≤ 100000000000) :
    SameAtBothRates provider p u ↔ surcharge provider p u = 0 := by
  have hexact (bucket : ContextBucket) :
      clampedSum 0 (lines provider p u (costOptsIn bucket))
        = exactCost provider p u (costOptsIn bucket) := by
    rw [← toInt_computeCost (fun total _ => total) provider (not_geoApplies p bucket)]
    exact toInt_computeCost_of_bounded (fun r hr => (hprices r hr).1) (not_geoApplies p bucket)
      hcounters fun r hr => (hprices r hr).2
  have hsurcharge : surcharge provider p u
      = exactCost provider p u (costOptsIn .above200k)
        - exactCost provider p u (costOptsIn .standard) := by
    rw [surcharge, exactCost, exactCost, ← weighted_sub (by simp [rates]), List.zipWith_map]
  rw [SameAtBothRates, hexact, hexact, hsurcharge, eq_comm, Int.sub_eq_zero]

/-- The counters of a payload that passed `validate_tokens`; the two that no payload has are zero. -/
theorem counters_le_of_validate {tf : TextFormats} {now : Int64} {event : IngestEvent}
    (h : validate tf now event = .ok ()) :
    ∀ n ∈ (usageFromIngest event.usage).counters, n ≤ 10000000 := by
  have htokens := le_of_validateTokens (validateTokens_of_validate h)
  simp only [IngestUsage.fields, List.mem_cons, List.not_mem_nil, or_false, forall_eq_or_imp,
    forall_eq] at htokens
  obtain ⟨hin, hout, hread, hcreate, hreason, haudio, haudioOut, himage, htool⟩ := htokens
  have hzero : (0 : UInt32) ≤ 10000000 := by decide
  simp only [Usage.counters, usageFromIngest, List.mem_cons, List.not_mem_nil, or_false,
    forall_eq_or_imp, forall_eq]
  exact ⟨hin, hout, hread, hcreate, hreason, haudio, haudioOut, himage, hzero, htool, hzero⟩

/-- For every event without a client cost whose model the catalog prices: the stored cost is that of the
bucket its billable input belongs in exactly when that input is at most 200000 tokens, or the bill is
the same at both rates. With rates from zero to a hundred dollars a token nothing is cut off, and the
bills are the same where the surcharge is zero. -/
theorem stored_cost_is_bucket_cost_iff (env : Surroundings) (catalog : Catalog) (event : IngestEvent)
    (authenticatedKeyId : Option String) (tier : String)
    (built : LlmEvent × Provider × String × Int64) (p : ModelPricing)
    (hcost : event.costNanodollars = none)
    (hpriced : catalog.lookup (normalizeModel event.model) = some (some p))
    (hbuilt : processEvent env catalog event authenticatedKeyId tier = pure built) :
    let provider := normalizeProvider event.provider
    let usage := usageFromIngest event.usage
    (built.1.costNanodollars
        = computeCost env.scale provider p usage (costOptsIn (contextBucketOf provider usage)) ↔
      usage.totalBillableInputTokens provider ≤ 200000 ∨ SameAtBothRates provider p usage) ∧
    ((∀ r ∈ p.prices, 0 ≤ r ∧ r ≤ 100000000000) →
      (SameAtBothRates provider p usage ↔ surcharge provider p usage = 0)) := by
  intro provider usage
  obtain ⟨hvalid, hevent⟩ := processEvent_eq_pure hbuilt
  have hstored : built.1.costNanodollars = computeCost env.scale provider p usage (costOptsIn .standard) := by
    obtain ⟨-, -, hcatalog⟩ := priced_of_processEvent hbuilt
    rw [hcost, Option.none_or, catalogCost, hpriced, Option.map_some, Option.some_inj] at hcatalog
    rw [(copied_of_buildLlmEvent hevent).2.1, ← hcatalog]
    rfl
  constructor
  · rw [hstored, contextBucketOf]
    split
    · rename_i hlong
      rw [computeCost_eq_iff]
      exact (or_iff_right (UInt32.not_le.mpr hlong)).symm
    · rename_i hshort
      exact iff_of_true rfl (.inl (UInt32.not_lt.mp hshort))
  · intro hprices
    have husage : (withAuthenticatedKey event authenticatedKeyId).usage = event.usage := by
      cases authenticatedKeyId <;> rfl
    have hcounters := counters_le_of_validate hvalid
    rw [husage] at hcounters
    exact sameAtBothRates_iff hcounters hprices

/-- An entry whose input rate doubles past 200k tokens. -/
def tieredPricing : ModelPricing where
  inputCostPerToken := 3000
  outputCostPerToken := 15000
  inputCostPerTokenAbove200k := some 6000
  outputCostPerTokenAbove200k := some 22500

def tieredCatalog : Catalog := ⟨fun name => if name = "claude-sonnet-4-5" then some tieredPricing else none⟩

/-- A prompt of so many tokens. -/
def promptOf (tokens : UInt32) : IngestEvent where
  model := "claude-sonnet-4-5"
  provider := "anthropic"
  usage := { inputTokens := tokens }

/-- A prompt that is not long is charged the rate of its bucket. -/
theorem short_prompt_is_charged_its_bucket :
    ∃ built, processEvent sampleSurroundings tieredCatalog (promptOf 1000) none "free" = pure built ∧
      built.1.costNanodollars
        = computeCost sampleSurroundings.scale (normalizeProvider "anthropic") tieredPricing
            (usageFromIngest (promptOf 1000).usage)
            (costOptsIn (contextBucketOf (normalizeProvider "anthropic")
              (usageFromIngest (promptOf 1000).usage))) := by
  have hpriced : tieredCatalog.lookup (normalizeModel (promptOf 1000).model) = some (some tieredPricing) := by
    decide +kernel
  have hshort : (usageFromIngest (promptOf 1000).usage).totalBillableInputTokens
      (normalizeProvider (promptOf 1000).provider) ≤ 200000 := by decide +kernel
  obtain ⟨built, hbuilt⟩ := Fallible.exists_pure_of_value?
    (show (processEvent sampleSurroundings tieredCatalog (promptOf 1000) none "free").value?.isSome by
      decide +kernel)
  exact ⟨built, hbuilt, (stored_cost_is_bucket_cost_iff sampleSurroundings tieredCatalog (promptOf 1000)
    none "free" built tieredPricing rfl hpriced hbuilt).1.mpr (.inl hshort)⟩

/-- A prompt of 300000 tokens is stored with the cost of the standard rate, half of what it is due. -/
theorem long_prompt_is_charged_the_standard_rate :
    (processEvent sampleSurroundings tieredCatalog (promptOf 300000) none "free").value?.map
        (fun built => built.1.costNanodollars) = some 900000000 ∧
    200000 < (usageFromIngest (promptOf 300000).usage).totalBillableInputTokens
      (normalizeProvider "anthropic") ∧
    computeCost sampleSurroundings.scale (normalizeProvider "anthropic") tieredPricing
      (usageFromIngest (promptOf 300000).usage) (costOptsIn (contextBucketOf
        (normalizeProvider "anthropic") (usageFromIngest (promptOf 300000).usage))) = 1800000000 := by
  decide +kernel

end Keplor.Server
