import Keplor.Core.Event

/-!
# `keplor-core/src/usage.rs` — the tokens that are billed as input

Providers disagree on whether `input_tokens` includes what was read from a cache and written to one.
`total_billable_input_tokens` is the table of who counts how.
-/

set_option autoImplicit false

namespace Keplor.Core

/-- `u32::saturating_add` -/
def saturatingAdd32 (a b : UInt32) : UInt32 := if a.toNat + b.toNat < 2 ^ 32 then a + b else 4294967295

theorem toNat_saturatingAdd32 (a b : UInt32) :
    (saturatingAdd32 a b).toNat = min (a.toNat + b.toNat) 4294967295 := by
  unfold saturatingAdd32
  split
  · rename_i hlt
    rw [UInt32.toNat_add, Nat.mod_eq_of_lt hlt]
    omega
  · rename_i hge
    have hmax : (4294967295 : UInt32).toNat = 4294967295 := rfl
    rw [hmax]
    omega

namespace Usage

/-- `Usage::total_billable_input_tokens` -/
def totalBillableInputTokens (u : Usage) (provider : Provider) : UInt32 :=
  match provider with
  | .anthropic | .bedrock =>
      saturatingAdd32 (saturatingAdd32 u.inputTokens u.cacheCreationInputTokens) u.cacheReadInputTokens
  | .openAI | .azureOpenAI | .gemini | .geminiVertex | .mistral | .groq | .xAi | .deepSeek | .cohere
  | .openRouter | .ollama | .openCode | .openCodeZen | .openAICompatible _ => u.inputTokens

/-- All counters of a request. -/
def counters (u : Usage) : List UInt32 :=
  [u.inputTokens, u.outputTokens, u.cacheReadInputTokens, u.cacheCreationInputTokens,
    u.reasoningTokens, u.audioInputTokens, u.audioOutputTokens, u.imageTokens, u.videoSeconds,
    u.toolUseTokens, u.searchQueries]

end Usage

end Keplor.Core
