import Mathlib.Tactic.Common

/-!
# `keplor-core/src/provider.rs` — the provider enum and its storage keys

`idKey` is what a stored row keeps of a provider, and `fromIdKey` is how it is read back. The two
are inverse on the fifteen named providers only: `openAICompatible` prints one fixed key whatever
its base URL, and `fromIdKey` of that key would take the key itself for the URL. The row mapping
has to special-case it (`Store/Mapping.lean`, `readProvider`), and `fromIdKey_idKey` is the fact
that makes the special case sufficient.
-/

set_option autoImplicit false

namespace Keplor.Core

/-- The 16 provider surfaces. -/
inductive Provider where
  | openAI
  | anthropic
  | gemini
  | geminiVertex
  | bedrock
  | azureOpenAI
  | mistral
  | groq
  | xAi
  | deepSeek
  | cohere
  | openRouter
  | ollama
  | openCode
  | openCodeZen
  /-- Any other base URL that speaks the OpenAI Chat Completions dialect. -/
  | openAICompatible (baseUrl : String)
  deriving DecidableEq, Repr

namespace Provider

/-- `Provider::id_key` -/
def idKey : Provider → String
  | openAI => "openai"
  | anthropic => "anthropic"
  | gemini => "gemini"
  | geminiVertex => "gemini_vertex"
  | bedrock => "bedrock"
  | azureOpenAI => "azure_openai"
  | mistral => "mistral"
  | groq => "groq"
  | xAi => "xai"
  | deepSeek => "deepseek"
  | cohere => "cohere"
  | openRouter => "openrouter"
  | ollama => "ollama"
  | openCode => "opencode"
  | openCodeZen => "opencode_zen"
  | openAICompatible _ => "openai_compatible"

/-- `Provider::from_id_key`: exact match, anything unknown is a base URL. -/
def fromIdKey (s : String) : Provider :=
  match s with
  | "openai" => openAI
  | "anthropic" => anthropic
  | "gemini" => gemini
  | "gemini_vertex" => geminiVertex
  | "bedrock" => bedrock
  | "azure_openai" => azureOpenAI
  | "mistral" => mistral
  | "groq" => groq
  | "xai" => xAi
  | "deepseek" => deepSeek
  | "cohere" => cohere
  | "openrouter" => openRouter
  | "ollama" => ollama
  | "opencode" => openCode
  | "opencode_zen" => openCodeZen
  | other => openAICompatible other

/-- `str::to_ascii_lowercase`, on the characters. -/
def asciiLower (s : String) : List Char := s.toList.map Char.toLower

/-- `str::eq_ignore_ascii_case` -/
def eqIgnoreAsciiCase (s t : String) : Bool := asciiLower s == asciiLower t

/-- `Provider::from_id_key_ignore_case`. The only key with two spellings is OpenCode Zen's. -/
def fromIdKeyIgnoreCase (s : String) : Provider :=
  if eqIgnoreAsciiCase s "openai" then openAI
  else if eqIgnoreAsciiCase s "anthropic" then anthropic
  else if eqIgnoreAsciiCase s "gemini" then gemini
  else if eqIgnoreAsciiCase s "gemini_vertex" then geminiVertex
  else if eqIgnoreAsciiCase s "bedrock" then bedrock
  else if eqIgnoreAsciiCase s "azure_openai" then azureOpenAI
  else if eqIgnoreAsciiCase s "mistral" then mistral
  else if eqIgnoreAsciiCase s "groq" then groq
  else if eqIgnoreAsciiCase s "xai" then xAi
  else if eqIgnoreAsciiCase s "deepseek" then deepSeek
  else if eqIgnoreAsciiCase s "cohere" then cohere
  else if eqIgnoreAsciiCase s "openrouter" then openRouter
  else if eqIgnoreAsciiCase s "ollama" then ollama
  else if eqIgnoreAsciiCase s "opencode" then openCode
  else if eqIgnoreAsciiCase s "opencode_zen" || eqIgnoreAsciiCase s "opencode-zen" then openCodeZen
  else openAICompatible s

/-- A named provider comes back from its key. -/
theorem fromIdKey_idKey {p : Provider} (h : ∀ u, p ≠ openAICompatible u) :
    fromIdKey p.idKey = p := by
  cases p with
  | openAICompatible u => exact absurd rfl (h u)
  | _ => rfl

/-- The one key the special case of the row reader looks for belongs to no named provider. -/
theorem idKey_eq_openai_compatible {p : Provider} (h : p.idKey = "openai_compatible") :
    ∃ u, p = openAICompatible u := by
  cases p with
  | openAICompatible u => exact ⟨u, rfl⟩
  | _ => exact absurd h (by decide)

end Provider

end Keplor.Core
