/-!
# Presets

Providers that are known by name, with their address and the environment variable that holds the
key.
-/

namespace ChatGateway.Provider

structure Preset where
  name : String
  baseUrl : String
  keyVariable : String
deriving DecidableEq, Repr

namespace Preset

def all : List Preset := [
  ⟨"openai", "https://api.openai.com/v1", "OPENAI_API_KEY"⟩,
  ⟨"openrouter", "https://openrouter.ai/api/v1", "OPENROUTER_API_KEY"⟩,
  ⟨"fireworks", "https://api.fireworks.ai/inference/v1", "FIREWORKS_API_KEY"⟩,
  ⟨"grok", "https://api.x.ai/v1", "XAI_API_KEY"⟩,
  ⟨"together", "https://api.together.xyz/v1", "TOGETHER_API_KEY"⟩,
  ⟨"groq", "https://api.groq.com/openai/v1", "GROQ_API_KEY"⟩,
  ⟨"deepseek", "https://api.deepseek.com/v1", "DEEPSEEK_API_KEY"⟩,
  ⟨"moonshot", "https://api.moonshot.ai/v1", "MOONSHOT_API_KEY"⟩,
  ⟨"dashscope", "https://dashscope-intl.aliyuncs.com/compatible-mode/v1", "DASHSCOPE_API_KEY"⟩]

/-- The small letter of a character, as far as that is an ASCII letter. Beside the ASCII capitals
only the Kelvin sign has one. -/
def toSmall (c : Char) : Char := if c.toNat = 0x212A then 'k' else c.toLower

def ofName? (name : String) : Option Preset :=
  all.find? fun p => p.name.toList = name.toList.map toSmall

end Preset

end ChatGateway.Provider
