import ChatGateway.Decode.Record
import ChatGateway.Problem
import ChatGateway.Provider.Preset

/-!
# Configuration

What the gateway is told: where it listens, what it logs, which providers there are and which
models go where. The order of the providers counts.
-/

namespace ChatGateway.Config

open Json Decode

structure Server where
  host : String
  tcp : Nat
deriving DecidableEq, Repr

structure Logging where
  level : String
  file : String
  bodies : Bool
deriving DecidableEq, Repr

structure Routing where
  defaultProvider : String
  /-- Provider keys by model. -/
  modelProviders : Table String
deriving DecidableEq, Repr

structure Reasoning where
  budgetField : Option String
  include' : Bool
deriving DecidableEq, Repr

structure Provider where
  key : String
  name : String
  baseUrl : Option String
  apiKey : Option String
  apiKeyVariable : Option String
  /-- Seconds. -/
  timeout : Nat
  /-- The provider's own model names by model. -/
  models : Table String
  defaultModel : Option String
  supportsReasoning : Bool
  reasoning : Reasoning
  maxTokens : Option Nat
  /-- The size of the context in tokens, unlimited where it is absent. -/
  maxContext : Option Nat
  extraHeaders : Table String
deriving DecidableEq, Repr

end ChatGateway.Config

namespace ChatGateway

structure Config where
  server : Config.Server
  logging : Config.Logging
  routing : Config.Routing
  providers : List Config.Provider
deriving DecidableEq, Repr

namespace Config

open Json Decode

def Server.standard : Server := ⟨"127.0.0.1", 8083⟩

def Logging.standard : Logging := ⟨"info", "claude-bridge.log", false⟩

def Reasoning.standard : Reasoning := ⟨none, false⟩

def path : Decoder String
  | _, .str s => .ok s
  | _, d => mismatch d "path string"

def Server.decode : Decoder Server :=
  record "struct ServerConfig" <| Fields.of Server.mk
    |>.orElse "host" string standard.host
    |>.orElse "port" u16 standard.tcp

def Logging.decode : Decoder Logging :=
  record "struct LoggingConfig" <| Fields.of Logging.mk
    |>.orElse "level" string standard.level
    |>.orElse "file" path standard.file
    |>.orElse "log_bodies" boolean standard.bodies

def Routing.decode : Decoder Routing :=
  record "struct RoutingConfig" <| Fields.of Routing.mk
    |>.required "default_provider" string
    |>.orElse "model_providers" (table string) []

def Reasoning.decode : Decoder Reasoning :=
  record "struct ReasoningConfig" <| Fields.of Reasoning.mk
    |>.optional "thinking_budget_param" string
    |>.orElse "include_reasoning" boolean false

def Provider.decode : Decoder Provider :=
  record "struct ProviderConfig" <| Fields.of Provider.mk
    |>.required "key" string
    |>.required "name" string
    |>.optional "base_url" string
    |>.optional "api_key" string
    |>.optional "api_key_env" string
    |>.orElse "timeout" u64 600
    |>.orElse "default_models" (table string) []
    |>.optional "default_model" string
    |>.orElse "supports_reasoning" boolean false
    |>.orElse "reasoning_config" Reasoning.decode .standard
    |>.optional "max_tokens_override" u64
    |>.optional "max_context" u64
    |>.orElse "extra_headers" (table string) []

def decode : Decoder Config :=
  record "struct ProxyConfig" <| Fields.of Config.mk
    |>.orElse "server" Server.decode .standard
    |>.orElse "logging" Logging.decode .standard
    |>.required "routing" Routing.decode
    |>.orElse "providers" (list Provider.decode) []

def tableValue (t : Table String) : Value := .obj (t.map fun (k, s) => (k, .str s))

def Reasoning.encode (r : Reasoning) : Value :=
  .record [("thinking_budget_param", r.budgetField.map .str),
    ("include_reasoning", some (.bool r.include'))]

def Provider.encode (p : Provider) : Value :=
  .record [("key", some (.str p.key)), ("name", some (.str p.name)),
    ("base_url", p.baseUrl.map .str), ("api_key", p.apiKey.map .str),
    ("api_key_env", p.apiKeyVariable.map .str), ("timeout", some (.ofNat p.timeout)),
    ("default_models", some (tableValue p.models)), ("default_model", p.defaultModel.map .str),
    ("supports_reasoning", some (.bool p.supportsReasoning)),
    ("reasoning_config", some p.reasoning.encode), ("max_tokens_override", p.maxTokens.map .ofNat),
    ("max_context", p.maxContext.map .ofNat), ("extra_headers", some (tableValue p.extraHeaders))]

def encode (c : Config) : Value :=
  .record [
    ("server", some (.record [("host", some (.str c.server.host)),
      ("port", some (.ofNat c.server.tcp))])),
    ("logging", some (.record [("level", some (.str c.logging.level)),
      ("file", some (.str c.logging.file)), ("log_bodies", some (.bool c.logging.bodies))])),
    ("routing", some (.record [("default_provider", some (.str c.routing.defaultProvider)),
      ("model_providers", some (tableValue c.routing.modelProviders))])),
    ("providers", some (.arr (c.providers.map Provider.encode)))]

def provider? (c : Config) (key : String) : Option Provider := c.providers.find? (·.key = key)

namespace Provider

def address (p : Provider) : Except Problem String :=
  match p.baseUrl, ChatGateway.Provider.Preset.ofName? p.name with
  | some url, _ => .ok url
  | none, some preset => .ok preset.baseUrl
  | none, none =>
    .error (.config ("Provider '" ++ p.key ++ "' has no base_url and '" ++ p.name ++
      "' is not a known preset. Known providers: " ++
      String.intercalate ", " (ChatGateway.Provider.Preset.all.map (·.name))))

/-- The key that the provider wants, if it wants one: its own, that of the variable that it names,
or that of the preset's variable. -/
def resolveKey (env : Table String) (p : Provider) : Except Problem (Option String) :=
  match p.apiKey, p.apiKeyVariable with
  | some key, _ => .ok (some key)
  | none, some name =>
    match env.get? name with
    | some key => .ok (some key)
    | none =>
      .error (.config ("Environment variable '" ++ name ++
        "' not set. Set it with the API key for provider '" ++ p.key ++ "'."))
  | none, none =>
    .ok ((ChatGateway.Provider.Preset.ofName? p.name).bind fun q => env.get? q.keyVariable)

/-- The provider takes the model, whatever the routing says. -/
def declares (p : Provider) (model : String) : Bool :=
  (p.models.get? model).isSome || p.defaultModel.isSome

def hasRoomFor (p : Provider) (tokens : Nat) : Bool :=
  match p.maxContext with
  | some limit => tokens ≤ limit
  | none => true

end Provider

/-- Each key is new among those `seen`, and each provider has an address. -/
def checkProviders : List String → List Provider → Except Problem Unit
  | _, [] => .ok ()
  | seen, p :: ps => do
    if seen.contains p.key then
      .error (.config ("Duplicate provider key '" ++ p.key ++ "'"))
    else
      let _ ← p.address
      checkProviders (p.key :: seen) ps

def validate (c : Config) : Except Problem Unit := do
  if c.providers.isEmpty then
    .error (.config "At least one [[providers]] entry is required")
  else
    checkProviders [] c.providers
    if (c.provider? c.routing.defaultProvider).isNone then
      .error (.config ("routing.default_provider '" ++ c.routing.defaultProvider ++
        "' does not name a configured provider"))
    else
      match c.routing.modelProviders.find? fun (_, key) => (c.provider? key).isNone with
      | some (model, key) =>
        .error (.config ("routing.model_providers maps '" ++ model ++
          "' to unknown provider '" ++ key ++ "'"))
      | none => .ok ()

/-- The models that the routing or a provider names, each once, in order. -/
def knownModels (c : Config) : List String :=
  let models := c.routing.modelProviders.keys ++ c.providers.flatMap fun p => p.models.keys
  Table.keys (Table.ofEntries (models.map fun m => (m, ())))

end Config

end ChatGateway
