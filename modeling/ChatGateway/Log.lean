import ChatGateway.Json.Print

/-!
# The log of requests

Each step in the life of a request is one entry of the log, under the request's id. What is said in
a conversation is written only where bodies are asked for.
-/

namespace ChatGateway

open Json

structure Log where
  requestId : String
  /-- Bodies are written too. -/
  bodies : Bool
deriving DecidableEq, Repr

namespace Log

inductive Level where
  | debug
  | info
  | warn
  | error
deriving DecidableEq, Repr

structure Entry where
  level : Level
  requestId : Option String
  component : String
  message : String
  context : Option Value
deriving DecidableEq, Repr

def Level.name : Level → String
  | .debug => "debug"
  | .info => "info"
  | .warn => "warn"
  | .error => "error"

def Entry.encode (e : Entry) : Value :=
  .record [("level", some (.str e.level.name)), ("request_id", e.requestId.map .str),
    ("component", some (.str e.component)), ("message", some (.str e.message)),
    ("context", e.context)]

def Entry.info (component message : String) : Entry := ⟨.info, none, component, message, none⟩

variable (l : Log)

def entry (level : Level) (component message : String) (context : Value) : Entry :=
  ⟨level, some l.requestId, component, message, some context⟩

def body? (body : Option Value) : Option Value := if l.bodies then body else none

def received (model : String) (stream : Bool) (messages : Nat) (body : Value) : Entry :=
  l.entry .info "server" "Request received"
    (.record [("model", some (.str model)), ("stream", some (.bool stream)),
      ("messages", some (.ofNat messages)), ("body", l.body? (some body))])

def routed (provider model : String) (tokens : Nat) : Entry :=
  l.entry .info "router" "Request routed"
    (.record [("provider", some (.str provider)), ("target_model", some (.str model)),
      ("estimated_tokens", some (.ofNat tokens))])

def built (url : String) (body : Value) : Entry :=
  l.entry .debug "proxy" "Upstream request built"
    (.record [("url", some (.str url)), ("body", l.body? (some body))])

def completed (status inputTokens outputTokens : Nat) (body : Option Value) : Entry :=
  l.entry .info "proxy" "Request completed"
    (.record [("status", some (.ofNat status)), ("input_tokens", some (.ofNat inputTokens)),
      ("output_tokens", some (.ofNat outputTokens)), ("body", l.body? body)])

def error (component : String) (status : Nat) (message : String) : Entry :=
  l.entry .error component message (.record [("status", some (.ofNat status))])

def warn (component message : String) (context : Value) : Entry :=
  l.entry .warn component message context

end Log

end ChatGateway
