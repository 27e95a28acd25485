import ChatGateway.Log

/-!
# Entries, field by field

What each kind of entry holds: its level, who wrote it, its message and the members of its context.
Theorems about the log speak of entries in these terms.
-/

namespace ChatGateway.Log

open Json

namespace Entry

/-- All that an entry for the request of `l` holds. -/
structure Says (e : Entry) (l : Log) (severity : Level) (who what : String)
    (members : List (String × Value)) : Prop where
  level : e.level = severity
  requestId : e.requestId = some l.requestId
  component : e.component = who
  message : e.message = what
  context : e.context = some (.obj members)

section
variable (e : Entry) (l : Log)

def Fails (component : String) (status : Nat) (message : String) : Prop :=
  e.Says l .error component message [("status", .ofNat status)]

/-- The member for a body, where bodies are written. -/
def bodyMember (body : Option Value) : List (String × Value) :=
  if l.bodies then body.toList.map ("body", ·) else []

def Completes (status inputTokens outputTokens : Nat) (body : Option Value) : Prop :=
  e.Says l .info "proxy" "Request completed"
    ([("status", .ofNat status), ("input_tokens", .ofNat inputTokens),
      ("output_tokens", .ofNat outputTokens)] ++ bodyMember l body)

def Builds (url : String) (payload : Value) : Prop :=
  e.Says l .debug "proxy" "Upstream request built"
    ([("url", .str url)] ++ bodyMember l (some payload))

def Routes (provider model : String) (tokens : Nat) : Prop :=
  e.Says l .info "router" "Request routed"
    [("provider", .str provider), ("target_model", .str model), ("estimated_tokens", .ofNat tokens)]

def Receives (model : String) (stream : Bool) (messages : Nat) (body : Value) : Prop :=
  e.Says l .info "server" "Request received"
    ([("model", .str model), ("stream", .bool stream), ("messages", .ofNat messages)] ++
      bodyMember l (some body))

end

end Entry

variable (l : Log)

theorem bodyMember_eq (body : Option Value) :
    Entry.bodyMember l body =
      [("body", l.body? body)].filterMap fun (k, v) => v.map (k, ·) := by
  unfold body? Entry.bodyMember
  cases l.bodies <;> cases body <;> rfl

theorem error_fails (component : String) (status : Nat) (message : String) :
    (l.error component status message).Fails l component status message :=
  ⟨rfl, rfl, rfl, rfl, rfl⟩

theorem completed_completes (status inputTokens outputTokens : Nat) (body : Option Value) :
    (l.completed status inputTokens outputTokens body).Completes l status inputTokens outputTokens
      body :=
  ⟨rfl, rfl, rfl, rfl, by rw [bodyMember_eq]; rfl⟩

theorem built_builds (url : String) (payload : Value) : (l.built url payload).Builds l url payload :=
  ⟨rfl, rfl, rfl, rfl, by rw [bodyMember_eq]; rfl⟩

theorem routed_routes (provider model : String) (tokens : Nat) :
    (l.routed provider model tokens).Routes l provider model tokens :=
  ⟨rfl, rfl, rfl, rfl, rfl⟩

theorem received_receives (model : String) (stream : Bool) (messages : Nat) (body : Value) :
    (l.received model stream messages body).Receives l model stream messages body :=
  ⟨rfl, rfl, rfl, rfl, by rw [bodyMember_eq]; rfl⟩

end ChatGateway.Log
