import ChatGateway.Config.Settings
import ChatGateway.Json.Print
import ChatGateway.Messages.Request

/-!
# Routing

Which provider answers a request. A request that asks for thinking goes to a provider that can
reason, if the conversation fits; otherwise the provider of the model counts, then the default one,
and last the provider with the smallest context that is large enough.
-/

namespace ChatGateway.Routing

open Messages

def blockSize : Block → Nat
  | .text t => t.length
  | .toolUse _ _ input => input.render.length
  | .toolResult _ content _ => content.plain.length
  | .thinking t _ => t.length
  | .image _ | .unsupported => 0

def contentSize : Content → Nat
  | .text t => t.length
  | .blocks bs => bs.foldr (fun b n => blockSize b + n) 0

def size (r : Request) : Nat :=
  r.system.elim 0 (·.plain.length) +
    r.messages.foldr (fun m n => contentSize m.content + n) 0

/-- About how many tokens a conversation takes: four characters make one. -/
def estimate (r : Request) : Nat := size r / 4

variable (c : Config)

def mapped (model : String) : Option Config.Provider :=
  (c.routing.modelProviders.get? model).bind c.provider?

def default : Option Config.Provider := c.provider? c.routing.defaultProvider

/-- The first provider that can reason and names the model, or else the first that can reason. -/
def firstReasoner (model : String) : Option Config.Provider :=
  let able := c.providers.filter (·.supportsReasoning)
  (able.find? fun p => (p.models.get? model).isSome).or able.head?

/-- The provider that is asked for reasoning: the one of the model or the default one, if it can
reason, or else any. -/
def reasoner (model : String) : Option Config.Provider :=
  ((mapped c model).filter (·.supportsReasoning)).or
    (((default c).filter (·.supportsReasoning)).or (firstReasoner c model))

def rank (p : Config.Provider) : Nat := p.maxContext.getD (UInt64.size - 1)

def smallest : List Config.Provider → Option Config.Provider
  | [] => none
  | p :: ps =>
    match smallest ps with
    | some q => if rank q < rank p then some q else some p
    | none => some p

/-- The smallest provider that takes the model and has room. -/
def bestFit (model : String) (tokens : Nat) : Option Config.Provider :=
  smallest (c.providers.filter fun p => p.declares model && p.hasRoomFor tokens)

def provider (r : Request) : Option Config.Provider :=
  let tokens := estimate r
  let fits (p : Option Config.Provider) := p.filter (·.hasRoomFor tokens)
  let thinker := if r.thinkingRequested then fits (reasoner c r.model) else none
  thinker.or ((fits (mapped c r.model)).or ((fits (default c)).or (bestFit c r.model tokens)))

structure Route where
  key : String
  model : String
deriving DecidableEq, Repr

def targetModel (model key : String) : Except Problem String :=
  match c.provider? key with
  | none => .error (.config ("Unknown provider '" ++ key ++ "'"))
  | some p =>
    match (p.models.get? model).or p.defaultModel with
    | some name => .ok name
    | none => .error (.modelMapping model key)

def resolve (r : Request) : Except Problem Route :=
  match provider c r with
  | none => .error (.routing r.model)
  | some p => (targetModel c r.model p.key).map fun model => ⟨p.key, model⟩

end ChatGateway.Routing
