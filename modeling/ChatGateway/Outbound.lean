import ChatGateway.Chat.Request
import ChatGateway.Config.Settings
import ChatGateway.Json.Canonical
import ChatGateway.Json.Print
import ChatGateway.Messages.Request
import ChatGateway.Text.Blank

/-!
# Requests to a provider

A conversation of the Messages API as one of chat completions. The results of tools become messages
of their own in front of what the user says; what the other side does not know is left out.
-/

namespace ChatGateway.Outbound

open Messages

def joinLines (texts : List String) : String := String.intercalate "\n" texts

def texts (bs : List Block) : List String := bs.filterMap Block.text?

def imagePart? : Block → Option Chat.ContentPart
  | .image s => some (.image ⟨"data:" ++ s.mediaType ++ ";base64," ++ s.data, none⟩)
  | _ => none

def toolMessage? : Block → Option Chat.Message
  | .toolResult useId content _ =>
    some ⟨.tool, some (.text content.plain), none, some useId, none⟩
  | _ => none

def toolCall? : Block → Option Chat.ToolCall
  | .toolUse id name input => some ⟨id, "function", name, input.text⟩
  | _ => none

def userSays (bs : List Block) : Option Chat.Message :=
  let text := joinLines (texts bs)
  let images := bs.filterMap imagePart?
  if images.isEmpty then
    if text.isEmpty then none else some (.ofText .user text)
  else
    let said := if text.isEmpty then [] else [Chat.ContentPart.text text]
    some ⟨.user, some (.parts (said ++ images)), none, none, none⟩

def userMessages (bs : List Block) : List Chat.Message :=
  bs.filterMap toolMessage? ++ (userSays bs).toList

def assistantMessage (bs : List Block) : Option Chat.Message :=
  let text := joinLines (texts bs)
  let calls := bs.filterMap toolCall?
  if text.isEmpty && calls.isEmpty then none
  else some ⟨.assistant, if text.isEmpty then none else some (.text text),
    if calls.isEmpty then none else some calls, none, none⟩

def messages (m : Message) : List Chat.Message :=
  match m.role with
  | .user => userMessages m.content.toBlocks
  | .assistant => (assistantMessage m.content.toBlocks).toList

def systemMessage (system : Option System) : List Chat.Message :=
  match system with
  | none => []
  | some s => if Text.blank s.plain.toList then [] else [.ofText .system s.plain]

def tool (t : Messages.Tool) : Chat.Tool := ⟨"function", t.name, t.description, t.inputSchema⟩

def toolChoice : ToolChoice → Chat.ToolChoice
  | .specific _ name => .specific "function" name
  | .general "any" => .word "required"
  | .general "none" => .word "none"
  | .general _ => .word "auto"

/-- The request for chat completions, for the provider's own name of the model. -/
def request (r : Request) (model : String) : Chat.Request where
  model
  messages := systemMessage r.system ++ r.messages.flatMap messages
  maxTokens := r.maxTokens
  temperature := r.temperature
  topP := r.topP
  stream := r.stream
  includeUsage := if r.isStreaming then some true else none
  tools := r.tools.map fun ts => ts.map tool
  toolChoice := r.toolChoice.map toolChoice
  stop := r.stopSequences
  user := r.metadata.bind (·.userId)

def limitTokens (limit requested : Option Nat) : Option Nat :=
  match limit, requested with
  | none, n => n
  | some limit, none => some limit
  | some limit, some n => some (min n limit)

def reasoningMembers (r : Request) (p : Config.Provider) : Table Json.Value :=
  if r.thinkingRequested && p.supportsReasoning then
    let budget :=
      match p.reasoning.budgetField, r.thinkingBudget with
      | some field, some n => [(field, Json.Value.ofNat n)]
      | _, _ => []
    let included :=
      if p.reasoning.include' then [("include_reasoning", Json.Value.bool true)] else []
    Table.ofEntries (budget ++ included)
  else []

/-- A request to one provider: its body and members that are laid over it. -/
structure Call where
  request : Chat.Request
  extra : Table Json.Value

def build (r : Request) (model : String) (p : Config.Provider) : Call :=
  let q := request r model
  ⟨{ q with maxTokens := limitTokens p.maxTokens q.maxTokens }, reasoningMembers r p⟩

namespace Call

def isStreaming (c : Call) : Bool := c.request.isStreaming

/-- The body: the request, with the extra members in place of its own. -/
def payload (c : Call) : Json.Value :=
  match c.request.encode.canonical with
  | .obj members => .obj (Table.override members c.extra)
  | v => v

end Call

end ChatGateway.Outbound
