import ChatGateway.Chat.Request

/-!
# Replies of the chat completions API

Providers differ in what they send, so nearly every field may be absent.
-/

namespace ChatGateway.Chat

open Json Decode

structure Usage where
  promptTokens : Option Nat
  completionTokens : Option Nat
  totalTokens : Option Nat
  /-- The details of the prompt, if they are there; they may count the cached tokens. -/
  promptDetails : Option (Option Nat)
  cacheCreation : Option Nat
deriving DecidableEq, Repr

structure ChoiceMessage where
  role : Option String
  content : Option String
  reasoning : Option String
  toolCalls : Option (List ToolCall)
deriving DecidableEq, Repr

structure Choice where
  index : Nat
  message : ChoiceMessage
  finishReason : Option String
deriving DecidableEq, Repr

structure Reply where
  id : String
  object : String
  created : Nat
  model : String
  choices : List Choice
  usage : Option Usage
deriving DecidableEq, Repr

def Usage.cachedTokens (u : Usage) : Option Nat := u.promptDetails.join

def decodePromptDetails : Decoder (Option Nat) :=
  record "struct PromptTokensDetails" <| Fields.of id
    |>.orElse "cached_tokens" (option u64) none

def Usage.decode : Decoder Usage :=
  record "struct ChatUsage" <| Fields.of Usage.mk
    |>.orElse "prompt_tokens" (option u64) none
    |>.orElse "completion_tokens" (option u64) none
    |>.orElse "total_tokens" (option u64) none
    |>.orElse "prompt_tokens_details" (option decodePromptDetails) none
    |>.orElse "cache_creation_input_tokens" (option u64) none

def ChoiceMessage.decode : Decoder ChoiceMessage :=
  record "struct ChoiceMessage" <| Fields.of ChoiceMessage.mk
    |>.orElse "role" (option string) none
    |>.orElse "content" (option string) none
    |>.orElse "reasoning_content" (option string) none
    |>.optional "tool_calls" (list ToolCall.decode)

def Choice.decode : Decoder Choice :=
  record "struct Choice" <| Fields.of Choice.mk
    |>.orElse "index" u64 0
    |>.required "message" ChoiceMessage.decode
    |>.optional "finish_reason" string

def Reply.decode : Decoder Reply :=
  record "struct ChatCompletionResponse" <| Fields.of Reply.mk
    |>.orElse "id" string ""
    |>.orElse "object" string ""
    |>.orElse "created" u64 0
    |>.orElse "model" string ""
    |>.orElse "choices" (list Choice.decode) []
    |>.optional "usage" Usage.decode

def Usage.encode (u : Usage) : Value :=
  .record [("prompt_tokens", u.promptTokens.map .ofNat),
    ("completion_tokens", u.completionTokens.map .ofNat),
    ("total_tokens", u.totalTokens.map .ofNat),
    ("prompt_tokens_details",
      u.promptDetails.map fun n => .record [("cached_tokens", n.map .ofNat)]),
    ("cache_creation_input_tokens", u.cacheCreation.map .ofNat)]

def ChoiceMessage.encode (c : ChoiceMessage) : Value :=
  .record [("role", textOrNull c.role), ("content", textOrNull c.content),
    ("reasoning_content", textOrNull c.reasoning),
    ("tool_calls", c.toolCalls.map fun cs => .arr (cs.map ToolCall.encode))]

def Choice.encode (c : Choice) : Value :=
  .record [("index", some (.ofNat c.index)), ("message", some c.message.encode),
    ("finish_reason", textOrNull c.finishReason)]

def Reply.encode (r : Reply) : Value :=
  .record [("id", some (.str r.id)), ("object", some (.str r.object)),
    ("created", some (.ofNat r.created)), ("model", some (.str r.model)),
    ("choices", some (.arr (r.choices.map Choice.encode))), ("usage", r.usage.map Usage.encode)]

end ChatGateway.Chat
