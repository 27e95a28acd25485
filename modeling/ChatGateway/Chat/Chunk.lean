import ChatGateway.Chat.Reply

/-!
# Chunks of a streamed chat completion

A chunk adds to what the choices have said. The calls of tools come in fragments: each belongs to a
slot, and the first of a slot gives the id and the name.
-/

namespace ChatGateway.Chat

open Json Decode

structure CallFragment where
  index : Nat
  id : Option String
  kind : Option String
  /-- The name and the arguments, if there is something about the function. -/
  function : Option (Option String × Option String)
deriving DecidableEq, Repr

structure ChunkDelta where
  role : Option String
  content : Option String
  reasoning : Option String
  toolCalls : Option (List CallFragment)
deriving DecidableEq, Repr

structure ChunkChoice where
  index : Nat
  delta : ChunkDelta
  finishReason : Option String
deriving DecidableEq, Repr

structure Chunk where
  id : String
  object : String
  created : Nat
  model : String
  choices : List ChunkChoice
  usage : Option Usage
deriving DecidableEq, Repr

namespace CallFragment

def name? (f : CallFragment) : Option String := f.function.bind (·.1)

def arguments? (f : CallFragment) : Option String := f.function.bind (·.2)

end CallFragment

def ChunkDelta.none : ChunkDelta := ⟨.none, .none, .none, .none⟩

def Chunk.ofDelta (delta : ChunkDelta) : Chunk := ⟨"", "", 0, "", [⟨0, delta, none⟩], none⟩

def decodeFunctionFragment : Decoder (Option String × Option String) :=
  record "struct ChunkToolCallFunction" <| Fields.of Prod.mk
    |>.optional "name" string
    |>.optional "arguments" string

def CallFragment.decode : Decoder CallFragment :=
  record "struct ChunkToolCall" <| Fields.of CallFragment.mk
    |>.orElse "index" u64 0
    |>.optional "id" string
    |>.optional "type" string
    |>.optional "function" decodeFunctionFragment

def ChunkDelta.decode : Decoder ChunkDelta :=
  record "struct ChunkDelta" <| Fields.of ChunkDelta.mk
    |>.optional "role" string
    |>.optional "content" string
    |>.optional "reasoning_content" string
    |>.optional "tool_calls" (list CallFragment.decode)

def ChunkChoice.decode : Decoder ChunkChoice :=
  record "struct ChunkChoice" <| Fields.of ChunkChoice.mk
    |>.orElse "index" u64 0
    |>.orElse "delta" ChunkDelta.decode .none
    |>.optional "finish_reason" string

def Chunk.decode : Decoder Chunk :=
  record "struct ChatCompletionChunk" <| Fields.of Chunk.mk
    |>.orElse "id" string ""
    |>.orElse "object" string ""
    |>.orElse "created" u64 0
    |>.orElse "model" string ""
    |>.orElse "choices" (list ChunkChoice.decode) []
    |>.optional "usage" Usage.decode

def CallFragment.encode (f : CallFragment) : Value :=
  .record [("index", some (.ofNat f.index)), ("id", f.id.map .str), ("type", f.kind.map .str),
    ("function", f.function.map fun (name, arguments) =>
      .record [("name", name.map .str), ("arguments", arguments.map .str)])]

def ChunkDelta.encode (c : ChunkDelta) : Value :=
  .record [("role", c.role.map .str), ("content", c.content.map .str),
    ("reasoning_content", c.reasoning.map .str),
    ("tool_calls", c.toolCalls.map fun fs => .arr (fs.map CallFragment.encode))]

def ChunkChoice.encode (c : ChunkChoice) : Value :=
  .record [("index", some (.ofNat c.index)), ("delta", some c.delta.encode),
    ("finish_reason", textOrNull c.finishReason)]

def Chunk.encode (c : Chunk) : Value :=
  .record [("id", some (.str c.id)), ("object", some (.str c.object)),
    ("created", some (.ofNat c.created)), ("model", some (.str c.model)),
    ("choices", some (.arr (c.choices.map ChunkChoice.encode))),
    ("usage", c.usage.map Usage.encode)]

end ChatGateway.Chat
