import ChatGateway.Decode.Union

/-!
# Replies of the Messages API
-/

namespace ChatGateway.Messages

open Json Decode

inductive ReplyBlock where
  | text (text : String)
  | toolUse (id name : String) (input : Value)
  | thinking (thinking : String) (signature : Option String)
deriving DecidableEq, Repr

structure Usage where
  inputTokens : Nat
  outputTokens : Nat
  cacheCreation : Option Nat
  cacheRead : Option Nat
deriving DecidableEq, Repr

structure Reply where
  id : String
  kind : String
  role : String
  content : List ReplyBlock
  model : String
  stopReason : Option String
  stopSequence : Option String
  usage : Usage
deriving DecidableEq, Repr

structure TokenCount where
  inputTokens : Nat
deriving DecidableEq, Repr

namespace ReplyBlock

def decodeText : Decoder ReplyBlock :=
  record "struct variant ResponseContentBlock::Text" <| Fields.of ReplyBlock.text
    |>.required "text" string

def decodeToolUse : Decoder ReplyBlock :=
  record "struct variant ResponseContentBlock::ToolUse" <| Fields.of ReplyBlock.toolUse
    |>.required "id" string
    |>.required "name" string
    |>.required "input" value

def decodeThinking : Decoder ReplyBlock :=
  record "struct variant ResponseContentBlock::Thinking" <| Fields.of ReplyBlock.thinking
    |>.required "thinking" string
    |>.optional "signature" string

def decode : Decoder ReplyBlock := fun m d => do
  match ← tagged "ResponseContentBlock" ["text", "tool_use", "thinking"] none m d with
  | (0, rest) => decodeText .copy rest
  | (1, rest) => decodeToolUse .copy rest
  | (_, rest) => decodeThinking .copy rest

def encode : ReplyBlock → Value
  | .text t => .record [("type", some (.str "text")), ("text", some (.str t))]
  | .toolUse id name input =>
    .record [("type", some (.str "tool_use")), ("id", some (.str id)), ("name", some (.str name)),
      ("input", some input)]
  | .thinking t signature =>
    .record [("type", some (.str "thinking")), ("thinking", some (.str t)),
      ("signature", signature.map .str)]

end ReplyBlock

def Usage.decode : Decoder Usage :=
  record "struct Usage" <| Fields.of Usage.mk
    |>.required "input_tokens" u64
    |>.required "output_tokens" u64
    |>.optional "cache_creation_input_tokens" u64
    |>.optional "cache_read_input_tokens" u64

def Reply.decode : Decoder Reply :=
  record "struct MessagesResponse" <| Fields.of Reply.mk
    |>.required "id" string
    |>.required "type" string
    |>.required "role" string
    |>.required "content" (list ReplyBlock.decode)
    |>.required "model" string
    |>.optional "stop_reason" string
    |>.optional "stop_sequence" string
    |>.required "usage" Usage.decode

def TokenCount.decode : Decoder TokenCount :=
  record "struct CountTokensResponse" <| Fields.of TokenCount.mk |>.required "input_tokens" u64

def Usage.encode (u : Usage) : Value :=
  .record [("input_tokens", some (.ofNat u.inputTokens)),
    ("output_tokens", some (.ofNat u.outputTokens)),
    ("cache_creation_input_tokens", u.cacheCreation.map .ofNat),
    ("cache_read_input_tokens", u.cacheRead.map .ofNat)]

def Reply.encode (r : Reply) : Value :=
  .record [("id", some (.str r.id)), ("type", some (.str r.kind)), ("role", some (.str r.role)),
    ("content", some (.arr (r.content.map ReplyBlock.encode))), ("model", some (.str r.model)),
    ("stop_reason", textOrNull r.stopReason), ("stop_sequence", textOrNull r.stopSequence),
    ("usage", some r.usage.encode)]

def TokenCount.encode (c : TokenCount) : Value :=
  .record [("input_tokens", some (.ofNat c.inputTokens))]

end ChatGateway.Messages
