import ChatGateway.Messages.Reply

/-!
# Events of a streamed reply

A reply is streamed as a message that opens, blocks that start, grow and stop one after the other,
and a summary. Each event has a name under which it is sent.
-/

namespace ChatGateway.Messages

open Json Decode

inductive Delta where
  | text (text : String)
  | inputJson (partialJson : String)
  | thinking (thinking : String)
  | signature (signature : String)
deriving DecidableEq, Repr

structure Ending where
  stopReason : Option String
  stopSequence : Option String
deriving DecidableEq, Repr

structure Tally where
  outputTokens : Nat
  inputTokens : Option Nat
  cacheCreation : Option Nat
  cacheRead : Option Nat
deriving DecidableEq, Repr

inductive Event where
  | messageStart (message : Reply)
  | blockStart (index : Nat) (block : ReplyBlock)
  | blockDelta (index : Nat) (delta : Delta)
  | blockStop (index : Nat)
  | messageDelta (ending : Ending) (usage : Tally)
  | messageStop
deriving DecidableEq, Repr

namespace Delta

def decodeOne (variant field : String) (make : String → Delta) : Decoder Delta :=
  record ("struct variant Delta::" ++ variant) <| Fields.of make |>.required field string

def decode : Decoder Delta := fun m d => do
  let names := ["text_delta", "input_json_delta", "thinking_delta", "signature_delta"]
  match ← tagged "Delta" names none m d with
  | (0, rest) => decodeOne "TextDelta" "text" .text .copy rest
  | (1, rest) => decodeOne "InputJsonDelta" "partial_json" .inputJson .copy rest
  | (2, rest) => decodeOne "ThinkingDelta" "thinking" .thinking .copy rest
  | (_, rest) => decodeOne "SignatureDelta" "signature" .signature .copy rest

def encode : Delta → Value
  | .text t => .record [("type", some (.str "text_delta")), ("text", some (.str t))]
  | .inputJson t =>
    .record [("type", some (.str "input_json_delta")), ("partial_json", some (.str t))]
  | .thinking t => .record [("type", some (.str "thinking_delta")), ("thinking", some (.str t))]
  | .signature t =>
    .record [("type", some (.str "signature_delta")), ("signature", some (.str t))]

end Delta

def Ending.decode : Decoder Ending :=
  record "struct MessageDeltaBody" <| Fields.of Ending.mk
    |>.optional "stop_reason" string
    |>.optional "stop_sequence" string

def Tally.decode : Decoder Tally :=
  record "struct DeltaUsage" <| Fields.of Tally.mk
    |>.required "output_tokens" u64
    |>.orElse "input_tokens" (option u64) none
    |>.orElse "cache_creation_input_tokens" (option u64) none
    |>.orElse "cache_read_input_tokens" (option u64) none

def Ending.encode (e : Ending) : Value :=
  .record [("stop_reason", e.stopReason.map .str), ("stop_sequence", e.stopSequence.map .str)]

def Tally.encode (t : Tally) : Value :=
  .record [("output_tokens", some (.ofNat t.outputTokens)),
    ("input_tokens", t.inputTokens.map .ofNat),
    ("cache_creation_input_tokens", t.cacheCreation.map .ofNat),
    ("cache_read_input_tokens", t.cacheRead.map .ofNat)]

namespace Event

def name : Event → String
  | .messageStart _ => "message_start"
  | .blockStart _ _ => "content_block_start"
  | .blockDelta _ _ => "content_block_delta"
  | .blockStop _ => "content_block_stop"
  | .messageDelta _ _ => "message_delta"
  | .messageStop => "message_stop"

def names : List String :=
  ["message_start", "content_block_start", "content_block_delta", "content_block_stop",
    "message_delta", "message_stop"]

def decodeMessageStart : Decoder Event :=
  record "struct variant StreamEvent::MessageStart" <| Fields.of Event.messageStart
    |>.required "message" Reply.decode

def decodeBlockStart : Decoder Event :=
  record "struct variant StreamEvent::ContentBlockStart" <| Fields.of Event.blockStart
    |>.required "index" usize
    |>.required "content_block" ReplyBlock.decode

def decodeBlockDelta : Decoder Event :=
  record "struct variant StreamEvent::ContentBlockDelta" <| Fields.of Event.blockDelta
    |>.required "index" usize
    |>.required "delta" Delta.decode

def decodeBlockStop : Decoder Event :=
  record "struct variant StreamEvent::ContentBlockStop" <| Fields.of Event.blockStop
    |>.required "index" usize

def decodeMessageDelta : Decoder Event :=
  record "struct variant StreamEvent::MessageDelta" <| Fields.of Event.messageDelta
    |>.required "delta" Ending.decode
    |>.required "usage" Tally.decode

def decode : Decoder Event := fun m d => do
  match ← tagged "StreamEvent" names none m d with
  | (0, rest) => decodeMessageStart .copy rest
  | (1, rest) => decodeBlockStart .copy rest
  | (2, rest) => decodeBlockDelta .copy rest
  | (3, rest) => decodeBlockStop .copy rest
  | (4, rest) => decodeMessageDelta .copy rest
  | (_, rest) =>
    noContents rest
    return .messageStop

def encode (e : Event) : Value :=
  let kind := ("type", some (Value.str e.name))
  match e with
  | .messageStart message => .record [kind, ("message", some message.encode)]
  | .blockStart index block =>
    .record [kind, ("index", some (.ofNat index)), ("content_block", some block.encode)]
  | .blockDelta index delta =>
    .record [kind, ("index", some (.ofNat index)), ("delta", some delta.encode)]
  | .blockStop index => .record [kind, ("index", some (.ofNat index))]
  | .messageDelta ending usage =>
    .record [kind, ("delta", some ending.encode), ("usage", some usage.encode)]
  | .messageStop => .record [kind]

end Event

end ChatGateway.Messages
