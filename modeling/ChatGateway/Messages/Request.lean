import ChatGateway.Messages.Block

/-!
# Requests of the Messages API

A request names a model and carries a conversation. Members that it does not know are kept in
`extra`, so that a request can be written again as it came.
-/

namespace ChatGateway.Messages

open Json Decode

structure SystemBlock where
  kind : String
  text : String

inductive System where
  | text (text : String)
  | blocks (blocks : List SystemBlock)

inductive Role where
  | user
  | assistant
deriving DecidableEq, Repr

structure Message where
  role : Role
  content : Content

inductive Thinking where
  | enabled (budget : Option Nat)
  | disabled
deriving DecidableEq, Repr

structure Tool where
  name : String
  description : Option String
  inputSchema : Value
deriving DecidableEq, Repr

/-- A choice that names a tool, or one that is a word such as `auto`. -/
inductive ToolChoice where
  | specific (kind name : String)
  | general (kind : String)
deriving DecidableEq, Repr

structure Metadata where
  userId : Option String
  extra : Table Value

structure Request where
  model : String
  maxTokens : Option Nat
  messages : List Message
  system : Option System
  stream : Option Bool
  temperature : Option Number.Binary64
  topP : Option Number.Binary64
  topK : Option Nat
  tools : Option (List Tool)
  toolChoice : Option ToolChoice
  metadata : Option Metadata
  stopSequences : Option (List String)
  thinking : Option Thinking
  extra : Table Value

/-- The texts of the blocks that are texts, one on a line. -/
def System.plain : System → String
  | .text t => t
  | .blocks bs =>
    String.intercalate "\n" (bs.filterMap fun b => if b.kind = "text" then some b.text else none)

namespace Request

def isStreaming (r : Request) : Bool := r.stream.getD false

def thinkingRequested (r : Request) : Bool :=
  match r.thinking with
  | some (.enabled _) => true
  | _ => false

def thinkingBudget (r : Request) : Option Nat :=
  match r.thinking with
  | some (.enabled budget) => budget
  | _ => none

def toolList (r : Request) : List Tool := r.tools.getD []

end Request

def SystemBlock.decode : Decoder SystemBlock :=
  record "struct SystemBlock" <| Fields.of SystemBlock.mk
    |>.orElse "type" string "text"
    |>.orElse "text" string ""

def System.decode : Decoder System :=
  untagged "SystemContent"
    [fun m d => (string m d).map .text, fun m d => (list SystemBlock.decode m d).map .blocks]

def Role.decode : Decoder Role := fun m d => do
  match ← unitVariant ["user", "assistant"] m d with
  | 0 => return .user
  | _ => return .assistant

def Message.decode : Decoder Message :=
  record "struct Message" <| Fields.of Message.mk
    |>.required "role" Role.decode
    |>.required "content" Content.decode

def Thinking.decodeEnabled : Decoder Thinking :=
  record "struct variant ThinkingConfig::Enabled" <| Fields.of Thinking.enabled
    |>.orElse "budget_tokens" (option u64) none

def Thinking.decode : Decoder Thinking := fun m d => do
  match ← tagged "ThinkingConfig" ["enabled", "disabled"] none m d with
  | (0, rest) => decodeEnabled .copy rest
  | (_, rest) =>
    noContents rest
    return .disabled

def Tool.decode : Decoder Tool :=
  record "struct Tool" <| Fields.of Tool.mk
    |>.required "name" string
    |>.optional "description" string
    |>.required "input_schema" value

def ToolChoice.decodeSpecific : Decoder ToolChoice :=
  record "struct ToolChoiceSpecific" <| Fields.of ToolChoice.specific
    |>.required "type" string
    |>.required "name" string

def ToolChoice.decodeGeneral : Decoder ToolChoice :=
  record "struct ToolChoiceAuto" <| Fields.of ToolChoice.general |>.required "type" string

def ToolChoice.decode : Decoder ToolChoice :=
  untagged "ToolChoice" [decodeSpecific, decodeGeneral]

def Metadata.decode : Decoder Metadata :=
  openRecord "struct Metadata" <| Fields.of Metadata.mk |>.optional "user_id" string

def Request.decode : Decoder Request :=
  openRecord "struct MessagesRequest" <| Fields.of Request.mk
    |>.required "model" string
    |>.optional "max_tokens" u64
    |>.required "messages" (list Message.decode)
    |>.optional "system" System.decode
    |>.optional "stream" boolean
    |>.optional "temperature" binary64
    |>.optional "top_p" binary64
    |>.optional "top_k" u64
    |>.optional "tools" (list Tool.decode)
    |>.optional "tool_choice" ToolChoice.decode
    |>.optional "metadata" Metadata.decode
    |>.optional "stop_sequences" (list string)
    |>.optional "thinking" Thinking.decode

def SystemBlock.encode (b : SystemBlock) : Value :=
  .record [("type", some (.str b.kind)), ("text", some (.str b.text))]

def System.encode : System → Value
  | .text t => .str t
  | .blocks bs => .arr (bs.map SystemBlock.encode)

def Role.word : Role → String
  | .user => "user"
  | .assistant => "assistant"

def Message.encode (m : Message) : Value :=
  .record [("role", some (.str m.role.word)), ("content", some m.content.encode)]

def Thinking.encode : Thinking → Value
  | .enabled budget =>
    .record [("type", some (.str "enabled")), ("budget_tokens", budget.map .ofNat)]
  | .disabled => .record [("type", some (.str "disabled"))]

def Tool.encode (t : Tool) : Value :=
  .record [("name", some (.str t.name)), ("description", t.description.map .str),
    ("input_schema", some t.inputSchema)]

def ToolChoice.encode : ToolChoice → Value
  | .specific kind name => .record [("type", some (.str kind)), ("name", some (.str name))]
  | .general kind => .record [("type", some (.str kind))]

def Metadata.encode (m : Metadata) : Value :=
  .record (("user_id", m.userId.map .str) :: m.extra.map fun (k, v) => (k, some v))

def Request.encode (r : Request) : Value :=
  .record ([("model", some (.str r.model)), ("max_tokens", r.maxTokens.map .ofNat),
    ("messages", some (.arr (r.messages.map Message.encode))),
    ("system", r.system.map System.encode), ("stream", r.stream.map .bool),
    ("temperature", r.temperature.map .ofBinary64), ("top_p", r.topP.map .ofBinary64),
    ("top_k", r.topK.map .ofNat), ("tools", r.tools.map fun ts => .arr (ts.map Tool.encode)),
    ("tool_choice", r.toolChoice.map ToolChoice.encode),
    ("metadata", r.metadata.map Metadata.encode),
    ("stop_sequences", r.stopSequences.map fun ss => .arr (ss.map .str)),
    ("thinking", r.thinking.map Thinking.encode)] ++ r.extra.map fun (k, v) => (k, some v))

end ChatGateway.Messages
