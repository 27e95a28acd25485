import ChatGateway.Decode.Union

/-!
# Requests of the chat completions API
-/

namespace ChatGateway.Chat

open Json Decode

inductive Role where
  | system
  | user
  | assistant
  | tool
deriving DecidableEq, Repr

structure ImageUrl where
  url : String
  detail : Option String
deriving DecidableEq, Repr

inductive ContentPart where
  | text (text : String)
  | image (image : ImageUrl)
deriving DecidableEq, Repr

inductive Content where
  | text (text : String)
  | parts (parts : List ContentPart)
deriving DecidableEq, Repr

/-- A call of a function; its arguments are JSON text. -/
structure ToolCall where
  id : String
  kind : String
  name : String
  arguments : String
deriving DecidableEq, Repr

structure Message where
  role : Role
  content : Option Content
  toolCalls : Option (List ToolCall)
  toolCallId : Option String
  name : Option String
deriving DecidableEq, Repr

structure Tool where
  kind : String
  name : String
  description : Option String
  parameters : Value
deriving DecidableEq, Repr

inductive ToolChoice where
  | word (word : String)
  | specific (kind name : String)
deriving DecidableEq, Repr

structure Request where
  model : String
  messages : List Message
  maxTokens : Option Nat
  temperature : Option Number.Binary64
  topP : Option Number.Binary64
  stream : Option Bool
  /-- The setting of a stream that asks for the usage at its end, if there is one. -/
  includeUsage : Option Bool
  tools : Option (List Tool)
  toolChoice : Option ToolChoice
  stop : Option (List String)
  user : Option String
deriving DecidableEq, Repr

def Message.ofText (role : Role) (text : String) : Message :=
  ⟨role, some (.text text), none, none, none⟩

def Request.isStreaming (r : Request) : Bool := r.stream.getD false

def Role.word : Role → String
  | .system => "system"
  | .user => "user"
  | .assistant => "assistant"
  | .tool => "tool"

def Role.decode : Decoder Role := fun m d => do
  match ← unitVariant ["system", "user", "assistant", "tool"] m d with
  | 0 => return .system
  | 1 => return .user
  | 2 => return .assistant
  | _ => return .tool

def ImageUrl.decode : Decoder ImageUrl :=
  record "struct ImageUrlDetail" <| Fields.of ImageUrl.mk
    |>.required "url" string
    |>.optional "detail" string

namespace ContentPart

def decodeText : Decoder ContentPart :=
  record "struct variant ContentPart::Text" <| Fields.of ContentPart.text |>.required "text" string

def decodeImage : Decoder ContentPart :=
  record "struct variant ContentPart::ImageUrl" <| Fields.of ContentPart.image
    |>.required "image_url" ImageUrl.decode

def decode : Decoder ContentPart := fun m d => do
  match ← tagged "ContentPart" ["text", "image_url"] none m d with
  | (0, rest) => decodeText .copy rest
  | (_, rest) => decodeImage .copy rest

end ContentPart

def Content.decode : Decoder Content :=
  untagged "ChatContent"
    [fun m d => (string m d).map .text, fun m d => (list ContentPart.decode m d).map .parts]

def decodeCalled : Decoder (String × String) :=
  record "struct ChatToolCallFunction" <| Fields.of Prod.mk
    |>.required "name" string
    |>.orElse "arguments" string ""

def ToolCall.decode : Decoder ToolCall :=
  record "struct ChatToolCall" <|
    Fields.of (fun id kind (name, arguments) => ToolCall.mk id kind name arguments)
      |>.orElse "id" string ""
      |>.orElse "type" string "function"
      |>.required "function" decodeCalled

def Message.decode : Decoder Message :=
  record "struct ChatMessage" <| Fields.of Message.mk
    |>.required "role" Role.decode
    |>.optional "content" Content.decode
    |>.optional "tool_calls" (list ToolCall.decode)
    |>.optional "tool_call_id" string
    |>.optional "name" string

def decodeFunction : Decoder (String × Option String × Value) :=
  record "struct ChatFunction" <|
    Fields.of (fun name description parameters => (name, description, parameters))
      |>.required "name" string
      |>.optional "description" string
      |>.required "parameters" value

def Tool.decode : Decoder Tool :=
  record "struct ChatTool" <|
    Fields.of (fun kind (name, description, parameters) => Tool.mk kind name description parameters)
      |>.required "type" string
      |>.required "function" decodeFunction

def decodeChosen : Decoder String :=
  record "struct ChatToolChoiceFunction" <| Fields.of id |>.required "name" string

def ToolChoice.decodeSpecific : Decoder ToolChoice :=
  record "struct ChatToolChoiceSpecific" <| Fields.of ToolChoice.specific
    |>.required "type" string
    |>.required "function" decodeChosen

def ToolChoice.decode : Decoder ToolChoice :=
  untagged "ChatToolChoice" [fun m d => (string m d).map .word, decodeSpecific]

def decodeStreamOptions : Decoder Bool :=
  record "struct StreamOptions" <| Fields.of id
    |>.required "include_usage" boolean

def Request.decode : Decoder Request :=
  record "struct ChatCompletionRequest" <| Fields.of Request.mk
    |>.required "model" string
    |>.required "messages" (list Message.decode)
    |>.optional "max_tokens" u64
    |>.optional "temperature" binary64
    |>.optional "top_p" binary64
    |>.optional "stream" boolean
    |>.optional "stream_options" decodeStreamOptions
    |>.optional "tools" (list Tool.decode)
    |>.optional "tool_choice" ToolChoice.decode
    |>.optional "stop" (list string)
    |>.optional "user" string

def ContentPart.encode : ContentPart → Value
  | .text t => .record [("type", some (.str "text")), ("text", some (.str t))]
  | .image i =>
    .record [("type", some (.str "image_url")),
      ("image_url", some (.record [("url", some (.str i.url)), ("detail", i.detail.map .str)]))]

def Content.encode : Content → Value
  | .text t => .str t
  | .parts ps => .arr (ps.map ContentPart.encode)

def ToolCall.encode (c : ToolCall) : Value :=
  .record [("id", some (.str c.id)), ("type", some (.str c.kind)),
    ("function", some (.record [("name", some (.str c.name)),
      ("arguments", some (.str c.arguments))]))]

def Message.encode (m : Message) : Value :=
  .record [("role", some (.str m.role.word)), ("content", m.content.map Content.encode),
    ("tool_calls", m.toolCalls.map fun cs => .arr (cs.map ToolCall.encode)),
    ("tool_call_id", m.toolCallId.map .str), ("name", m.name.map .str)]

def Tool.encode (t : Tool) : Value :=
  .record [("type", some (.str t.kind)),
    ("function", some (.record [("name", some (.str t.name)),
      ("description", t.description.map .str), ("parameters", some t.parameters)]))]

def ToolChoice.encode : ToolChoice → Value
  | .word w => .str w
  | .specific kind name =>
    .record [("type", some (.str kind)), ("function", some (.record [("name", some (.str name))]))]

def Request.encode (r : Request) : Value :=
  .record [("model", some (.str r.model)),
    ("messages", some (.arr (r.messages.map Message.encode))),
    ("max_tokens", r.maxTokens.map .ofNat), ("temperature", r.temperature.map .ofBinary64),
    ("top_p", r.topP.map .ofBinary64), ("stream", r.stream.map .bool),
    ("stream_options", r.includeUsage.map fun b => .record [("include_usage", some (.bool b))]),
    ("tools", r.tools.map fun ts => .arr (ts.map Tool.encode)),
    ("tool_choice", r.toolChoice.map ToolChoice.encode),
    ("stop", r.stop.map fun ss => .arr (ss.map .str)), ("user", r.user.map .str)]

end ChatGateway.Chat
