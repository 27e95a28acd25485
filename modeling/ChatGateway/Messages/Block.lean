import ChatGateway.Decode.Union

/-!
# Content blocks

A message of the Messages API is a text or a list of blocks. The result of a tool is a block that
holds a text or blocks again, to any depth. Blocks of a kind that is not handled keep their place as
`unsupported`.
-/

namespace ChatGateway.Messages

open Json Decode

structure ImageSource where
  kind : String
  mediaType : String
  data : String
deriving DecidableEq, Repr

mutual

inductive Block where
  | text (text : String)
  | image (source : ImageSource)
  | toolUse (id name : String) (input : Value)
  | toolResult (useId : String) (content : ResultContent) (isError : Option Bool)
  | thinking (thinking : String) (signature : Option String)
  | unsupported

inductive ResultContent where
  | absent
  | text (text : String)
  | blocks (blocks : List Block)

end

inductive Content where
  | text (text : String)
  | blocks (blocks : List Block)

def Block.text? : Block → Option String
  | .text t => some t
  | _ => none

/-- The blocks of a content; a text alone is one block. -/
def Content.toBlocks : Content → List Block
  | .text t => [.text t]
  | .blocks bs => bs

/-- The texts among the blocks, one on a line. -/
def ResultContent.plain : ResultContent → String
  | .absent => ""
  | .text t => t
  | .blocks bs => String.intercalate "\n" (bs.filterMap Block.text?)

def ImageSource.decode : Decoder ImageSource :=
  record "struct ImageSource" <| Fields.of ImageSource.mk
    |>.required "type" string
    |>.required "media_type" string
    |>.required "data" string

namespace Block

def variants : List String :=
  ["text", "image", "tool_use", "tool_result", "thinking", "Unsupported"]

def decodeText : Decoder Block :=
  record "struct variant ContentBlock::Text" <| Fields.of Block.text |>.required "text" string

def decodeImage : Decoder Block :=
  record "struct variant ContentBlock::Image" <| Fields.of Block.image
    |>.required "source" ImageSource.decode

def decodeToolUse : Decoder Block :=
  record "struct variant ContentBlock::ToolUse" <| Fields.of Block.toolUse
    |>.required "id" string
    |>.required "name" string
    |>.required "input" value

/-- The content of a tool's result. `nested` are the blocks that the document holds. -/
def decodeResultContent (nested : Option (List Block)) : Decoder ResultContent
  | _, .str t => .ok (.text t)
  | _, d =>
    match d.value?, nested with
    | none, _ => .error .malformed
    | some _, some bs => .ok (.blocks bs)
    | some _, none => .error (.noVariant "ToolResultContent")

def decodeToolResult (nested : Option (List Block)) : Decoder Block :=
  record "struct variant ContentBlock::ToolResult" <|
    Fields.of (fun id c e => Block.toolResult id (c.getD .absent) e)
      |>.required "tool_use_id" string
      |>.optional "content" (decodeResultContent nested)
      |>.optional "is_error" boolean

def decodeThinking : Decoder Block :=
  record "struct variant ContentBlock::Thinking" <| Fields.of Block.thinking
    |>.required "thinking" string
    |>.optional "signature" string

/-- A block whose result content, should it be the result of a tool, holds the blocks `nested`. -/
def decodeWith (nested : Option (List Block)) : Decoder Block := fun m d => do
  match ← tagged "ContentBlock" variants (some 5) m d with
  | (0, rest) => decodeText .copy rest
  | (1, rest) => decodeImage .copy rest
  | (2, rest) => decodeToolUse .copy rest
  | (3, rest) => decodeToolResult nested .copy rest
  | (4, rest) => decodeThinking .copy rest
  | (_, rest) =>
    noContents rest
    return .unsupported

mutual

def ofDocument : Document → Except Error Block
  | .obj members => decodeWith (inMember members) .copy (.obj members)
  | .arr items => decodeWith (inItem items) .copy (.arr items)
  | d => decodeWith none .copy d

def listOfDocument : Document → Option (List Block)
  | .arr items => ofItems items
  | _ => none

def ofItems : List Document → Option (List Block)
  | [] => some []
  | d :: ds =>
    match ofDocument d, ofItems ds with
    | .ok b, some bs => some (b :: bs)
    | _, _ => none

def inMember : List (Option String × Document) → Option (List Block)
  | [] => none
  | (k, d) :: members => if k = some "content" then listOfDocument d else inMember members

/-- The blocks in the item that stands where an array has the content of a result. -/
def inItem : List Document → Option (List Block)
  | _ :: _ :: d :: _ => listOfDocument d
  | _ => none

end

end Block

def Content.decode : Decoder Content :=
  untagged "MessageContent"
    [fun m d => (string m d).map .text,
     fun _ d => match Block.listOfDocument d with
      | some bs => .ok (.blocks bs)
      | none => .error (.noVariant "MessageContent")]

def ImageSource.encode (s : ImageSource) : Value :=
  .record [("type", some (.str s.kind)), ("media_type", some (.str s.mediaType)),
    ("data", some (.str s.data))]

namespace Block

mutual

def encode : Block → Value
  | .text t => .record [("type", some (.str "text")), ("text", some (.str t))]
  | .image s => .record [("type", some (.str "image")), ("source", some s.encode)]
  | .toolUse id name input =>
    .record [("type", some (.str "tool_use")), ("id", some (.str id)), ("name", some (.str name)),
      ("input", some input)]
  | .toolResult useId content isError =>
    .record [("type", some (.str "tool_result")), ("tool_use_id", some (.str useId)),
      ("content", encodeResult content), ("is_error", isError.map .bool)]
  | .thinking t signature =>
    .record [("type", some (.str "thinking")), ("thinking", some (.str t)),
      ("signature", signature.map .str)]
  | .unsupported => .record [("type", some (.str "Unsupported"))]

def encodeResult : ResultContent → Option Value
  | .absent => none
  | .text t => some (.str t)
  | .blocks bs => some (.arr (encodeList bs))

def encodeList : List Block → List Value
  | [] => []
  | b :: bs => encode b :: encodeList bs

end

end Block

def Content.encode : Content → Value
  | .text t => .str t
  | .blocks bs => .arr (Block.encodeList bs)

end ChatGateway.Messages
