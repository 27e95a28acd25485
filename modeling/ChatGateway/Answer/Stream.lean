import ChatGateway.Answer.Whole
import ChatGateway.Chat.Chunk
import ChatGateway.Messages.Event

/-!
# Answering with a stream

Chunks of a provider become events. At most one block is open; blocks are numbered as they start,
and what starts a block closes the one before. Text that may be markup waits in a buffer until it is
certain what it is, and goes out as text in front of any other block.
-/

namespace ChatGateway.Answer.Stream

open Markup Messages

structure Setting where
  messageId : String
  model : String
  tools : List Tool
  supply : Supply

/-- The open block, with what its end needs. -/
inductive OpenBlock where
  | text
  | thinking (said : List Char)
  | toolUse (slot : Nat) (id name : String) (arguments : List Char)
deriving DecidableEq, Repr

structure State where
  started : Bool
  finished : Bool
  nextIndex : Nat
  block : Option (Nat × OpenBlock)
  buffer : List Char
  usage : Usage
  finishReason : Option String
  calledTool : Bool
  issued : Nat
deriving DecidableEq, Repr

def initial : State := ⟨false, false, 0, none, [], ⟨0, 0, none, none⟩, none, false, 0⟩

/-- A step of the stream: the events it emits and the state after it. -/
abbrev Emit := State → List Event × State

def Emit.nothing : Emit := fun s => ([], s)

def Emit.change (f : State → State) : Emit := fun s => ([], f s)

def Emit.andThen (f g : Emit) : Emit := fun s => ((f s).1 ++ (g (f s).2).1, (g (f s).2).2)

def Emit.each {α : Type} (f : α → Emit) : List α → Emit
  | [] => nothing
  | a :: as => (f a).andThen (each f as)

def start (c : Setting) : Emit := fun s =>
  if s.started then ([], s)
  else
    ([.messageStart
      ⟨c.messageId, "message", "assistant", [], c.model, none, none, ⟨0, 0, none, none⟩⟩],
      { s with started := true })

def lastDeltas (c : Setting) (index : Nat) : OpenBlock → List Event
  | .text => []
  | .thinking said => [.blockDelta index (.signature (signature (String.ofList said)))]
  | .toolUse _ _ name arguments =>
    [.blockDelta index (.inputJson (streamedArguments c.tools name arguments))]

def closeBlock (c : Setting) : Emit := fun s =>
  match s.block with
  | none => ([], s)
  | some (index, b) => (lastDeltas c index b ++ [.blockStop index], { s with block := none })

def OpenBlock.shown : OpenBlock → ReplyBlock
  | .text => .text ""
  | .thinking _ => .thinking "" none
  | .toolUse _ id name _ => .toolUse id name (.obj [])

def openBlock (b : OpenBlock) : Emit := fun s =>
  ([.blockStart s.nextIndex b.shown],
    { s with block := some (s.nextIndex, b), nextIndex := s.nextIndex + 1 })

def replaceBlock (c : Setting) (b : OpenBlock) : Emit := (closeBlock c).andThen (openBlock b)

def needText (c : Setting) : Emit := fun s =>
  match s.block with
  | some (_, .text) => ([], s)
  | _ => replaceBlock c .text s

def needThinking (c : Setting) : Emit := fun s =>
  match s.block with
  | some (_, .thinking _) => ([], s)
  | _ => replaceBlock c (.thinking []) s

def addText (t : List Char) : Emit := fun s =>
  match s.block with
  | some (index, .text) => ([.blockDelta index (.text (String.ofList t))], s)
  | _ => ([], s)

def addThinking (t : List Char) : Emit := fun s =>
  match s.block with
  | some (index, .thinking said) =>
    ([.blockDelta index (.thinking (String.ofList t))],
      { s with block := some (index, .thinking (said ++ t)) })
  | _ => ([], s)

def say (c : Setting) (t : List Char) : Emit :=
  if t.isEmpty then .nothing else (needText c).andThen (addText t)

def flush (c : Setting) : Emit := fun s => say c s.buffer { s with buffer := [] }

def think (c : Setting) (t : List Char) : Emit :=
  if t.isEmpty then .nothing
  else (flush c).andThen ((needThinking c).andThen (addThinking t))

def embedded (c : Setting) (call : Call) : Emit :=
  (closeBlock c).andThen fun s =>
    let (id, issued) := call.issue c.supply s.issued
    let input := (Tool.coerceArguments c.tools call.name call.arguments).text
    ([.blockStart s.nextIndex (.toolUse id call.name (.obj [])),
        .blockDelta s.nextIndex (.inputJson input), .blockStop s.nextIndex],
      { s with nextIndex := s.nextIndex + 1, calledTool := true, issued })

def segment (c : Setting) : Segment → Emit
  | .text t => say c t
  | .calls cs => .each (embedded c) cs

/-- Emits what is certain in the buffer and keeps the rest. -/
def settle (c : Setting) : Emit := fun s =>
  let d := drain c.tools s.buffer
  (Emit.each (segment c) d.segments).andThen (say c d.settled) { s with buffer := d.held }

def continuesCall (s : State) (slot : Nat) (id : String) : Bool :=
  match s.block with
  | some (_, .toolUse slot' id' _ _) => slot' == slot && id' == id
  | _ => false

def beginCall (c : Setting) (slot : Nat) (id name : String) : Emit := fun s =>
  if continuesCall s slot id then ([], s)
  else
    ((flush c).andThen (replaceBlock c (.toolUse slot id name []))).andThen
      (.change fun s => { s with calledTool := true }) s

def addArguments (slot : Nat) (text : List Char) : Emit := .change fun s =>
  match s.block with
  | some (index, .toolUse slot' id name arguments) =>
    if slot' = slot then
      { s with block := some (index, .toolUse slot' id name (arguments ++ text)) }
    else s
  | _ => s

def filled (s : Option String) : Option String := s.filter fun t => !t.isEmpty

def callHeader (c : Setting) (f : Chat.CallFragment) : Emit :=
  match f.id, filled f.name? with
  | some id, some name => beginCall c f.index id name
  | _, _ => .nothing

def fragment (c : Setting) (f : Chat.CallFragment) : Emit :=
  (callHeader c f).andThen (addArguments f.index ((f.arguments?.getD "").toList))

/-- A call takes no further arguments once text follows it. -/
def leaveCall (c : Setting) : Emit := fun s =>
  match s.block with
  | some (_, .toolUse _ _ _ _) => closeBlock c s
  | _ => ([], s)

def content (c : Setting) (t : List Char) : Emit :=
  if t.isEmpty then .nothing
  else
    (leaveCall c).andThen
      ((Emit.change fun s => { s with buffer := s.buffer ++ t }).andThen (settle c))

/-- What a chunk counts replaces what was counted before. -/
def record (u : Chat.Usage) (s : State) : State :=
  { s with usage :=
    { inputTokens := u.promptTokens.getD s.usage.inputTokens
      outputTokens := u.completionTokens.getD s.usage.outputTokens
      cacheCreation := u.cacheCreation.or s.usage.cacheCreation
      cacheRead := u.cachedTokens.or s.usage.cacheRead } }

def choice (c : Setting) (k : Chat.ChunkChoice) : Emit :=
  (Emit.change fun s => { s with finishReason := k.finishReason.or s.finishReason }).andThen
    ((think c ((k.delta.reasoning.getD "").toList)).andThen
      ((Emit.each (fragment c) (k.delta.toolCalls.getD [])).andThen
        (content c ((k.delta.content.getD "").toList))))

/-- Takes a chunk. Only the first choice counts, and nothing does once the stream is finished. -/
def chunk (c : Setting) (k : Chat.Chunk) : Emit := fun s =>
  if s.finished then ([], s)
  else
    ((start c).andThen
      ((Emit.change fun s => k.usage.elim s (record · s)).andThen
        (k.choices.head?.elim .nothing (choice c)))) s

def closing (s : State) : List Event :=
  [.messageDelta ⟨some (StopReason.final s.finishReason s.calledTool).word, none⟩
      ⟨s.usage.outputTokens, some s.usage.inputTokens, s.usage.cacheCreation, s.usage.cacheRead⟩,
    .messageStop]

def finish (c : Setting) : Emit := fun s =>
  if s.finished then ([], s)
  else
    ((start c).andThen ((settle c).andThen ((flush c).andThen ((closeBlock c).andThen
      fun s => (closing s, s))))) { s with finished := true }

end ChatGateway.Answer.Stream
