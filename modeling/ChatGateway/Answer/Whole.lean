import ChatGateway.Answer.Arguments
import ChatGateway.Answer.StopReason
import ChatGateway.Chat.Reply
import ChatGateway.Digest.Sha256
import ChatGateway.Markup.Scan
import ChatGateway.Messages.Reply

/-!
# Answering with a whole reply

A provider's reply becomes a message: its reasoning, its text with the calls written into it, and
its native calls, in this order.
-/

namespace ChatGateway.Answer

open Markup Messages

/-- The signature of a thinking block: the digest of its text. -/
def signature (thinking : String) : String := (Digest.Sha256.ofBytes thinking.toUTF8.toList).hex

/-- A text without the white space around it is a block, unless nothing is left. -/
def textBlocks (s : List Char) : List ReplyBlock :=
  let t := Text.trim s
  if t.isEmpty then [] else [.text (String.ofList t)]

def freshCalls (cs : List Call) : Nat := cs.countP fun c => c.id?.isNone

def callBlock (tools : List Tool) (id : String) (c : Call) : ReplyBlock :=
  .toolUse id c.name (Tool.coerceArguments tools c.name c.arguments)

def segmentBlocks (supply : Supply) (tools : List Tool) : Nat → List Segment → List ReplyBlock
  | _, [] => []
  | issued, .text s :: ss => textBlocks s ++ segmentBlocks supply tools issued ss
  | issued, .calls cs :: ss =>
    (issueAll supply issued cs).map (fun (id, c) => callBlock tools id c) ++
      segmentBlocks supply tools (issued + freshCalls cs) ss

/-- The text and the calls in a content. Markup that never ends is text. -/
def contentBlocks (supply : Supply) (tools : List Tool) (content : List Char) : List ReplyBlock :=
  let d := drain tools content
  segmentBlocks supply tools 0 (d.segments ++ [.text (d.settled ++ d.held)])

def reasoningBlocks (reasoning : Option String) : List ReplyBlock :=
  match reasoning with
  | some r => if r.isEmpty then [] else [.thinking r (some (signature r))]
  | none => []

def nativeBlock (tools : List Tool) (c : Chat.ToolCall) : ReplyBlock :=
  .toolUse c.id c.name (Tool.coerceArguments tools c.name (wholeArguments c.arguments))

def messageBlocks (supply : Supply) (tools : List Tool) (m : Chat.ChoiceMessage) :
    List ReplyBlock :=
  reasoningBlocks m.reasoning ++
    contentBlocks supply tools ((m.content.getD "").toList) ++
    (m.toolCalls.getD []).map (nativeBlock tools)

def isCall : ReplyBlock → Bool
  | .toolUse _ _ _ => true
  | _ => false

def usageOf (u : Option Chat.Usage) : Usage :=
  match u with
  | none => ⟨0, 0, none, none⟩
  | some u =>
    ⟨u.promptTokens.getD 0, u.completionTokens.getD 0, u.cacheCreation, u.cachedTokens⟩

def dropIdMarks (s : List Char) : List Char :=
  if _h : "chatcmpl-".toList.isPrefixOf s then dropIdMarks (s.drop 9) else s
termination_by s.length
decreasing_by
  have h' := (List.isPrefixOf_iff_prefix.mp _h).length_le
  have h'' : "chatcmpl-".toList.length = 9 := by decide
  simp only [List.length_drop]
  omega

def messageId (id : String) : String := "msg_" ++ String.ofList (dropIdMarks id.toList)

def whole (supply : Supply) (tools : List Tool) (model : String) (r : Chat.Reply) : Reply :=
  let choice := r.choices.head?
  let blocks := choice.elim [] fun c => messageBlocks supply tools c.message
  let reason := StopReason.final (choice.bind (·.finishReason)) (blocks.any isCall)
  { id := messageId r.id
    kind := "message"
    role := "assistant"
    content := if blocks.isEmpty then [.text ""] else blocks
    model
    stopReason := some reason.word
    stopSequence := none
    usage := usageOf r.usage }

end ChatGateway.Answer
