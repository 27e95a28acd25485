/-!
# Stop reasons

Why a reply ended, in the words of the Messages API, from the reason that a provider gives and from
whether a tool was called.
-/

namespace ChatGateway.Answer

inductive StopReason where
  | endTurn
  | maxTokens
  | toolUse
deriving DecidableEq, Repr

namespace StopReason

def word : StopReason → String
  | .endTurn => "end_turn"
  | .maxTokens => "max_tokens"
  | .toolUse => "tool_use"

/-- What a provider's reason means; an unknown one ends the turn. -/
def ofFinish : Option String → StopReason
  | some "length" => .maxTokens
  | some "tool_calls" => .toolUse
  | some "function_call" => .toolUse
  | _ => .endTurn

def final (finish : Option String) (calledTool : Bool) : StopReason :=
  match ofFinish finish with
  | .maxTokens => .maxTokens
  | reason => if calledTool then .toolUse else reason

end StopReason

end ChatGateway.Answer
