import ChatGateway.Tool.Coercion

/-!
# Arguments of native calls

A provider sends the arguments of a call as text: JSON, or a JSON string that holds JSON. Text that
is neither is handed on inside an object that says so.
-/

namespace ChatGateway.Answer

open Json

/-- Stands for arguments that cannot be read. -/
def unreadable (raw : List Char) : Value :=
  .obj [("error", .str "Failed to decode arguments"), ("raw", .str (String.ofList raw))]

def readQuoted (s : List Char) : Option Value :=
  match read s with
  | some (.str inner) => read inner.toList
  | _ => none

def wholeArguments (text : String) : Value :=
  let raw := Text.trim text.toList
  if raw.isEmpty then .obj []
  else
    match read raw with
    | some (.str inner) => (read inner.toList).getD (.str inner)
    | some v => v
    | none => unreadable raw

/-- The value that the collected text of a streamed call spells. Text that begins with a quote is
first taken for a JSON string that holds JSON. -/
def readStreamed (text : List Char) : Option Value :=
  let raw := Text.trim text
  if text.head? = some '"' then (readQuoted raw).or (read raw) else (read raw).or (readQuoted raw)

def streamedArguments (tools : List Messages.Tool) (name : String) (text : List Char) : String :=
  let raw := Text.trim text
  if raw.isEmpty then "\x7b\x7d"
  else
    match readStreamed text with
    | some v => (Tool.coerceArguments tools name v).text
    | none => (unreadable raw).text

end ChatGateway.Answer
