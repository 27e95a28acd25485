import ChatGateway.Decode.Record

/-!
# Failures as the chat completions API reports them
-/

namespace ChatGateway.Chat

open Json Decode

structure Failure where
  message : String
  kind : String
  code : Option Value
deriving DecidableEq, Repr

def decodeFailureBody : Decoder Failure :=
  record "struct ChatError" <| Fields.of Failure.mk
    |>.required "message" string
    |>.orElse "type" string ""
    |>.optional "code" value

def Failure.decode : Decoder Failure :=
  record "struct ChatErrorResponse" <| Fields.of id
    |>.required "error" decodeFailureBody

def Failure.encode (f : Failure) : Value :=
  .record [("error", some (.record [("message", some (.str f.message)),
    ("type", some (.str f.kind)), ("code", f.code)]))]

end ChatGateway.Chat
