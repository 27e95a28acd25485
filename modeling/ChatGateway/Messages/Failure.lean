import ChatGateway.Decode.Record

/-!
# Failures as the Messages API reports them
-/

namespace ChatGateway.Messages

open Json Decode

structure FailureBody where
  kind : String
  message : String
deriving DecidableEq, Repr

structure Failure where
  kind : String
  error : FailureBody
deriving DecidableEq, Repr

namespace Failure

def of (kind message : String) : Failure := ⟨"error", ⟨kind, message⟩⟩

def invalidRequest (message : String) : Failure := of "invalid_request_error" message

def notFound (message : String) : Failure := of "not_found_error" message

def apiError (message : String) : Failure := of "api_error" message

end Failure

def FailureBody.decode : Decoder FailureBody :=
  record "struct ErrorBody" <| Fields.of FailureBody.mk
    |>.required "type" string
    |>.required "message" string

def Failure.decode : Decoder Failure :=
  record "struct ErrorResponse" <| Fields.of Failure.mk
    |>.required "type" string
    |>.required "error" FailureBody.decode

def Failure.encode (f : Failure) : Value :=
  .record [("type", some (.str f.kind)),
    ("error", some (.record [("type", some (.str f.error.kind)),
      ("message", some (.str f.error.message))]))]

end ChatGateway.Messages
