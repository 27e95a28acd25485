import ChatGateway.Chat.Failure
import ChatGateway.Messages.Failure

/-!
# Failures of a provider, as they are passed on
-/

namespace ChatGateway.Answer

def failureKind (kind : String) : String :=
  match kind with
  | "invalid_request_error" => "invalid_request_error"
  | "authentication_error" => "authentication_error"
  | "invalid_api_key" => "authentication_error"
  | "permission_error" => "permission_error"
  | "not_found_error" => "not_found_error"
  | "rate_limit_error" => "rate_limit_error"
  | "rate_limit_exceeded" => "rate_limit_error"
  | _ => "api_error"

def ofChatFailure (f : Chat.Failure) : Messages.Failure :=
  .of (failureKind f.kind) f.message

def failureKindOfStatus (status : Nat) : String :=
  match status with
  | 400 => "invalid_request_error"
  | 422 => "invalid_request_error"
  | 401 => "authentication_error"
  | 403 => "permission_error"
  | 404 => "not_found_error"
  | 429 => "rate_limit_error"
  | 503 => "overloaded_error"
  | 529 => "overloaded_error"
  | _ => "api_error"

end ChatGateway.Answer
