import ChatGateway.Decode.Error

/-!
# Problems

What keeps a request from being answered, before a provider's answer is looked at.
-/

namespace ChatGateway

inductive Problem where
  | config (message : String)
  /-- No provider takes the model. -/
  | routing (model : String)
  /-- The provider has no name of its own for the model. -/
  | modelMapping (model provider : String)
  | provider (message : String)
  /-- What a provider answers cannot be read. -/
  | reply (message : String)
  | json (error : Decode.Error)
  /-- The text of a configuration is not in its format or does not describe one. -/
  | unreadableConfig
  | other (message : String)
deriving DecidableEq, Repr

namespace Problem

def message : Problem → String
  | .config m => "Configuration error: " ++ m
  | .routing model =>
    "No provider could be determined for model '" ++ model ++ "' based on routing rules"
  | .modelMapping model key =>
    "No model mapping for '" ++ model ++ "' on provider '" ++ key ++
      "' and no default_model configured"
  | .provider m => "Provider error: " ++ m
  | .reply m => "Translation error: " ++ m
  | .json e => "JSON error: " ++ e.message
  | .unreadableConfig => "TOML parse error"
  | .other m => m

/-- The problem shows before a provider is asked, so that none is to blame. -/
def isPreflight : Problem → Bool
  | .config _ | .routing _ | .modelMapping _ _ => true
  | _ => false

end Problem

end ChatGateway
