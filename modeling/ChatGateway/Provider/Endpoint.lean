import ChatGateway.Config.Settings
import ChatGateway.Url

/-!
# Endpoints

Where the requests to a provider go and which headers go with them. An endpoint is made once for
each provider. A key that cannot be had does not stand in its way: it is each request that fails.
-/

namespace ChatGateway.Provider

structure Endpoint where
  url : String
  /-- By name, in small letters. -/
  headers : Table String
  /-- Why there is no key, though one is wanted. -/
  keyProblem : Option String
deriving DecidableEq, Repr

namespace Endpoint

def isToken (c : Char) : Bool := c.isAlphanum || "!#$%&'*+-.^_\x60|~".toList.contains c

def isHeaderName (s : String) : Bool := !s.isEmpty && s.toList.all isToken

/-- A header's value has no control characters but the tab. -/
def isHeaderValue (s : String) : Bool :=
  s.toList.all fun c => c = '\t' || (32 ≤ c.toNat && c.toNat ≠ 127)

def completionsUrl (base : String) : String :=
  String.ofList (base.toList.reverse.dropWhile (· = '/')).reverse ++ "/chat/completions"

def addHeaders (key : String) : Table String → Table String → Except Problem (Table String)
  | headers, [] => .ok headers
  | headers, (name, value) :: more =>
    if !isHeaderName name then
      .error (.config ("Invalid header name '" ++ name ++ "' for provider '" ++ key ++ "'"))
    else if !isHeaderValue value then
      .error (.config ("Invalid value for header '" ++ name.toLower ++ "' on provider '" ++ key ++
        "'"))
    else addHeaders key (headers.insert name.toLower value) more

/-- The endpoint of a provider. The headers that it wants beside the usual ones replace those. -/
def ofProvider (env : Table String) (p : Config.Provider) : Except Problem Endpoint := do
  let base ← p.address
  let usual : Table String := [("content-type", "application/json")]
  let (headers, keyProblem) ←
    match p.resolveKey env with
    | .ok none => .ok (usual, none)
    | .ok (some key) =>
      if isHeaderValue key then .ok (usual.insert "authorization" ("Bearer " ++ key), none)
      else .error (.config ("API key for provider '" ++ p.key ++ "' is not a valid header value"))
    | .error e => .ok (usual, some e.message)
  return ⟨completionsUrl base, ← addHeaders p.key headers p.extraHeaders, keyProblem⟩

def allFrom (env : Table String) :
    Table Endpoint → List Config.Provider → Except Problem (Table Endpoint)
  | pool, [] => .ok pool
  | pool, p :: ps => do
    let e ← ofProvider env p
    allFrom env (pool.insert p.key e) ps

def all (env : Table String) (c : Config) : Except Problem (Table Endpoint) :=
  allFrom env [] c.providers

def find (pool : Table Endpoint) (key : String) : Except Problem Endpoint :=
  match pool.get? key with
  | some e => .ok e
  | none => .error (.config ("No upstream client for provider '" ++ key ++ "'"))

def destination (url : String) : Except String Url :=
  match Url.read url.toList with
  | none => .error "builder error"
  | some u =>
    let u := u.anonymous
    if (u.scheme = "http" || u.scheme = "https") && u.isSendable then .ok u
    else .error ("builder error for url (" ++ u.text ++ ")")

end Endpoint

end ChatGateway.Provider
