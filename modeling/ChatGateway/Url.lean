import ChatGateway.Url.Host
import ChatGateway.Url.Path

/-!
# Addresses

The address of a resource: a scheme, perhaps a user, a host and its port, a path, a query and a
fragment. An address is read generously and written in one form: white space around it, tabs and
line feeds are dropped, steps up and down in the path are taken, and what may not stand in a part is
written as bytes. The schemes of the web have rules of their own.
-/

namespace ChatGateway

structure Url where
  scheme : String
  user : List Char
  password : Option (List Char)
  host : Option Url.Host
  /-- The port, unless it is the usual one of the scheme. -/
  tcp : Option Nat
  path : Url.Path
  query : Option (List Char)
  fragment : Option (List Char)
deriving DecidableEq, Repr

namespace Url

open Text

def usualPort? : String → Option Nat
  | "http" | "ws" => some 80
  | "https" | "wss" => some 443
  | "ftp" => some 21
  | _ => none

/-- The schemes of the web: their addresses have a host, or are files. -/
def isSpecial (scheme : String) : Bool := (usualPort? scheme).isSome || scheme = "file"

/-- A text without control characters and spaces around it, and without tabs and line breaks. -/
def tidy (s : List Char) : List Char :=
  let outer (c : Char) : Bool := c.toNat ≤ 0x20
  let inner := ((s.dropWhile outer).reverse.dropWhile outer).reverse
  inner.filter fun c => c ≠ '\t' ∧ c ≠ '\n' ∧ c ≠ '\r'

def scheme? (s : List Char) : Option (String × List Char) :=
  let name := s.takeWhile fun c => c.isAlphanum || "+-.".toList.contains c
  match s.dropWhile fun c => c.isAlphanum || "+-.".toList.contains c with
  | ':' :: rest =>
    if name.head?.any Char.isAlpha then some (String.ofList (name.map Char.toLower), rest) else none
  | _ => none

/-- The character ends the part of an address between the slashes and the path. -/
def endsHost (special : Bool) (c : Char) : Bool := Path.isSlash special c || c = '?' || c = '#'

def cutUser (special : Bool) (s : List Char) : Option (List Char) × List Char :=
  let part := s.takeWhile (!endsHost special ·)
  let back := part.reverse.dropWhile (· ≠ '@')
  if back.isEmpty then (none, s) else (some (back.drop 1).reverse, s.drop back.length)

def cutHost (special bracketed : Bool) : List Char → List Char × List Char
  | [] => ([], [])
  | c :: s =>
    if endsHost special c || (c = ':' && !bracketed) then ([], c :: s)
    else
      let (host, rest) := cutHost special (c = '[' || (bracketed && c ≠ ']')) s
      (c :: host, rest)

def port? (scheme : String) : List Char → Option (Option Nat × List Char)
  | ':' :: s =>
    let ds := s.takeWhile Char.isDigit
    let rest := s.dropWhile Char.isDigit
    let n := ds.foldl (fun n d => n * 10 + (d.toNat - 48)) 0
    if 65535 < n || !rest.head?.all (endsHost true) then none
    else some (if ds.isEmpty || usualPort? scheme = some n then none else some n, rest)
  | s => some (none, s)

def withPath (u : Url) (path : List Char → Path) (s : List Char) : Url :=
  let isEnd (c : Char) : Bool := c = '?' || c = '#'
  let rest := s.dropWhile (!isEnd ·)
  let query := if rest.head? = some '?' then some ((rest.drop 1).takeWhile (· ≠ '#')) else none
  let fragment := if rest.contains '#' then some ((rest.dropWhile (· ≠ '#')).drop 1) else none
  { u with
    path := path (s.takeWhile (!isEnd ·))
    query := query.map (percentEncode (queryReserved (isSpecial u.scheme)))
    fragment := fragment.map (percentEncode fragmentReserved) }

def ofScheme (scheme : String) : Url := ⟨scheme, [], none, none, none, .steps [], none, none⟩

def readHost? (scheme : String) (s : List Char) : Option Url := do
  let special := isSpecial scheme
  let (named, s) := cutUser special s
  let user := (named.getD []).takeWhile (· ≠ ':')
  let password := ((named.getD []).dropWhile (· ≠ ':')).drop 1
  let (hostText, s) := cutHost special false s
  let known := !user.isEmpty || !password.isEmpty
  if hostText.isEmpty && (special || known || s.head? = some ':' ||
      (named.isSome && s.head?.any (endsHost special))) then none
  else
    let host ← Host.read special hostText
    let (tcp, s) ← port? scheme s
    let path (t : List Char) : Path := if t.isEmpty && !special then .steps [] else .ofText special t
    let u : Url :=
      { ofScheme scheme with
        user := percentEncode userReserved user
        password := if password.isEmpty then none else some (percentEncode userReserved password)
        host := some host
        tcp }
    return u.withPath path s

/-- Reads what stands behind the scheme of a file. The host may be missing, and this one has no
name. -/
def readFile? (s : List Char) : Option Url :=
  let u := { ofScheme "file" with host := some (.name []) }
  let path (t : List Char) : Path := (Path.ofText true t).dropEmpty
  match s with
  | a :: b :: t =>
    if Path.isSlash true a && Path.isSlash true b then
      let hostText := t.takeWhile (!endsHost true ·)
      let rest := t.dropWhile (!endsHost true ·)
      if hostText.isEmpty then some (u.withPath path rest)
      else
        (Host.read true hostText).map fun host =>
          let host := if host = .name "localhost".toList then .name [] else host
          { u with host := some host }.withPath path rest
    else some (u.withPath path s)
  | s => some (u.withPath path s)

def read (s : List Char) : Option Url :=
  (scheme? (tidy s)).bind fun (scheme, s) =>
    if scheme = "file" then readFile? s
    else if isSpecial scheme then readHost? scheme (s.dropWhile (Path.isSlash true))
    else
      match s with
      | '/' :: '/' :: s => readHost? scheme s
      | '/' :: s => some ((ofScheme scheme).withPath (Path.ofText false) s)
      | s => some ((ofScheme scheme).withPath (.plain ∘ percentEncode nothingReserved) s)

def hostPart (u : Url) : List Char :=
  match u.host with
  | none =>
    match u.path with
    | .steps ([] :: _ :: _) => "/.".toList
    | _ => []
  | some host =>
    let user := u.user ++ u.password.elim [] (':' :: ·)
    "//".toList ++ user ++ (if user.isEmpty then [] else ['@']) ++ host.text ++
      u.tcp.elim [] fun n => ':' :: Nat.toDigits 10 n

def text (u : Url) : String :=
  u.scheme ++ ":" ++ String.ofList (u.hostPart ++ u.path.text ++ u.query.elim [] ('?' :: ·) ++
    u.fragment.elim [] ('#' :: ·))

/-- The address without its user, who is told to the host in another way. A user whose name is no
text stays. -/
def anonymous (u : Url) : Url :=
  let password := u.password.bind fun s => decodeAll? (percentDecode s)
  match decodeAll? (percentDecode u.user) with
  | none => u
  | some name =>
    if name.isEmpty && password.isNone then u else { u with user := [], password := none }

/-- Requests can be sent to the host: its name holds no quotes and braces. -/
def isSendable (u : Url) : Bool :=
  u.host.all fun h => !h.text.any ("\"\x60\x7b\x7d".toList.contains ·)

end Url

end ChatGateway
