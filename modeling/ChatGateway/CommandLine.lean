import ChatGateway.Config.File
import ChatGateway.Number.Decimal
import ChatGateway.Server

/-!
# The command line

What the program is asked to do and how it ends, unless it serves. An option has a long name and
perhaps a short one, and a value or none. The value of an option that stands apart from it is looked
at when the next option, or the end, shows that there is no other.
-/

namespace ChatGateway.CommandLine

inductive Key where
  | config
  | host
  | tcp
  | logFile
  | showPaths
  | help
  | version
deriving DecidableEq, Repr

namespace Key

def all : List Key := [.config, .host, .tcp, .logFile, .showPaths, .help, .version]

def long : Key → String
  | .config => "config"
  | .host => "host"
  | .tcp => "port"
  | .logFile => "log-file"
  | .showPaths => "show-config-paths"
  | .help => "help"
  | .version => "version"

def short? : Key → Option Char
  | .config => some 'c'
  | .tcp => some 'p'
  | .help => some 'h'
  | .version => some 'V'
  | _ => none

def valueName? : Key → Option String
  | .config => some "CONFIG"
  | .host => some "HOST"
  | .tcp => some "PORT"
  | .logFile => some "LOG_FILE"
  | _ => none

def summary : Key → String
  | .config => "Path to config file (TOML)"
  | .host => "Address to bind (overrides config)"
  | .tcp => "Port to listen on (overrides config)"
  | .logFile => "JSONL request log path (overrides config)"
  | .showPaths => "Print config search paths and exit"
  | .help => "Print help"
  | .version => "Print version"

def label (k : Key) : String :=
  "--" ++ k.long ++ (k.valueName?.elim "" fun v => " <" ++ v ++ ">")

def ofLong? (name : String) : Option Key := all.find? (·.long = name)

def ofShort? (c : Char) : Option Key := all.find? (·.short? = some c)

end Key

inductive Misuse where
  | unexpected (argument : String)
  | valueMissing (k : Key)
  | valueUnneeded (k : Key) (value : String)
  | valueInvalid (k : Key) (value reason : String)
  | repeated (k : Key)
deriving DecidableEq, Repr

def Misuse.message : Misuse → String
  | .unexpected argument => "unexpected argument '" ++ argument ++ "' found"
  | .valueMissing k => "a value is required for '" ++ k.label ++ "' but none was supplied"
  | .valueUnneeded k value =>
    "unexpected value '" ++ value ++ "' for '" ++ k.label ++ "' found; no more were expected"
  | .valueInvalid k value reason =>
    "invalid value '" ++ value ++ "' for '" ++ k.label ++ "': " ++ reason
  | .repeated k => "the argument '" ++ k.label ++ "' cannot be used multiple times"

inductive Stop where
  | misuse (m : Misuse)
  | help
  | version
deriving DecidableEq, Repr

def readTcp (s : String) : Except String Nat :=
  let (negative, ds) := Number.splitSign s.toList
  if s.isEmpty then .error "cannot parse integer from empty string"
  else if ds.isEmpty || !ds.all Char.isDigit then .error "invalid digit found in string"
  else
    match Number.readInt64 s.toList with
    | none =>
      .error (if negative then "number too small to fit in target type"
        else "number too large to fit in target type")
    | some n =>
      if 0 ≤ n ∧ n < UInt16.size then .ok n.toNat
      else .error (toString n ++ " is not in 0..=65535")

structure State where
  given : List (Key × String)
  pending : Option (Key × Option String)

namespace State

def accept (st : State) (k : Key) (value : String) : Except Stop State :=
  if (st.given.map (·.1)).contains k then .error (.misuse (.repeated k))
  else
    match k, readTcp value with
    | .tcp, .error reason => .error (.misuse (.valueInvalid k value reason))
    | .config, _ | .logFile, _ =>
      if value.isEmpty then .error (.misuse (.valueMissing k))
      else .ok { st with given := (k, value) :: st.given }
    | _, _ => .ok { st with given := (k, value) :: st.given }

def settle (st : State) : Except Stop State :=
  match st.pending with
  | none => .ok st
  | some (k, none) => .error (.misuse (.valueMissing k))
  | some (k, some value) => accept { st with pending := none } k value

def option (st : State) (k : Key) (attached : Option String) : Except Stop State :=
  match k.valueName?, attached with
  | none, some value => .error (.misuse (.valueUnneeded k value))
  | _, _ => do
    let st ← st.settle
    match k, attached with
    | .help, _ => .error .help
    | .version, _ => .error .version
    | .showPaths, _ => st.accept k ""
    | _, some value => st.accept k value
    | _, none => .ok { st with pending := some (k, none) }

def word (st : State) (w : String) : Except Stop State :=
  match st.pending with
  | some (k, none) => .ok { st with pending := some (k, some w) }
  | _ => .error (.misuse (.unexpected w))

def longOption (st : State) (s : List Char) : Except Stop State :=
  let name := String.ofList (s.takeWhile (· ≠ '='))
  let attached :=
    if s.contains '=' then some (String.ofList ((s.dropWhile (· ≠ '=')).drop 1)) else none
  match Key.ofLong? name with
  | some k => st.option k attached
  | none => .error (.misuse (.unexpected ("--" ++ name)))

/-- Takes a short option and what is attached to it, with an equals sign or without. Options that
have no value end the reading, so that nothing follows them. -/
def shortOption (st : State) (c : Char) (s : List Char) : Except Stop State :=
  match Key.ofShort? c with
  | none => .error (.misuse (.unexpected (String.ofList ['-', c])))
  | some k =>
    let value := if s.head? = some '=' then s.drop 1 else s
    let attached := if k.valueName?.isNone || s.isEmpty then none else some (String.ofList value)
    st.option k attached

end State

def readArguments (st : State) : List String → Except Stop State
  | [] => st.settle
  | a :: as =>
    match a.toList with
    | ['-', '-'] =>
      match as with
      | [] => st.settle
      | b :: _ => .error (.misuse (.unexpected b))
    | '-' :: '-' :: s => do readArguments (← st.longOption s) as
    | '-' :: c :: s => do readArguments (← st.shortOption c s) as
    | _ => do readArguments (← st.word a) as

structure Options where
  config : Option String
  host : Option String
  tcp : Option Nat
  logFile : Option String
  showPaths : Bool
deriving DecidableEq, Repr

def State.value? (st : State) (k : Key) : Option String :=
  (st.given.find? (·.1 = k)).map (·.2)

def read (args : List String) : Except Stop Options :=
  (readArguments ⟨[], none⟩ args).map fun st =>
    { config := st.value? .config
      host := st.value? .host
      tcp := (st.value? .tcp).bind fun s => (readTcp s).toOption
      logFile := st.value? .logFile
      showPaths := (st.value? .showPaths).isSome }

def pad (width : Nat) (s : String) : String :=
  s ++ String.ofList (List.replicate (width - s.length) ' ')

def helpLine (k : Key) : String :=
  let short := k.short?.elim "    " fun c => String.ofList ['-', c, ',', ' ']
  "  " ++ short ++ pad 23 k.label ++ k.summary ++ "\n"

def helpText : String :=
  "Serve the Anthropic Messages API on top of OpenAI-compatible providers\n\n" ++
    "Usage: claude-bridge [OPTIONS]\n\nOptions:\n" ++ String.join (Key.all.map helpLine)

def override (o : Options) (c : Config) : Config :=
  { c with
    server := ⟨o.host.getD c.server.host, o.tcp.getD c.server.tcp⟩
    logging := { c.logging with file := o.logFile.getD c.logging.file } }

structure Surroundings where
  environment : Table String
  look : String → Config.File
  logRefusal? : String → Option String
  bindRefusal? : String → Option String

/-- How the program ends. It serves where nothing keeps it from it. -/
inductive Ending where
  | done (code : Nat) (output error : String)
  | serving (server : Server) (address : String)

def failed (message : String) : Ending := .done 1 "" ("Error: " ++ message ++ "\n")

def pathList (paths : List String) : String :=
  String.join ((List.range paths.length).zip paths |>.map fun (i, path) =>
    "  " ++ toString (i + 1) ++ ". " ++ path ++ "\n")

def serve (s : Surroundings) (c : Config) : Ending :=
  let address := c.server.host ++ ":" ++ toString c.server.tcp
  match s.logRefusal? c.logging.file with
  | some message => failed message
  | none =>
    match Server.ofConfig s.environment c with
    | .error p => failed p.message
    | .ok server =>
      match s.bindRefusal? address with
      | some message => failed message
      | none => .serving server address

def run (s : Surroundings) (args : List String) : Ending :=
  match read args with
  | .error .help => .done 0 helpText ""
  | .error .version => .done 0 "claude-bridge 0.1.0\n" ""
  | .error (.misuse m) => .done 2 "" ("error: " ++ m.message ++ "\n")
  | .ok o =>
    if o.showPaths then
      .done 0 ("Config search paths:\n" ++ pathList (Config.searchPaths s.environment)) ""
    else
      match Config.find s.environment s.look o.config with
      | .error p => failed p.message
      | .ok c => serve s (override o c)

end ChatGateway.CommandLine
