import ChatGateway.Config.Settings
import ChatGateway.Text.Bytes
import ChatGateway.Toml.Document

/-!
# Configuration files

Where the configuration is looked for and what becomes of the file that is found.
-/

namespace ChatGateway.Config

inductive File where
  | absent (reason : String)
  | unreadable (reason : String)
  | bytes (bytes : List UInt8)

def ofText (s : List Char) : Except Problem Config :=
  match (Toml.read s).map (decode .file) with
  | some (.ok c) => c.validate.map fun _ => c
  | _ => .error .unreadableConfig

def unreadable (path reason : String) : Problem :=
  .config ("Failed to read config file " ++ path ++ ": " ++ reason)

def load (path : String) (f : File) : Except Problem Config :=
  match f with
  | .absent reason | .unreadable reason => .error (unreadable path reason)
  | .bytes bytes =>
    match Text.decodeAll? bytes with
    | some s => ofText s
    | none => .error (unreadable path "stream did not contain valid UTF-8")

def below (directory path : String) : String :=
  if directory.isEmpty || directory.endsWith "/" then directory ++ path
  else directory ++ "/" ++ path

def searchPaths (env : Table String) : List String :=
  let home := env.get? "HOME"
  "claude-bridge.toml" ::
    (((env.get? "XDG_CONFIG_HOME").map (below · "claude-bridge/config.toml")).toList ++
      (home.map (below · ".config/claude-bridge/config.toml")).toList ++
      (home.map (below · ".claude-bridge.toml")).toList)

def isPresent : File → Bool
  | .absent _ => false
  | _ => true

/-- Loads the configuration that is asked for, or else the first that there is. -/
def find (env : Table String) (look : String → File) (asked : Option String) :
    Except Problem Config :=
  match asked with
  | some path => load path (look path)
  | none =>
    let paths := searchPaths env
    match paths.find? fun path => isPresent (look path) with
    | some path => load path (look path)
    | none =>
      .error (.config ("No config file found. Searched: " ++ String.intercalate ", " paths ++
        ". Create one from config.example.toml"))

end ChatGateway.Config
