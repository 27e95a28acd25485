import ChatGateway.CommandLine

/-!
# The program

Reads the arguments, the environment and the files that matter, and ends as the library says. There
is no network: where the program would listen it is refused.
-/

namespace ChatGateway.Program

def cause? : IO.Error → Option (UInt32 × String)
  | .permissionDenied _ code details | .inappropriateType _ code details
  | .noFileOrDirectory _ code details | .invalidArgument _ code details
  | .alreadyExists _ code details | .resourceExhausted _ code details => some (code, details)
  | _ => none

def reason (e : IO.Error) : String :=
  match cause? e with
  | some (code, details) => details ++ " (os error " ++ toString code ++ ")"
  | none => toString e

/-- The path leads nowhere: a part of it is missing, no directory, too long or a loop. -/
def leadsNowhere (e : IO.Error) : Bool :=
  (cause? e).any fun (code, _) => [2, 20, 36, 40].contains code

def environment : IO (Table String) := do
  let bytes ← IO.FS.readBinFile "/proc/self/environ"
  let entry (s : List Char) : String × String :=
    (String.ofList (s.takeWhile (· ≠ '=')), String.ofList ((s.dropWhile (· ≠ '=')).drop 1))
  let texts := (Text.decodeLossy bytes.toList).splitOn (Char.ofNat 0)
  return Table.ofEntries (texts.map entry)

def lookAt (path : String) : IO Config.File := do
  try
    return .bytes (← IO.FS.readBinFile path).toList
  catch e =>
    return if leadsNowhere e then .absent (reason e) else .unreadable (reason e)

/-- Why a log cannot be written to a path. The directories on the way are made first. -/
def tryLog (path : String) : IO (Option String) := do
  let directory := String.ofList ((path.toList.reverse.dropWhile (· ≠ '/')).drop 1).reverse
  try
    if !directory.isEmpty then IO.FS.createDirAll directory
    let _ ← IO.FS.Handle.mk path .append
    return none
  catch e => return some (reason e)

def surroundings (args : List String) : IO CommandLine.Surroundings := do
  let env ← environment
  let asked := (CommandLine.read args).toOption
  let paths := ((asked.bind (·.config)).toList) ++ Config.searchPaths env
  let files ← paths.mapM fun path => return (path, ← lookAt path)
  let look (path : String) : Config.File := ((files.find? (·.1 = path)).map (·.2)).getD (.absent "")
  let config := (asked.bind fun o =>
    (Config.find env look o.config).toOption.map (CommandLine.override o))
  let refusal ← match config with
    | some c => tryLog c.logging.file
    | none => pure none
  return ⟨env, look, fun _ => refusal, fun _ => some "Operation not supported (os error 95)"⟩

end ChatGateway.Program

open ChatGateway in
def main (args : List String) : IO UInt32 := do
  match CommandLine.run (← Program.surroundings args) args with
  | .done code output error =>
    IO.print output
    IO.eprint error
    return code.toUInt32
  | .serving _ _ => return 0
