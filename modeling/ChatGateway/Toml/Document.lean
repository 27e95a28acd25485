import ChatGateway.Toml.Value

/-!
# Configuration files

A file is a sequence of statements, each on a line of its own: an assignment to a key of the open
table, or a header, which opens a table.
-/

namespace ChatGateway.Toml

open Json

inductive Statement where
  | assign (keys : List String) (key : String) (d : Document)
  | table (path : List String) (key : String)
  | tables (path : List String) (key : String)

def statement? (s : List Char) : Option (Statement × List Char) :=
  match s with
  | '[' :: '[' :: t => do
    let (path, key, rest) ← key? t
    match rest with
    | ']' :: ']' :: rest => (lineEnd? rest).map (.tables path key, ·)
    | _ => none
  | '[' :: t => do
    let (path, key, rest) ← key? t
    match rest with
    | ']' :: rest => (lineEnd? rest).map (.table path key, ·)
    | _ => none
  | s => do
    let (keys, key, rest) ← key? s
    match rest with
    | '=' :: t =>
      let (d, rest) ← value? (t.dropWhile isBlank)
      (lineEnd? rest).map (.assign keys key d, ·)
    | _ => none

def statements? (s : List Char) : Option (List Statement) :=
  match s.dropWhile isBlank with
  | [] => some []
  | c :: t =>
    match lineEnd? (c :: t) with
    | some rest => if rest.length < s.length then statements? rest else none
    | none =>
      match statement? (c :: t) with
      | some (st, rest) =>
        if rest.length < s.length then (statements? rest).map (st :: ·) else none
      | none => none
termination_by s.length

structure Build where
  path : List String
  entries : Entries

def Build.step (b : Build) : Statement → Option Build
  | .assign keys key d =>
    (b.entries.within b.path (Entries.assign keys key d)).map fun es => ⟨b.path, es⟩
  | .table path key =>
    (b.entries.within path (Entries.openTable key)).map fun es => ⟨path ++ [key], es⟩
  | .tables path key =>
    (b.entries.within path (Entries.openTables key)).map fun es => ⟨path ++ [key], es⟩

/-- The document that a file holds. A mark may stand at its beginning. -/
def read (s : List Char) : Option Document :=
  (statements? (if s.head? = some '\ufeff' then s.drop 1 else s)).bind fun sts =>
    (sts.foldlM Build.step ⟨[], []⟩).map fun b => .obj (documents b.entries)

end ChatGateway.Toml
