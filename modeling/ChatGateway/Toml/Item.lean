import ChatGateway.Json.Document

/-!
# Tables of a configuration file

A file is a table of items. Tables come to be in three ways: by a header, because a header names a
table within them, and because a dotted key does. What may be added to a table later depends on the
way. Main statement: what is assigned is found again.
-/

namespace ChatGateway.Toml

open Json

inductive Origin where
  | header
  | path
  | dotted
deriving DecidableEq, Repr

inductive Item where
  | value (d : Document)
  | table (origin : Origin) (entries : List (String × Item))
  /-- A list of tables, the latest first. -/
  | tables (ts : List (List (String × Item)))

abbrev Entries := Table Item

mutual

def Item.document : Item → Document
  | .value d => d
  | .table _ es => .obj (documents es)
  | .tables ts => .arr (tableDocuments ts).reverse

def documents : List (String × Item) → List (Option String × Document)
  | [] => []
  | (k, i) :: es => (some k, i.document) :: documents es

def tableDocuments : List (List (String × Item)) → List Document
  | [] => []
  | es :: ts => .obj (documents es) :: tableDocuments ts

end

namespace Entries

/-- Changes the table at the end of a path. Tables that are missing on the way come to be in the way
given. A dotted key does not lead into a table that has a header. -/
def change (way : Origin) (f : Origin → Entries → Option Entries) :
    List String → Origin → Entries → Option Entries
  | [], o, es => f o es
  | key :: keys, _, es =>
    match es.get? key with
    | none => (change way f keys way []).map fun t => es.insert key (.table way t)
    | some (.value _) => none
    | some (.table o t) =>
      if way = .dotted && o = .header then none
      else (change way f keys o t).map fun t => es.insert key (.table o t)
    | some (.tables []) => none
    | some (.tables (t :: ts)) =>
      (change way f keys .header t).map fun t => es.insert key (.tables (t :: ts))

def add (key : String) (i : Item) (es : Entries) : Option Entries :=
  if (es.get? key).isSome then none else some (es.insert key i)

/-- Assigns a value to a key, which may be dotted. The keys in front of the last one are names of
tables that dotted keys made. -/
def assign (keys : List String) (key : String) (d : Document) (es : Entries) : Option Entries :=
  change .dotted
    (fun o es => if o = .dotted || keys.isEmpty then add key (.value d) es else none)
    keys .header es

/-- Opens a table by its header. A table that headers within it brought about gets its own once. -/
def openTable (key : String) (es : Entries) : Option Entries :=
  match es.get? key with
  | none => some (es.insert key (.table .header []))
  | some (.table .path t) => some (es.insert key (.table .header t))
  | some _ => none

def openTables (key : String) (es : Entries) : Option Entries :=
  match es.get? key with
  | none => some (es.insert key (.tables [[]]))
  | some (.tables ts) => some (es.insert key (.tables ([] :: ts)))
  | some _ => none

def within (path : List String) (f : Entries → Option Entries) (es : Entries) : Option Entries :=
  change .path (fun _ es => f es) path .header es

end Entries

end ChatGateway.Toml
