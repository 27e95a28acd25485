import ChatGateway.Decode.Error

/-!
# Decoding scalars, lists and tables
-/

namespace ChatGateway.Decode

open Json

/-- How a document is held while it is decoded: as text that is read once from left to right, as a
value whose members are sorted, as a copy set aside until its form is known, or as the contents of a
configuration file. Some refusals are worded by it. -/
inductive Medium where
  | text
  | tree
  | copy
  | file
deriving DecidableEq, Repr

abbrev Decoder (α : Type) := Medium → Document → Except Error α

/-- Decodes a text. A refusal of what is there comes before one of what follows it. -/
def ofText {α : Type} (dec : Decoder α) (s : List Char) : Except Error α := do
  let (d, ended) := Document.ofText s
  let a ← dec .text d
  if ended then .ok a else .error .malformed

def string : Decoder String
  | _, .str s => .ok s
  | _, d => mismatch d "a string"

def boolean : Decoder Bool
  | _, .bool b => .ok b
  | _, d => mismatch d "a boolean"

/-- A natural number of `bits` bits; `name` names the type in refusals. -/
def natural (bits : Nat) (name : String) : Decoder Nat
  | _, .num (.int n) =>
    if 0 ≤ n ∧ n.toNat < Nat.pow 2 bits then .ok n.toNat
    else .error (.wrongValue (.num (.int n)) name)
  | _, d => mismatch d name

def u64 : Decoder Nat := natural 64 "u64"

def u16 : Decoder Nat := natural 16 "u16"

/-- An index; it is as wide as `u64` and has its own name. -/
def usize : Decoder Nat := natural 64 "usize"

def binary64 : Decoder Number.Binary64
  | _, .num (.int n) => .ok (Number.Binary64.ofInt n)
  | _, .num (.float x) => .ok x
  | _, d => mismatch d "f64"

def value : Decoder Value
  | _, d => match d.value? with
    | some v => .ok v
    | none => .error .malformed

/-- `null` is the absence of a value. -/
def option {α : Type} (dec : Decoder α) : Decoder (Option α)
  | _, .null => .ok none
  | m, d => (dec m d).map some

def items {α : Type} (dec : Decoder α) (m : Medium) : List Document → Except Error (List α)
  | [] => .ok []
  | d :: ds => do
    let a ← dec m d
    let as ← items dec m ds
    .ok (a :: as)

def list {α : Type} (dec : Decoder α) : Decoder (List α)
  | m, .arr ds => items dec m ds
  | _, d => mismatch d "a sequence"

def entries {α : Type} (dec : Decoder α) (m : Medium) :
    List (Option String × Document) → Except Error (List (String × α))
  | [] => .ok []
  | (none, _) :: _ => .error .malformed
  | (some k, d) :: ms => do
    let a ← dec m d
    let as ← entries dec m ms
    .ok ((k, a) :: as)

def table {α : Type} (dec : Decoder α) : Decoder (Table α)
  | m, .obj ms => (entries dec m ms).map Table.ofEntries
  | _, d => mismatch d "a map"

end ChatGateway.Decode
