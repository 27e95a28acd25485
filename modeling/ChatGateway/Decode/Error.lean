import ChatGateway.Json.Document
import ChatGateway.Number.Shortest
import ChatGateway.Text.Printable

/-!
# Why a document is refused

A document may fail to be a value of some type. The causes are data; `Error.message` words them.
-/

namespace ChatGateway.Decode

open Json

inductive Found where
  | null
  | bool (b : Bool)
  | num (n : Number)
  | str (s : String)
  | sequence
  | map
deriving DecidableEq, Repr

inductive Error where
  | wrongType (found : Found) (expected : String)
  | wrongValue (found : Found) (expected : String)
  | wrongLength (length : Nat) (expected : String)
  | missingField (name : String)
  | duplicateField (name : String)
  | unknownVariant (name : String) (variants : List String)
  | noVariant (union : String)
  /-- The text is not JSON, or not within the limits of what is read. -/
  | malformed
deriving DecidableEq, Repr

def Found.text : Found → String
  | .null => "null"
  | .bool b => "boolean " ++ "\x60" ++ (if b then "true" else "false") ++ "\x60"
  | .num (.int n) => "integer " ++ "\x60" ++ toString n ++ "\x60"
  | .num (.float x) => "floating point " ++ "\x60" ++ x.text ++ "\x60"
  | .str s => "string " ++ Text.displayQuoted s
  | .sequence => "sequence"
  | .map => "map"

def tick (s : String) : String := "\x60" ++ s ++ "\x60"

def variantList : List String → String
  | [] => "there are no variants"
  | [a] => "expected " ++ tick a
  | [a, b] => "expected " ++ tick a ++ " or " ++ tick b
  | vs => "expected one of " ++ String.intercalate ", " (vs.map tick)

def Error.message : Error → String
  | .wrongType f e => "invalid type: " ++ f.text ++ ", expected " ++ e
  | .wrongValue f e => "invalid value: " ++ f.text ++ ", expected " ++ e
  | .wrongLength n e => "invalid length " ++ toString n ++ ", expected " ++ e
  | .missingField name => "missing field " ++ tick name
  | .duplicateField name => "duplicate field " ++ tick name
  | .unknownVariant name vs => "unknown variant " ++ tick name ++ ", " ++ variantList vs
  | .noVariant union => "data did not match any variant of untagged enum " ++ union
  | .malformed => "<json syntax error>"

/-- A refusal because of what a document is; one that has no value is malformed whatever was
expected. -/
def mismatch {α : Type} (d : Document) (expected : String) : Except Error α :=
  match d with
  | .null => .error (.wrongType .null expected)
  | .bool b => .error (.wrongType (.bool b) expected)
  | .num n => .error (.wrongType (.num n) expected)
  | .str s => .error (.wrongType (.str s) expected)
  | .arr _ => .error (.wrongType .sequence expected)
  | .obj _ => .error (.wrongType .map expected)
  | .void | .broken => .error .malformed

end ChatGateway.Decode
