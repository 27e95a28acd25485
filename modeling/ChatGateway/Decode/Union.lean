import ChatGateway.Decode.Record

/-!
# Decoding unions

Three ways of telling the variants of a union apart: by a text that names one, by a member `type`
that stands among the others, and by trying one variant after the other.
-/

namespace ChatGateway.Decode

open Json

def variantIndex (variants : List String) (name : String) : Except Error Nat :=
  match variants.findIdx? (· == name) with
  | some i => .ok i
  | none => .error (.unknownVariant name variants)

/-- A variant without contents, given by its name alone or as the one member of an object. -/
def unitVariant (variants : List String) : Decoder Nat
  | _, .str s => variantIndex variants s
  | .text, .obj ((some k, d) :: ms) => do
    let i ← variantIndex variants k
    match d with
    | .null => if ms.isEmpty then .ok i else .error .malformed
    | d => mismatch d "unit"
  | .text, _ => .error .malformed
  | _, .obj [(some k, d)] => do
    let i ← variantIndex variants k
    match d with
    | .null => .ok i
    | d => mismatch d "unit"
  | _, .obj _ => .error (.wrongValue .map "map with a single key")
  | _, d => mismatch d "string or map"

/-- A tag: the name of a variant. In a copy a number may stand for it. Names that are not among the
variants are those of `other`, if there is one. -/
def tag (variants : List String) (other : Option Nat) : Decoder Nat
  | _, .str s =>
    match variantIndex variants s, other with
    | .error _, some i => .ok i
    | r, _ => r
  | .copy, .num (.int n) =>
    if 0 ≤ n then
      if n.toNat < variants.length then .ok n.toNat
      else
        match other with
        | some i => .ok i
        | none => .error (.wrongValue (.num (.int n))
            ("variant index 0 <= i < " ++ toString variants.length))
    else mismatch (.num (.int n)) "variant identifier"
  | _, d => mismatch d "variant identifier"

def taggedMembers (variants : List String) (other : Option Nat) (m : Medium) :
    Option Nat → List (Option String × Document) →
      Except Error (Option Nat × List (Option String × Document))
  | found, [] => .ok (found, [])
  | _, (none, _) :: _ => .error .malformed
  | found, (some k, d) :: ms =>
    if k = "type" then
      match found with
      | some _ => .error (.duplicateField k)
      | none => do
        let i ← tag variants other m d
        taggedMembers variants other m (some i) ms
    else do
      strange true d
      let (found, others) ← taggedMembers variants other m found ms
      .ok (found, (some k, d) :: others)

/-- The variant that the member `type` names, or the first item of an array, and what stands beside
it. -/
def tagged (union : String) (variants : List String) (other : Option Nat) :
    Medium → Document → Except Error (Nat × Document)
  | m, .obj ms => do
    match ← taggedMembers variants other m none ms with
    | (some i, others) => .ok (i, .obj others)
    | (none, _) => .error (.missingField "type")
  | _, .arr [] => .error (.missingField "type")
  | m, .arr (d :: ds) => do
    let i ← tag variants other m d
    if (Document.items? ds).isSome then .ok (i, .arr ds) else .error .malformed
  | _, d => mismatch d ("internally tagged enum " ++ union)

def noContents : Document → Except Error Unit
  | .arr ds =>
    if ds.isEmpty then .ok () else .error (.wrongLength ds.length "0 elements in sequence")
  | _ => .ok ()

/-- The first decoder that takes the document, which is set aside for that. -/
def untagged {α : Type} (union : String) (choices : List (Decoder α)) : Decoder α
  | _, d =>
    if d.value?.isNone then .error .malformed
    else
      match choices.findSome? fun dec => (dec .copy d).toOption with
      | some a => .ok a
      | none => .error (.noVariant union)

end ChatGateway.Decode
