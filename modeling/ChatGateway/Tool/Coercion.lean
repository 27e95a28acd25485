import ChatGateway.Tool.Schema
import ChatGateway.Json.Document
import ChatGateway.Json.Print
import ChatGateway.Messages.Request
import ChatGateway.Number.Decimal
import ChatGateway.Text.Blank

/-!
# Coercion of tool arguments

Models often write `"42"` where a tool declares a number, or the text of an array where it declares
an array. `convert` turns a value into one that its schema asks for, if it can; `coerce` keeps the
value where that fails, at each place of a container on its own.
-/

namespace ChatGateway.Tool

open Json

def asString : Value → Value
  | .str s => .str s
  | v => .str v.text

def asBoolean : Value → Option Value
  | .bool b => some (.bool b)
  | .str s => some (.bool (Text.sameIgnoringCase (Text.trim s.toList) "true".toList))
  | _ => none

def asNumber : Value → Option Value
  | .num n => some (.num n)
  | .str s =>
    let t := Text.trim s.toList
    match Number.readInt64 t with
    | some i => some (.num (.int i))
    | none => (Number.readBinary64 t).map fun x => .num (.float x)
  | _ => none

def clampInt64 (n : Int) : Int :=
  let bound : Int := Number.int64Bound
  if n < -bound then -bound else if bound ≤ n then bound - 1 else n

def asInteger : Value → Option Value
  | .num (.int n) => some (.num (.int n))
  | .num (.float x) => some (.num (.int (clampInt64 x.truncate)))
  | .str s => (Number.readInt64 (Text.trim s.toList)).map fun i => .num (.int i)
  | _ => none

/-- The items of an array, or of the array that a string spells. -/
def asItems : Value → Option (List Value)
  | .arr vs => some vs
  | .str s =>
    match read s.toList with
    | some (.arr vs) => some vs
    | _ => none
  | _ => none

/-- The members of an object, or of the object that a string spells. -/
def asMembers : Value → Option (List (String × Value))
  | .obj ms => some ms
  | .str s =>
    match read s.toList with
    | some (.obj ms) => some ms
    | _ => none
  | _ => none

def meansNull : Value → Bool
  | .null => true
  | .str s => Text.sameIgnoringCase s.toList "null".toList
  | _ => false

mutual

def convert (s : Schema) (v : Value) : Option Value :=
  if meansNull v then some .null
  else
    match s with
    | .any => some v
    | .number => asNumber v
    | .integer => asInteger v
    | .boolean => asBoolean v
    | .string => some (asString v)
    | .array none => (asItems v).map .arr
    | .array (some item) => (asItems v).map fun vs => .arr (vs.map fun w => (convert item w).getD w)
    | .object ps => (asMembers v).map fun ms => .obj (ms.map fun (k, w) => (k, coerceMember ps k w))
    | .choice ss => convertFirst ss v

/-- The value as the first schema that it can be converted to asks for it. -/
def convertFirst : List Schema → Value → Option Value
  | [], _ => none
  | s :: ss, v =>
    match convert s v with
    | some w => some w
    | none => convertFirst ss v

def coerceMember : List (String × Schema) → String → Value → Value
  | [], _, v => v
  | (k, s) :: ps, key, v => if k = key then (convert s v).getD v else coerceMember ps key v

end

def coerce (s : Schema) (v : Value) : Value := (convert s v).getD v

def findSchema (tools : List Messages.Tool) (name : String) : Option Value :=
  (tools.find? fun t => t.name = name).map fun t => t.inputSchema

/-- The arguments of a call, those coerced that the tool declares. -/
def coerceArguments (tools : List Messages.Tool) (name : String) (args : Value) : Value :=
  match findSchema tools name, args with
  | some schema, .obj ms =>
    .obj (ms.map fun (k, v) => (k, coerceMember (Schema.properties schema) k v))
  | _, _ => args

end ChatGateway.Tool
