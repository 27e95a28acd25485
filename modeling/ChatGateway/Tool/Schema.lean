import ChatGateway.Json.Value

/-!
# Schemas of tool arguments

What a JSON schema asks of a value, as far as coercion looks at it: the declared type, the schemas
of items and properties, or a list of alternatives. Whatever else a schema says asks for nothing.
-/

namespace ChatGateway.Tool

open Json

inductive Schema where
  | any
  | number
  | integer
  | boolean
  | string
  | array (items : Option Schema)
  | object (properties : List (String × Schema))
  | choice (alternatives : List Schema)

namespace Schema

/-- The declared type: a name, or the first name in a list that is not `null`. -/
def typeName (members : Table Value) : Option String :=
  match members.get? "type" with
  | some (.str t) => some t
  | some (.arr ts) =>
    (ts.filterMap fun t => match t with
      | .str s => some s
      | _ => none).find? (· ≠ "null")
  | _ => none

def simple : Option String → Schema
  | some "number" => .number
  | some "integer" => .integer
  | some "boolean" => .boolean
  | some "string" => .string
  | _ => .any

/-- A container by its declared type, else the first alternatives there are, else what the declared
type says. -/
def assemble (type : Option String) (items : Option Schema) (properties : List (String × Schema))
    (alternatives : List (Option (List Schema))) : Schema :=
  if type = some "array" then .array items
  else if type = some "object" then .object properties
  else
    match alternatives.findSome? id with
    | some ss => .choice ss
    | none => simple type

mutual

def ofValue : Value → Schema
  | .obj members =>
    assemble (typeName members) (at? "items" members) (tableAt "properties" members)
      [listAt "oneOf" members, listAt "anyOf" members, listAt "allOf" members]
  | _ => .any

def ofItems : List Value → List Schema
  | [] => []
  | v :: vs => ofValue v :: ofItems vs

def ofMembers : List (String × Value) → List (String × Schema)
  | [] => []
  | (k, v) :: ms => (k, ofValue v) :: ofMembers ms

def at? (key : String) : List (String × Value) → Option Schema
  | [] => none
  | (k, v) :: ms => if k = key then some (ofValue v) else at? key ms

def tableAt (key : String) : List (String × Value) → List (String × Schema)
  | [] => []
  | (k, .obj members) :: ms => if k = key then ofMembers members else tableAt key ms
  | (k, _) :: ms => if k = key then [] else tableAt key ms

def listAt (key : String) : List (String × Value) → Option (List Schema)
  | [] => none
  | (k, .arr items) :: ms => if k = key then some (ofItems items) else listAt key ms
  | (k, _) :: ms => if k = key then none else listAt key ms

end

/-- The schemas of the properties that a schema declares, whatever its type. -/
def properties : Value → List (String × Schema)
  | .obj members => tableAt "properties" members
  | _ => []

end Schema

end ChatGateway.Tool
