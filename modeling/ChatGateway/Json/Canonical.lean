import ChatGateway.Json.Value

/-!
# Canonical values

A value is canonical when the members of its objects are tables. Reading gives only canonical
values; the record of a type lists its members in its own order and `canonical` sorts them.
-/

namespace ChatGateway.Json.Value

mutual

/-- The value with the members of all objects by ascending key. -/
def canonical : Value → Value
  | .arr items => .arr (canonicalItems items)
  | .obj members => .obj (Table.ofEntries (canonicalMembers members))
  | v => v

def canonicalItems : List Value → List Value
  | [] => []
  | v :: vs => canonical v :: canonicalItems vs

def canonicalMembers : List (String × Value) → List (String × Value)
  | [] => []
  | (k, v) :: ms => (k, canonical v) :: canonicalMembers ms

end

end ChatGateway.Json.Value
