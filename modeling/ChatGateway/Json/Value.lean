import ChatGateway.Number.Binary64
import ChatGateway.Table

/-!
# JSON values

A value is what a JSON text means: the members of an object are a table, and a number is a whole
number of 64 bits or a binary64 number.
-/

namespace ChatGateway.Json

/-- A number is whole or has a fraction; `1` and `1.0` differ. -/
inductive Number where
  | int (n : Int)
  | float (x : Number.Binary64)
deriving DecidableEq, Repr

inductive Value where
  | null
  | bool (b : Bool)
  | num (n : Number)
  | str (s : String)
  | arr (items : List Value)
  | obj (members : List (String × Value))
deriving Repr, Inhabited

namespace Value

mutual

def decEq : (v w : Value) → Decidable (v = w)
  | .null, .null => isTrue rfl
  | .bool a, .bool b =>
    if h : a = b then isTrue (h ▸ rfl) else isFalse fun e => h (Value.bool.inj e)
  | .num a, .num b => if h : a = b then isTrue (h ▸ rfl) else isFalse fun e => h (Value.num.inj e)
  | .str a, .str b => if h : a = b then isTrue (h ▸ rfl) else isFalse fun e => h (Value.str.inj e)
  | .arr a, .arr b =>
    match decEqItems a b with
    | isTrue h => isTrue (h ▸ rfl)
    | isFalse h => isFalse fun e => h (Value.arr.inj e)
  | .obj a, .obj b =>
    match decEqMembers a b with
    | isTrue h => isTrue (h ▸ rfl)
    | isFalse h => isFalse fun e => h (Value.obj.inj e)
  | .null, .bool _ | .null, .num _ | .null, .str _ | .null, .arr _ | .null, .obj _
  | .bool _, .null | .bool _, .num _ | .bool _, .str _ | .bool _, .arr _ | .bool _, .obj _
  | .num _, .null | .num _, .bool _ | .num _, .str _ | .num _, .arr _ | .num _, .obj _
  | .str _, .null | .str _, .bool _ | .str _, .num _ | .str _, .arr _ | .str _, .obj _
  | .arr _, .null | .arr _, .bool _ | .arr _, .num _ | .arr _, .str _ | .arr _, .obj _
  | .obj _, .null | .obj _, .bool _ | .obj _, .num _ | .obj _, .str _ | .obj _, .arr _ =>
    isFalse fun e => by cases e

def decEqItems : (a b : List Value) → Decidable (a = b)
  | [], [] => isTrue rfl
  | [], _ :: _ => isFalse fun e => by cases e
  | _ :: _, [] => isFalse fun e => by cases e
  | v :: a, w :: b =>
    match decEq v w, decEqItems a b with
    | isTrue h, isTrue g => isTrue (h ▸ g ▸ rfl)
    | isFalse h, _ => isFalse fun e => h (List.cons.inj e).1
    | _, isFalse g => isFalse fun e => g (List.cons.inj e).2

def decEqMembers : (a b : List (String × Value)) → Decidable (a = b)
  | [], [] => isTrue rfl
  | [], _ :: _ => isFalse fun e => by cases e
  | _ :: _, [] => isFalse fun e => by cases e
  | (k, v) :: a, (l, w) :: b =>
    if hk : k = l then
      match decEq v w, decEqMembers a b with
      | isTrue h, isTrue g => isTrue (hk ▸ h ▸ g ▸ rfl)
      | isFalse h, _ => isFalse fun e => h (Prod.mk.inj (List.cons.inj e).1).2
      | _, isFalse g => isFalse fun e => g (List.cons.inj e).2
    else isFalse fun e => hk (Prod.mk.inj (List.cons.inj e).1).1

end

instance : DecidableEq Value := decEq

def ofNat (n : Nat) : Value := .num (.int n)

def ofBinary64 (x : Number.Binary64) : Value := .num (.float x)

def ofMembers (members : List (String × Value)) : Value := .obj (Table.ofEntries members)

/-- An object whose members stand in the given order; those without a value are left out. -/
def record (fields : List (String × Option Value)) : Value :=
  .obj (fields.filterMap fun (k, v) => v.map (k, ·))

def get? : Value → String → Option Value
  | .obj members, key => Table.get? members key
  | _, _ => none

def isObject : Value → Bool
  | .obj _ => true
  | _ => false

end Value

/-- What a member says of a text that may be missing, where the member itself never is. -/
def textOrNull (s : Option String) : Option Value := some (s.elim .null .str)

end ChatGateway.Json
