import ChatGateway.Decode.Scalar

/-!
# Decoding records

A record is written as an object, or as an array of its fields in the order of declaration. The
members of an object are looked at in the order in which they stand, and the first that does not fit
is the refusal; fields that are absent come after all that are there. Members that the record does
not name are passed over.
-/

namespace ChatGateway.Decode

open Json

/-- The two ways of writing a record. -/
inductive Parts where
  | named (members : List (Option String × Document))
  | listed (items : List Document)

structure Part (α : Type) where
  index : Nat
  name : String
  result : Option (Except Error α)

/-- What the refusals of a record call it, as in `struct Message`, and how many fields it has. -/
structure Label where
  name : String
  size : Nat

def counted (n : Nat) (noun : String) : String :=
  toString n ++ " " ++ noun ++ (if n = 1 then "" else "s")

def Label.expected (l : Label) : String := l.name ++ " with " ++ counted l.size "element"

def parts (l : Label) : Document → Except Error Parts
  | .obj members => .ok (.named members)
  | .arr items => .ok (.listed items)
  | d => mismatch d l.name

def first? (members : List (Option String × Document)) (name : String) : Option Document :=
  (members.find? fun p => p.1 = some name).map (·.2)

namespace Parts

def part {α : Type} (p : Parts) (m : Medium) (index : Nat) (name : String) (dec : Decoder α) :
    Part α :=
  match p with
  | .named members => ⟨index, name, (first? members name).map (dec m)⟩
  | .listed items => ⟨index, name, items[index]?.map (dec m)⟩

end Parts

namespace Part

variable {α : Type}

def seen (f : Part α) : String × Option Error :=
  (f.name, match f.result with
    | some (.error e) => some e
    | _ => none)

def required (f : Part α) (p : Parts) (l : Label) : Except Error α :=
  match f.result, p with
  | some r, _ => r
  | none, .named _ => .error (.missingField f.name)
  | none, .listed _ => .error (.wrongLength f.index l.expected)

def optional (f : Part (Option α)) (p : Parts) (l : Label) : Except Error (Option α) :=
  match f.result, p with
  | some r, _ => r
  | none, .named _ => .ok none
  | none, .listed _ => .error (.wrongLength f.index l.expected)

def orElse (f : Part α) (a : α) : Except Error α := f.result.getD (.ok a)

end Part

@[simp]
theorem seen_part {α : Type} (p : Parts) (m : Medium) (index : Nat) (name : String)
    (dec : Decoder α) : (p.part m index name dec).seen.1 = name := by
  cases p <;> rfl

/-- What becomes of members that a record does not name: they are passed over, or kept, for which
they have to have a value. -/
def strange (keep : Bool) (d : Document) : Except Error Unit :=
  if keep then (if d.value?.isSome then .ok () else .error .malformed)
  else if d.whole then .ok () else .error .malformed

/-- Looks at the members in turn. `fields` are the record's own, with the refusal of what stands
there; `met` are the names that have been met. -/
def visit (fields : List (String × Option Error)) (keep : Bool) :
    List String → List (Option String × Document) → Except Error Unit
  | _, [] => .ok ()
  | _, (none, _) :: _ => .error .malformed
  | met, (some k, d) :: ms =>
    match fields.find? (·.1 = k) with
    | none => do
      strange keep d
      visit fields keep met ms
    | some (_, refusal) =>
      if met.contains k then .error (.duplicateField k)
      else
        match refusal with
        | some e => .error e
        | none => visit fields keep (k :: met) ms

namespace Parts

def check (p : Parts) (fields : List (String × Option Error)) (keep : Bool) : Except Error Unit :=
  match p with
  | .named members => visit fields keep [] members
  | .listed _ => .ok ()

/-- Nothing is left of an array beyond the fields, except in a configuration file. -/
def close (p : Parts) (m : Medium) (l : Label) : Except Error Unit :=
  match p with
  | .named _ => .ok ()
  | .listed items =>
    if items.length ≤ l.size then .ok ()
    else
      match m with
      | .file => .ok ()
      | .text => .error .malformed
      | .tree => .error (.wrongLength items.length "fewer elements in array")
      | .copy =>
        .error (.wrongLength items.length (counted l.size "element" ++ " in sequence"))

def rest (p : Parts) (fields : List String) : Table Value :=
  match p with
  | .named members =>
    Table.ofEntries (members.filterMap fun (k, d) =>
      k.bind fun k => if fields.contains k then none else d.value?.map (k, ·))
  | .listed _ => []

end Parts

/-! ## Records -/

/-- The fields of a record, in the order of declaration: what is seen of them, and what they make
up. -/
structure Fields (α : Type) where
  names : List String
  seen : Parts → Medium → List (String × Option Error)
  get : Parts → Medium → Label → Except Error α
  names_seen : ∀ p m, (seen p m).map (·.1) = names

namespace Fields

variable {α β : Type}

def of (a : α) : Fields α := ⟨[], fun _ _ => [], fun _ _ _ => .ok a, fun _ _ => rfl⟩

/-- One field more, the last. `take` says what becomes of it. -/
def field (s : Fields (α → β)) (name : String) (dec : Decoder α)
    (take : Part α → Parts → Label → Except Error α) : Fields β where
  names := s.names ++ [name]
  seen p m := s.seen p m ++ [(p.part m s.names.length name dec).seen]
  get p m l := do
    let f ← s.get p m l
    let a ← take (p.part m s.names.length name dec) p l
    return f a
  names_seen p m := by simp [s.names_seen]

def required (s : Fields (α → β)) (name : String) (dec : Decoder α) : Fields β :=
  s.field name dec Part.required

def optional (s : Fields (Option α → β)) (name : String) (dec : Decoder α) : Fields β :=
  s.field name (option dec) Part.optional

def orElse (s : Fields (α → β)) (name : String) (dec : Decoder α) (a : α) : Fields β :=
  s.field name dec fun x _ _ => x.orElse a

end Fields

/-- A record. `name` is what refusals call it. -/
def record {α : Type} (name : String) (s : Fields α) : Decoder α := fun m d => do
  let l : Label := ⟨name, s.names.length⟩
  let p ← parts l d
  p.check (s.seen p m) false
  let a ← s.get p m l
  p.close m l
  return a

/-- A record that keeps what it does not know, and is written as an object only. -/
def openParts (name : String) : Document → Except Error Parts
  | .arr _ => .error (.wrongType .sequence name)
  | d => parts ⟨name, 0⟩ d

def openRecord {α : Type} (name : String) (s : Fields (Table Value → α)) : Decoder α :=
  fun m d => do
    let p ← openParts name d
    p.check (s.seen p m) true
    let f ← s.get p m ⟨name, s.names.length⟩
    return f (p.rest s.names)

end ChatGateway.Decode
