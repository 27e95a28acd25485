import ChatGateway.Json.Token

/-!
# Documents

A document is JSON text as it is written: members keep their order and may repeat a key. A document
can be had of every text. Where the text breaks off the document ends in `broken`; a part that is
well formed but has no value is `void`, so that a reader that passes over it goes on.
-/

namespace ChatGateway.Json

inductive Document where
  | null
  | bool (b : Bool)
  | num (n : Number)
  | str (s : String)
  | arr (items : List Document)
  /-- A member whose key has no value, or has not come, has the key `none`. -/
  | obj (members : List (Option String × Document))
  | void
  | broken
deriving Repr, Inhabited

/-- The deepest nesting of arrays and objects that a reader follows. -/
def maxDepth : Nat := 127

namespace Document

inductive Frame where
  | array (items : List Document)
  | object (members : List (Option String × Document))
  /-- The key is read and its value is next. -/
  | member (members : List (Option String × Document)) (key : Option String)

inductive Stage where
  | value (open' : List Frame)
  | itemOrEnd (open' : List Frame)
  | keyOrEnd (open' : List Frame)
  | key (members : List (Option String × Document)) (open' : List Frame)
  | colon (members : List (Option String × Document)) (name : Option String) (open' : List Frame)
  | more (open' : List Frame)
  | done (d : Document)
  | failed (d : Document)

def place (d : Document) : List Frame → Stage
  | [] => .done d
  | .array items :: fs => .more (.array (d :: items) :: fs)
  | .object members :: fs => .more (.object members :: fs)
  | .member members key :: fs => .more (.object ((key, d) :: members) :: fs)

/-- Closes every open container behind the place where the text breaks off. -/
def breakOff (d : Document) : List Frame → Document
  | [] => d
  | .array items :: fs => breakOff (.arr (d :: items).reverse) fs
  | .object members :: fs => breakOff (.obj ((none, d) :: members).reverse) fs
  | .member members key :: fs => breakOff (.obj ((key, d) :: members).reverse) fs

/-- A closed container, which has a value only if it is not nested too deeply. -/
def closed (d : Document) (outer : List Frame) : Document :=
  if outer.length < maxDepth then d else .void

def begin (t : Token) (fs : List Frame) : Stage :=
  match t with
  | .openArray => .itemOrEnd (.array [] :: fs)
  | .openObject => .keyOrEnd (.object [] :: fs)
  | .null => place .null fs
  | .bool b => place (.bool b) fs
  | .num n => place (.num n) fs
  | .str s => place (.str s) fs
  | .voidNum | .voidStr => place .void fs
  | .closeArray | .closeObject | .comma | .colon | .bad => .failed (breakOff .broken fs)

def beginKey (t : Token) (members : List (Option String × Document)) (fs : List Frame) : Stage :=
  match t with
  | .str s => .colon members (some s) fs
  | .voidStr => .colon members none fs
  | _ => .failed (breakOff .broken (.object members :: fs))

def step : Stage → Token → Stage
  | .value fs, t => begin t fs
  | .itemOrEnd (.array items :: fs), .closeArray => place (closed (.arr items.reverse) fs) fs
  | .itemOrEnd fs, t => begin t fs
  | .keyOrEnd (.object members :: fs), .closeObject => place (closed (.obj members.reverse) fs) fs
  | .keyOrEnd (.object members :: fs), t => beginKey t members fs
  | .keyOrEnd fs, _ => .failed (breakOff .broken fs)
  | .key members fs, t => beginKey t members fs
  | .colon members name fs, .colon => .value (.member members name :: fs)
  | .colon members name fs, _ => .failed (breakOff .broken (.member members name :: fs))
  | .more (.array items :: fs), .comma => .value (.array items :: fs)
  | .more (.array items :: fs), .closeArray => place (closed (.arr items.reverse) fs) fs
  | .more (.object members :: fs), .comma => .key members fs
  | .more (.object members :: fs), .closeObject => place (closed (.obj members.reverse) fs) fs
  | .more fs, _ => .failed (breakOff .broken fs)
  | .done d, _ => .failed d
  | .failed d, _ => .failed d

/-- The document that has been read when the text ends, and whether the text ends there as it
should. -/
def finish : Stage → Document × Bool
  | .value fs | .itemOrEnd fs | .keyOrEnd fs | .more fs => (breakOff .broken fs, false)
  | .key members fs => (breakOff .broken (.object members :: fs), false)
  | .colon members name fs => (breakOff .broken (.member members name :: fs), false)
  | .done d => (d, true)
  | .failed d => (d, false)

def ofText (s : List Char) : Document × Bool :=
  finish ((tokens s).foldl step (.value []))

mutual

/-- The value of a document; of members with one key the last counts. -/
def value? : Document → Option Value
  | .null => some .null
  | .bool b => some (.bool b)
  | .num n => some (.num n)
  | .str s => some (.str s)
  | .arr items => (items? items).map .arr
  | .obj members => (members? members).map fun ms => .ofMembers ms
  | .void | .broken => none

def items? : List Document → Option (List Value)
  | [] => some []
  | d :: ds => (value? d).bind fun v => (items? ds).map (v :: ·)

def members? : List (Option String × Document) → Option (List (String × Value))
  | [] => some []
  | (key, d) :: ms =>
    key.bind fun k => (value? d).bind fun v => (members? ms).map ((k, v) :: ·)

end

mutual

/-- The text of a document goes on to its end, so that a reader can pass over it. -/
def whole : Document → Bool
  | .broken => false
  | .arr items => wholeItems items
  | .obj members => wholeMembers members
  | .null | .bool _ | .num _ | .str _ | .void => true

def wholeItems : List Document → Bool
  | [] => true
  | d :: ds => whole d && wholeItems ds

def wholeMembers : List (Option String × Document) → Bool
  | [] => true
  | (_, d) :: ms => whole d && wholeMembers ms

end

mutual

def ofValue : Value → Document
  | .null => .null
  | .bool b => .bool b
  | .num n => .num n
  | .str s => .str s
  | .arr items => .arr (ofItems items)
  | .obj members => .obj (ofMembers members)

def ofItems : List Value → List Document
  | [] => []
  | v :: vs => ofValue v :: ofItems vs

def ofMembers : List (String × Value) → List (Option String × Document)
  | [] => []
  | (k, v) :: ms => (some k, ofValue v) :: ofMembers ms

end

end Document

def read (s : List Char) : Option Value :=
  let (d, ended) := Document.ofText s
  if ended then d.value? else none

end ChatGateway.Json
