import ChatGateway.Text.Bytes

/-!
# Event streams

The body of a streamed reply is a text of lines. A line names a field and its value; a blank line
ends an event. Of an event only its data is looked at, which may take several lines. Lines end with
a line feed, a carriage return or both, and what is not ended when the body ends is dropped.
-/

namespace ChatGateway.EventStream

inductive Arrival where
  | bytes (bytes : List UInt8)
  | failure (message : String)
deriving DecidableEq, Repr

inductive Item where
  | data (text : List Char)
  | failure (message : String)
  /-- The body ends within a character, or it is not text. -/
  | malformed
deriving DecidableEq, Repr

def cutLine? : List Char → Option (List Char × List Char)
  | [] => none
  | c :: s =>
    if c = '\n' then some ([], s)
    else if c = '\r' then
      match s with
      | [] => none
      | d :: t => some ([], if d = '\n' then t else d :: t)
    else (cutLine? s).map fun (line, rest) => (c :: line, rest)

theorem length_of_cutLine? {s line rest : List Char} (h : cutLine? s = some (line, rest)) :
    rest.length < s.length := by
  induction s generalizing line with
  | nil => cases h
  | cons c s ih =>
    unfold cutLine? at h
    split at h
    · cases h; simp
    · split at h
      · cases s with
        | nil => cases h
        | cons d t => cases h; split <;> simp only [List.length_cons] <;> omega
      · obtain ⟨p, hp, e⟩ := Option.map_eq_some_iff.mp h
        cases e
        simpa using Nat.lt_succ_of_lt (ih hp)

def lines (s : List Char) : List (List Char) × List Char :=
  match _h : cutLine? s with
  | none => ([], s)
  | some (line, rest) =>
    let (ls, unfinished) := lines rest
    (line :: ls, unfinished)
termination_by s.length
decreasing_by exact length_of_cutLine? _h

/-- The name and the value of a line's field. A line that begins with a colon is a comment; its
field has no name. -/
def field (line : List Char) : List Char × List Char :=
  let value := (line.dropWhile (· ≠ ':')).drop 1
  (line.takeWhile (· ≠ ':'), if value.head? = some ' ' then value.drop 1 else value)

structure State where
  pending : List UInt8
  begun : Bool
  line : List Char
  /-- The data of the event that is not ended, with a line feed after each line. -/
  data : List Char
deriving DecidableEq, Repr

def initial : State := ⟨[], false, [], []⟩

/-- Takes a line: the data that it ends, if it ends any, and the data of the open event. -/
def takeLine (data line : List Char) : Option (List Char) × List Char :=
  if line.isEmpty then (if data.isEmpty then none else some data.dropLast, [])
  else
    let (name, value) := field line
    if name = "data".toList then (none, data ++ value ++ ['\n']) else (none, data)

def takeLines : List Char → List (List Char) → List (List Char) × List Char
  | data, [] => ([], data)
  | data, line :: ls =>
    let (ended, data) := takeLine data line
    let (events, data) := takeLines data ls
    (ended.toList ++ events, data)

def dropMark (s : List Char) : List Char := if s.head? = some '\ufeff' then s.drop 1 else s

def feed (st : State) (bytes : List UInt8) : List (List Char) × State :=
  let (new, pending) := Text.decode (st.pending ++ bytes)
  let (ls, line) := lines (st.line ++ if st.begun then new else dropMark new)
  let (events, data) := takeLines st.data ls
  (events, ⟨pending, st.begun || !new.isEmpty, line, data⟩)

def itemsFrom : State → List Arrival → List Item
  | st, [] => if st.pending.isEmpty then [] else [.malformed]
  | st, .failure message :: as => .failure message :: itemsFrom st as
  | st, .bytes bytes :: as =>
    let (events, st) := feed st bytes
    events.map .data ++ itemsFrom st as

def items (arrivals : List Arrival) : List Item := itemsFrom initial arrivals

end ChatGateway.EventStream
