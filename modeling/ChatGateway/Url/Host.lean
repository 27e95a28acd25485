import ChatGateway.Text.Marker
import ChatGateway.Text.Printable
import ChatGateway.Text.Word
import ChatGateway.Url.Folding
import ChatGateway.Url.Percent
import ChatGateway.Url.Punycode

/-!
# Hosts

A host is a name or a numeric address. A name whose last part is a number is an address of four
bytes, however it is written; one of eight groups stands in brackets. Names beyond ASCII are written
in ASCII. They are taken as composed, and text that runs from right to left is not looked at.
-/

namespace ChatGateway.Url

open Text

inductive Host where
  | name (s : List Char)
  | v4 (address : Nat)
  | v6 (groups : List Nat)
deriving DecidableEq, Repr

namespace Host

/-! ### Addresses of four bytes -/

def numeral? (base : Nat) (s : List Char) : Option Nat :=
  (s.mapM fun c => (Json.hexValue? c).filter (· < base)).map fun ds =>
    ds.foldl (fun n d => n * base + d) 0

/-- A number in base sixteen, eight or ten, by how it begins. -/
def number? : List Char → Option Nat
  | [] => none
  | '0' :: 'x' :: s => numeral? 16 s
  | '0' :: c :: s => numeral? 8 (c :: s)
  | s => numeral? 10 s

def parts (s : List Char) : List (List Char) :=
  let ps := s.splitOn '.'
  if ps.getLast? = some [] then ps.dropLast else ps

def endsInNumber (s : List Char) : Bool :=
  (parts s).getLast?.any fun p => (!p.isEmpty && p.all Char.isDigit) || (number? p).isSome

/-- An address of up to four numbers: a byte each, and the last fills what is left. -/
def v4? (s : List Char) : Option Nat :=
  ((parts s).mapM number?).bind fun ns =>
    ns.getLast?.bind fun last =>
      let front := ns.dropLast
      if 3 < front.length || front.any (255 < ·) || Nat.pow 256 (4 - front.length) ≤ last then none
      else some (front.foldl (fun n b => n * 256 + b) 0 * Nat.pow 256 (4 - front.length) + last)

def v4Text (address : Nat) : List Char :=
  ['.'].intercalate ([3, 2, 1, 0].map fun i => Nat.toDigits 10 (address / Nat.pow 256 i % 256))

/-! ### Addresses of eight groups -/

def group? (s : List Char) : Option Nat :=
  if s.isEmpty || 4 < s.length then none else numeral? 16 s

def tail? (s : List Char) : Option (List Nat) :=
  let ps := s.splitOn '.'
  if ps.any fun p => p.isEmpty || (1 < p.length && p.head? = some '0') then none
  else
    match ps.mapM (numeral? 10) with
    | some [a, b, c, d] =>
      if [a, b, c, d].any (255 < ·) then none else some [a * 256 + b, c * 256 + d]
    | _ => none

def groupsOf : List (List Char) → Option (List Nat)
  | [] => some []
  | [p] => ((group? p).map fun g => [g]).or (tail? p)
  | p :: ps => do
    let g ← group? p
    let gs ← groupsOf ps
    return g :: gs

def groups? (s : List Char) : Option (List Nat) :=
  if s.isEmpty then some [] else groupsOf (s.splitOn ':')

/-- An address of eight groups. Two colons stand for one or more that are zero. -/
def v6? (s : List Char) : Option (List Nat) :=
  match cut? [':', ':'] s with
  | none => (groups? s).filter (·.length = 8)
  | some (front, back) => do
    if front.contains '.' then none
    else
      let front ← groups? front
      let back ← groups? back
      let size := front.length + back.length
      if 7 < size then none else some (front ++ List.replicate (8 - size) 0 ++ back)

def zeros (gs : List Nat) : Nat × Nat :=
  (List.range gs.length).foldl (fun (start, size) i =>
    let run := ((gs.drop i).takeWhile (· = 0)).length
    if size < run then (i, run) else (start, size)) (0, 0)

def groupsText (gs : List Nat) : List Char := [':'].intercalate (gs.map (Nat.toDigits 16))

def v6Text (gs : List Nat) : List Char :=
  let (start, size) := zeros gs
  if size < 2 then groupsText gs
  else groupsText (gs.take start) ++ [':', ':'] ++ groupsText (gs.drop (start + size))

/-! ### Names -/

def isDelimiter (c : Char) : Bool := " #/:<>?@[\\]^|".toList.contains c

def isForbidden (c : Char) : Bool :=
  isDelimiter c || c = '%' || c.toNat < 0x20 || c.toNat = 0x7F

def mayName (c : Char) : Bool :=
  c.toNat < 128 || ((isPrintable c || isWord c) && foldChar c = c &&
    ¬(c.toNat = 0x200C || c.toNat = 0x200D))

def mayBegin (c : Char) : Bool := c.toNat < 128 || isPrintable c

def marked : List Char := "xn--".toList

/-- A part of a name in ASCII. One that is marked must be readable. -/
def label? (s : List Char) : Option (List Char) :=
  let mark := marked.isPrefixOf s
  if s.all Punycode.isAscii then
    if mark then
      (Punycode.decode? (s.drop marked.length)).bind fun t =>
        if t.all Punycode.isAscii || !t.all mayName || !t.head?.all mayBegin then none else some s
    else some s
  else if mark || !s.all mayName || !s.head?.all mayBegin then none
  else some (marked ++ Punycode.encode s)

def domain? (bytes : List UInt8) : Option (List Char) := do
  let s ← decodeAll? bytes
  let folded := (s.filter (!inRanges ignored ·)).map foldChar
  let labels ← (folded.splitOn '.').mapM label?
  let name := ['.'].intercalate labels
  if name.isEmpty || name.any isForbidden then none else some name

/-- The host that a text between slashes and colons names. In schemes without rules for hosts any
text does. -/
def read (special : Bool) (s : List Char) : Option Host :=
  if s.head? = some '[' then
    if s.getLast? = some ']' then (v6? (s.drop 1).dropLast).map .v6 else none
  else if special then
    (domain? (percentDecode s)).bind fun name =>
      if endsInNumber name then (v4? name).map .v4 else some (.name name)
  else if s.any fun c => c.toNat = 0 || isDelimiter c then none
  else some (.name (percentEncode nothingReserved s))

def text : Host → List Char
  | name s => s
  | v4 address => v4Text address
  | v6 groups => '[' :: (v6Text groups ++ [']'])

end Host

end ChatGateway.Url
