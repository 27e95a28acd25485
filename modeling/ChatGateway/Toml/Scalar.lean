import ChatGateway.Json.Document
import ChatGateway.Number.Decimal
import ChatGateway.Toml.Moment

/-!
# Words in configuration files

Numbers, truth values, dates and times are words without quotes.
-/

namespace ChatGateway.Toml

open Json

def inWord (c : Char) : Bool := c.isAlphanum || "+-_.:".toList.contains c

/-- Digits, without the single underscores that may stand between them. -/
def digits? (isDigit : Char → Bool) : List Char → Option (List Char)
  | [] => none
  | [c] => if isDigit c then some [c] else none
  | c :: d :: s =>
    if !isDigit c then none
    else if d = '_' then (digits? isDigit s).map (c :: ·)
    else (digits? isDigit (d :: s)).map (c :: ·)

def wholeDigits? (s : List Char) : Option (List Char) :=
  (digits? Char.isDigit s).filter fun ds => ds.head? ≠ some '0' || ds.length = 1

def isDigitOf (base : Nat) (c : Char) : Bool := (hexValue? c).any (· < base)

/-- A number of 63 bits in a base. -/
def natural? (base : Nat) (s : List Char) : Option Int :=
  (digits? (isDigitOf base) s).bind fun ds =>
    let n := ds.foldl (fun n d => n * base + (hexValue? d).getD 0) 0
    if n < Number.int64Bound then some n else none

def integer? : List Char → Option Int
  | '0' :: 'x' :: s => natural? 16 s
  | '0' :: 'o' :: s => natural? 8 s
  | '0' :: 'b' :: s => natural? 2 s
  | s =>
    let (negative, ds) := Number.splitSign s
    (wholeDigits? ds).bind fun ds => Number.readInt64 (if negative then '-' :: ds else ds)

def inDigits (c : Char) : Bool := c.isDigit || c = '_'

def fractionDigits? : List Char → Option (List Char × List Char)
  | '.' :: s =>
    (digits? Char.isDigit (s.takeWhile inDigits)).map fun ds => ('.' :: ds, s.dropWhile inDigits)
  | s => some ([], s)

def exponentDigits? : List Char → Option (List Char)
  | [] => some []
  | c :: s =>
    if c = 'e' || c = 'E' then
      let (negative, ds) := Number.splitSign s
      (digits? Char.isDigit ds).map fun ds => if negative then 'e' :: '-' :: ds else 'e' :: ds
    else none

/-- A number with a fraction or an exponent. One that is infinite or none has no value; one that is
too large is refused unless it is negative. -/
def float? (s : List Char) : Option Document :=
  let (negative, s) := Number.splitSign s
  if s = "inf".toList || s = "nan".toList then some .void
  else do
    let whole ← wholeDigits? (s.takeWhile inDigits)
    let (fraction, s) ← fractionDigits? (s.dropWhile inDigits)
    let exponent ← exponentDigits? s
    let sign := if negative then ['-'] else []
    if fraction.isEmpty && exponent.isEmpty then none
    else
      match Number.readBinary64 (sign ++ whole ++ fraction ++ exponent) with
      | some x => some (.num (.float x))
      | none => if negative then some .void else none

def ofMoment (text : List Char) : Document :=
  .obj [(some "$__toml_private_datetime", .str (String.ofList text))]

def ofWord? (w : List Char) : Option Document :=
  if w = "true".toList then some (.bool true)
  else if w = "false".toList then some (.bool false)
  else
    ((moment? w).map ofMoment).or (((integer? w).map fun n => .num (.int n)).or (float? w))

def cutWord (s : List Char) : List Char × List Char :=
  let w := s.takeWhile inWord
  let rest := s.dropWhile inWord
  match date? w, rest with
  | some (_, []), ' ' :: a :: b :: ':' :: t =>
    if a.isDigit && b.isDigit then
      (w ++ ' ' :: a :: b :: ':' :: t.takeWhile inWord, t.dropWhile inWord)
    else (w, rest)
  | _, _ => (w, rest)

end ChatGateway.Toml
