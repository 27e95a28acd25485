/-!
# Dates and times in configuration files

A date, a time or both, the time perhaps with its distance from universal time. What is read is
given back in one form: a `T` in front of the time, and no zeros at the end of a fraction.
-/

namespace ChatGateway.Toml

def numberIn? (low high : Nat) (ds : List Char) : Option Nat :=
  if ds.all Char.isDigit then
    let n := Nat.ofDigitChars 10 ds 0
    if low ≤ n ∧ n ≤ high then some n else none
  else none

def isLeapYear (y : Nat) : Bool := (y % 4 == 0 && y % 100 != 0) || y % 400 == 0

def daysIn (year month : Nat) : Nat :=
  match month with
  | 2 => if isLeapYear year then 29 else 28
  | 4 | 6 | 9 | 11 => 30
  | _ => 31

def date? : List Char → Option (List Char × List Char)
  | a :: b :: c :: d :: '-' :: e :: f :: '-' :: g :: h :: s => do
    let year ← numberIn? 0 9999 [a, b, c, d]
    let month ← numberIn? 1 12 [e, f]
    let _ ← numberIn? 1 (daysIn year month) [g, h]
    some ([a, b, c, d, '-', e, f, '-', g, h], s)
  | _ => none

/-- A fraction of a second: nine digits count. -/
def fraction? : List Char → Option (List Char × List Char)
  | '.' :: s =>
    let ds := s.takeWhile Char.isDigit
    let kept := ((ds.take 9).reverse.dropWhile (· = '0')).reverse
    if ds.isEmpty then none
    else some (if kept.isEmpty then [] else '.' :: kept, s.dropWhile Char.isDigit)
  | s => some ([], s)

/-- A time of day at the beginning of a text, and the rest. A minute may have a leap second. -/
def time? : List Char → Option (List Char × List Char)
  | a :: b :: ':' :: c :: d :: ':' :: e :: f :: s => do
    let _ ← numberIn? 0 23 [a, b]
    let _ ← numberIn? 0 59 [c, d]
    let _ ← numberIn? 0 60 [e, f]
    let (fraction, rest) ← fraction? s
    some ([a, b, ':', c, d, ':', e, f] ++ fraction, rest)
  | _ => none

def offset? : List Char → Option (List Char)
  | [] => some []
  | ['Z'] | ['z'] => some ['Z']
  | [sign, a, b, ':', c, d] => do
    let hours ← numberIn? 0 23 [a, b]
    let minutes ← numberIn? 0 59 [c, d]
    if sign = '+' then some [sign, a, b, ':', c, d]
    else if sign = '-' then some [if hours + minutes = 0 then '+' else '-', a, b, ':', c, d]
    else none
  | _ => none

def moment? (s : List Char) : Option (List Char) :=
  match date? s with
  | some (date, []) => some date
  | some (date, c :: t) =>
    if c = 'T' || c = 't' || c = ' ' then do
      let (time, rest) ← time? t
      let offset ← offset? rest
      some (date ++ 'T' :: (time ++ offset))
    else none
  | none => do
    let (time, rest) ← time? s
    if rest.isEmpty then some time else none

end ChatGateway.Toml
