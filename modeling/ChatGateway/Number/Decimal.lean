import ChatGateway.Number.Binary64

/-!
# Reading numbers from decimal text

A whole number is a sign and digits and has to fit 64 bits; a number with a fraction or an exponent
is rounded correctly to binary64.
-/

namespace ChatGateway.Number

structure Decimal where
  negative : Bool
  digits : Nat
  exponent : Int
deriving DecidableEq, Repr

def int64Bound : Nat := 9223372036854775808

def isInt64 (n : Int) : Bool := -(int64Bound : Int) ≤ n && n < int64Bound

def digitsValue (ds : List Char) : Nat := Nat.ofDigitChars 10 ds 0

def splitSign : List Char → Bool × List Char
  | '-' :: s => (true, s)
  | '+' :: s => (false, s)
  | s => (false, s)

/-- A sign and at least one digit, within the signed 64-bit range. -/
def readInt64 (s : List Char) : Option Int :=
  let (negative, ds) := splitSign s
  if ds.isEmpty || !ds.all Char.isDigit then none
  else
    let n : Int := if negative then -(digitsValue ds : Int) else digitsValue ds
    if isInt64 n then some n else none

/-- The binary64 number nearest to a decimal, unless it is too large. Far outside the range of the
format the answer does not depend on the digits. -/
def Decimal.toBinary64 (d : Decimal) : Option Binary64 :=
  if d.digits == 0 then some (Binary64.zero d.negative)
  else
    let size := (Nat.toDigits 10 d.digits).length + d.exponent
    if 400 < size then none
    else if size < -400 then some (Binary64.zero d.negative)
    else if 0 ≤ d.exponent then
      Binary64.ofRatio d.negative (d.digits * Nat.pow 10 d.exponent.toNat) 1
    else Binary64.ofRatio d.negative d.digits (Nat.pow 10 (-d.exponent).toNat)

/-- The exponent part of a number: nothing, or `e` with a whole number. -/
def readExponent : List Char → Option Int
  | [] => some 0
  | c :: s =>
    if c == 'e' || c == 'E' then
      let (negative, ds) := splitSign s
      if ds.isEmpty || !ds.all Char.isDigit then none
      else some (if negative then -(digitsValue ds : Int) else digitsValue ds)
    else none

/-- Digits with at most one point among them, at least one digit, and an exponent if there is
one. -/
def readDecimal (s : List Char) : Option Decimal :=
  let (negative, s) := splitSign s
  let whole := s.takeWhile Char.isDigit
  let rest := s.dropWhile Char.isDigit
  let (fraction, rest) :=
    match rest with
    | '.' :: t => (t.takeWhile Char.isDigit, t.dropWhile Char.isDigit)
    | t => ([], t)
  if whole.isEmpty && fraction.isEmpty then none
  else
    (readExponent rest).map fun e =>
      ⟨negative, digitsValue (whole ++ fraction), e - fraction.length⟩

def readBinary64 (s : List Char) : Option Binary64 :=
  (readDecimal s).bind Decimal.toBinary64

end ChatGateway.Number
