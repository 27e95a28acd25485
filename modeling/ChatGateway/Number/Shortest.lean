import ChatGateway.Number.Binary64

/-!
# The shortest decimal text of a number

The fewest significant digits that still read back as the same number, and of those the nearest.
Between 10^-5 and 10^16 they are written positionally, always with a fraction; outside with a
signed exponent.
-/

namespace ChatGateway.Number

namespace Binary64

/-- `a / b` lies in the range of values that round to `x`; the ends belong to it when the
significand is even. -/
def roundsTo (x : Binary64) (a b : Nat) : Bool :=
  let m := x.significand
  -- At a power of two the number below is only half as far away.
  let low := if m == Nat.pow 2 (precision - 1) && x.scale != 0 then 4 * m - 1 else 4 * m - 2
  let high := 4 * m + 2
  let value := (4 * a) <<< unitBits
  let lowEnd := (b * low) <<< x.scale
  let highEnd := (b * high) <<< x.scale
  if m % 2 == 0 then lowEnd ≤ value && value ≤ highEnd
  else lowEnd < value && value < highEnd

def decimalRatio (digits : Nat) (exponent : Int) : Nat × Nat :=
  if 0 ≤ exponent then (digits * Nat.pow 10 exponent.toNat, 1)
  else (digits, Nat.pow 10 (-exponent).toNat)

def leadingExponent (x : Binary64) : Int :=
  let whole := x.units >>> unitBits
  if whole != 0 then (Nat.toDigits 10 whole).length - 1
  else
    -- `2^1074 / units` lies between two powers of ten.
    let inverse := Nat.pow 2 unitBits / x.units
    let n := (Nat.toDigits 10 inverse).length
    if Nat.pow 10 (n - 1) * x.units == Nat.pow 2 unitBits then -((n : Int) - 1) else -(n : Int)

def decimalOf (x : Binary64) (count : Nat) : Option (Nat × Int) :=
  let exponent := x.leadingExponent - count + 1
  let (num, den) :=
    if 0 ≤ exponent then (x.units, Nat.pow 2 unitBits * Nat.pow 10 exponent.toNat)
    else (x.units * Nat.pow 10 (-exponent).toNat, Nat.pow 2 unitBits)
  let below := num / den
  let fits (d : Nat) : Bool :=
    let (a, b) := decimalRatio d exponent
    d != 0 && x.roundsTo a b
  match fits below, fits (below + 1) with
  | true, true =>
    let r := 2 * (num % den)
    if r < den || (r == den && below % 2 == 0) then some (below, exponent)
    else some (below + 1, exponent)
  | true, false => some (below, exponent)
  | false, true => some (below + 1, exponent)
  | false, false => none

/-- The decimal with the fewest digits that reads back. Seventeen digits always do. -/
def shortestDecimal (x : Binary64) : Nat × Int :=
  ((List.range' 1 17).findSome? x.decimalOf).getD (0, 0)

def shortest (x : Binary64) : List Char × Int :=
  let (d, e) := x.shortestDecimal
  let digits := Nat.toDigits 10 d
  let first : Int := e + digits.length - 1
  (((digits.reverse.dropWhile (· == '0')).reverse), first)

end Binary64

/-- The text of a number: positional for exponents from -5 to 15, else with an exponent. -/
def Binary64.text (x : Binary64) : String :=
  let sign := if x.negative then "-" else ""
  if x.isZero then sign ++ "0.0"
  else
    let (digits, first) := x.shortest
    let body :=
      if 0 ≤ first && first < 16 then
        let n := first.toNat + 1
        let whole := digits.take n ++ List.replicate (n - digits.length) '0'
        let fraction := digits.drop n
        whole ++ '.' :: (if fraction.isEmpty then ['0'] else fraction)
      else if -5 ≤ first && first < 0 then
        '0' :: '.' :: (List.replicate ((-first).toNat - 1) '0' ++ digits)
      else
        let mantissa :=
          match digits with
          | d :: [] => [d]
          | d :: more => d :: '.' :: more
          | [] => []
        mantissa ++ 'e' :: (if first < 0 then '-' else '+') :: Nat.toDigits 10 first.natAbs
    sign ++ String.ofList body

end ChatGateway.Number
