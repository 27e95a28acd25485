/-!
# Binary floating-point numbers of 64 bits

A finite number of the binary64 format is a sign, a significand below 2^53 and a scale: it counts
units of 2^(scale - 1074). All arithmetic is exact on natural numbers and rounds once, at the end,
to the nearest number, a tie to the even significand.
-/

namespace ChatGateway.Number

/-- A finite binary64 number: `significand` times 2^`scale`, in units of 2^-1074. -/
structure Binary64 where
  negative : Bool
  significand : Nat
  scale : Nat
deriving DecidableEq, Repr, Inhabited

namespace Binary64

/-- The exponent of the unit: every finite number is a whole multiple of 2^-1074. -/
def unitBits : Nat := 1074

def precision : Nat := 53

def maxScale : Nat := 2045

def zero (negative : Bool) : Binary64 := ⟨negative, 0, 0⟩

def isZero (x : Binary64) : Bool := x.significand == 0

def units (x : Binary64) : Nat := x.significand <<< x.scale

/-- A quotient to the nearest whole number, a tie to the even one. -/
def divideToEven (num den : Nat) : Nat :=
  let q := num / den
  let r := num % den
  if 2 * r < den then q
  else if den < 2 * r then q + 1
  else if q % 2 == 0 then q else q + 1

/-- The number nearest to `num / den`, unless it is too large. The significand gets as many bits
as there are, so that the rounding step is the last one. -/
def ofRatio (negative : Bool) (num den : Nat) : Option Binary64 :=
  let wide := num <<< unitBits
  let bits := (wide / den).log2 + 1
  let scale := bits - precision
  let m := divideToEven wide (den <<< scale)
  let (m, scale) := if m == Nat.pow 2 precision then (m / 2, scale + 1) else (m, scale)
  if m == 0 then some (zero negative)
  else if scale ≤ maxScale then some ⟨negative, m, scale⟩ else none

def ofNat (n : Nat) : Binary64 := (ofRatio false n 1).getD (zero false)

def ofInt (n : Int) : Binary64 :=
  (ofRatio (n < 0) n.natAbs 1).getD (zero false)

/-- The rounded product with a power of ten, itself rounded first. -/
def timesPowerOfTen (x : Binary64) (e : Nat) : Option Binary64 :=
  ofRatio x.negative (x.units * (ofNat (Nat.pow 10 e)).units) (Nat.pow 2 (2 * unitBits))

/-- The rounded quotient by a power of ten, itself rounded first. -/
def overPowerOfTen (x : Binary64) (e : Nat) : Binary64 :=
  (ofRatio x.negative x.units (ofNat (Nat.pow 10 e)).units).getD x

def truncate (x : Binary64) : Int :=
  let n := x.units >>> unitBits
  if x.negative then -(n : Int) else n

end Binary64

end ChatGateway.Number
