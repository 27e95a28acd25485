import ChatGateway.Json.Value
import ChatGateway.Number.Decimal

/-!
# Numerals

The numbers of JSON text. A numeral without fraction and exponent that fits 64 bits is a whole
number. Of any other the digits are gathered while they fit 64 bits, and the result is multiplied or
divided by the power of ten, each step rounded to binary64.
-/

namespace ChatGateway.Json

/-- The parts of a numeral. `exponent` is `none` where there is no exponent part. -/
structure Numeral where
  negative : Bool
  whole : List Char
  fraction : List Char
  exponent : Option (Bool × List Char)

def digits1? (s : List Char) : Option (List Char × List Char) :=
  let ds := s.takeWhile Char.isDigit
  if ds.isEmpty then none else some (ds, s.dropWhile Char.isDigit)

def wholePart? (s : List Char) : Option (List Char × List Char) :=
  (digits1? s).bind fun (ds, rest) =>
    if ds.head? = some '0' && ds.length != 1 then none else some (ds, rest)

def fractionPart? : List Char → Option (List Char × List Char)
  | '.' :: s => digits1? s
  | s => some ([], s)

def exponentPart? : List Char → Option (Option (Bool × List Char) × List Char)
  | [] => some (none, [])
  | c :: s =>
    if c == 'e' || c == 'E' then
      let (negative, s) := Number.splitSign s
      (digits1? s).map fun (ds, rest) => (some (negative, ds), rest)
    else some (none, c :: s)

def numeral? (s : List Char) : Option (Numeral × List Char) := do
  let (negative, s) := match s with
    | '-' :: t => (true, t)
    | t => (false, t)
  let (whole, s) ← wholePart? s
  let (fraction, s) ← fractionPart? s
  let (exponent, s) ← exponentPart? s
  some (⟨negative, whole, fraction, exponent⟩, s)

/-- Gathers digits while they fit 64 bits: the value, and how many digits are left over. -/
def gather : Nat → List Char → Nat × Nat
  | n, [] => (n, 0)
  | n, d :: ds =>
    let n' := n * 10 + (d.toNat - 48)
    if n' < UInt64.size then gather n' ds else (n, ds.length + 1)

/-- A significand times a power of ten. Below the range the quotient is taken in two steps; above it
there is no number. -/
def scaled (negative : Bool) (significand : Nat) (exponent : Int) : Option Number.Binary64 :=
  let x : Number.Binary64 := { Number.Binary64.ofNat significand with negative }
  if 0 ≤ exponent then
    if exponent ≤ 308 then x.timesPowerOfTen exponent.toNat
    else if x.isZero then some x else none
  else
    let e := (-exponent).toNat
    if e ≤ 308 then some (x.overPowerOfTen e)
    else if e ≤ 616 then some ((x.overPowerOfTen 308).overPowerOfTen (e - 308))
    else some (Number.Binary64.zero negative)

namespace Numeral

def shift (x : Numeral) : Int :=
  match x.exponent with
  | none => 0
  | some (negative, ds) =>
    if negative then -(Number.digitsValue ds : Int) else Number.digitsValue ds

def number? (x : Numeral) : Option Number :=
  let (n, left) := gather 0 x.whole
  if x.fraction.isEmpty && x.exponent.isNone && left == 0 &&
      (!x.negative || (0 < n && n ≤ Number.int64Bound)) then
    some (.int (if x.negative then -(n : Int) else n))
  else
    let (m, dropped) := gather n x.fraction
    let e : Int := left - (x.fraction.length - dropped : Nat) + x.shift
    (scaled x.negative m e).map .float

end Numeral

theorem length_digits1? {s ds rest : List Char} (h : digits1? s = some (ds, rest)) :
    rest.length < s.length := by
  simp only [digits1?] at h
  split at h
  · cases h
  · next hne =>
    obtain ⟨rfl, rfl⟩ := Prod.mk.inj (Option.some.inj h)
    have hs : s.takeWhile Char.isDigit ++ s.dropWhile Char.isDigit = s :=
      List.takeWhile_append_dropWhile
    have := congrArg List.length hs
    rw [List.length_append] at this
    have : 0 < (s.takeWhile Char.isDigit).length := by
      rw [List.length_pos_iff]
      simpa using hne
    omega

theorem length_wholePart? {s ds rest : List Char} (h : wholePart? s = some (ds, rest)) :
    rest.length < s.length := by
  obtain ⟨⟨a, b⟩, hd, hr⟩ := Option.bind_eq_some_iff.mp h
  simp only at hr
  split at hr
  · cases hr
  · obtain ⟨-, rfl⟩ := Prod.mk.inj (Option.some.inj hr)
    exact length_digits1? hd

theorem length_fractionPart? {s ds rest : List Char} (h : fractionPart? s = some (ds, rest)) :
    rest.length ≤ s.length := by
  unfold fractionPart? at h
  split at h
  · have := length_digits1? h
    simp only [List.length_cons]
    omega
  · obtain ⟨-, rfl⟩ := Prod.mk.inj (Option.some.inj h)
    exact Nat.le_refl _

theorem length_splitSign (s : List Char) : (Number.splitSign s).2.length ≤ s.length := by
  unfold Number.splitSign
  split <;> simp

theorem length_exponentPart? {s rest : List Char} {e : Option (Bool × List Char)}
    (h : exponentPart? s = some (e, rest)) : rest.length ≤ s.length := by
  unfold exponentPart? at h
  split at h
  · obtain ⟨-, rfl⟩ := Prod.mk.inj (Option.some.inj h)
    exact Nat.le_refl _
  · next c s =>
    split at h
    · obtain ⟨⟨a, b⟩, hd, hr⟩ := Option.map_eq_some_iff.mp h
      obtain ⟨-, rfl⟩ := Prod.mk.inj hr
      have h1 : b.length < (Number.splitSign s).2.length := length_digits1? hd
      have h2 := length_splitSign s
      simp only [List.length_cons]
      omega
    · obtain ⟨-, rfl⟩ := Prod.mk.inj (Option.some.inj h)
      exact Nat.le_refl _

theorem length_numeral? {s rest : List Char} {x : Numeral} (h : numeral? s = some (x, rest)) :
    rest.length < s.length := by
  simp only [numeral?, Option.bind_eq_bind, Option.bind_eq_some_iff, Prod.exists] at h
  obtain ⟨ws, s1, hw, fs, s2, hf, e, s3, he, hr⟩ := h
  obtain ⟨-, rfl⟩ := Prod.mk.inj (Option.some.inj hr)
  have h1 := length_wholePart? hw
  have h2 := length_fractionPart? hf
  have h3 := length_exponentPart? he
  have h0 : (match s with
      | '-' :: t => (true, t)
      | t => (false, t)).2.length ≤ s.length := by
    split <;> simp
  omega

end ChatGateway.Json
