/-!
# Punycode

Names beyond ASCII as ASCII text: first the characters that are ASCII, then the places of the others
as differences, from the lowest character to the highest. A difference is a number in base 36 whose
last digit lies below a threshold; the thresholds follow the differences before it.
-/

namespace ChatGateway.Url.Punycode

def digit (n : Nat) : Char := if n < 26 then Char.ofNat (97 + n) else Char.ofNat (22 + n)

def digitValue? (c : Char) : Option Nat :=
  if 'a' ≤ c ∧ c ≤ 'z' then some (c.toNat - 97)
  else if c.isDigit then some (c.toNat - 22)
  else none

def threshold (bias position : Nat) : Nat :=
  if position ≤ bias then 1 else if bias + 26 ≤ position then 26 else position - bias

theorem threshold_pos (bias position : Nat) : 0 < threshold bias position := by
  unfold threshold
  split
  · omega
  · split <;> omega

def settleBias (delta bias : Nat) : Nat :=
  if 455 < delta then settleBias (delta / 35) (bias + 36)
  else bias + 36 * delta / (delta + 38)

/-- The bias after a difference, the first or a later one, when so many characters are placed. -/
def adapt (first : Bool) (delta placed : Nat) : Nat :=
  let delta := if first then delta / 700 else delta / 2
  settleBias (delta + delta / placed) 0

def digits (bias position n : Nat) : List Char :=
  let t := threshold bias position
  if n < t then [digit n]
  else digit (t + (n - t) % (36 - t)) :: digits bias (position + 36) ((n - t) / (36 - t))
termination_by n
decreasing_by
  have h := threshold_pos bias position
  exact Nat.lt_of_le_of_lt (Nat.div_le_self _ _) (by omega)

structure Progress where
  delta : Nat
  bias : Nat
  placed : Nat
  written : List Char

def Progress.pass (basic n : Nat) (p : Progress) (c : Char) : Progress :=
  if c.toNat < n then { p with delta := p.delta + 1 }
  else if c.toNat = n then
    { delta := 0
      bias := adapt (p.placed = basic) p.delta (p.placed + 1)
      placed := p.placed + 1
      written := p.written ++ digits p.bias 36 p.delta }
  else p

def encodeFrom (s : List Char) (basic : Nat) : Nat → List Nat → Progress → List Char
  | _, [], p => p.written
  | next, n :: ns, p =>
    let p := { p with delta := p.delta + (n - next) * (p.placed + 1) }
    let p := s.foldl (Progress.pass basic n) p
    encodeFrom s basic (n + 1) ns { p with delta := p.delta + 1 }

def isAscii (c : Char) : Bool := c.toNat < 128

def encode (s : List Char) : List Char :=
  let basic := s.filter isAscii
  let others := ((s.map Char.toNat).filter (128 ≤ ·)).mergeSort.eraseDups
  basic ++ (if basic.isEmpty then [] else ['-']) ++
    encodeFrom s basic.length 128 others ⟨0, 72, basic.length, []⟩

def number? (bias : Nat) : Nat → Nat → Nat → List Char → Option (Nat × List Char)
  | _, _, _, [] => none
  | position, weight, n, c :: s =>
    (digitValue? c).bind fun d =>
      let t := threshold bias position
      let n := n + d * weight
      if d < t then some (n, s) else number? bias (position + 36) (weight * (36 - t)) n s

theorem length_number? {bias position weight n : Nat} {s rest : List Char} {m : Nat}
    (h : number? bias position weight n s = some (m, rest)) : rest.length < s.length := by
  induction s generalizing position weight n with
  | nil => simp [number?] at h
  | cons c s ih =>
    obtain ⟨d, -, hd⟩ := Option.bind_eq_some_iff.mp h
    dsimp only at hd
    split at hd
    · obtain ⟨-, rfl⟩ := Prod.mk.inj (Option.some.inj hd)
      simp
    · exact Nat.lt_succ_of_lt (ih hd)

def decodeFrom (name : List Char) (next place bias : Nat) (s : List Char) : Option (List Char) :=
  if s.isEmpty then some name
  else
    match _h : number? bias 36 1 0 s with
    | none => none
    | some (delta, rest) =>
      let size := name.length + 1
      let n := next + (place + delta) / size
      let i := (place + delta) % size
      if n < 0x110000 ∧ ¬(0xD800 ≤ n ∧ n < 0xE000) then
        decodeFrom (name.take i ++ Char.ofNat n :: name.drop i) n (i + 1)
          (adapt (place = 0 ∧ name.all isAscii) delta size) rest
      else none
termination_by s.length
decreasing_by exact length_number? _h

def decode? (s : List Char) : Option (List Char) :=
  let back := s.reverse
  let extended := (back.takeWhile (· ≠ '-')).reverse
  let basic := ((back.dropWhile (· ≠ '-')).drop 1).reverse
  decodeFrom basic 128 0 72 extended

end ChatGateway.Url.Punycode
