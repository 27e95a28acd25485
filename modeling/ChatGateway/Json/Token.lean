import ChatGateway.Json.Numeral

/-!
# Tokens

The words of JSON text. A string or a numeral that is well formed but has no value (half of a
surrogate pair, a number out of range) is a word all the same, because a reader may pass over it.
`bad` stands where the text cannot be continued.
-/

namespace ChatGateway.Json

inductive Token where
  | openArray | closeArray | openObject | closeObject | comma | colon
  | null
  | bool (b : Bool)
  | num (n : Number)
  | str (s : String)
  | voidNum
  | voidStr
  | bad
deriving DecidableEq, Repr

def isSpace (c : Char) : Bool := c == ' ' || c == '\n' || c == '\t' || c == '\r'

def hexValue? (c : Char) : Option Nat :=
  let n := c.toNat
  if 48 ≤ n && n ≤ 57 then some (n - 48)
  else if 97 ≤ n && n ≤ 102 then some (n - 87)
  else if 65 ≤ n && n ≤ 70 then some (n - 55)
  else none

def hex4? (a b c d : Char) : Option Nat := do
  let a ← hexValue? a
  let b ← hexValue? b
  let c ← hexValue? c
  let d ← hexValue? d
  some (((a * 16 + b) * 16 + c) * 16 + d)

def unescape? : Char → Option Char
  | '"' => some '"'
  | '\\' => some '\\'
  | '/' => some '/'
  | 'b' => some (Char.ofNat 8)
  | 'f' => some (Char.ofNat 12)
  | 'n' => some '\n'
  | 'r' => some '\r'
  | 't' => some '\t'
  | _ => none

def isHighSurrogate (n : Nat) : Bool := 0xD800 ≤ n && n ≤ 0xDBFF

def isLowSurrogate (n : Nat) : Bool := 0xDC00 ≤ n && n ≤ 0xDFFF

/-- What precedes a piece of a string: one more character, or none that has a value. -/
def prepend (c : Option Char) (r : Option (List Char) × List Char) :
    Option (List Char) × List Char :=
  (c.bind fun c => r.1.map (c :: ·), r.2)

/-- A string after its opening quote, unless the text breaks off in it. Its characters are missing
where an escape in it has no value. -/
def stringBody? : List Char → Option (Option (List Char) × List Char)
  | [] => none
  | '"' :: s => some (some [], s)
  | '\\' :: 'u' :: a :: b :: c :: d :: '\\' :: 'u' :: e :: f :: g :: h :: s =>
    match hex4? a b c d with
    | none => none
    | some high =>
      if isHighSurrogate high then
        match hex4? e f g h with
        | none => none
        | some low =>
          if isLowSurrogate low then
            (stringBody? s).map
              (prepend (some (Char.ofNat (0x10000 + (high - 0xD800) * 0x400 + (low - 0xDC00)))))
          else (stringBody? s).map (prepend none)
      else
        (stringBody? ('\\' :: 'u' :: e :: f :: g :: h :: s)).map
          (prepend (if isLowSurrogate high then none else some (Char.ofNat high)))
  | '\\' :: 'u' :: a :: b :: c :: d :: s =>
    match hex4? a b c d with
    | none => none
    | some n =>
      (stringBody? s).map
        (prepend (if isHighSurrogate n || isLowSurrogate n then none else some (Char.ofNat n)))
  | '\\' :: e :: s =>
    match unescape? e with
    | none => none
    | some c => (stringBody? s).map (prepend (some c))
  | c :: s => if c = '\\' || c.toNat < 0x20 then none else (stringBody? s).map (prepend (some c))

theorem length_stringBody?_map {s : List Char} {c : Option Char} {n : Nat}
    {r : Option (List Char) × List Char}
    (ih : ∀ {t}, stringBody? s = some t → t.2.length < s.length) (hn : s.length ≤ n)
    (h : (stringBody? s).map (prepend c) = some r) : r.2.length < n := by
  obtain ⟨t, ht, rfl⟩ := Option.map_eq_some_iff.mp h
  exact Nat.lt_of_lt_of_le (ih ht : t.2.length < s.length) hn

theorem length_stringBody? {s : List Char} {r : Option (List Char) × List Char}
    (h : stringBody? s = some r) : r.2.length < s.length := by
  fun_induction stringBody? s generalizing r with
  | case1 => cases h
  | case2 s => cases h; simp
  | case3 => cases h
  | case4 => cases h
  | case5 _ _ _ _ _ _ _ _ s _ _ _ _ _ _ ih => exact length_stringBody?_map ih (by simp; omega) h
  | case6 _ _ _ _ _ _ _ _ s _ _ _ _ _ _ ih => exact length_stringBody?_map ih (by simp; omega) h
  | case7 _ _ _ _ _ _ _ _ s _ _ _ ih => exact length_stringBody?_map ih (by simp) h
  | case8 => cases h
  | case9 _ _ _ _ s _ _ _ ih => exact length_stringBody?_map ih (by simp; omega) h
  | case10 => cases h
  | case11 _ s _ _ _ _ ih => exact length_stringBody?_map ih (by simp; omega) h
  | case12 => cases h
  | case13 _ s _ _ _ _ _ ih => exact length_stringBody?_map ih (by simp) h

/-- The word that a character begins, and the rest, unless no word goes on this way. -/
def word? (c : Char) (s : List Char) : Option (Token × List Char) :=
  match c with
  | '[' => some (.openArray, s)
  | ']' => some (.closeArray, s)
  | '\x7b' => some (.openObject, s)
  | '\x7d' => some (.closeObject, s)
  | ',' => some (.comma, s)
  | ':' => some (.colon, s)
  | '"' => (stringBody? s).map fun (body, rest) =>
      ((body.map fun cs => Token.str (String.ofList cs)).getD .voidStr, rest)
  | 'n' => if ['u', 'l', 'l'].isPrefixOf s then some (.null, s.drop 3) else none
  | 't' => if ['r', 'u', 'e'].isPrefixOf s then some (.bool true, s.drop 3) else none
  | 'f' => if ['a', 'l', 's', 'e'].isPrefixOf s then some (.bool false, s.drop 4) else none
  | c => (numeral? (c :: s)).map fun (x, rest) => ((x.number?.map .num).getD .voidNum, rest)

theorem length_word? {c : Char} {s rest : List Char} {t : Token}
    (h : word? c s = some (t, rest)) : rest.length ≤ s.length := by
  unfold word? at h
  split at h
  · cases h; exact Nat.le_refl _
  · cases h; exact Nat.le_refl _
  · cases h; exact Nat.le_refl _
  · cases h; exact Nat.le_refl _
  · cases h; exact Nat.le_refl _
  · cases h; exact Nat.le_refl _
  · obtain ⟨⟨b, r⟩, hs, he⟩ := Option.map_eq_some_iff.mp h
    obtain ⟨-, rfl⟩ := Prod.mk.inj he
    exact Nat.le_of_lt (length_stringBody? hs)
  · split at h
    · cases h; simp
    · cases h
  · split at h
    · cases h; simp
    · cases h
  · split at h
    · cases h; simp
    · cases h
  · obtain ⟨⟨x, r⟩, hs, he⟩ := Option.map_eq_some_iff.mp h
    obtain ⟨-, rfl⟩ := Prod.mk.inj he
    have := length_numeral? hs
    simp only [List.length_cons] at this
    omega

def tokens : List Char → List Token
  | [] => []
  | c :: s =>
    if isSpace c then tokens s
    else
      match _h : word? c s with
      | none => [.bad]
      | some (t, rest) => t :: tokens rest
termination_by s => s.length
decreasing_by
  · simp
  · have := length_word? _h
    simp only [List.length_cons]
    omega

end ChatGateway.Json
