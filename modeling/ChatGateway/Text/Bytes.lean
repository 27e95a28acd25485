/-!
# Text in bytes

Text comes over the wire as bytes of UTF-8 and in pieces that may end within a character. Main
statement: what is written is read back, whatever follows it.
-/

namespace ChatGateway.Text

def encode (s : List Char) : List UInt8 := s.flatMap String.utf8EncodeChar

/-- The character at the beginning of some bytes; it takes at most four of them. -/
def firstChar? (bytes : List UInt8) : Option Char := (bytes.take 4).toByteArray.utf8DecodeChar? 0

/-- The longest beginning of some bytes that is a text, and the bytes that are left. -/
def decode : List UInt8 → List Char × List UInt8
  | [] => ([], [])
  | b :: bs =>
    match firstChar? (b :: bs) with
    | none => ([], b :: bs)
    | some c =>
      let (s, rest) := decode ((b :: bs).drop c.utf8Size)
      (c :: s, rest)
termination_by bytes => bytes.length
decreasing_by
  have := Char.utf8Size_pos c
  simp only [List.length_drop, List.length_cons]
  omega

def decodeAll? (bytes : List UInt8) : Option (List Char) :=
  match decode bytes with
  | (s, []) => some s
  | _ => none

/-- A byte may stand behind the first byte of a character of three or four bytes. -/
def mayFollow (first next : UInt8) : Bool :=
  let low : UInt8 := if first = 0xE0 then 0xA0 else if first = 0xF0 then 0x90 else 0x80
  let high : UInt8 := if first = 0xED then 0x9F else if first = 0xF4 then 0x8F else 0xBF
  0xE0 ≤ first && first ≤ 0xF4 && low ≤ next && next ≤ high

/-- How many of the bytes behind `first` belong to the character that it begins but does not
complete. -/
def brokenTail (first : UInt8) : List UInt8 → Nat
  | [] => 0
  | [b] => if mayFollow first b then 1 else 0
  | b :: c :: _ =>
    if mayFollow first b then (if 0xF0 ≤ first && 0x80 ≤ c && c ≤ 0xBF then 2 else 1) else 0

/-- The text of some bytes, with a mark for each place where they are no text. -/
def decodeLossy : List UInt8 → List Char
  | [] => []
  | b :: bs =>
    match firstChar? (b :: bs) with
    | some c => c :: decodeLossy ((b :: bs).drop c.utf8Size)
    | none => '\ufffd' :: decodeLossy (bs.drop (brokenTail b bs))
termination_by bytes => bytes.length
decreasing_by
  · have := Char.utf8Size_pos c
    simp only [List.length_drop, List.length_cons]
    omega
  · simp only [List.length_drop, List.length_cons]
    omega

theorem firstChar?_encode (c : Char) (bytes : List UInt8) :
    firstChar? (String.utf8EncodeChar c ++ bytes) = some c := by
  have h : c.utf8Size ≤ 4 := Char.utf8Size_le_four c
  have hl : (String.utf8EncodeChar c).length = c.utf8Size := String.length_utf8EncodeChar c
  rw [firstChar?, List.take_append, List.take_of_length_le (by omega), List.toByteArray_append]
  exact ByteArray.utf8DecodeChar?_utf8EncodeChar_append

theorem decode_cons_append (c : Char) (bytes : List UInt8) :
    decode (String.utf8EncodeChar c ++ bytes) = (c :: (decode bytes).1, (decode bytes).2) := by
  have hl : (String.utf8EncodeChar c).length = c.utf8Size := String.length_utf8EncodeChar c
  have hf := firstChar?_encode c bytes
  have hd : (String.utf8EncodeChar c ++ bytes).drop c.utf8Size = bytes := by
    rw [← hl, List.drop_left]
  generalize he : String.utf8EncodeChar c ++ bytes = w at hf hd
  cases w with
  | nil =>
    have hc := Char.utf8Size_pos c
    rw [(List.append_eq_nil_iff.mp he).1, List.length_nil] at hl
    omega
  | cons b bs =>
    rw [decode, hf]
    simp only [hd]

theorem decode_encode_append (s : List Char) (bytes : List UInt8) :
    decode (encode s ++ bytes) = (s ++ (decode bytes).1, (decode bytes).2) := by
  induction s with
  | nil => rfl
  | cons c s ih =>
    have h : encode (c :: s) = String.utf8EncodeChar c ++ encode s := rfl
    rw [h, List.append_assoc, decode_cons_append, ih]
    rfl

theorem decodeAll?_encode (s : List Char) : decodeAll? (encode s) = some s := by
  have h := decode_encode_append s []
  rw [List.append_nil] at h
  have h0 : decode [] = ([], []) := by rw [decode]
  rw [decodeAll?, h, h0, List.append_nil]

end ChatGateway.Text
