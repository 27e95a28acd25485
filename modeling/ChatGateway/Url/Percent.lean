import ChatGateway.Json.Token
import ChatGateway.Text.Bytes

/-!
# Percent-encoding

Bytes in an address, each written as a percent sign and two digits. Controls and all beyond ASCII
are always written so; which other characters are depends on the part of the address.
-/

namespace ChatGateway.Url

def percentByte (b : UInt8) : List Char :=
  ['%', (b.toNat / 16).digitChar.toUpper, (b.toNat % 16).digitChar.toUpper]

def percentEncode (reserved : Char → Bool) (s : List Char) : List Char :=
  s.flatMap fun c =>
    if c.toNat < 0x20 || 0x7E < c.toNat || reserved c then (Text.encode [c]).flatMap percentByte
    else [c]

/-- The bytes of a text. A percent sign that two digits do not follow stands for itself. -/
def percentDecode : List Char → List UInt8
  | [] => []
  | c :: s =>
    match c, s with
    | '%', a :: b :: t =>
      match Json.hexValue? a, Json.hexValue? b with
      | some x, some y => UInt8.ofNat (16 * x + y) :: percentDecode t
      | _, _ => Text.encode ['%'] ++ percentDecode (a :: b :: t)
    | c, s => Text.encode [c] ++ percentDecode s

/-! ### What is written as bytes in each part -/

def nothingReserved (_ : Char) : Bool := false

def fragmentReserved (c : Char) : Bool := " \"<>\x60".toList.contains c

def pathReserved (c : Char) : Bool := fragmentReserved c || "#?\x7b\x7d".toList.contains c

def queryReserved (special : Bool) (c : Char) : Bool :=
  " \"#<>".toList.contains c || (special && c = '\'')

def userReserved (c : Char) : Bool := pathReserved c || "/:;=@[\\]^|".toList.contains c

end ChatGateway.Url
