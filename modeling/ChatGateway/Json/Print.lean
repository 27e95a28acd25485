import ChatGateway.Json.Value
import ChatGateway.Number.Shortest

/-!
# JSON text

A value is written without white space. In strings the quote, the backslash and the characters
below the space are escaped and nothing else.
-/

namespace ChatGateway.Json

def escape (c : Char) : List Char :=
  if c = '"' then ['\\', '"']
  else if c = '\\' then ['\\', '\\']
  else if c.toNat < 0x20 then
    if c = '\n' then ['\\', 'n']
    else if c = '\r' then ['\\', 'r']
    else if c = '\t' then ['\\', 't']
    else if c.toNat = 8 then ['\\', 'b']
    else if c.toNat = 12 then ['\\', 'f']
    else ['\\', 'u', '0', '0', (c.toNat / 16).digitChar, (c.toNat % 16).digitChar]
  else [c]

def escapeText (s : List Char) : List Char := s.flatMap escape

def quote (s : List Char) : List Char := '"' :: (escapeText s ++ ['"'])

def intText (n : Int) : List Char :=
  if n < 0 then '-' :: Nat.toDigits 10 n.natAbs else Nat.toDigits 10 n.natAbs

def Number.render : Number → List Char
  | .int n => intText n
  | .float x => x.text.toList

namespace Value

mutual

def render : Value → List Char
  | .null => ['n', 'u', 'l', 'l']
  | .bool true => ['t', 'r', 'u', 'e']
  | .bool false => ['f', 'a', 'l', 's', 'e']
  | .num n => n.render
  | .str s => quote s.toList
  | .arr items => '[' :: renderItems items
  | .obj members => '\x7b' :: renderMembers members

def renderItems : List Value → List Char
  | [] => [']']
  | [v] => v.render ++ [']']
  | v :: w :: items => v.render ++ ',' :: renderItems (w :: items)

def renderMembers : List (String × Value) → List Char
  | [] => ['\x7d']
  | [(k, v)] => quote k.toList ++ ':' :: (v.render ++ ['\x7d'])
  | (k, v) :: m :: members =>
    quote k.toList ++ ':' :: (v.render ++ ',' :: renderMembers (m :: members))

end

def text (v : Value) : String := String.ofList v.render

end Value

end ChatGateway.Json
