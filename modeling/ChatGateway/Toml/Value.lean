import ChatGateway.Toml.Item
import ChatGateway.Toml.Quoted
import ChatGateway.Toml.Scalar

/-!
# Keys and values of configuration files

A value is a word, a quoted text, an array or a table on one line. Arrays may run over several
lines. Each reader takes a text and gives what it begins with and the rest.
-/

namespace ChatGateway.Toml

open Json

/-- How deep values may be nested, and how many parts a dotted key may have. -/
def maxDepth : Nat := 79

def isBare (c : Char) : Bool := c.isAlphanum || c = '-' || c = '_'

def simpleKey? (s : List Char) : Option (String × List Char) :=
  (quotedLine? s).map (fun (k, rest) => (String.ofList k, rest)) |>.or
    (let k := s.takeWhile isBare
      if k.isEmpty then none else some (String.ofList k, s.dropWhile isBare))

/-- A key with at most the given number of parts: the parts in front of the last one, and that. -/
def keyParts? : Nat → List Char → Option (List String × String × List Char)
  | 0, _ => none
  | room + 1, s =>
    (simpleKey? (s.dropWhile isBlank)).bind fun (k, s) =>
      match s.dropWhile isBlank with
      | '.' :: t => (keyParts? room t).map fun (ks, last, rest) => (k :: ks, last, rest)
      | t => some ([], k, t)

def key? (s : List Char) : Option (List String × String × List Char) := keyParts? maxDepth s

/-- The end of a line, after white space and a comment; a text may also end there. -/
def lineEnd? (s : List Char) : Option (List Char) :=
  let rest :=
    match s.dropWhile isBlank with
    | '#' :: t => t.dropWhile isPlain
    | t => t
  match rest with
  | [] => some []
  | '\n' :: t => some t
  | '\r' :: '\n' :: t => some t
  | _ => none

/-- Drops white space, ends of lines and comments. `commented` is true within a comment. -/
def skip? (commented : Bool) : List Char → Option (List Char)
  | [] => some []
  | '\r' :: '\n' :: s => skip? false s
  | c :: s =>
    if c = '\n' then skip? false s
    else if commented then (if isPlain c then skip? true s else none)
    else if isBlank c then skip? false s
    else if c = '#' then skip? true s
    else some (c :: s)

mutual

/-- A value. `room` is how many arrays and tables may still be opened within each other. -/
def valueWithin? : Nat → Nat → List Char → Option (Document × List Char)
  | 0, _, _ => none
  | fuel + 1, room, s =>
    match s, room with
    | '[' :: _, 0 | '\x7b' :: _, 0 => none
    | '[' :: t, room + 1 => (items? fuel room t).map fun (ds, rest) => (.arr ds, rest)
    | '\x7b' :: t, room + 1 =>
      match t.dropWhile isBlank with
      | '\x7d' :: rest => some (.obj [], rest)
      | t => (pairs? fuel room [] t).map fun (es, rest) => (.obj (documents es), rest)
    | '"' :: _, _ | '\'' :: _, _ => (quoted? s).map fun (t, rest) => (.str (String.ofList t), rest)
    | _, _ =>
      let (w, rest) := cutWord s
      (ofWord? w).map (·, rest)

def items? : Nat → Nat → List Char → Option (List Document × List Char)
  | 0, _, _ => none
  | fuel + 1, room, s =>
    (skip? false s).bind fun s =>
      match s with
      | ']' :: rest => some ([], rest)
      | s =>
        (valueWithin? fuel room s).bind fun (d, s) =>
          (skip? false s).bind fun s =>
            match s with
            | ',' :: t => (items? fuel room t).map fun (ds, rest) => (d :: ds, rest)
            | ']' :: rest => some ([d], rest)
            | _ => none

def pairs? : Nat → Nat → Entries → List Char → Option (Entries × List Char)
  | 0, _, _, _ => none
  | fuel + 1, room, es, s =>
    (key? s).bind fun (keys, key, s) =>
      match s with
      | '=' :: t =>
        (valueWithin? fuel room (t.dropWhile isBlank)).bind fun (d, s) =>
          (es.assign keys key d).bind fun es =>
            match s.dropWhile isBlank with
            | ',' :: t => pairs? fuel room es t
            | '\x7d' :: rest => some (es, rest)
            | _ => none
      | _ => none

end

/-- A value. No more readers are nested than twice the length of the text. -/
def value? (s : List Char) : Option (Document × List Char) :=
  valueWithin? (2 * s.length + 2) maxDepth s

end ChatGateway.Toml
