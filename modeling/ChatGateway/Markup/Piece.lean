import ChatGateway.Chat.Chunk
import ChatGateway.Markup.Call
import ChatGateway.Text.Utf8

/-!
# Pieces of incremental extraction

What a parser of markup finds in a text that is still growing: ordinary text, the header of a call,
and further text of its arguments. `delta` is how they are sent on, and `proceed` how a parser goes on
when the text has grown.
-/

namespace ChatGateway.Markup

inductive Piece where
  | text (s : List Char)
  /-- The beginning of a call. One without an id is given a fresh one. -/
  | header (slot : Nat) (id? : Option String) (name : String)
  | argument (slot : Nat) (s : List Char)
deriving DecidableEq, Repr

namespace Piece

def content : List Piece → List Char
  | [] => []
  | .text s :: ps => s ++ content ps
  | _ :: ps => content ps

def freshIds : List Piece → Nat
  | [] => 0
  | .header _ none _ :: ps => freshIds ps + 1
  | _ :: ps => freshIds ps

def fragments (supply : Supply) : Nat → List Piece → List Chat.CallFragment
  | _, [] => []
  | issued, .text _ :: ps => fragments supply issued ps
  | issued, .header slot (some id) name :: ps =>
    ⟨slot, some id, some "function", some (some name, some "")⟩ :: fragments supply issued ps
  | issued, .header slot none name :: ps =>
    ⟨slot, some (supply issued), some "function", some (some name, some "")⟩ ::
      fragments supply (issued + 1) ps
  | issued, .argument slot s :: ps =>
    ⟨slot, none, none, some (none, some (String.ofList s))⟩ :: fragments supply issued ps

/-- The pieces as one delta, if there is anything in them. -/
def delta (supply : Supply) (issued : Nat) (ps : List Piece) : Option Chat.ChunkDelta :=
  let text := content ps
  let calls := fragments supply issued ps
  if text.isEmpty && calls.isEmpty then none
  else some ⟨none, if text.isEmpty then none else some (String.ofList text), none,
    if calls.isEmpty then none else some calls⟩

end Piece

def argumentPieces (slot : Nat) (s : List Char) : List Piece :=
  if s.isEmpty then [] else [.argument slot s]

/-- Shows a text, after an earlier one, to a parser that has dealt with a number of bytes. It starts
anew after the empty text, and where the text has become shorter than what has been dealt with. A
`run` over the rest of the text says what is found, where the parser is then and what is left. -/
def proceed {π : Type} (run : π → List Char → List Piece × π × List Char) (first : π)
    (place : π × Nat) (previous current : String) : List Piece × π × Nat :=
  let s := current.toList
  let (p, consumed) :=
    if previous.isEmpty || Text.byteSize s < place.2 then (first, 0) else place
  let (ps, q, rest) := run p (Text.dropBytes consumed s)
  (ps, q, Text.byteSize s - Text.byteSize rest)

end ChatGateway.Markup
