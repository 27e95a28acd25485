import ChatGateway.Markup.Kimi
import ChatGateway.Markup.Piece

/-!
# Kimi markup in a growing text

A parser is shown longer and longer beginnings of a text. It remembers how many bytes it has dealt
with and whether it is in ordinary text, in a header or in arguments. Section markers are dropped
from ordinary text.
-/

namespace ChatGateway.Markup.KimiStream

open Text Kimi

inductive Mode where
  | content
  | header
  /-- White space in front of the arguments is dropped until they have `started`. -/
  | arguments (started : Bool)
deriving DecidableEq, Repr

/-- Where a parser is. The calls before the one at hand are counted by `slot`. -/
structure Progress where
  mode : Mode
  slot : Nat
deriving DecidableEq, Repr

structure State where
  consumed : Nat
  progress : Progress
deriving DecidableEq, Repr

def start : State := ⟨0, .content, 0⟩

def State.place (st : State) : Progress × Nat := (st.progress, st.consumed)

/-- The number of calls whose header has been passed. -/
def State.callsStarted (s : State) : Nat :=
  match s.progress.mode with
  | .arguments _ => s.progress.slot + 1
  | _ => s.progress.slot

def dropSectionMarkers (s : List Char) : List Char := remove sectionEnd (remove sectionBegin s)

def headerPiece (slot : Nat) (s : List Char) : Piece :=
  let (name, index) := parseHeader (trim s)
  .header slot (some (callId index)) (String.ofList name)

/-- Goes on as far as it is certain, and returns what is left. -/
def run (p : Progress) (s : List Char) : List Piece × Progress × List Char :=
  match p.mode with
  | .content =>
    match _h : cut? callBegin s with
    | some (before, after) =>
      let (ps, q, rest) := run ⟨.header, p.slot⟩ after
      (.text (dropSectionMarkers before) :: ps, q, rest)
    | none =>
      let (safe, held) := splitHeld [callBegin, sectionBegin, sectionEnd] s
      ([.text (dropSectionMarkers safe)], p, held)
  | .header =>
    match _h : cut? argumentBegin s with
    | some (before, after) =>
      let (ps, q, rest) := run ⟨.arguments false, p.slot⟩ after
      (headerPiece p.slot before :: ps, q, rest)
    | none => ([], p, s)
  | .arguments started =>
    let t := if started then s else trimStart s
    match _h : cut? callEnd t with
    | some (before, after) =>
      let (ps, q, rest) := run ⟨.content, p.slot + 1⟩ after
      (argumentPieces p.slot (trimEnd before) ++ ps, q, rest)
    | none =>
      let (safe, held) := splitHeld [callEnd] t
      (argumentPieces p.slot safe,
        ⟨if safe.isEmpty then p.mode else .arguments true, p.slot⟩, held)
termination_by s.length
decreasing_by
  · exact length_cut? _h
  · exact length_cut? _h
  · have h1 := length_cut? _h
    have h2 := length_trimStart_le s
    grind

def advance (st : State) (previous current : String) : List Piece × State :=
  let (ps, p, consumed) := proceed run start.progress st.place previous current
  (ps, ⟨consumed, p⟩)

end ChatGateway.Markup.KimiStream
