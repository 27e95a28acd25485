import ChatGateway.Proofs.KimiSnapshots
import ChatGateway.Proofs.QwenSnapshots

/-!
# Text and calls take turns

What the two parsers of growing texts have in common. The calls that they send on do not depend on
the cuts but for white space behind arguments, and are numbered. Behind ordinary text a header comes
before any arguments.
-/

namespace ChatGateway.Markup

/-! ## Pieces in turn -/

/-- Arguments may come first if `b` holds, and may follow if `b'` does. -/
inductive Paced : Bool → List Piece → Bool → Prop where
  | nil {b b' : Bool} (h : b' = true → b = true) : Paced b [] b'
  | text {b b' : Bool} {ps : List Piece} (s : List Char) (h : Paced false ps b') :
    Paced b (.text s :: ps) b'
  | header {b b' : Bool} {ps : List Piece} (n : Nat) (id? : Option String) (name : String)
    (h : Paced true ps b') : Paced b (.header n id? name :: ps) b'
  | argument {b' : Bool} {ps : List Piece} (n : Nat) (s : List Char) (h : Paced true ps b') :
    Paced true (.argument n s :: ps) b'

theorem Paced.mono {b c b' : Bool} {ps : List Piece} (h : Paced b ps b') (hc : b = true → c = true) :
    Paced c ps b' := by
  cases h with
  | nil h => exact .nil fun hb => hc (h hb)
  | text s h => exact .text s h
  | header n id? name h => exact .header n id? name h
  | argument n s h =>
    rw [hc rfl]
    exact .argument n s h

theorem Paced.append {b b' b'' : Bool} {ps qs : List Piece} (h : Paced b ps b')
    (h' : Paced b' qs b'') : Paced b (ps ++ qs) b'' := by
  induction h with
  | nil hb => exact h'.mono hb
  | text s _ ih => exact .text s (ih h')
  | header n id? name _ ih => exact .header n id? name (ih h')
  | argument n s _ ih => exact .argument n s (ih h')

theorem paced_argumentPieces (n : Nat) (s : List Char) (b : Bool) :
    Paced true (argumentPieces n s) b := by
  unfold argumentPieces
  split
  · exact .nil fun _ => rfl
  · exact .argument n s (.nil fun _ => rfl)

def Turns : Bool → List (List Piece) → Prop
  | _, [] => True
  | b, ps :: pss => ∃ b', Paced b ps b' ∧ Turns b' pss

namespace Reader

variable {σ π : Type} (a : Reader σ π) {inside : π → Bool}
  (h : ∀ p s, Paced (inside p) (a.run p s).1 (inside (a.run p s).2.1))
include h

theorem turns_found (p : π) (rest : List Char) (xs : List String) :
    Turns (inside p) (a.found p rest xs) := by
  induction xs generalizing p rest with
  | nil => trivial
  | cons x xs ih => exact ⟨_, h p (rest ++ x.toList), ih _ _⟩

theorem turns_finds (xs : List String) :
    Turns (inside (a.place a.start).1) (a.finds a.start "" xs) := by
  rw [(a.follows_start.finds_eq xs).1]
  exact a.turns_found h _ _ xs

end Reader

/-! ## The Kimi parser -/

namespace KimiStream

open Text Kimi

/-- Further arguments may come before the next header. -/
def Progress.inside (p : Progress) : Bool :=
  match p.mode with
  | .arguments _ => true
  | _ => false

theorem Step.paced {p q : Progress} {s t : List Char} {l : List Part} (h : Step p s l q t) :
    Paced p.inside (piecesOf l) q.inside := by
  cases h with
  | call h => exact .text _ (.nil fun hb => hb)
  | named h => exact .header _ _ _ (.nil fun _ => rfl)
  | @ended n started s b a h =>
    have hpaced := paced_argumentPieces n (trimEnd b) false
    simpa [piecesOf, Part.pieces, Progress.inside] using hpaced

theorem Pause.paced {p q : Progress} {s t : List Char} {ps : List Piece} (h : Pause p s ps q t) :
    Paced p.inside ps q.inside := by
  cases h with
  | content h => exact .text _ (.nil fun hb => hb)
  | header h => exact .nil fun hb => hb
  | arguments h => exact paced_argumentPieces _ _ _

theorem run_paced (p : Progress) (s : List Char) : Paced p.inside (run p s).1 (run p s).2.1.inside :=
  machine.run_composed (R := fun p _ ps q _ => Paced p.inside ps q.inside)
    Paced.append Step.paced Pause.paced p s

end KimiStream

/-! ## The Qwen parser -/

namespace QwenStream

open Text Qwen

def Progress.inside (p : Progress) : Bool :=
  match p.mode with
  | .function | .parameterName | .parameterValue _ => true
  | _ => false

theorem Step.paced {p q : Progress} {s t : List Char} {ps : List Piece} (h : Step p s ps q t) :
    Paced p.inside ps q.inside := by
  cases h with
  | wrapper h | bareFunction h => exact .text _ (.nil fun hb => hb)
  | name h => exact .header _ _ _ (.argument _ _ (.nil fun _ => rfl))
  | close h | key h | value h => exact .argument _ _ (.nil fun _ => rfl)
  | wrappedFunction _ | emptyWrapper _ _ | parameter _ | leave _ | again _ | lost _ =>
    exact .nil fun hb => hb

theorem Pause.paced {p q : Progress} {s t : List Char} {ps : List Piece} (h : Pause p s ps q t) :
    Paced p.inside ps q.inside := by
  cases h with
  | content h => exact .text _ (.nil fun hb => hb)
  | value hs h => exact paced_argumentPieces _ _ _
  | wrapper _ _ | name _ | function _ | key _ | unstarted | functionEnd _ => exact .nil fun hb => hb

theorem run_paced (p : Progress) (s : List Char) : Paced p.inside (run p s).1 (run p s).2.1.inside :=
  machine.run_composed (R := fun p _ ps q _ => Paced p.inside ps q.inside)
    Paced.append Step.paced Pause.paced p s

end QwenStream

/-! ## Both parsers -/

/-- A call but for what its id is. -/
def Received.anonymous (r : Received) : Received := { r with id := r.id.map fun _ => "" }

theorem Mark.anonymous_calls (supply supply' : Supply) (n n' : Nat) (ms : List Mark) :
    (calls supply n ms).map Received.anonymous = (calls supply' n' ms).map Received.anonymous := by
  induction ms generalizing n n' with
  | nil => rfl
  | cons m ms ih =>
    cases m with
    | header slot id? name => cases id? <;> exact congrArg (_ :: ·) (ih _ _)
    | argument slot c => exact ih n n'

inductive Dialect where
  | kimi
  | qwen
deriving DecidableEq, Repr

namespace Dialect

def State : Dialect → Type
  | kimi => KimiStream.State
  | qwen => QwenStream.State

def Progress : Dialect → Type
  | kimi => KimiStream.Progress
  | qwen => QwenStream.Progress

instance : (d : Dialect) → DecidableEq d.Progress
  | kimi => inferInstanceAs (DecidableEq KimiStream.Progress)
  | qwen => inferInstanceAs (DecidableEq QwenStream.Progress)

def reader : (d : Dialect) → Reader d.State d.Progress
  | kimi => KimiStream.reader
  | qwen => QwenStream.reader

def parser (d : Dialect) : Parser d.State := d.reader.toParser

def deltas (d : Dialect) (supply : Supply) (xs : List String) : List (Option Chat.ChunkDelta) :=
  d.parser.feed supply d.parser.start "" xs

theorem trimmed_deltas (d : Dialect) (supply : Supply) {xs ys : List String}
    (h : String.join xs = String.join ys) :
    (callsIn (fragmentsIn (d.deltas supply xs))).map Received.trimmed =
      (callsIn (fragmentsIn (d.deltas supply ys))).map Received.trimmed := by
  cases d with
  | kimi =>
    have hcalls := KimiStream.trimmed_feed supply
    exact (hcalls xs).trans (h ▸ (hcalls ys).symm)
  | qwen =>
    have hcalls := QwenStream.callsIn_shown supply
    exact congrArg _ ((hcalls xs).trans (h ▸ (hcalls ys).symm))

theorem anonymous_deltas (d : Dialect) (supply supply' : Supply) {xs ys : List String}
    (h : String.join xs = String.join ys) :
    (callsIn (fragmentsIn (d.deltas supply xs))).map (·.trimmed.anonymous) =
      (callsIn (fragmentsIn (d.deltas supply' ys))).map (·.trimmed.anonymous) := by
  have hparts := congrArg (List.map Received.anonymous) (d.trimmed_deltas supply h)
  have hids : (callsIn (fragmentsIn (d.deltas supply ys))).map Received.anonymous =
      (callsIn (fragmentsIn (d.deltas supply' ys))).map Received.anonymous := by
    rw [deltas, deltas, Parser.callsIn_feed, Parser.callsIn_feed]
    exact Mark.anonymous_calls _ _ _ _ _
  have hids' := congrArg (List.map Received.trimmed) hids
  rw [List.map_map, List.map_map] at hparts hids'
  exact hparts.trans hids'

theorem numbered_deltas (d : Dialect) (supply : Supply) (xs : List String) :
    Numbered 0 (fragmentsIn (d.deltas supply xs)) := by
  cases d with
  | kimi => exact KimiStream.numbered_feed supply xs
  | qwen => exact QwenStream.numbered_feed supply xs

theorem turns_finds (d : Dialect) (xs : List String) :
    Turns false (d.parser.finds d.parser.start "" xs) := by
  cases d with
  | kimi => exact KimiStream.reader.turns_finds KimiStream.run_paced xs
  | qwen => exact QwenStream.reader.turns_finds QwenStream.run_paced xs

end Dialect

end ChatGateway.Markup
