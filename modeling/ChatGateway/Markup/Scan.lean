import ChatGateway.Markup.Kimi
import ChatGateway.Markup.Qwen

/-!
# Scanning text for markup

A buffer of text is scanned for the first span of either markup. `drain` goes on until nothing is
complete any more: what it returns is, in order, the text and the calls that are certain, further
text that is certain, and a tail that has to wait.
-/

namespace ChatGateway.Markup

open Text

/-- A markup: the markers around a span and the calls that the inside of a span spells. -/
structure Grammar where
  opening : List Char
  closing : List Char
  calls : List Messages.Tool → List Char → List Call

def qwen : Grammar := ⟨Qwen.wrapperBegin, Qwen.wrapperEnd, Qwen.wrapperCalls⟩

def kimi : Grammar := ⟨Kimi.sectionBegin, Kimi.sectionEnd, fun _ => Kimi.sectionCalls⟩

def openings : List (List Char) := [qwen.opening, kimi.opening]

def grammarOf (opening : List Char) : Grammar := if opening = qwen.opening then qwen else kimi

/-- What the front of a buffer is. -/
inductive Extraction where
  /-- No span begins; `held` may be the beginning of a marker. -/
  | plain (safe held : List Char)
  /-- A span begins behind `leading` and does not end. -/
  | incomplete (leading rest : List Char)
  | found (leading : List Char) (calls : List Call) (rest : List Char)
  /-- A span ends but spells no calls; it is text. -/
  | literal (text rest : List Char)
deriving DecidableEq, Repr

def scan (tools : List Messages.Tool) (buffer : List Char) : Extraction :=
  match cutAny? openings buffer with
  | none =>
    let (safe, held) := splitHeld openings buffer
    .plain safe held
  | some (leading, opening, after) =>
    let g := grammarOf opening
    match cut? g.closing after with
    | none => .incomplete leading (opening ++ after)
    | some (body, rest) =>
      let cs := g.calls tools body
      if cs.isEmpty then .literal (leading ++ opening ++ body ++ g.closing) rest
      else .found leading cs rest

theorem length_scan_found {tools : List Messages.Tool} {buffer leading rest : List Char}
    {cs : List Call} (h : scan tools buffer = .found leading cs rest) :
    rest.length < buffer.length := by
  rw [scan] at h
  split at h
  · exact absurd h (by simp)
  · next l o a hc =>
    dsimp only at h
    split at h
    · exact absurd h (by simp)
    · next b r hr =>
      split at h
      · exact absurd h (by simp)
      · obtain ⟨-, -, rfl⟩ := Extraction.found.inj h
        exact Nat.lt_trans (length_cut? hr) (length_cutAny? hc)

theorem length_scan_literal {tools : List Messages.Tool} {buffer text rest : List Char}
    (h : scan tools buffer = .literal text rest) : rest.length < buffer.length := by
  rw [scan] at h
  split at h
  · exact absurd h (by simp)
  · next l o a hc =>
    dsimp only at h
    split at h
    · exact absurd h (by simp)
    · next b r hr =>
      split at h
      · obtain ⟨-, rfl⟩ := Extraction.literal.inj h
        exact Nat.lt_trans (length_cut? hr) (length_cutAny? hc)
      · exact absurd h (by simp)

/-- A part of a text that is certain. -/
inductive Segment where
  | text (s : List Char)
  | calls (cs : List Call)
deriving DecidableEq, Repr

structure Drained where
  segments : List Segment
  settled : List Char
  held : List Char
deriving DecidableEq, Repr

def Drained.after (d : Drained) (segments : List Segment) : Drained :=
  { d with segments := segments ++ d.segments }

def drain (tools : List Messages.Tool) (buffer : List Char) : Drained :=
  match _h : scan tools buffer with
  | .plain safe held => ⟨[], safe, held⟩
  | .incomplete leading rest => ⟨[], leading, rest⟩
  | .found leading cs rest => (drain tools rest).after [.text leading, .calls cs]
  | .literal text rest => (drain tools rest).after [.text text]
termination_by buffer.length
decreasing_by
  · exact length_scan_found _h
  · exact length_scan_literal _h

end ChatGateway.Markup
