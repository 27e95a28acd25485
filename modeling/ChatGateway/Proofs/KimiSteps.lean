import ChatGateway.Markup.KimiStream
import ChatGateway.Proofs.Deltas
import ChatGateway.Proofs.Machines
import ChatGateway.Proofs.Markers

/-!
# Steps of the incremental Kimi parser

A parser cuts the text that it reads into parts and sends on what each of them says. `Step` has one
case for each marker at which a parser goes on, `Pause` one for each way in which it stops and waits
for more text.
-/

namespace ChatGateway.Markup.KimiStream

open Text Kimi

/-! ## Parts of a text -/

inductive Part where
  | content (s : List Char)
  | header (slot : Nat) (s : List Char)
  | argument (slot : Nat) (s : List Char)
  /-- White space in front of arguments or behind them. -/
  | blanks (s : List Char) (h : s.all isBlank = true)
  | callBegin
  | argumentBegin
  | callEnd

namespace Part

def text : Part → List Char
  | content s => s
  | header _ s => s
  | argument _ s => s
  | blanks s _ => s
  | callBegin => Kimi.callBegin
  | argumentBegin => Kimi.argumentBegin
  | callEnd => Kimi.callEnd

def pieces : Part → List Piece
  | content s => [.text (dropSectionMarkers s)]
  | header slot s => [headerPiece slot s]
  | argument slot s => argumentPieces slot s
  | _ => []

end Part

def spelled (l : List Part) : List Char := l.flatMap Part.text

def piecesOf (l : List Part) : List Piece := l.flatMap Part.pieces

theorem spelled_append (l l' : List Part) : spelled (l ++ l') = spelled l ++ spelled l' :=
  List.flatMap_append

theorem piecesOf_append (l l' : List Part) : piecesOf (l ++ l') = piecesOf l ++ piecesOf l' :=
  List.flatMap_append

/-! ## White space in front of arguments -/

def argumentText (started : Bool) (s : List Char) : List Char :=
  if started then s else trimStart s

def leading (started : Bool) (s : List Char) : List Char :=
  if started then [] else s.takeWhile isBlank

theorem leading_append (started : Bool) (s : List Char) :
    leading started s ++ argumentText started s = s := by
  cases started with
  | true => rfl
  | false => exact List.takeWhile_append_dropWhile

theorem leading_blank (started : Bool) (s : List Char) :
    (leading started s).all isBlank = true := by
  cases started with
  | true => rfl
  | false => exact List.all_takeWhile

/-! ## Steps and pauses -/

def markers : List (List Char) := [callBegin, sectionBegin, sectionEnd]

theorem angled_markers : Angled markers := ⟨by decide, by decide, by decide⟩

theorem angled_callEnd : Angled [callEnd, argumentBegin] := ⟨by decide, by decide, by decide⟩

theorem angled_end : Angled [callEnd] := ⟨by decide, by decide, by decide⟩

/-- From a place in a text to a later place, over these parts of it. -/
inductive Step : Progress → List Char → List Part → Progress → List Char → Prop where
  | call {n : Nat} {s b a : List Char} (h : cut? callBegin s = some (b, a)) :
    Step ⟨.content, n⟩ s [.content b, .callBegin] ⟨.header, n⟩ a
  | named {n : Nat} {s b a : List Char} (h : cut? argumentBegin s = some (b, a)) :
    Step ⟨.header, n⟩ s [.header n b, .argumentBegin] ⟨.arguments false, n⟩ a
  | ended {n : Nat} {started : Bool} {s b a : List Char}
    (h : cut? callEnd (argumentText started s) = some (b, a)) :
    Step ⟨.arguments started, n⟩ s
      [.blanks (leading started s) (leading_blank started s), .argument n (trimEnd b),
        .blanks (trailing b) (trailing_blank b), .callEnd] ⟨.content, n + 1⟩ a

/-- The last pieces, the place that is kept, and the text that is left for later. -/
inductive Pause : Progress → List Char → List Piece → Progress → List Char → Prop where
  | content {n : Nat} {s : List Char} (h : cut? callBegin s = none) :
    Pause ⟨.content, n⟩ s [.text (dropSectionMarkers (splitHeld markers s).1)] ⟨.content, n⟩
      (splitHeld markers s).2
  | header {n : Nat} {s : List Char} (h : cut? argumentBegin s = none) :
    Pause ⟨.header, n⟩ s [] ⟨.header, n⟩ s
  | arguments {n : Nat} {started : Bool} {s : List Char}
    (h : cut? callEnd (argumentText started s) = none) :
    Pause ⟨.arguments started, n⟩ s
      (argumentPieces n (splitHeld [callEnd] (argumentText started s)).1)
      ⟨if (splitHeld [callEnd] (argumentText started s)).1.isEmpty then .arguments started
        else .arguments true, n⟩
      (splitHeld [callEnd] (argumentText started s)).2

theorem run_of_step {p q : Progress} {s t : List Char} {l : List Part} (h : Step p s l q t) :
    run p s = (piecesOf l ++ (run q t).1, (run q t).2) := by
  cases h with
  | call h => rw [run]; simp only; split <;> simp_all [piecesOf, Part.pieces]
  | named h => rw [run]; simp only; split <;> simp_all [piecesOf, Part.pieces]
  | ended h =>
    rw [argumentText] at h
    rw [run]; simp only; split <;> simp_all [piecesOf, Part.pieces]

theorem run_of_pause {p q : Progress} {s t : List Char} {ps : List Piece} (h : Pause p s ps q t) :
    run p s = (ps, q, t) := by
  cases h with
  | content h => rw [run]; simp only; split <;> simp_all [markers]
  | header h => rw [run]; simp only; split <;> simp_all
  | arguments h =>
    rw [argumentText] at h ⊢
    rw [run]; simp only; split <;> simp_all

theorem step_or_pause (p : Progress) (s : List Char) :
    (∃ l q t, Step p s l q t) ∨ ∃ ps q t, Pause p s ps q t := by
  obtain ⟨mode, n⟩ := p
  cases mode with
  | content =>
    cases h : cut? callBegin s with
    | some r => exact .inl ⟨_, _, _, .call h⟩
    | none => exact .inr ⟨_, _, _, .content h⟩
  | header =>
    cases h : cut? argumentBegin s with
    | some r => exact .inl ⟨_, _, _, .named h⟩
    | none => exact .inr ⟨_, _, _, .header h⟩
  | arguments started =>
    cases h : cut? callEnd (argumentText started s) with
    | some r => exact .inl ⟨_, _, _, .ended h⟩
    | none => exact .inr ⟨_, _, _, .arguments h⟩

theorem Step.spells {p q : Progress} {s t : List Char} {l : List Part} (h : Step p s l q t) :
    spelled l ++ t = s := by
  cases h with
  | call h | named h =>
    rw [← cut?_append (by decide) h]
    simp [spelled, Part.text]
  | @ended n started s b a h =>
    have htext := cut?_append (by decide) h
    calc spelled _ ++ t
        = leading started s ++ ((trimEnd b ++ trailing b) ++ callEnd ++ t) := by
          simp [spelled, Part.text]
      _ = s := by rw [trimEnd_append_trailing, htext, leading_append]

theorem Step.length_lt {p q : Progress} {s t : List Char} {l : List Part} (h : Step p s l q t) :
    t.length < s.length := by
  cases h with
  | call h | named h => exact length_cut? h
  | @ended n started s b a h =>
    have hlead := congrArg List.length (leading_append started s)
    have hcut := length_cut? h
    rw [List.length_append] at hlead
    omega

def machine : Machine Progress (List Part) where
  run := run
  Step := Step
  Pause := Pause
  said := piecesOf
  size _ s := s.length
  run_of_step := run_of_step
  run_of_pause := run_of_pause
  step_or_pause := step_or_pause
  size_lt := Step.length_lt

theorem run_induction {motive : Progress → List Char → Prop}
    (step : ∀ {p s l q t}, Step p s l q t → motive q t → motive p s)
    (pause : ∀ {p s ps q t}, Pause p s ps q t → motive p s) (p : Progress) (s : List Char) :
    motive p s :=
  machine.induction step pause p s

/-! ## What is left -/

theorem Step.suffix {p q : Progress} {s t : List Char} {l : List Part} (h : Step p s l q t) :
    t <:+ s := ⟨_, h.spells⟩

theorem Pause.suffix {p q : Progress} {s t : List Char} {ps : List Piece} (h : Pause p s ps q t) :
    t <:+ s := by
  cases h with
  | content h => exact ⟨_, splitHeld_append _ s⟩
  | header h => exact List.suffix_refl s
  | @arguments n started s h =>
    have hheld : (splitHeld [callEnd] (argumentText started s)).2 <:+ argumentText started s :=
      ⟨_, splitHeld_append _ _⟩
    exact hheld.trans ⟨_, leading_append started s⟩

theorem run_suffix (p : Progress) (s : List Char) : (run p s).2.2 <:+ s :=
  machine.run_suffix Step.suffix Pause.suffix p s

/-! ## Headers and their numbers -/

def Progress.headers (p : Progress) : Nat :=
  match p.mode with
  | .arguments _ => p.slot + 1
  | _ => p.slot

theorem Step.counts {p q : Progress} {s t : List Char} {l : List Part} (h : Step p s l q t) :
    Counts p.headers (piecesOf l) q.headers := by
  cases h with
  | call h => exact .text _ (.nil _)
  | named h => exact .header _ _ (.nil _)
  | ended h =>
    have := counts_argumentPieces
    simpa [piecesOf, Part.pieces, Progress.headers] using this _ _

theorem Pause.counts {p q : Progress} {s t : List Char} {ps : List Piece} (h : Pause p s ps q t) :
    Counts p.headers ps q.headers := by
  cases h with
  | content h => exact .text _ (.nil _)
  | header h => exact .nil _
  | @arguments n started s h =>
    have hsame : ∀ b : Bool, Progress.headers ⟨if b then .arguments started else .arguments true, n⟩
        = n + 1 := by
      intro b
      cases b <;> rfl
    rw [hsame]
    exact counts_argumentPieces n _

theorem run_counts (p : Progress) (s : List Char) :
    Counts p.headers (run p s).1 (run p s).2.1.headers :=
  machine.run_composed (R := fun p _ ps q _ => Counts p.headers ps q.headers)
    Counts.append Step.counts Pause.counts p s

end ChatGateway.Markup.KimiStream
