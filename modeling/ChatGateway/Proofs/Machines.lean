import ChatGateway.Markup.Piece
import Mathlib.Data.List.Infix

/-!
# Machines

A machine reads a text by steps until it pauses. What its steps and its pauses do, one after
another, its runs do.
-/

namespace ChatGateway.Markup

/-- The places that steps lead to. -/
inductive Visits {π α : Type} (step : π → List Char → α → π → List Char → Prop) :
    π → List Char → π → List Char → Prop where
  | here (p : π) (s : List Char) : Visits step p s p s
  | there {p q r : π} {s t u : List Char} {l : α} (h : step p s l q t)
    (hv : Visits step q t r u) : Visits step p s r u

theorem Visits.suffix {π α : Type} {step : π → List Char → α → π → List Char → Prop}
    (hstep : ∀ {p q s t l}, step p s l q t → t <:+ s) {p q : π} {s t : List Char}
    (h : Visits step p s q t) : t <:+ s := by
  induction h with
  | here p s => exact List.suffix_rfl
  | there h hv ih => exact ih.trans (hstep h)

/-- A run is steps up to a pause. What a step has read is `said` in pieces, and a pause has last
pieces of its own. Steps make what is to come smaller. -/
structure Machine (π α : Type) where
  run : π → List Char → List Piece × π × List Char
  Step : π → List Char → α → π → List Char → Prop
  Pause : π → List Char → List Piece → π → List Char → Prop
  said : α → List Piece
  size : π → List Char → Nat
  run_of_step : ∀ {p s l q t}, Step p s l q t → run p s = (said l ++ (run q t).1, (run q t).2)
  run_of_pause : ∀ {p s ps q t}, Pause p s ps q t → run p s = (ps, q, t)
  step_or_pause : ∀ p s, (∃ l q t, Step p s l q t) ∨ ∃ ps q t, Pause p s ps q t
  size_lt : ∀ {p s l q t}, Step p s l q t → size q t < size p s

namespace Machine

variable {π α : Type} (m : Machine π α)

/-- What steps hand on and pauses have, all runs have. -/
theorem induction {motive : π → List Char → Prop}
    (step : ∀ {p s l q t}, m.Step p s l q t → motive q t → motive p s)
    (pause : ∀ {p s ps q t}, m.Pause p s ps q t → motive p s) (p : π) (s : List Char) :
    motive p s := by
  induction h : m.size p s using Nat.strongRecOn generalizing p s with
  | _ n ih =>
    rcases m.step_or_pause p s with ⟨l, q, t, hs⟩ | ⟨ps, q, t, hp⟩
    · exact step hs (ih _ (h ▸ m.size_lt hs) q t rfl)
    · exact pause hp

/-- What composes, and is true of all steps and pauses, is true of all runs. -/
theorem run_composed {R : π → List Char → List Piece → π → List Char → Prop}
    (trans : ∀ {p q r s t u ps qs}, R p s ps q t → R q t qs r u → R p s (ps ++ qs) r u)
    (step : ∀ {p s l q t}, m.Step p s l q t → R p s (m.said l) q t)
    (pause : ∀ {p s ps q t}, m.Pause p s ps q t → R p s ps q t) (p : π) (s : List Char) :
    R p s (m.run p s).1 (m.run p s).2.1 (m.run p s).2.2 := by
  induction p, s using m.induction with
  | step h ih =>
    rw [m.run_of_step h]
    exact trans (step h) ih
  | pause h =>
    rw [m.run_of_pause h]
    exact pause h

theorem run_suffix (step : ∀ {p s l q t}, m.Step p s l q t → t <:+ s)
    (pause : ∀ {p s ps q t}, m.Pause p s ps q t → t <:+ s) (p : π) (s : List Char) :
    (m.run p s).2.2 <:+ s :=
  m.run_composed (R := fun _ s _ _ t => t <:+ s) (fun h h' => h'.trans h) step pause p s

theorem exists_pause (p : π) (s : List Char) :
    ∃ q t ps, m.Pause q t ps (m.run p s).2.1 (m.run p s).2.2 := by
  induction p, s using m.induction with
  | step h ih => rwa [m.run_of_step h]
  | @pause p s _ _ _ h =>
    rw [m.run_of_pause h]
    exact ⟨p, s, _, h⟩

end Machine

end ChatGateway.Markup
