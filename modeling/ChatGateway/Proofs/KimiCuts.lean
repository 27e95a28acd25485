import ChatGateway.Proofs.KimiSteps

/-!
# Kimi markup, cut anywhere

At a cut a parser stops inside a part of the text and later goes on with what is left of the part.
`Move` is a step or the part of a part that is read before a cut, in front of all the text that is
still to come. What a run finds is what is found on a move and by the run from there on, except for
white space at the end of arguments: it is sent on if a cut stands behind it, and otherwise trimmed.
-/

namespace ChatGateway.Markup

open Text

/-! ## Calls up to white space behind their arguments -/

def Received.trimmed (r : Received) : Received := { r with arguments := trimEnd r.arguments }

namespace Mark

/-- Puts a mark in front of marks, unless it is white space at the end of arguments. -/
def keep (m : Mark) (ms : List Mark) : List Mark :=
  match m with
  | .header _ _ _ => m :: ms
  | .argument _ c => if isBlank c = true ∧ argumentsOf ms = [] then ms else m :: ms

def tidy (ms : List Mark) : List Mark := ms.foldr keep []

theorem tidy_cons (m : Mark) (ms : List Mark) : tidy (m :: ms) = keep m (tidy ms) := rfl

theorem tidy_append_left {ms ms' : List Mark} (h : tidy ms = tidy ms') (l : List Mark) :
    tidy (l ++ ms) = tidy (l ++ ms') := by
  unfold tidy at h ⊢
  rw [List.foldr_append, List.foldr_append, h]

theorem argumentsOf_tidy (ms : List Mark) : argumentsOf (tidy ms) = trimEnd (argumentsOf ms) := by
  induction ms with
  | nil => rfl
  | cons m ms ih =>
    cases m with
    | header slot id? name => rfl
    | argument slot c =>
      rw [tidy_cons, keep, ih, argumentsOf, trimEnd_cons]
      split
      · next h => rw [ih, h.2]
      · rw [argumentsOf, ih]

theorem calls_tidy (supply : Supply) (n : Nat) (ms : List Mark) :
    calls supply n (tidy ms) = (calls supply n ms).map Received.trimmed := by
  induction ms generalizing n with
  | nil => rfl
  | cons m ms ih =>
    cases m with
    | header slot id? name =>
      cases id? <;>
        simp [tidy_cons, keep, calls, argumentsOf_tidy, ih, Received.trimmed]
    | argument slot c =>
      rw [tidy_cons, keep, calls, ← ih]
      split
      · rfl
      · rfl

/-- White space in front of a header, or in front of nothing, does not count. -/
theorem tidy_blanks {s : List Char} (hs : s.all isBlank = true) {ms : List Mark}
    (hms : argumentsOf ms = []) (slot : Nat) :
    tidy (s.map (.argument slot) ++ ms) = tidy ms := by
  have hnone : argumentsOf (tidy ms) = [] := by
    rw [argumentsOf_tidy, hms]
    rfl
  induction s with
  | nil => rfl
  | cons c s ih =>
    obtain ⟨hc, hs⟩ : isBlank c = true ∧ s.all isBlank = true := by simpa using hs
    rw [List.map_cons, List.cons_append, tidy_cons, ih hs, keep, if_pos ⟨hc, hnone⟩]

end Mark

namespace KimiStream

open Kimi

theorem tidy_trimEnd (n : Nat) (s : List Char) {ms : List Mark} (h : Mark.argumentsOf ms = []) :
    Mark.tidy ((trimEnd s).map (.argument n) ++ ms) = Mark.tidy (s.map (.argument n) ++ ms) := by
  have htrailing := Mark.tidy_blanks (trailing_blank s) h n
  calc Mark.tidy ((trimEnd s).map (.argument n) ++ ms)
      = Mark.tidy ((trimEnd s).map (.argument n) ++ ((trailing s).map (.argument n) ++ ms)) :=
        Mark.tidy_append_left htrailing.symm _
    _ = Mark.tidy (s.map (.argument n) ++ ms) := by
        rw [← List.append_assoc, ← List.map_append, trimEnd_append_trailing]

/-! ## Steps with more text behind -/

theorem argumentText_append {started : Bool} {x : List Char} (h : argumentText started x ≠ [])
    (y : List Char) : argumentText started (x ++ y) = argumentText started x ++ y := by
  cases started with
  | true => rfl
  | false => exact trimStart_append h y

theorem leading_of_append {started : Bool} {x : List Char} (h : argumentText started x ≠ [])
    (y : List Char) : leading started (x ++ y) = leading started x := by
  have hx := leading_append started x
  have hxy := leading_append started (x ++ y)
  rw [argumentText_append h] at hxy
  nth_rewrite 3 [← hx] at hxy
  rw [List.append_assoc] at hxy
  exact List.append_cancel_right hxy

theorem argumentText_ne_nil {started : Bool} {x b a : List Char}
    (h : cut? callEnd (argumentText started x) = some (b, a)) : argumentText started x ≠ [] := by
  intro hnil
  rw [hnil] at h
  exact absurd h (by simp [cut?])

theorem Step.append {p q : Progress} {x t : List Char} {l : List Part} (h : Step p x l q t)
    (y : List Char) : Step p (x ++ y) l q (t ++ y) := by
  cases h with
  | call h => exact .call (cut?_append_right (by decide) h y)
  | named h => exact .named (cut?_append_right (by decide) h y)
  | @ended n started x b a h =>
    have hne := argumentText_ne_nil h
    have hcut := cut?_append_right (by decide) h y
    rw [← argumentText_append hne] at hcut
    have hstep := Step.ended (n := n) hcut
    simp only [leading_of_append hne y] at hstep
    exact hstep

/-! ## Moves -/

/-- A step, or what is read of a part before a cut. -/
inductive Move : Progress → List Char → List Part → Progress → List Char → Prop where
  | step {p q : Progress} {s t : List Char} {l : List Part} (h : Step p s l q t) : Move p s l q t
  | content {n : Nat} {s t : List Char} (hn : ¬ callBegin <:+: s) (hs : Settled markers s t) :
    Move ⟨.content, n⟩ (s ++ t) [.content s] ⟨.content, n⟩ t
  | blanks {n : Nat} {s t : List Char} (h : s.all isBlank = true) :
    Move ⟨.arguments false, n⟩ (s ++ t) [.blanks s h] ⟨.arguments false, n⟩ t
  | argument {n : Nat} {started : Bool} {s t : List Char} (hb : started = false → trimStart s = s)
    (hne : s ≠ []) (hn : ¬ callEnd <:+: s) (hs : Settled [callEnd] s t) :
    Move ⟨.arguments started, n⟩ (s ++ t) [.argument n s] ⟨.arguments true, n⟩ t

inductive Moves : Progress → List Char → List Part → Progress → List Char → Prop where
  | nil (p : Progress) (s : List Char) : Moves p s [] p s
  | cons {p q r : Progress} {s t u : List Char} {l l' : List Part} (h : Move p s l q t)
    (hm : Moves q t l' r u) : Moves p s (l ++ l') r u

theorem Moves.single {p q : Progress} {s t : List Char} {l : List Part} (h : Move p s l q t) :
    Moves p s l q t := by
  have hm := Moves.cons h (.nil q t)
  rwa [List.append_nil] at hm

theorem Moves.trans {p q r : Progress} {s t u : List Char} {l l' : List Part}
    (h : Moves p s l q t) (h' : Moves q t l' r u) : Moves p s (l ++ l') r u := by
  induction h with
  | nil p s => exact h'
  | cons hm _ ih =>
    rw [List.append_assoc]
    exact .cons hm (ih h')

theorem Move.spells {p q : Progress} {s t : List Char} {l : List Part} (h : Move p s l q t) :
    spelled l ++ t = s := by
  cases h with
  | step h => exact h.spells
  | content hn hs => simp [spelled, Part.text]
  | blanks h => simp [spelled, Part.text]
  | argument hb hne hn hs => simp [spelled, Part.text]

theorem Moves.spells {p q : Progress} {s t : List Char} {l : List Part} (h : Moves p s l q t) :
    spelled l ++ t = s := by
  induction h with
  | nil p s => rfl
  | cons h hm ih => rw [spelled_append, List.append_assoc, ih, h.spells]

theorem absent_of_cut? {m s b : List Char} (h : cut? m s = none) (hm : m ≠ []) (hb : b <+: s) :
    ¬ m <:+: b := by
  rw [cut?_eq_none_iff, clear_iff_absent hm] at h
  exact fun hi => h (hi.trans hb.isInfix)

theorem trimStart_of_prefix {s b : List Char} (h : b <+: trimStart s) : trimStart b = b := by
  cases b with
  | nil => rfl
  | cons c b =>
    obtain ⟨r, hr⟩ := h
    have hc : isBlank c = false := by
      have hhead := List.head?_dropWhile_not isBlank s
      rw [← trimStart, ← hr] at hhead
      simpa using hhead
    rw [trimStart, List.dropWhile_cons_of_neg (by simp [hc])]

theorem moves_leading (n : Nat) (started : Bool) (x t : List Char) :
    ∃ l, Moves ⟨.arguments started, n⟩ (leading started x ++ t) l ⟨.arguments started, n⟩ t ∧
      piecesOf l = [] := by
  cases started with
  | true => exact ⟨[], .nil _ _, rfl⟩
  | false => exact ⟨[.blanks _ _], .single (.blanks (leading_blank false x)), rfl⟩

/-- What is read before a pause is read in moves, whatever follows. -/
theorem Pause.moves {p q : Progress} {x r : List Char} {ps : List Piece} (h : Pause p x ps q r)
    (y : List Char) : ∃ l, Moves p (x ++ y) l q (r ++ y) ∧ piecesOf l = ps := by
  cases h with
  | @content n x h =>
    have hx := splitHeld_append markers x
    have hn := absent_of_cut? h (by decide) ⟨_, hx⟩
    have hs := (angled_markers.settled_splitHeld x).append y
    refine ⟨[.content (splitHeld markers x).1], ?_, rfl⟩
    have hmove := Move.content (n := n) hn hs
    rw [← List.append_assoc, hx] at hmove
    exact .single hmove
  | header h => exact ⟨[], .nil _ _, rfl⟩
  | @arguments n started x h =>
    have hx := leading_append started x
    have ht := splitHeld_append [callEnd] (argumentText started x)
    have hn := absent_of_cut? h (by decide) ⟨_, ht⟩
    have hs := (angled_end.settled_splitHeld (argumentText started x)).append y
    have hb : started = false → trimStart (splitHeld [callEnd] (argumentText started x)).1 =
        (splitHeld [callEnd] (argumentText started x)).1 := by
      rintro rfl
      exact trimStart_of_prefix ⟨_, ht⟩
    generalize (splitHeld [callEnd] (argumentText started x)).1 = safe at ht hn hs hb ⊢
    generalize (splitHeld [callEnd] (argumentText started x)).2 = held at ht hs ⊢
    rw [← ht] at hx
    -- the white space in front, and then the arguments that are certain
    obtain ⟨l, hl, hpieces⟩ := moves_leading n started x (safe ++ (held ++ y))
    have hxy : leading started x ++ (safe ++ (held ++ y)) = x ++ y := by
      rw [← List.append_assoc safe, ← List.append_assoc, hx]
    rw [hxy] at hl
    by_cases hsafe : safe = []
    · subst hsafe
      exact ⟨l, hl, hpieces⟩
    · have hmove := Move.argument (n := n) hb hsafe hn hs
      refine ⟨l ++ [.argument n safe], ?_, ?_⟩
      · simpa [hsafe] using hl.trans (.single hmove)
      · rw [piecesOf_append, hpieces]
        exact List.append_nil _

theorem run_moves (p : Progress) (x y : List Char) :
    ∃ l, Moves p (x ++ y) l (run p x).2.1 ((run p x).2.2 ++ y) ∧ piecesOf l = (run p x).1 := by
  induction p, x using run_induction with
  | step h ih =>
    obtain ⟨l, hl, hpieces⟩ := ih
    rw [run_of_step h]
    refine ⟨_, .cons (.step (h.append y)) hl, ?_⟩
    rw [piecesOf_append, hpieces]
  | pause h =>
    rw [run_of_pause h]
    exact h.moves y

/-! ## Runs behind a move -/

def marksFrom (p : Progress) (s : List Char) : List Mark := Piece.marks (run p s).1

theorem marksFrom_of_step {p q : Progress} {s t : List Char} {l : List Part}
    (h : Step p s l q t) : marksFrom p s = Piece.marks (piecesOf l) ++ marksFrom q t := by
  rw [marksFrom, run_of_step h, Piece.marks_append, marksFrom]

theorem marksFrom_of_pause {p q : Progress} {s t : List Char} {ps : List Piece}
    (h : Pause p s ps q t) : marksFrom p s = Piece.marks ps := by
  rw [marksFrom, run_of_pause h]

theorem marks_ended (n : Nat) (b u v : List Char) (hu : u.all isBlank = true)
    (hv : v.all isBlank = true) :
    Piece.marks (piecesOf [.blanks u hu, .argument n b, .blanks v hv, .callEnd]) =
      b.map (.argument n) := by
  rw [← Piece.marks_argumentPieces]
  simp [piecesOf, Part.pieces]

theorem content_ended (n : Nat) (b u v : List Char) (hu : u.all isBlank = true)
    (hv : v.all isBlank = true) :
    Piece.content (piecesOf [.blanks u hu, .argument n b, .blanks v hv, .callEnd]) = [] := by
  rw [← Piece.content_argumentPieces n b]
  simp [piecesOf, Part.pieces]

theorem argumentsOf_marksFrom {p : Progress} {s : List Char}
    (hp : ∀ started, p.mode ≠ .arguments started) : Mark.argumentsOf (marksFrom p s) = [] := by
  induction p, s using run_induction with
  | step h ih =>
    rw [marksFrom_of_step h]
    cases h with
    | call h => exact ih fun started => by simp
    | named h => rfl
    | @ended n started s b a h => exact absurd rfl (hp started)
  | pause h =>
    rw [marksFrom_of_pause h]
    cases h with
    | content h => rfl
    | header h => rfl
    | @arguments n started s h => exact absurd rfl (hp started)

theorem run_behind_content {n : Nat} {s t : List Char} (hn : ¬ callBegin <:+: s)
    (hs : Settled markers s t) :
    marksFrom ⟨.content, n⟩ (s ++ t) = marksFrom ⟨.content, n⟩ t ∧
      (run ⟨.content, n⟩ (s ++ t)).2 = (run ⟨.content, n⟩ t).2 := by
  have hcut := cut?_append_left ((hs.whole callBegin (by simp [markers])).clear hn)
  have hheld := splitHeld_append_left hs.closed
  cases ht : cut? callBegin t with
  | some r =>
    obtain ⟨b, a⟩ := r
    rw [ht] at hcut
    have hlong := Step.call (n := n) hcut
    have hshort := Step.call (n := n) ht
    rw [marksFrom_of_step hlong, marksFrom_of_step hshort, run_of_step hlong, run_of_step hshort]
    exact ⟨rfl, rfl⟩
  | none =>
    rw [ht] at hcut
    have hlong := Pause.content (n := n) hcut
    have hshort := Pause.content (n := n) ht
    rw [hheld] at hlong
    rw [marksFrom_of_pause hlong, marksFrom_of_pause hshort, run_of_pause hlong,
      run_of_pause hshort]
    exact ⟨rfl, rfl⟩

theorem run_behind_blanks {n : Nat} {s : List Char} (h : s.all isBlank = true) (t : List Char) :
    run ⟨.arguments false, n⟩ (s ++ t) = run ⟨.arguments false, n⟩ t := by
  have htext : argumentText false (s ++ t) = argumentText false t := trimStart_append_blanks h t
  cases ht : cut? callEnd (argumentText false t) with
  | some r =>
    have hlong := ht
    rw [← htext] at hlong
    rw [run_of_step (.ended ht), run_of_step (.ended hlong)]
    rfl
  | none =>
    have hlong := ht
    rw [← htext] at hlong
    rw [run_of_pause (.arguments ht), run_of_pause (.arguments hlong), htext]

theorem argumentText_settled {started : Bool} {s t : List Char}
    (hb : started = false → trimStart s = s) (hne : s ≠ []) :
    argumentText started (s ++ t) = s ++ t := by
  cases started with
  | true => rfl
  | false =>
    have hstart := hb rfl
    have hne' : trimStart s ≠ [] := by rwa [hstart]
    rw [argumentText, if_neg (by simp), trimStart_append hne', hstart]

theorem run_behind_argument {n : Nat} {started : Bool} {s t : List Char}
    (hb : started = false → trimStart s = s) (hne : s ≠ []) (hn : ¬ callEnd <:+: s)
    (hs : Settled [callEnd] s t) :
    Mark.tidy (marksFrom ⟨.arguments started, n⟩ (s ++ t)) =
        Mark.tidy (s.map (.argument n) ++ marksFrom ⟨.arguments true, n⟩ t) ∧
      (run ⟨.arguments started, n⟩ (s ++ t)).2 = (run ⟨.arguments true, n⟩ t).2 ∧
      Piece.content (run ⟨.arguments started, n⟩ (s ++ t)).1 =
        Piece.content (run ⟨.arguments true, n⟩ t).1 := by
  have htext : argumentText started (s ++ t) = s ++ t := argumentText_settled hb hne
  have hcut := cut?_append_left ((hs.whole callEnd (by simp)).clear hn)
  have hheld := splitHeld_append_left hs.closed
  rw [← htext] at hcut
  cases ht : cut? callEnd t with
  | some r =>
    obtain ⟨b, a⟩ := r
    rw [ht] at hcut
    have hlong := Step.ended (n := n) hcut
    have hshort : Step ⟨.arguments true, n⟩ t _ _ _ := .ended ht
    rw [run_of_step hlong, run_of_step hshort, marksFrom_of_step hlong, marksFrom_of_step hshort,
      marks_ended, marks_ended]
    refine ⟨?_, rfl, by simp [Piece.content_append, content_ended]⟩
    have hnone := argumentsOf_marksFrom (p := ⟨.content, n + 1⟩) (s := a) (by simp)
    generalize marksFrom ⟨.content, n + 1⟩ a = ms at hnone ⊢
    calc Mark.tidy ((trimEnd (s ++ b)).map (.argument n) ++ ms)
        = Mark.tidy (s.map (.argument n) ++ (b.map (.argument n) ++ ms)) := by
          rw [tidy_trimEnd n _ hnone, List.map_append, List.append_assoc]
      _ = Mark.tidy (s.map (.argument n) ++ ((trimEnd b).map (.argument n) ++ ms)) :=
          Mark.tidy_append_left (tidy_trimEnd n b hnone).symm _
  | none =>
    rw [ht] at hcut
    have hlong := Pause.arguments (n := n) hcut
    have hshort : Pause ⟨.arguments true, n⟩ t _ _ _ := .arguments ht
    rw [htext, hheld] at hlong
    rw [run_of_pause hlong, run_of_pause hshort, marksFrom_of_pause hlong,
      marksFrom_of_pause hshort, Piece.marks_argumentPieces, Piece.marks_argumentPieces]
    refine ⟨by rw [List.map_append]; rfl, ?_, ?_⟩
    · simp [hne, argumentText]
    · rw [Piece.content_argumentPieces, Piece.content_argumentPieces]

/-- A move changes neither the calls nor where the run ends. -/
theorem Move.run_eq {p q : Progress} {s t : List Char} {l : List Part} (h : Move p s l q t) :
    Mark.tidy (marksFrom p s) = Mark.tidy (Piece.marks (piecesOf l) ++ marksFrom q t) ∧
      (run p s).2 = (run q t).2 := by
  cases h with
  | step h => exact ⟨congrArg _ (marksFrom_of_step h), by rw [run_of_step h]⟩
  | content hn hs =>
    obtain ⟨hmarks, hrest⟩ := run_behind_content hn hs
    exact ⟨congrArg _ hmarks, hrest⟩
  | blanks h =>
    rw [marksFrom, run_behind_blanks h]
    exact ⟨rfl, rfl⟩
  | argument hb hne hn hs =>
    obtain ⟨hmarks, hrest, -⟩ := run_behind_argument hb hne hn hs
    refine ⟨?_, hrest⟩
    rw [hmarks, ← Piece.marks_argumentPieces]
    simp [piecesOf, Part.pieces]

theorem Moves.run_eq {p q : Progress} {s t : List Char} {l : List Part} (h : Moves p s l q t) :
    Mark.tidy (marksFrom p s) = Mark.tidy (Piece.marks (piecesOf l) ++ marksFrom q t) ∧
      (run p s).2 = (run q t).2 := by
  induction h with
  | nil p s => exact ⟨rfl, rfl⟩
  | cons h hm ih =>
    obtain ⟨hmarks, hrest⟩ := h.run_eq
    refine ⟨?_, hrest.trans ih.2⟩
    rw [hmarks, Mark.tidy_append_left ih.1, piecesOf_append, Piece.marks_append,
      List.append_assoc]

/-- A run over a text and a run over what was left of it and its continuation find the calls that
one run finds, and end where it ends. -/
theorem run_append (p : Progress) (x y : List Char) :
    Mark.tidy (marksFrom p (x ++ y)) =
        Mark.tidy (marksFrom p x ++ marksFrom (run p x).2.1 ((run p x).2.2 ++ y)) ∧
      (run p (x ++ y)).2 = (run (run p x).2.1 ((run p x).2.2 ++ y)).2 := by
  obtain ⟨l, hl, hpieces⟩ := run_moves p x y
  obtain ⟨hmarks, hrest⟩ := hl.run_eq
  rw [hpieces] at hmarks
  exact ⟨hmarks, hrest⟩

end KimiStream

end ChatGateway.Markup
