import ChatGateway.Proofs.KimiSteps
import ChatGateway.Proofs.Offsets
import ChatGateway.Proofs.QwenCuts

/-!
# The rounds of a parser

A parser of a growing text works in a loop, with a cursor that counts the bytes it has dealt with.
Each `round` of that loop is on the bytes of the text, where cuts and differences may fail. Main
statement: a round does what a step or a pause of the parser does, so that nothing fails and the
loop ends where the run stops.
-/

namespace ChatGateway.Markup

open Text

/-! ## Loops -/

/-- What one round of a loop comes to. The cursor is moved to the offsets `passed` and then to
`cursor`, and the loop goes on unless the round is the last. -/
structure Round (π : Type) where
  pieces : List Piece
  progress : π
  passed : List Nat
  cursor : Nat
  last : Bool

/-- All rounds of a loop over a text, from one place to another: how many there are, the offsets to
which the cursor is moved, and what is found. In each round `body` is given the text from the cursor
on. There are no such rounds if one of them fails or none is the last. -/
inductive Rounds {π : Type} (body : List Char → π → Nat → Option (Round π)) (text : List Char) :
    π × Nat → Nat → List Nat → List Piece → π × Nat → Prop where
  | last {p : π} {c : Nat} {b s : List Char} {r : Round π} (hc : cutAt? c text = some (b, s))
    (hr : body s p c = some r) (hl : r.last = true) :
    Rounds body text (p, c) 1 (r.passed ++ [r.cursor]) r.pieces (r.progress, r.cursor)
  | next {p : π} {c n : Nat} {b s : List Char} {r : Round π} {cs : List Nat} {ps : List Piece}
    {place : π × Nat} (hc : cutAt? c text = some (b, s)) (hr : body s p c = some r)
    (hl : r.last = false) (hn : Rounds body text (r.progress, r.cursor) n cs ps place) :
    Rounds body text (p, c) (n + 1) (r.passed ++ r.cursor :: cs) (r.pieces ++ ps) place

/-- Offsets between the characters of a text, none of them in front of the one before. -/
def Along (text : List Char) (cs : List Nat) : Prop :=
  cs.IsChain (· ≤ ·) ∧ ∀ c ∈ cs, Boundary text c

/-- The offsets around these parts of a text, the first of them behind `done`. -/
def offsets : List Char → List (List Char) → List Nat
  | done, [] => [byteSize done]
  | done, x :: xs => byteSize done :: offsets (done ++ x) xs

theorem along_offsets (done : List Char) (xs : List (List Char)) (rest : List Char) :
    Along (done ++ xs.flatten ++ rest) (offsets done xs) := by
  induction xs generalizing done with
  | nil =>
    refine ⟨List.isChain_singleton _, fun c hc => ?_⟩
    rw [List.mem_singleton.mp hc, List.append_assoc]
    exact boundary_append done _
  | cons x xs ih =>
    obtain ⟨hchain, hboundary⟩ := ih (done ++ x)
    have htext : done ++ x ++ xs.flatten ++ rest = done ++ (x :: xs).flatten ++ rest := by simp
    rw [htext] at hboundary
    have hle : byteSize done ≤ byteSize (done ++ x) :=
      byteSize_le_of_prefix (List.prefix_append done x)
    constructor
    · cases xs with
      | nil => exact List.isChain_cons_cons.mpr ⟨hle, hchain⟩
      | cons y ys => exact List.isChain_cons_cons.mpr ⟨hle, hchain⟩
    · intro c hc
      rcases List.mem_cons.mp hc with rfl | hc
      · rw [List.append_assoc]
        exact boundary_append done _
      · exact hboundary c hc

theorem getLast?_offsets (done : List Char) (xs : List (List Char)) :
    (offsets done xs).getLast? = some (byteSize (done ++ xs.flatten)) := by
  induction xs generalizing done with
  | nil => simp [offsets]
  | cons x xs ih =>
    rw [offsets, List.getLast?_cons, ih]
    simp

theorem Along.append {text : List Char} {c : Nat} {cs ds : List Nat} (h : Along text (cs ++ [c]))
    (h' : Along text (c :: ds)) : Along text (cs ++ c :: ds) := by
  refine ⟨List.isChain_split.mpr ⟨h.1, h'.1⟩, fun d hd => ?_⟩
  rcases List.mem_append.mp hd with hd | hd
  · exact h.2 d (List.mem_append_left _ hd)
  · exact h'.2 d hd

section
variable {π : Type} (run : π → List Char → List Piece × π × List Char) (rank : π → Nat)

/-- A round does what a run on `s` does first: it goes over these parts and leaves `rest`. Where the
loop goes on, there is less to come. -/
structure Mirrors (done : List Char) (p : π) (s : List Char) (r : Round π) (xs : List (List Char))
    (rest : List Char) : Prop where
  split : s = xs.flatten ++ rest
  moves : byteSize done :: r.passed ++ [r.cursor] = offsets done xs
  stops : r.last = true → run p s = (r.pieces, r.progress, rest)
  goesOn : r.last = false →
    run p s = (r.pieces ++ (run r.progress rest).1, (run r.progress rest).2) ∧
      2 * rest.length + rank r.progress < 2 * s.length + rank p

variable {run rank}

theorem Mirrors.last {done : List Char} {p q : π} {s rest : List Char} {xs : List (List Char)}
    {ps : List Piece} {cs : List Nat} {c : Nat} (split : s = xs.flatten ++ rest)
    (moves : byteSize done :: cs ++ [c] = offsets done xs) (hrun : run p s = (ps, q, rest)) :
    Mirrors run rank done p s ⟨ps, q, cs, c, true⟩ xs rest :=
  ⟨split, moves, fun _ => hrun, fun h => Bool.noConfusion h⟩

theorem Mirrors.next {done : List Char} {p q : π} {s rest : List Char} {xs : List (List Char)}
    {ps : List Piece} {cs : List Nat} {c : Nat} (split : s = xs.flatten ++ rest)
    (moves : byteSize done :: cs ++ [c] = offsets done xs)
    (hrun : run p s = (ps ++ (run q rest).1, (run q rest).2))
    (hless : 2 * rest.length + rank q < 2 * s.length + rank p) :
    Mirrors run rank done p s ⟨ps, q, cs, c, false⟩ xs rest :=
  ⟨split, moves, fun h => Bool.noConfusion h, fun _ => ⟨hrun, hless⟩⟩

theorem Mirrors.pass {done : List Char} {p q : π} {s b m a : List Char} {ps : List Piece}
    (split : b ++ m ++ a = s) (hrun : run p s = (ps ++ (run q a).1, (run q a).2))
    (hless : 2 * a.length + rank q < 2 * s.length + rank p) :
    Mirrors run rank done p s ⟨ps, q, [], byteSize done + (byteSize b + byteSize m), false⟩
      [b ++ m] a :=
  .next (by simp [← split]) (by simp [offsets, byteSize_append]) hrun hless

theorem Mirrors.wait {done : List Char} {p : π} {s : List Char} (hrun : run p s = ([], p, s)) :
    Mirrors run rank done p s ⟨[], p, [], byteSize done, true⟩ [[]] s :=
  .last rfl (by simp [offsets]) hrun

section
variable {done : List Char} {p : π} {s : List Char} {r : Round π} {xs : List (List Char)}
  {rest : List Char} (h : Mirrors run rank done p s r xs rest)
include h

theorem Mirrors.cursor : r.cursor = byteSize (done ++ xs.flatten) := by
  have hlast := congrArg List.getLast? h.moves
  rw [List.getLast?_append, getLast?_offsets] at hlast
  simpa using hlast

theorem Mirrors.along : Along (done ++ s) (byteSize done :: r.passed ++ [r.cursor]) := by
  rw [h.moves, h.split, ← List.append_assoc]
  exact along_offsets done xs rest

end

theorem exists_rounds {body : List Char → π → Nat → Option (Round π)}
    (h : ∀ done p s, ∃ r xs rest, body s p (byteSize done) = some r ∧
      Mirrors run rank done p s r xs rest)
    (done : List Char) (p : π) (s : List Char) :
    ∃ n cs, Rounds body (done ++ s) (p, byteSize done) n cs (run p s).1
        ((run p s).2.1, byteSize (done ++ s) - byteSize (run p s).2.2) ∧
      n ≤ 2 * s.length + rank p + 1 ∧ Along (done ++ s) (byteSize done :: cs) := by
  induction hm : 2 * s.length + rank p using Nat.strongRecOn generalizing done p s with
  | _ m ih =>
    obtain ⟨r, xs, rest, hr, hmirrors⟩ := h done p s
    have hcut := cutAt?_append done s
    have htext : done ++ s = done ++ xs.flatten ++ rest := by
      rw [hmirrors.split, List.append_assoc]
    cases hl : r.last with
    | true =>
      have hcursor : byteSize (done ++ s) - byteSize rest = r.cursor := by
        rw [htext, byteSize_append, Nat.add_sub_cancel, hmirrors.cursor]
      refine ⟨1, r.passed ++ [r.cursor], ?_, by omega, hmirrors.along⟩
      rw [hmirrors.stops hl]
      simp only [hcursor]
      exact .last hcut hr hl
    | false =>
      obtain ⟨hrun, hless⟩ := hmirrors.goesOn hl
      obtain ⟨n, cs, hn, hle, halong⟩ :=
        ih _ (hm ▸ hless) (done ++ xs.flatten) r.progress rest rfl
      rw [← htext, ← hmirrors.cursor] at hn halong
      refine ⟨n + 1, r.passed ++ r.cursor :: cs, ?_, by omega, hmirrors.along.append halong⟩
      rw [hrun]
      exact .next hcut hr hl hn

end

/-! ## The Kimi parser -/

namespace KimiStream

open Kimi

/-- One round of the loop, where `rest` is the text from the cursor on. -/
def round (rest : List Char) (p : Progress) (cursor : Nat) : Option (Round Progress) :=
  match p.mode with
  | .content =>
    match offset? callBegin rest with
    | some n => do
      let (before, _) ← cutAt? n rest
      return ⟨[.text (dropSectionMarkers before)], ⟨.header, p.slot⟩, [],
        cursor + (n + byteSize callBegin), false⟩
    | none => do
      let n ← lessen? (byteSize rest) (heldSize markers rest)
      let (safe, _) ← cutAt? n rest
      return ⟨[.text (dropSectionMarkers safe)], p, [], cursor + byteSize safe, true⟩
  | .header =>
    match offset? argumentBegin rest with
    | some n => do
      let (before, _) ← cutAt? n rest
      return ⟨[headerPiece p.slot before], ⟨.arguments false, p.slot⟩, [],
        cursor + (n + byteSize argumentBegin), false⟩
    | none => some ⟨[], p, [], cursor, true⟩
  | .arguments started => do
    let trimmed := argumentText started rest
    let behind := cursor + (← lessen? (byteSize rest) (byteSize trimmed))
    match offset? callEnd trimmed with
    | some n =>
      let (before, _) ← cutAt? n trimmed
      return ⟨argumentPieces p.slot (trimEnd before), ⟨.content, p.slot + 1⟩, [behind],
        behind + (n + byteSize callEnd), false⟩
    | none =>
      let n ← lessen? (byteSize trimmed) (heldSize [callEnd] trimmed)
      let (safe, _) ← cutAt? n trimmed
      return ⟨argumentPieces p.slot safe,
        ⟨if safe.isEmpty then p.mode else .arguments true, p.slot⟩, [behind],
        behind + byteSize safe, true⟩

theorem lessen?_argumentText (started : Bool) (s : List Char) :
    lessen? (byteSize s) (byteSize (argumentText started s)) =
      some (byteSize (leading started s)) := by
  have h := lessen?_append (leading started s) (argumentText started s)
  rwa [leading_append] at h

theorem round_of_step {p q : Progress} {s t : List Char} {l : List Part} (h : Step p s l q t)
    (done : List Char) : ∃ r xs, round s p (byteSize done) = some r ∧
      Mirrors run (fun _ => 0) done p s r xs t := by
  have hrun := run_of_step h
  have hless : 2 * t.length + 0 < 2 * s.length + 0 := by
    have hlength := h.length_lt
    omega
  cases h with
  | @call n s b a hc =>
    have hround : round s ⟨.content, n⟩ (byteSize done) = some
        ⟨[.text (dropSectionMarkers b)], ⟨.header, n⟩, [],
          byteSize done + (byteSize b + byteSize callBegin), false⟩ := by
      simp [round, offset?_of_some hc, cutAt?_of_cut? hc (by decide)]
    exact ⟨_, _, hround, .pass (cut?_append (by decide) hc) hrun hless⟩
  | @named n s b a hc =>
    have hround : round s ⟨.header, n⟩ (byteSize done) = some
        ⟨[headerPiece n b], ⟨.arguments false, n⟩, [],
          byteSize done + (byteSize b + byteSize argumentBegin), false⟩ := by
      simp [round, offset?_of_some hc, cutAt?_of_cut? hc (by decide)]
    exact ⟨_, _, hround, .pass (cut?_append (by decide) hc) hrun hless⟩
  | @ended n started s b a hc =>
    have hround : round s ⟨.arguments started, n⟩ (byteSize done) = some
        ⟨argumentPieces n (trimEnd b), ⟨.content, n + 1⟩,
          [byteSize done + byteSize (leading started s)],
          byteSize done + byteSize (leading started s) + (byteSize b + byteSize callEnd),
          false⟩ := by
      simp [round, lessen?_argumentText, offset?_of_some hc, cutAt?_of_cut? hc (by decide)]
    refine ⟨_, [leading started s, b ++ callEnd], hround, .next ?_ ?_ ?_ hless⟩
    · have htext := cut?_append (by decide) hc
      simp only [List.flatten_cons, List.flatten_nil, List.append_nil]
      rw [List.append_assoc, htext, leading_append]
    · simp [offsets, byteSize_append, Nat.add_assoc]
    · simpa [piecesOf, Part.pieces] using hrun

theorem round_of_pause {p q : Progress} {s t : List Char} {ps : List Piece} (h : Pause p s ps q t)
    (done : List Char) : ∃ r xs, round s p (byteSize done) = some r ∧
      Mirrors run (fun _ => 0) done p s r xs t := by
  have hrun := run_of_pause h
  cases h with
  | @content n s hc =>
    have hround : round s ⟨.content, n⟩ (byteSize done) = some
        ⟨[.text (dropSectionMarkers (splitHeld markers s).1)], ⟨.content, n⟩, [],
          byteSize done + byteSize (splitHeld markers s).1, true⟩ := by
      simp [round, offset?_of_none hc, lessen?_heldSize, cutAt?_splitHeld]
    refine ⟨_, [(splitHeld markers s).1], hround, .last ?_ ?_ hrun⟩
    · simp [splitHeld_append]
    · simp [offsets, byteSize_append]
  | @header n s hc =>
    have hround : round s ⟨.header, n⟩ (byteSize done) = some
        ⟨[], ⟨.header, n⟩, [], byteSize done, true⟩ := by
      simp [round, offset?_of_none hc]
    exact ⟨_, _, hround, .wait hrun⟩
  | @arguments n started s hc =>
    have hlessen := lessen?_argumentText started s
    generalize hu : argumentText started s = u at hc hrun hlessen ⊢
    have hround : round s ⟨.arguments started, n⟩ (byteSize done) = some
        ⟨argumentPieces n (splitHeld [callEnd] u).1,
          ⟨if (splitHeld [callEnd] u).1.isEmpty then .arguments started else .arguments true, n⟩,
          [byteSize done + byteSize (leading started s)],
          byteSize done + byteSize (leading started s) + byteSize (splitHeld [callEnd] u).1,
          true⟩ := by
      simp [round, hu, hlessen, offset?_of_none hc, lessen?_heldSize, cutAt?_splitHeld]
    refine ⟨_, [leading started s, (splitHeld [callEnd] u).1], hround, .last ?_ ?_ hrun⟩
    · simp only [List.flatten_cons, List.flatten_nil, List.append_nil]
      rw [List.append_assoc, splitHeld_append, ← hu, leading_append]
    · simp [offsets, byteSize_append, Nat.add_assoc]

theorem round_mirrors (done : List Char) (p : Progress) (s : List Char) :
    ∃ r xs rest, round s p (byteSize done) = some r ∧
      Mirrors run (fun _ => 0) done p s r xs rest := by
  rcases step_or_pause p s with ⟨l, q, t, h⟩ | ⟨ps, q, t, h⟩
  · obtain ⟨r, xs, hr, hm⟩ := round_of_step h done
    exact ⟨r, xs, t, hr, hm⟩
  · obtain ⟨r, xs, hr, hm⟩ := round_of_pause h done
    exact ⟨r, xs, t, hr, hm⟩

end KimiStream

/-! ## The Qwen parser -/

namespace QwenStream

open Qwen

def dropped : Bool → List Char → List Char
  | false, '\n' :: _ => ['\n']
  | _, _ => []

theorem dropped_append (started : Bool) (s : List Char) :
    dropped started s ++ valueText started s = s := by
  unfold dropped
  split
  · rfl
  · next hnot =>
    cases started with
    | true => rfl
    | false =>
      rw [valueText, if_neg Bool.false_ne_true]
      unfold dropNewline
      split
      · exact absurd rfl (hnot _ rfl)
      · rfl

/-- The marker that belongs to the value in front of it. -/
def ownMarker (marker : List Char) : List Char := if marker = parameterEnd then parameterEnd else []

theorem ownMarker_append (marker after : List Char) :
    ownMarker marker ++ afterValue marker after = marker ++ after := by
  unfold ownMarker afterValue
  split
  · next h => rw [h]
  · rfl

def round (rest : List Char) (p : Progress) (cursor : Nat) : Option (Round Progress) :=
  match p.mode with
  | .content =>
    match offsetAny? [wrapperBegin, functionBegin] rest with
    | some (n, marker) => do
      let (before, _) ← cutAt? n rest
      let q : Progress :=
        if marker = wrapperBegin then { p with mode := .wrapper, wrapped := true }
        else { p with mode := .functionName }
      return ⟨[.text before], q, [], cursor + (n + byteSize marker), false⟩
    | none => do
      let n ← lessen? (byteSize rest) (heldSize [wrapperBegin, functionBegin] rest)
      let (safe, _) ← cutAt? n rest
      return ⟨[.text safe], p, [], cursor + n, true⟩
  | .wrapper =>
    match offset? functionBegin rest with
    | some n =>
      some ⟨[], { p with mode := .functionName }, [], cursor + (n + byteSize functionBegin), false⟩
    | none =>
      match offset? wrapperEnd rest with
      | some n =>
        some ⟨[], { p with mode := .content, wrapped := false }, [],
          cursor + (n + byteSize wrapperEnd), false⟩
      | none => some ⟨[], p, [], cursor, true⟩
  | .functionName =>
    match offset? ['>'] rest with
    | some n => do
      let (name, _) ← cutAt? n rest
      return ⟨[.header p.slot none (String.ofList (trim name)), .argument p.slot ['\x7b']],
        { p with mode := .function, params := 0 }, [], cursor + (n + 1), false⟩
    | none => some ⟨[], p, [], cursor, true⟩
  | .function =>
    match offsetAny? [parameterBegin, Qwen.functionEnd] rest with
    | some (n, marker) =>
      if marker = parameterBegin then
        some ⟨[], { p with mode := .parameterName }, [], cursor + (n + byteSize parameterBegin),
          false⟩
      else
        some ⟨[.argument p.slot ['\x7d']], { p with mode := .functionEnd, slot := p.slot + 1 }, [],
          cursor + (n + byteSize Qwen.functionEnd), false⟩
    | none => some ⟨[], p, [], cursor, true⟩
  | .parameterName =>
    match offset? ['>'] rest with
    | some n => do
      let (name, _) ← cutAt? n rest
      return ⟨[.argument p.slot (keyText p.params name)],
        { p with mode := .parameterValue false, params := p.params + 1 }, [], cursor + (n + 1),
        false⟩
    | none => some ⟨[], p, [], cursor, true⟩
  | .parameterValue started =>
    if !started && rest.isEmpty then some ⟨[], p, [], cursor, true⟩
    else
      let value := valueText started rest
      let behind := cursor + byteSize (dropped started rest)
      match offsetAny? valueEnds value with
      | some (n, marker) => do
        let (raw, _) ← cutAt? n value
        return ⟨[.argument p.slot (Json.escapeText (dropLastNewline raw) ++ ['"'])],
          { p with mode := .function }, [behind, behind + n],
          behind + n + byteSize (ownMarker marker), false⟩
      | none => do
        let n ← lessen? (byteSize value) (heldSize valueEnds value)
        let (safe, _) ← cutAt? n value
        let said := dropLastNewline safe
        return ⟨argumentPieces p.slot (Json.escapeText said),
          { p with mode := .parameterValue true }, [behind], behind + byteSize said, true⟩
  | .functionEnd =>
    let trimmed := trimStart rest
    if p.wrapped && wrapperEnd.isPrefixOf trimmed then do
      let n ← lessen? (byteSize rest) (byteSize trimmed)
      return ⟨[], { p with mode := .content, wrapped := false }, [],
        cursor + (n + byteSize wrapperEnd), false⟩
    else if p.wrapped && functionBegin.isPrefixOf trimmed then do
      let n ← lessen? (byteSize rest) (byteSize trimmed)
      return ⟨[], { p with mode := .functionName }, [], cursor + (n + byteSize functionBegin),
        false⟩
    else if p.wrapped && (trimmed.isPrefixOf wrapperEnd || trimmed.isPrefixOf functionBegin) then
      some ⟨[], p, [], cursor, true⟩
    else some ⟨[], { p with mode := .content, wrapped := false }, [], cursor, false⟩

theorem round_of_step {p q : Progress} {s t : List Char} {ps : List Piece} (h : Step p s ps q t)
    (done : List Char) : ∃ r xs, round s p (byteSize done) = some r ∧
      Mirrors run (·.mode.rank) done p s r xs t := by
  have hrun := run_of_step h
  have hless := h.measure
  cases h with
  | @wrapper n k w s b a hc =>
    have hround : round s ⟨.content, n, k, w⟩ (byteSize done) = some
        ⟨[.text b], ⟨.wrapper, n, k, true⟩, [],
          byteSize done + (byteSize b + byteSize wrapperBegin), false⟩ := by
      simp [round, offsetAny?_of_some hc, cutAt?_of_cutAny? hc (by decide)]
    exact ⟨_, _, hround, .pass (cutAny?_append (by decide) hc).2 hrun hless⟩
  | @bareFunction n k w s b a hc =>
    have hne : functionBegin ≠ wrapperBegin := by decide
    have hround : round s ⟨.content, n, k, w⟩ (byteSize done) = some
        ⟨[.text b], ⟨.functionName, n, k, w⟩, [],
          byteSize done + (byteSize b + byteSize functionBegin), false⟩ := by
      simp [round, offsetAny?_of_some hc, cutAt?_of_cutAny? hc (by decide), hne]
    exact ⟨_, _, hround, .pass (cutAny?_append (by decide) hc).2 hrun hless⟩
  | @wrappedFunction n k w s b a hc =>
    have hround : round s ⟨.wrapper, n, k, w⟩ (byteSize done) = some
        ⟨[], ⟨.functionName, n, k, w⟩, [],
          byteSize done + (byteSize b + byteSize functionBegin), false⟩ := by
      simp [round, offset?_of_some hc]
    exact ⟨_, _, hround, .pass (cut?_append (by decide) hc) hrun hless⟩
  | @emptyWrapper n k w s b a hn hc =>
    have hround : round s ⟨.wrapper, n, k, w⟩ (byteSize done) = some
        ⟨[], ⟨.content, n, k, false⟩, [],
          byteSize done + (byteSize b + byteSize wrapperEnd), false⟩ := by
      simp [round, offset?_of_none hn, offset?_of_some hc]
    exact ⟨_, _, hround, .pass (cut?_append (by decide) hc) hrun hless⟩
  | @name n k w s b a hc =>
    have hround : round s ⟨.functionName, n, k, w⟩ (byteSize done) = some
        ⟨[.header n none (String.ofList (trim b)), .argument n ['\x7b']], ⟨.function, n, 0, w⟩, [],
          byteSize done + (byteSize b + 1), false⟩ := by
      simp [round, offset?_of_some hc, cutAt?_of_cut? hc (by decide)]
    exact ⟨_, _, hround, .pass (cut?_append (by decide) hc) hrun hless⟩
  | @parameter n k w s b a hc =>
    have hround : round s ⟨.function, n, k, w⟩ (byteSize done) = some
        ⟨[], ⟨.parameterName, n, k, w⟩, [],
          byteSize done + (byteSize b + byteSize parameterBegin), false⟩ := by
      simp [round, offsetAny?_of_some hc]
    exact ⟨_, _, hround, .pass (cutAny?_append (by decide) hc).2 hrun hless⟩
  | @close n k w s b a hc =>
    have hne : Qwen.functionEnd ≠ parameterBegin := by decide
    have hround : round s ⟨.function, n, k, w⟩ (byteSize done) = some
        ⟨[.argument n ['\x7d']], ⟨.functionEnd, n + 1, k, w⟩, [],
          byteSize done + (byteSize b + byteSize Qwen.functionEnd), false⟩ := by
      simp [round, offsetAny?_of_some hc, hne]
    exact ⟨_, _, hround, .pass (cutAny?_append (by decide) hc).2 hrun hless⟩
  | @key n k w s b a hc =>
    have hround : round s ⟨.parameterName, n, k, w⟩ (byteSize done) = some
        ⟨[.argument n (keyText k b)], ⟨.parameterValue false, n, k + 1, w⟩, [],
          byteSize done + (byteSize b + 1), false⟩ := by
      simp [round, offset?_of_some hc, cutAt?_of_cut? hc (by decide)]
    exact ⟨_, _, hround, .pass (cut?_append (by decide) hc) hrun hless⟩
  | @value n k w started s b m a hc =>
    have hs : (!started && s.isEmpty) = false := by
      cases started with
      | true => rfl
      | false =>
        cases s with
        | nil => simp [valueText, dropNewline, cutAny?] at hc
        | cons c s => rfl
    have hround : round s ⟨.parameterValue started, n, k, w⟩ (byteSize done) = some
        ⟨[.argument n (Json.escapeText (dropLastNewline b) ++ ['"'])], ⟨.function, n, k, w⟩,
          [byteSize done + byteSize (dropped started s),
            byteSize done + byteSize (dropped started s) + byteSize b],
          byteSize done + byteSize (dropped started s) + byteSize b + byteSize (ownMarker m),
          false⟩ := by
      simp [round, hs, offsetAny?_of_some hc, cutAt?_of_cutAny? hc valueEnds_ne_nil]
    -- nothing at all is passed by a value that ends at once at the marker of something else
    refine ⟨_, [dropped started s, b, ownMarker m], hround, .next ?_ ?_ hrun hless⟩
    · have hvalue := (cutAny?_append valueEnds_ne_nil hc).2
      simp only [List.flatten_cons, List.flatten_nil, List.append_nil]
      rw [List.append_assoc, List.append_assoc, ownMarker_append, ← List.append_assoc b, hvalue,
        dropped_append]
    · simp [offsets, byteSize_append, Nat.add_assoc]
  | @leave n k s a hc =>
    have hlessen := lessen?_trimStart s
    have hround : round s ⟨.functionEnd, n, k, true⟩ (byteSize done) = some
        ⟨[], ⟨.content, n, k, false⟩, [],
          byteSize done + (byteSize (s.takeWhile isBlank) + byteSize wrapperEnd), false⟩ := by
      rw [hc] at hlessen
      simp [round, hc, hlessen]
    refine ⟨_, _, hround, .pass ?_ hrun hless⟩
    rw [List.append_assoc, ← hc]
    exact List.takeWhile_append_dropWhile
  | @again n k s a hc =>
    have hlessen := lessen?_trimStart s
    have hprefix : functionBegin <+: trimStart s := hc ▸ List.prefix_append functionBegin t
    have hne : ¬ wrapperEnd <+: trimStart s := fun he =>
      absurd (angled_behind.eq_of_prefix (by simp) (by simp) he hprefix) (by decide)
    have hround : round s ⟨.functionEnd, n, k, true⟩ (byteSize done) = some
        ⟨[], ⟨.functionName, n, k, true⟩, [],
          byteSize done + (byteSize (s.takeWhile isBlank) + byteSize functionBegin), false⟩ := by
      simp [round, hne, hprefix, hlessen]
    refine ⟨_, _, hround, .pass ?_ hrun hless⟩
    rw [List.append_assoc, ← hc]
    exact List.takeWhile_append_dropWhile
  | @lost n k w s hc =>
    have hround : round s ⟨.functionEnd, n, k, w⟩ (byteSize done) = some
        ⟨[], ⟨.content, n, k, false⟩, [], byteSize done, false⟩ := by
      cases w with
      | false => rfl
      | true =>
        obtain ⟨he, hf, hs⟩ := hc rfl
        have hpe := not_beginning (by simp) hs he
        have hpf := not_beginning (by simp) hs hf
        simp [round, he, hf, hpe, hpf]
    -- the cursor stays where it is, and the loop goes on with a mode of lower rank
    exact ⟨_, [[]], hround, .next rfl (by simp [offsets]) hrun hless⟩

theorem round_of_pause {p q : Progress} {s t : List Char} {ps : List Piece} (h : Pause p s ps q t)
    (done : List Char) : ∃ r xs, round s p (byteSize done) = some r ∧
      Mirrors run (·.mode.rank) done p s r xs t := by
  have hrun := run_of_pause h
  cases h with
  | @content n k w s hc =>
    have hround : round s ⟨.content, n, k, w⟩ (byteSize done) = some
        ⟨[.text (splitHeld [wrapperBegin, functionBegin] s).1], ⟨.content, n, k, w⟩, [],
          byteSize done + byteSize (splitHeld [wrapperBegin, functionBegin] s).1, true⟩ := by
      simp [round, offsetAny?_of_none hc, lessen?_heldSize, cutAt?_splitHeld]
    refine ⟨_, [(splitHeld [wrapperBegin, functionBegin] s).1], hround, .last ?_ ?_ hrun⟩
    · simp [splitHeld_append]
    · simp [offsets, byteSize_append]
  | @wrapper n k w s hf he =>
    have hround : round s ⟨.wrapper, n, k, w⟩ (byteSize done) = some
        ⟨[], ⟨.wrapper, n, k, w⟩, [], byteSize done, true⟩ := by
      simp [round, offset?_of_none hf, offset?_of_none he]
    exact ⟨_, _, hround, .wait hrun⟩
  | @name n k w s hc =>
    have hround : round s ⟨.functionName, n, k, w⟩ (byteSize done) = some
        ⟨[], ⟨.functionName, n, k, w⟩, [], byteSize done, true⟩ := by
      simp [round, offset?_of_none hc]
    exact ⟨_, _, hround, .wait hrun⟩
  | @function n k w s hc =>
    have hround : round s ⟨.function, n, k, w⟩ (byteSize done) = some
        ⟨[], ⟨.function, n, k, w⟩, [], byteSize done, true⟩ := by
      simp [round, offsetAny?_of_none hc]
    exact ⟨_, _, hround, .wait hrun⟩
  | @key n k w s hc =>
    have hround : round s ⟨.parameterName, n, k, w⟩ (byteSize done) = some
        ⟨[], ⟨.parameterName, n, k, w⟩, [], byteSize done, true⟩ := by
      simp [round, offset?_of_none hc]
    exact ⟨_, _, hround, .wait hrun⟩
  | @unstarted n k w => exact ⟨_, _, rfl, .wait hrun⟩
  | @value n k w started s hs hc =>
    have hs : (!started && s.isEmpty) = false := by
      cases started <;> simp_all
    have hround : round s ⟨.parameterValue started, n, k, w⟩ (byteSize done) = some
        ⟨argumentPieces n (Json.escapeText (certain (valueText started s))),
          ⟨.parameterValue true, n, k, w⟩, [byteSize done + byteSize (dropped started s)],
          byteSize done + byteSize (dropped started s) +
            byteSize (certain (valueText started s)), true⟩ := by
      simp [round, hs, offsetAny?_of_none hc, lessen?_heldSize, cutAt?_splitHeld, certain]
    refine ⟨_, [dropped started s, certain (valueText started s)], hround, .last ?_ ?_ hrun⟩
    · simp only [List.flatten_cons, List.flatten_nil, List.append_nil]
      rw [List.append_assoc, certain_append, dropped_append]
    · simp [offsets, byteSize_append, Nat.add_assoc]
  | @functionEnd n k s hc =>
    have hround : round s ⟨.functionEnd, n, k, true⟩ (byteSize done) = some
        ⟨[], ⟨.functionEnd, n, k, true⟩, [], byteSize done, true⟩ := by
      have he := angled_behind.not_prefix_of_startsMarker (m := wrapperEnd) (by simp) hc
      have hf := angled_behind.not_prefix_of_startsMarker (m := functionBegin) (by simp) hc
      have hp := beginning_of_startsMarker hc
      simp [round, he, hf, hp]
    exact ⟨_, _, hround, .wait hrun⟩

theorem Mode.rank_le (m : Mode) : m.rank ≤ 1 := by
  cases m <;> simp [Mode.rank]

theorem round_mirrors (done : List Char) (p : Progress) (s : List Char) :
    ∃ r xs rest, round s p (byteSize done) = some r ∧
      Mirrors run (·.mode.rank) done p s r xs rest := by
  rcases step_or_pause p s with ⟨ps, q, t, h⟩ | ⟨ps, q, t, h⟩
  · obtain ⟨r, xs, hr, hm⟩ := round_of_step h done
    exact ⟨r, xs, t, hr, hm⟩
  · obtain ⟨r, xs, hr, hm⟩ := round_of_pause h done
    exact ⟨r, xs, t, hr, hm⟩

end QwenStream

end ChatGateway.Markup
