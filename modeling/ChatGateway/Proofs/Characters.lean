import ChatGateway.Proofs.Pacing

/-!
# A text shown character by character

A parser that waits inside a call has not seen a marker that ends what it waits for. One more
character completes such a marker at the very end of the text, if at all. So no ordinary text is
found together with further arguments of the call.
-/

namespace ChatGateway.Markup

open Text

/-- Pieces without ordinary text, or without further arguments of an earlier call. -/
def Separate (ps : List Piece) : Prop := Piece.content ps = [] ∨ ∃ b, Paced false ps b

theorem eq_nil_of_concat {m b a s : List Char} {ch : Char} (hm : ¬ m <:+: s)
    (h : b ++ m ++ a <:+ s ++ [ch]) : a = [] := by
  rcases List.eq_nil_or_concat a with rfl | ⟨a, last, rfl⟩
  · rfl
  · obtain ⟨d, hd⟩ := h
    rw [List.concat_eq_append, ← List.append_assoc, ← List.append_assoc] at hd
    obtain ⟨hs, -⟩ := List.append_inj' hd rfl
    exact absurd ⟨d ++ b, a, by rw [← hs]; simp⟩ hm

namespace Reader

variable {σ π : Type} (a : Reader σ π) {inside : π → Bool} {waits : π → List Char → Prop}
  (hpaced : ∀ p s, Paced (inside p) (a.run p s).1 (inside (a.run p s).2.1))
  (hwaits : ∀ p s, waits (a.run p s).2.1 (a.run p s).2.2)
  (hone : ∀ {p s}, inside p = true → waits p s → ∀ ch, Piece.content (a.run p (s ++ [ch])).1 = [])
include hpaced hwaits hone

theorem separate_found {p : π} {rest : List Char} (h : waits p rest) {xs : List String}
    (hx : ∀ x ∈ xs, ∃ ch, x.toList = [ch]) : ∀ ps ∈ a.found p rest xs, Separate ps := by
  induction xs generalizing p rest with
  | nil => simp [found]
  | cons x xs ih =>
    obtain ⟨⟨ch, hch⟩, hxs⟩ := List.forall_mem_cons.mp hx
    refine List.forall_mem_cons.mpr ⟨?_, ih (hwaits p (rest ++ x.toList)) hxs⟩
    cases hp : inside p with
    | true =>
      rw [hch]
      exact .inl (hone hp h ch)
    | false => exact .inr ⟨_, hp ▸ hpaced p (rest ++ x.toList)⟩

theorem separate_finds (h : waits (a.place a.start).1 []) {xs : List String}
    (hx : ∀ x ∈ xs, ∃ ch, x.toList = [ch]) :
    ∀ ps ∈ a.finds a.start "" xs, Separate ps := by
  rw [(a.follows_start.finds_eq xs).1]
  exact a.separate_found hpaced hwaits hone h hx

end Reader

/-! ## The Kimi parser -/

namespace KimiStream

open Kimi

def Waits (p : Progress) (s : List Char) : Prop := p.inside = true → ¬ callEnd <:+: s

theorem argumentText_suffix (started : Bool) (s : List Char) : argumentText started s <:+ s :=
  ⟨_, leading_append started s⟩

theorem Pause.waits {p q : Progress} {s t : List Char} {ps : List Piece} (h : Pause p s ps q t) :
    Waits q t := by
  intro hq
  cases h with
  | content h => exact absurd hq (by simp [Progress.inside])
  | header h => exact absurd hq (by simp [Progress.inside])
  | @arguments n started s h =>
    have hnone := absent_of_cut? h (by decide) (List.prefix_refl _)
    have hheld : (splitHeld [callEnd] (argumentText started s)).2 <:+ argumentText started s :=
      ⟨_, splitHeld_append _ _⟩
    exact fun hi => hnone (hi.trans hheld.isInfix)

theorem waits_run (p : Progress) (s : List Char) : Waits (run p s).2.1 (run p s).2.2 := by
  obtain ⟨q, t, ps, h⟩ := machine.exists_pause p s
  exact Pause.waits h

theorem content_concat {p : Progress} {s : List Char} (hp : p.inside = true) (h : Waits p s)
    (ch : Char) : Piece.content (run p (s ++ [ch])).1 = [] := by
  obtain ⟨mode, n⟩ := p
  cases mode with
  | content => exact absurd hp (by simp [Progress.inside])
  | header => exact absurd hp (by simp [Progress.inside])
  | arguments started =>
    cases hcut : cut? callEnd (argumentText started (s ++ [ch])) with
    | none =>
      rw [run_of_pause (.arguments hcut)]
      exact Piece.content_argumentPieces _ _
    | some r =>
      obtain ⟨b, a⟩ := r
      have hsuffix := argumentText_suffix started (s ++ [ch])
      rw [← cut?_append (by decide) hcut] at hsuffix
      obtain rfl := eq_nil_of_concat (h hp) hsuffix
      have hrest : run ⟨.content, n + 1⟩ [] = _ := run_of_pause (.content rfl)
      have hnone : dropSectionMarkers [] = [] := by decide +kernel
      rw [run_of_step (.ended hcut), Piece.content_append, content_ended, hrest]
      simp [splitHeld, hnone, Piece.content]

end KimiStream

/-! ## The Qwen parser -/

namespace QwenStream

open Qwen

/-- The markers that end what a parser inside a call waits for. -/
def Mode.ends : Mode → List (List Char)
  | .function => [parameterBegin, Qwen.functionEnd]
  | .parameterName => [['>']]
  | .parameterValue _ => valueEnds
  | _ => []

theorem ends_ne_nil (mode : Mode) : ∀ m ∈ mode.ends, m ≠ [] := by
  cases mode with
  | parameterValue started => exact valueEnds_ne_nil
  | _ => decide

def Waits (p : Progress) (s : List Char) : Prop := ∀ m ∈ p.mode.ends, ¬ m <:+: s

theorem absent_of_cutAny? {ms : List (List Char)} {s : List Char} (hm : ∀ m ∈ ms, m ≠ [])
    (h : cutAny? ms s = none) : ∀ m ∈ ms, ¬ m <:+: s := fun m hmem =>
  (clear_iff_absent (hm m hmem)).mp (cutAny?_eq_none_iff.mp h m hmem)

theorem Pause.waits {p q : Progress} {s t : List Char} {ps : List Piece} (h : Pause p s ps q t) :
    Waits q t := by
  cases h with
  | content _ | wrapper _ _ | name _ | functionEnd _ =>
    exact fun m hm => absurd hm (by simp [Mode.ends])
  | function h => exact absent_of_cutAny? (ends_ne_nil .function) h
  | key h =>
    refine List.forall_mem_singleton.mpr ?_
    rwa [cut?_eq_none_iff, clear_iff_absent (by decide)] at h
  | unstarted => exact fun m hm hi => valueEnds_ne_nil m hm (List.infix_nil.mp hi)
  | value hs h =>
    have hnone := absent_of_cutAny? valueEnds_ne_nil h
    exact fun m hm hi => hnone m hm (hi.trans (List.drop_suffix _ _).isInfix)

theorem waits_run (p : Progress) (s : List Char) : Waits (run p s).2.1 (run p s).2.2 := by
  obtain ⟨q, t, ps, h⟩ := machine.exists_pause p s
  exact Pause.waits h

theorem content_functionEnd (n k : Nat) (w : Bool) :
    Piece.content (run ⟨.functionEnd, n, k, w⟩ []).1 = [] := by
  cases w with
  | true => rw [run_of_pause (.functionEnd (by decide))]; rfl
  | false =>
    rw [run_of_step (.lost (by simp)), run_of_pause (.content rfl)]
    rfl

theorem content_function {s : List Char} (hs : ∀ b m a,
    cutAny? [parameterBegin, Qwen.functionEnd] s = some (b, m, a) → a = []) (n k : Nat) (w : Bool) :
    Piece.content (run ⟨.function, n, k, w⟩ s).1 = [] := by
  rcases step_or_pause ⟨.function, n, k, w⟩ s with ⟨ps, q, t, h⟩ | ⟨ps, q, t, h⟩
  · rw [run_of_step h]
    cases h with
    | parameter h =>
      obtain rfl := hs _ _ _ h
      rw [run_of_pause (.key rfl)]
      rfl
    | close h =>
      obtain rfl := hs _ _ _ h
      exact content_functionEnd _ _ _
  · rw [run_of_pause h]
    cases h
    rfl

/-- Behind a value nothing is left but the marker that ends it, unless that belongs to the value. -/
theorem content_afterValue {m : List Char} (hm : m ∈ valueEnds) (n k : Nat) (w : Bool) :
    Piece.content (run ⟨.function, n, k, w⟩ (afterValue m [])).1 = [] := by
  refine content_function (fun b m' a h => ?_) n k w
  have hcut : cutAny? [parameterBegin, Qwen.functionEnd] (afterValue m []) =
      if m = parameterEnd then none else some ([], m, []) := by
    simp only [valueEnds, List.mem_cons, List.not_mem_nil, or_false] at hm
    rcases hm with rfl | rfl | rfl <;> decide
  rw [hcut] at h
  split at h
  · exact absurd h (by simp)
  · exact (Prod.mk.inj (Prod.mk.inj (Option.some.inj h)).2).2.symm

section
variable {s : List Char} {ch : Char}

theorem nothing_behind_cut {m b a : List Char} (hm : m ≠ []) (h : ¬ m <:+: s)
    (hcut : cut? m (s ++ [ch]) = some (b, a)) : a = [] :=
  eq_nil_of_concat h ⟨[], cut?_append hm hcut⟩

theorem nothing_behind_cutAny {ms : List (List Char)} {m b a t : List Char}
    (hms : ∀ m ∈ ms, m ≠ []) (h : ∀ m ∈ ms, ¬ m <:+: s) (ht : t <:+ s ++ [ch])
    (hcut : cutAny? ms t = some (b, m, a)) : m ∈ ms ∧ a = [] := by
  obtain ⟨hm, ha⟩ := cutAny?_append hms hcut
  rw [← ha] at ht
  exact ⟨hm, eq_nil_of_concat (h m hm) ht⟩

theorem content_concat {p : Progress} (hp : p.inside = true) (h : Waits p s) (ch : Char) :
    Piece.content (run p (s ++ [ch])).1 = [] := by
  obtain ⟨mode, n, k, w⟩ := p
  rcases step_or_pause ⟨mode, n, k, w⟩ (s ++ [ch]) with ⟨ps, q, t, hs⟩ | ⟨ps, q, t, hs⟩
  · rw [run_of_step hs, Piece.content_append]
    cases hs with
    | parameter hcut =>
      obtain ⟨-, rfl⟩ := nothing_behind_cutAny (ends_ne_nil .function) h (List.suffix_refl _) hcut
      rw [run_of_pause (.key rfl)]
      rfl
    | close hcut =>
      obtain ⟨-, rfl⟩ := nothing_behind_cutAny (ends_ne_nil .function) h (List.suffix_refl _) hcut
      exact content_functionEnd _ _ _
    | key hcut =>
      obtain rfl := nothing_behind_cut (by decide) (h _ (by simp [Mode.ends])) hcut
      rw [run_of_pause .unstarted]
      rfl
    | value hcut =>
      obtain ⟨hm, rfl⟩ := nothing_behind_cutAny valueEnds_ne_nil h (valueText_suffix _ _) hcut
      exact content_afterValue hm _ _ _
    | _ => exact absurd hp (by simp [Progress.inside])
  · rw [run_of_pause hs]
    generalize s ++ [ch] = u at hs
    cases hs with
    | content _ => exact absurd hp (by simp [Progress.inside])
    | value _ _ => exact Piece.content_argumentPieces _ _
    | _ => rfl

end

end QwenStream

/-! ## Both parsers -/

namespace Dialect

theorem separate_single (d : Dialect) {xs : List String} (hx : ∀ x ∈ xs, ∃ ch, x.toList = [ch]) :
    ∀ ps ∈ d.parser.finds d.parser.start "" xs, Separate ps := by
  cases d with
  | kimi =>
    exact KimiStream.reader.separate_finds KimiStream.run_paced KimiStream.waits_run
      (fun hp h => KimiStream.content_concat hp h) (fun hp => absurd hp (by decide)) hx
  | qwen =>
    exact QwenStream.reader.separate_finds QwenStream.run_paced QwenStream.waits_run
      (fun hp h => QwenStream.content_concat hp h) (fun m hm => absurd hm List.not_mem_nil) hx

theorem separate_whole (d : Dialect) (x : String) :
    ∀ ps ∈ d.parser.finds d.parser.start "" [x], Separate ps := by
  obtain ⟨b, hpaced, -⟩ := d.turns_finds [x]
  exact List.forall_mem_singleton.mpr (.inr ⟨b, hpaced⟩)

end Dialect

end ChatGateway.Markup
