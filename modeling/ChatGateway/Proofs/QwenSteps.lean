import ChatGateway.Markup.QwenStream
import ChatGateway.Proofs.Deltas
import ChatGateway.Proofs.Machines
import ChatGateway.Proofs.Markers

/-!
# Steps of the incremental Qwen parser

`Step` has one case for each way in which a parser goes on, `Pause` one for each way in which it
stops and waits for more text. A run is steps up to a pause, and what holds of both holds of runs.
-/

namespace ChatGateway.Markup.QwenStream

open Text Qwen

theorem angled_begins : Angled [wrapperBegin, functionBegin] :=
  ⟨by decide, by decide, by decide⟩

theorem angled_function : Angled [parameterBegin, Qwen.functionEnd] :=
  ⟨by decide, by decide, by decide⟩

theorem angled_behind : Angled [wrapperEnd, functionBegin] := ⟨by decide, by decide, by decide⟩

theorem angled_valueEnds : Angled valueEnds := ⟨by decide, by decide, by decide⟩

/-- What is certain of a value that has not ended: neither its last newline nor what may become the
marker that ends it. -/
def certain (v : List Char) : List Char := dropLastNewline (splitHeld valueEnds v).1

def uncertain (v : List Char) : List Char := v.drop (certain v).length

/-- From a place in a text to a later place, with the pieces found between them. -/
inductive Step : Progress → List Char → List Piece → Progress → List Char → Prop where
  | wrapper {n k : Nat} {w : Bool} {s b a : List Char}
    (h : cutAny? [wrapperBegin, functionBegin] s = some (b, wrapperBegin, a)) :
    Step ⟨.content, n, k, w⟩ s [.text b] ⟨.wrapper, n, k, true⟩ a
  | bareFunction {n k : Nat} {w : Bool} {s b a : List Char}
    (h : cutAny? [wrapperBegin, functionBegin] s = some (b, functionBegin, a)) :
    Step ⟨.content, n, k, w⟩ s [.text b] ⟨.functionName, n, k, w⟩ a
  | wrappedFunction {n k : Nat} {w : Bool} {s b a : List Char}
    (h : cut? functionBegin s = some (b, a)) :
    Step ⟨.wrapper, n, k, w⟩ s [] ⟨.functionName, n, k, w⟩ a
  | emptyWrapper {n k : Nat} {w : Bool} {s b a : List Char} (hn : cut? functionBegin s = none)
    (h : cut? wrapperEnd s = some (b, a)) :
    Step ⟨.wrapper, n, k, w⟩ s [] ⟨.content, n, k, false⟩ a
  | name {n k : Nat} {w : Bool} {s b a : List Char} (h : cut? ['>'] s = some (b, a)) :
    Step ⟨.functionName, n, k, w⟩ s
      [.header n none (String.ofList (trim b)), .argument n ['\x7b']] ⟨.function, n, 0, w⟩ a
  | parameter {n k : Nat} {w : Bool} {s b a : List Char}
    (h : cutAny? [parameterBegin, Qwen.functionEnd] s = some (b, parameterBegin, a)) :
    Step ⟨.function, n, k, w⟩ s [] ⟨.parameterName, n, k, w⟩ a
  | close {n k : Nat} {w : Bool} {s b a : List Char}
    (h : cutAny? [parameterBegin, Qwen.functionEnd] s = some (b, Qwen.functionEnd, a)) :
    Step ⟨.function, n, k, w⟩ s [.argument n ['\x7d']] ⟨.functionEnd, n + 1, k, w⟩ a
  | key {n k : Nat} {w : Bool} {s b a : List Char} (h : cut? ['>'] s = some (b, a)) :
    Step ⟨.parameterName, n, k, w⟩ s [.argument n (keyText k b)]
      ⟨.parameterValue false, n, k + 1, w⟩ a
  | value {n k : Nat} {w started : Bool} {s b m a : List Char}
    (h : cutAny? valueEnds (valueText started s) = some (b, m, a)) :
    Step ⟨.parameterValue started, n, k, w⟩ s
      [.argument n (Json.escapeText (dropLastNewline b) ++ ['"'])] ⟨.function, n, k, w⟩
      (afterValue m a)
  | leave {n k : Nat} {s a : List Char} (h : trimStart s = wrapperEnd ++ a) :
    Step ⟨.functionEnd, n, k, true⟩ s [] ⟨.content, n, k, false⟩ a
  | again {n k : Nat} {s a : List Char} (h : trimStart s = functionBegin ++ a) :
    Step ⟨.functionEnd, n, k, true⟩ s [] ⟨.functionName, n, k, true⟩ a
  | lost {n k : Nat} {w : Bool} {s : List Char}
    (h : w = true → ¬ wrapperEnd <+: trimStart s ∧ ¬ functionBegin <+: trimStart s ∧
      startsMarker [wrapperEnd, functionBegin] (trimStart s) = false) :
    Step ⟨.functionEnd, n, k, w⟩ s [] ⟨.content, n, k, false⟩ s

/-- The last pieces, the place that is kept, and the text that is left for later. -/
inductive Pause : Progress → List Char → List Piece → Progress → List Char → Prop where
  | content {n k : Nat} {w : Bool} {s : List Char}
    (h : cutAny? [wrapperBegin, functionBegin] s = none) :
    Pause ⟨.content, n, k, w⟩ s [.text (splitHeld [wrapperBegin, functionBegin] s).1]
      ⟨.content, n, k, w⟩ (splitHeld [wrapperBegin, functionBegin] s).2
  | wrapper {n k : Nat} {w : Bool} {s : List Char} (hf : cut? functionBegin s = none)
    (he : cut? wrapperEnd s = none) : Pause ⟨.wrapper, n, k, w⟩ s [] ⟨.wrapper, n, k, w⟩ s
  | name {n k : Nat} {w : Bool} {s : List Char} (h : cut? ['>'] s = none) :
    Pause ⟨.functionName, n, k, w⟩ s [] ⟨.functionName, n, k, w⟩ s
  | function {n k : Nat} {w : Bool} {s : List Char}
    (h : cutAny? [parameterBegin, Qwen.functionEnd] s = none) :
    Pause ⟨.function, n, k, w⟩ s [] ⟨.function, n, k, w⟩ s
  | key {n k : Nat} {w : Bool} {s : List Char} (h : cut? ['>'] s = none) :
    Pause ⟨.parameterName, n, k, w⟩ s [] ⟨.parameterName, n, k, w⟩ s
  | unstarted {n k : Nat} {w : Bool} :
    Pause ⟨.parameterValue false, n, k, w⟩ [] [] ⟨.parameterValue false, n, k, w⟩ []
  | value {n k : Nat} {w started : Bool} {s : List Char} (hs : started = false → s ≠ [])
    (h : cutAny? valueEnds (valueText started s) = none) :
    Pause ⟨.parameterValue started, n, k, w⟩ s
      (argumentPieces n (Json.escapeText (certain (valueText started s))))
      ⟨.parameterValue true, n, k, w⟩ (uncertain (valueText started s))
  | functionEnd {n k : Nat} {s : List Char}
    (h : startsMarker [wrapperEnd, functionBegin] (trimStart s) = true) :
    Pause ⟨.functionEnd, n, k, true⟩ s [] ⟨.functionEnd, n, k, true⟩ s

/-! ## Runs -/

theorem run_of_step {p q : Progress} {s t : List Char} {ps : List Piece} (h : Step p s ps q t) :
    run p s = (ps ++ (run q t).1, (run q t).2) := by
  cases h with
  | wrapper h => rw [run]; simp only; split <;> simp_all
  | bareFunction h =>
    have hne : functionBegin ≠ wrapperBegin := by decide
    rw [run]; simp only; split <;> simp_all
  | wrappedFunction h => rw [run]; simp only; split <;> simp_all
  | emptyWrapper hn h =>
    rw [run]; simp only
    split
    · simp_all
    · split <;> simp_all
  | name h => rw [run]; simp only; split <;> simp_all
  | parameter h => rw [run]; simp only; split <;> simp_all
  | close h =>
    have hne : Qwen.functionEnd ≠ parameterBegin := by decide
    rw [run]; simp only; split <;> simp_all
  | key h => rw [run]; simp only; split <;> simp_all
  | @value n k w started s b m a h =>
    have hs : (!started && s.isEmpty) = false := by
      cases started with
      | true => rfl
      | false =>
        cases s with
        | nil => simp [valueText, dropNewline, cutAny?] at h
        | cons c s => rfl
    rw [run]
    simp only [hs]
    split
    · simp_all
    · split <;> simp_all
  | leave h => rw [run]; simp [h]
  | again h =>
    have hf : functionBegin <+: trimStart s := h ▸ List.prefix_append functionBegin t
    have hne : ¬ wrapperEnd <+: trimStart s := fun he =>
      absurd (angled_behind.eq_of_prefix (by simp) (by simp) he hf) (by decide)
    rw [run]
    simp only [Bool.true_and, List.isPrefixOf_iff_prefix, if_neg hne, if_pos hf]
    rw [h, List.drop_left]
    rfl
  | @lost n k w s h =>
    rw [run]
    cases w with
    | false => simp
    | true =>
      obtain ⟨he, hf, hs⟩ := h rfl
      have hpe := not_beginning (by simp) hs he
      have hpf := not_beginning (by simp) hs hf
      simp [he, hf, hpe, hpf]

theorem run_of_pause {p q : Progress} {s t : List Char} {ps : List Piece} (h : Pause p s ps q t) :
    run p s = (ps, q, t) := by
  cases h with
  | content h => rw [run]; simp only; split <;> simp_all
  | wrapper hf he =>
    rw [run]; simp only
    split
    · simp_all
    · split <;> simp_all
  | name h => rw [run]; simp only; split <;> simp_all
  | function h => rw [run]; simp only; split <;> simp_all
  | key h => rw [run]; simp only; split <;> simp_all
  | unstarted => rw [run]; simp
  | @value n k w started s hs h =>
    have hs : (!started && s.isEmpty) = false := by
      cases started <;> simp_all
    rw [run]
    simp only [hs]
    split
    · simp_all
    · split
      · simp_all
      · rfl
  | @functionEnd n k s h =>
    have he := angled_behind.not_prefix_of_startsMarker (m := wrapperEnd) (by simp) h
    have hf := angled_behind.not_prefix_of_startsMarker (m := functionBegin) (by simp) h
    have hp := beginning_of_startsMarker h
    rw [run]
    simp [he, hf, hp]

theorem step_or_pause (p : Progress) (s : List Char) :
    (∃ ps q t, Step p s ps q t) ∨ ∃ ps q t, Pause p s ps q t := by
  obtain ⟨mode, n, k, w⟩ := p
  cases mode with
  | content =>
    cases h : cutAny? [wrapperBegin, functionBegin] s with
    | none => exact .inr ⟨_, _, _, .content h⟩
    | some r =>
      obtain ⟨b, m, a⟩ := r
      have hm := (angled_begins.cutAny?_eq_some_iff.mp h).1
      rcases List.mem_pair.mp hm with rfl | rfl
      · exact .inl ⟨_, _, _, .wrapper h⟩
      · exact .inl ⟨_, _, _, .bareFunction h⟩
  | wrapper =>
    cases hf : cut? functionBegin s with
    | some r => exact .inl ⟨_, _, _, .wrappedFunction hf⟩
    | none =>
      cases he : cut? wrapperEnd s with
      | some r => exact .inl ⟨_, _, _, .emptyWrapper hf he⟩
      | none => exact .inr ⟨_, _, _, .wrapper hf he⟩
  | functionName =>
    cases h : cut? ['>'] s with
    | some r => exact .inl ⟨_, _, _, .name h⟩
    | none => exact .inr ⟨_, _, _, .name h⟩
  | function =>
    cases h : cutAny? [parameterBegin, Qwen.functionEnd] s with
    | none => exact .inr ⟨_, _, _, .function h⟩
    | some r =>
      obtain ⟨b, m, a⟩ := r
      have hm := (angled_function.cutAny?_eq_some_iff.mp h).1
      rcases List.mem_pair.mp hm with rfl | rfl
      · exact .inl ⟨_, _, _, .parameter h⟩
      · exact .inl ⟨_, _, _, .close h⟩
  | parameterName =>
    cases h : cut? ['>'] s with
    | some r => exact .inl ⟨_, _, _, .key h⟩
    | none => exact .inr ⟨_, _, _, .key h⟩
  | parameterValue started =>
    cases h : cutAny? valueEnds (valueText started s) with
    | some r => exact .inl ⟨_, _, _, .value h⟩
    | none =>
      by_cases hs : started = false → s ≠ []
      · exact .inr ⟨_, _, _, .value hs h⟩
      · obtain ⟨rfl, rfl⟩ : started = false ∧ s = [] := by simpa using hs
        exact .inr ⟨_, _, _, .unstarted⟩
  | functionEnd =>
    cases w with
    | false => exact .inl ⟨_, _, _, .lost (by simp)⟩
    | true =>
      by_cases he : wrapperEnd <+: trimStart s
      · obtain ⟨a, ha⟩ := he
        exact .inl ⟨_, _, _, .leave ha.symm⟩
      by_cases hf : functionBegin <+: trimStart s
      · obtain ⟨a, ha⟩ := hf
        exact .inl ⟨_, _, _, .again ha.symm⟩
      cases hs : startsMarker [wrapperEnd, functionBegin] (trimStart s) with
      | true => exact .inr ⟨_, _, _, .functionEnd hs⟩
      | false => exact .inl ⟨_, _, _, .lost fun _ => ⟨he, hf, hs⟩⟩

theorem Step.measure {p q : Progress} {s t : List Char} {ps : List Piece} (h : Step p s ps q t) :
    2 * t.length + q.mode.rank < 2 * s.length + p.mode.rank := by
  cases h with
  | wrapper h | bareFunction h | parameter h | close h =>
    have := length_cutAny? h
    simp only [Mode.rank]
    omega
  | wrappedFunction h | emptyWrapper _ h | name h | key h =>
    have := length_cut? h
    simp only [Mode.rank]
    omega
  | @value n k w started s b m a h =>
    have := Nat.le_trans (length_afterValue h) (length_valueText_le started s)
    simp only [Mode.rank]
    omega
  | leave h | again h =>
    have hl := length_trimStart_le s
    rw [h, List.length_append] at hl
    have : wrapperEnd.length = 12 := rfl
    have : functionBegin.length = 10 := rfl
    simp only [Mode.rank]
    omega
  | lost h => simp [Mode.rank]

def machine : Machine Progress (List Piece) where
  run := run
  Step := Step
  Pause := Pause
  said := id
  size p s := 2 * s.length + p.mode.rank
  run_of_step := run_of_step
  run_of_pause := run_of_pause
  step_or_pause := step_or_pause
  size_lt := Step.measure

theorem run_induction {motive : Progress → List Char → Prop}
    (step : ∀ {p s ps q t}, Step p s ps q t → motive q t → motive p s)
    (pause : ∀ {p s ps q t}, Pause p s ps q t → motive p s) (p : Progress) (s : List Char) :
    motive p s :=
  machine.induction step pause p s

/-! ## What is left -/

theorem valueText_suffix (started : Bool) (s : List Char) : valueText started s <:+ s := by
  rw [valueText]
  split
  · exact List.suffix_refl s
  · unfold dropNewline
    split
    · exact List.suffix_cons _ _
    · exact List.suffix_refl _

theorem afterValue_suffix {s b m a : List Char} (h : cutAny? valueEnds s = some (b, m, a)) :
    afterValue m a <:+ s := by
  have hs := (cutAny?_append valueEnds_ne_nil h).2
  rw [afterValue]
  split
  · exact ⟨b ++ m, hs⟩
  · exact ⟨b, by rw [← List.append_assoc, hs]⟩

theorem Step.suffix {p q : Progress} {s t : List Char} {ps : List Piece} (h : Step p s ps q t) :
    t <:+ s := by
  cases h with
  | wrapper h | bareFunction h => exact suffix_of_cutAny? angled_begins h
  | wrappedFunction h => exact suffix_of_cut? (by decide) h
  | emptyWrapper _ h => exact suffix_of_cut? (by decide) h
  | name h | key h => exact suffix_of_cut? (by decide) h
  | parameter h | close h => exact suffix_of_cutAny? angled_function h
  | value h => exact (afterValue_suffix h).trans (valueText_suffix _ s)
  | leave h | again h => exact List.IsSuffix.trans ⟨_, h.symm⟩ (trimStart_suffix s)
  | lost h => exact List.suffix_refl s

theorem Pause.suffix {p q : Progress} {s t : List Char} {ps : List Piece} (h : Pause p s ps q t) :
    t <:+ s := by
  cases h with
  | content h => exact ⟨_, splitHeld_append _ s⟩
  | value hs h => exact (List.drop_suffix _ _).trans (valueText_suffix _ s)
  | wrapper _ _ | name _ | function _ | key _ | unstarted | functionEnd _ =>
    exact List.suffix_refl _

theorem run_suffix (p : Progress) (s : List Char) : (run p s).2.2 <:+ s :=
  machine.run_suffix Step.suffix Pause.suffix p s

/-! ## Headers and their numbers -/

def Progress.headers (p : Progress) : Nat :=
  match p.mode with
  | .function | .parameterName | .parameterValue _ => p.slot + 1
  | _ => p.slot

theorem Step.counts {p q : Progress} {s t : List Char} {ps : List Piece} (h : Step p s ps q t) :
    Counts p.headers ps q.headers := by
  cases h with
  | wrapper h | bareFunction h => exact .text _ (.nil _)
  | name h => exact .header none _ (.argument _ (.nil _))
  | close h | key h | value h => exact .argument _ (.nil _)
  | wrappedFunction _ | emptyWrapper _ _ | parameter _ | leave _ | again _ | lost _ => exact .nil _

theorem Pause.counts {p q : Progress} {s t : List Char} {ps : List Piece} (h : Pause p s ps q t) :
    Counts p.headers ps q.headers := by
  cases h with
  | content h => exact .text _ (.nil _)
  | value hs h => exact counts_argumentPieces _ _
  | wrapper _ _ | name _ | function _ | key _ | unstarted | functionEnd _ => exact .nil _

theorem run_counts (p : Progress) (s : List Char) :
    Counts p.headers (run p s).1 (run p s).2.1.headers :=
  machine.run_composed (R := fun p _ ps q _ => Counts p.headers ps q.headers)
    Counts.append Step.counts Pause.counts p s

end ChatGateway.Markup.QwenStream
