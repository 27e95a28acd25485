import ChatGateway.Proofs.Growing
import ChatGateway.Proofs.QwenSteps
import Mathlib.Data.List.TakeWhile

/-!
# Qwen markup, cut anywhere

A run over a text and a run over its continuation find what one run over both finds. The only step
that more text can undo is the end of an empty wrapper: once a function begins later, the wrapper is
taken to hold it. Calls do not depend on it, and content does not where no wrapper is `Overtaken`.
-/

namespace ChatGateway.Markup.QwenStream

open Text Qwen

/-! ## Steps with more text behind -/

/-- A wrapper that ends in front of the first function. -/
def Overtaken (s : List Char) : Prop :=
  ∃ b a, s = b ++ wrapperEnd ++ a ∧ ¬ functionBegin <:+: b ∧ functionBegin <:+: a

def functionText (s : List Char) : Option (List Char) := (cut? functionBegin s).map (·.2)

theorem functionText_append_left {t u : List Char} (h : Clear functionBegin t u) :
    functionText (t ++ u) = functionText u := by
  rw [functionText, functionText, cut?_append_left h, Option.map_map]
  rfl

theorem cut?_functionBegin_eq_none {s : List Char} :
    cut? functionBegin s = none ↔ ¬ functionBegin <:+: s := by
  rw [cut?_eq_none_iff, clear_iff_absent (by decide)]

theorem clear_wrapperEnd {b a : List Char} (h : cut? functionBegin (b ++ wrapperEnd ++ a) = none)
    (y : List Char) : Clear functionBegin (b ++ wrapperEnd) (a ++ y) := by
  rw [cut?_eq_none_iff, List.append_assoc, clear_append, List.append_nil] at h
  have hb := angled_behind.clear_append_right (by simp) (by simp) h.1 y
  rw [List.append_assoc] at hb
  exact clear_append.mpr ⟨hb, angled_behind.clear_other (by simp) (by simp) (by decide) _⟩

/-- The end of an empty wrapper is the end of one with more text behind, or a function that begins
there takes the wrapper over. -/
theorem overtaken_of_some {x b a y : List Char} (hn : cut? functionBegin x = none)
    (h : cut? wrapperEnd x = some (b, a)) (hy : cut? functionBegin (x ++ y) ≠ none) :
    Overtaken (x ++ y) := by
  have hx := cut?_append (by decide) h
  subst hx
  have hb : ¬ functionBegin <:+: b := fun hi => by
    rw [cut?_functionBegin_eq_none] at hn
    exact hn (hi.trans ⟨[], wrapperEnd ++ a, by simp⟩)
  refine ⟨b, a ++ y, by simp, hb, ?_⟩
  by_contra ha
  refine hy ?_
  rw [List.append_assoc, cut?_append_left (clear_wrapperEnd hn y),
    cut?_functionBegin_eq_none.mpr ha]
  rfl

theorem valueText_append {started : Bool} {x : List Char} (h : started = false → x ≠ [])
    (y : List Char) : valueText started (x ++ y) = valueText started x ++ y := by
  cases started with
  | true => rfl
  | false =>
    obtain ⟨c, x, rfl⟩ := List.exists_cons_of_ne_nil (h rfl)
    rw [valueText, valueText, if_neg (by simp), if_neg (by simp), List.cons_append]
    by_cases hc : c = '\n'
    · subst hc
      rfl
    · simp [dropNewline, hc]

theorem afterValue_append (m a y : List Char) : afterValue m (a ++ y) = afterValue m a ++ y := by
  rw [afterValue, afterValue]
  split
  · rfl
  · rw [List.append_assoc]

theorem started_or_ne_nil {started : Bool} {x b m a : List Char}
    (h : cutAny? valueEnds (valueText started x) = some (b, m, a)) : started = false → x ≠ [] := by
  rintro rfl rfl
  simp [valueText, dropNewline, cutAny?] at h

theorem Step.append {p q : Progress} {x t : List Char} {ps : List Piece} (h : Step p x ps q t)
    {y : List Char} (ho : p.mode = .wrapper → ¬ Overtaken (x ++ y)) :
    Step p (x ++ y) ps q (t ++ y) := by
  cases h with
  | wrapper h => exact .wrapper (angled_begins.cutAny?_append_right h y)
  | bareFunction h => exact .bareFunction (angled_begins.cutAny?_append_right h y)
  | wrappedFunction h => exact .wrappedFunction (cut?_append_right (by decide) h y)
  | emptyWrapper hn h =>
    have hn' : cut? functionBegin (x ++ y) = none := by
      by_contra hy
      exact ho rfl (overtaken_of_some hn h hy)
    exact .emptyWrapper hn' (cut?_append_right (by decide) h y)
  | name h => exact .name (cut?_append_right (by decide) h y)
  | parameter h => exact .parameter (angled_function.cutAny?_append_right h y)
  | close h => exact .close (angled_function.cutAny?_append_right h y)
  | key h => exact .key (cut?_append_right (by decide) h y)
  | value h =>
    have hcut := angled_valueEnds.cutAny?_append_right h y
    rw [← valueText_append (started_or_ne_nil h)] at hcut
    rw [← afterValue_append]
    exact .value hcut
  | leave h =>
    refine .leave ?_
    have hne : trimStart x ≠ [] := h ▸ List.append_ne_nil_of_left_ne_nil (by decide) _
    rw [trimStart_append hne, h, List.append_assoc]
  | again h =>
    refine .again ?_
    have hne : trimStart x ≠ [] := h ▸ List.append_ne_nil_of_left_ne_nil (by decide) _
    rw [trimStart_append hne, h, List.append_assoc]
  | lost h =>
    refine .lost fun hw => ?_
    obtain ⟨he, hf, hs⟩ := h hw
    have hne : trimStart x ≠ [] := fun hnil => by
      rw [hnil] at hs
      exact absurd hs (by decide)
    rw [trimStart_append hne]
    exact ⟨not_prefix_append (by simp) hs he y, not_prefix_append (by simp) hs hf y,
      startsMarker_append hs y⟩

/-! ## Pauses with more text behind -/

/-- With `y` behind it, the text `x` is read as if the reader had paused at its end. -/
structure Resumes (p : Progress) (x : List Char) (ps : List Piece) (q : Progress) (r : List Char)
    (y : List Char) : Prop where
  step : ∀ {qs q' t}, Step q (r ++ y) qs q' t →
    ∃ rs, Step p (x ++ y) rs q' t ∧ Piece.Alike rs (ps ++ qs)
  pause : ∀ {qs q' t}, Pause q (r ++ y) qs q' t →
    ∃ rs, Pause p (x ++ y) rs q' t ∧ Piece.Alike rs (ps ++ qs)

theorem Resumes.of_same (p : Progress) (x y : List Char) : Resumes p x [] p x y where
  step h := ⟨_, h, .refl _⟩
  pause h := ⟨_, h, .refl _⟩

theorem Resumes.content {n k : Nat} {w : Bool} {x : List Char}
    (h : cutAny? [wrapperBegin, functionBegin] x = none) (y : List Char) :
    Resumes ⟨.content, n, k, w⟩ x [.text (splitHeld [wrapperBegin, functionBegin] x).1]
      ⟨.content, n, k, w⟩ (splitHeld [wrapperBegin, functionBegin] x).2 y := by
  have hclear := clear_splitHeld h y
  have hsafe := splitHeld_fst [wrapperBegin, functionBegin] x
  have hx := splitHeld_append [wrapperBegin, functionBegin] x
  generalize (splitHeld [wrapperBegin, functionBegin] x).1 = safe at hclear hsafe hx ⊢
  generalize (splitHeld [wrapperBegin, functionBegin] x).2 = held at hclear hsafe hx ⊢
  subst hx
  have hcut := cutAny?_append_left hclear
  have hheld := splitHeld_append_left (u := held ++ y) fun b hb hs => by
    rw [← List.append_assoc]
    exact startsMarker_append (hsafe b hb hs) y
  rw [← List.append_assoc] at hcut hheld
  constructor
  · intro qs q' t hstep
    cases hstep with
    | wrapper h' =>
      rw [h'] at hcut
      exact ⟨_, .wrapper hcut, by simp [Piece.content], rfl⟩
    | bareFunction h' =>
      rw [h'] at hcut
      exact ⟨_, .bareFunction hcut, by simp [Piece.content], rfl⟩
  · intro qs q' t hpause
    cases hpause with
    | content h' =>
      rw [h'] at hcut
      have hp := Pause.content (n := n) (k := k) (w := w) hcut
      rw [hheld] at hp
      exact ⟨_, hp, by simp [Piece.content], rfl⟩

theorem dropLastNewline_append {b : List Char} (hb : b ≠ []) (s : List Char) :
    dropLastNewline (s ++ b) = s ++ dropLastNewline b := by
  have hlast : (s ++ b).getLast? = b.getLast? := by
    rw [List.getLast?_append, List.getLast?_eq_some_getLast hb]
    rfl
  rw [dropLastNewline, dropLastNewline, hlast, List.dropLast_append_of_ne_nil hb]
  split <;> rfl

theorem exists_newline (s : List Char) :
    ∃ nl, s = dropLastNewline s ++ nl ∧ (nl = [] ∨ nl = ['\n']) := by
  by_cases h : s.getLast? = some '\n'
  · obtain ⟨t, rfl⟩ := List.getLast?_eq_some_iff.mp h
    exact ⟨['\n'], by simp [dropLastNewline], .inr rfl⟩
  · exact ⟨[], by simp [dropLastNewline, h], .inl rfl⟩

theorem cutAny?_newline (s : List Char) :
    cutAny? valueEnds ('\n' :: s) =
      (cutAny? valueEnds s).map fun (b, m, a) => ('\n' :: b, m, a) :=
  cutAny?_append_left (t := ['\n']) fun _ hm =>
    clear_of_free (angled_valueEnds.head _ hm) (by decide) s

theorem splitHeld_newline (s : List Char) :
    splitHeld valueEnds ('\n' :: s) =
      ('\n' :: (splitHeld valueEnds s).1, (splitHeld valueEnds s).2) := by
  have hs : startsMarker valueEnds ('\n' :: s) = false := by
    refine Bool.eq_false_iff.mpr fun h => ?_
    obtain ⟨m, hm, hp, -⟩ := startsMarker_iff.mp h
    obtain ⟨t, rfl⟩ := List.head?_eq_some_iff.mp (angled_valueEnds.head m hm)
    exact absurd (List.cons_prefix_cons.mp hp).1 (by decide)
  rw [splitHeld, hs]
  rfl

theorem uncertain_eq (v : List Char) :
    ∃ nl, (splitHeld valueEnds v).1 = certain v ++ nl ∧
      uncertain v = nl ++ (splitHeld valueEnds v).2 ∧ (nl = [] ∨ nl = ['\n']) := by
  obtain ⟨nl, hnl, hcases⟩ := exists_newline (splitHeld valueEnds v).1
  have hv : v = certain v ++ (nl ++ (splitHeld valueEnds v).2) := by
    rw [certain, ← List.append_assoc, ← hnl, splitHeld_append]
  refine ⟨nl, hnl, ?_, hcases⟩
  rw [uncertain]
  nth_rewrite 2 [hv]
  rw [List.drop_left]

theorem certain_append (v : List Char) : certain v ++ uncertain v = v := by
  obtain ⟨nl, hnl, hrest, -⟩ := uncertain_eq v
  rw [hrest, ← List.append_assoc, ← hnl, splitHeld_append]

theorem cutAny?_certain {v : List Char} (h : cutAny? valueEnds v = none) (y : List Char) :
    cutAny? valueEnds (v ++ y) =
      (cutAny? valueEnds (uncertain v ++ y)).map fun (b, m, a) => (certain v ++ b, m, a) := by
  obtain ⟨nl, hnl, hrest, -⟩ := uncertain_eq v
  have hclear : ∀ m ∈ valueEnds, Clear m (certain v) (uncertain v ++ y) := by
    intro m hm
    have hc := clear_splitHeld h y m hm
    rw [hnl, clear_append, ← List.append_assoc, ← hrest] at hc
    exact hc.1
  rw [← cutAny?_append_left hclear, ← List.append_assoc, certain_append]

theorem splitHeld_certain (v y : List Char) :
    splitHeld valueEnds (v ++ y) =
      (certain v ++ (splitHeld valueEnds (uncertain v ++ y)).1,
        (splitHeld valueEnds (uncertain v ++ y)).2) := by
  obtain ⟨nl, hnl, hrest, -⟩ := uncertain_eq v
  have hfree : ∀ b, b ≠ [] → b <:+ certain v →
      startsMarker valueEnds (b ++ (uncertain v ++ y)) = false := by
    intro b hb ⟨c, hc⟩
    have hsuffix : b ++ nl <:+ (splitHeld valueEnds v).1 :=
      ⟨c, by rw [hnl, ← hc, List.append_assoc]⟩
    have hs := splitHeld_fst valueEnds v (b ++ nl) (by simp [hb]) hsuffix
    rw [List.append_assoc, ← hrest] at hs
    rw [← List.append_assoc]
    exact startsMarker_append hs y
  rw [← splitHeld_append_left hfree, ← List.append_assoc, certain_append]

theorem dropLastNewline_certain {v b : List Char}
    (hb : b = [] → ∀ s, uncertain v ≠ '\n' :: s) :
    dropLastNewline (certain v ++ b) = certain v ++ dropLastNewline b := by
  by_cases h : b = []
  · obtain ⟨nl, hnl, hrest, rfl | rfl⟩ := uncertain_eq v
    · rw [List.append_nil] at hnl
      have hlast : dropLastNewline (certain v) = certain v := congrArg dropLastNewline hnl.symm
      rw [h, List.append_nil, hlast]
      exact (List.append_nil _).symm
    · exact absurd hrest (hb h _)
  · exact dropLastNewline_append h _

theorem dropLastNewline_cut {v y b m a : List Char}
    (h : cutAny? valueEnds (uncertain v ++ y) = some (b, m, a)) :
    dropLastNewline (certain v ++ b) = certain v ++ dropLastNewline b := by
  refine dropLastNewline_certain ?_
  rintro rfl s hs
  rw [hs, List.cons_append, cutAny?_newline] at h
  simp at h

theorem certain_of_append (v y : List Char) :
    certain (v ++ y) = certain v ++ certain (uncertain v ++ y) := by
  rw [certain, splitHeld_certain]
  refine dropLastNewline_certain fun he s hs => ?_
  rw [hs, List.cons_append, splitHeld_newline] at he
  exact absurd he (by simp)

theorem uncertain_of_append (v y : List Char) :
    uncertain (v ++ y) = uncertain (uncertain v ++ y) := by
  have hsame : certain (v ++ y) ++ uncertain (v ++ y) =
      certain (v ++ y) ++ uncertain (uncertain v ++ y) := by
    rw [certain_append, certain_of_append, List.append_assoc, certain_append, ← List.append_assoc,
      certain_append]
  exact List.append_cancel_left hsame

theorem escapeText_append (s t : List Char) :
    Json.escapeText (s ++ t) = Json.escapeText s ++ Json.escapeText t := List.flatMap_append

theorem Resumes.value {n k : Nat} {w started : Bool} {x : List Char}
    (hs : started = false → x ≠ []) (h : cutAny? valueEnds (valueText started x) = none)
    (y : List Char) :
    Resumes ⟨.parameterValue started, n, k, w⟩ x
      (argumentPieces n (Json.escapeText (certain (valueText started x))))
      ⟨.parameterValue true, n, k, w⟩ (uncertain (valueText started x)) y := by
  have hxy : started = false → x ++ y ≠ [] := fun hst =>
    List.append_ne_nil_of_left_ne_nil (hs hst) y
  have hcut := cutAny?_certain h y
  have htext := valueText_append hs y
  generalize valueText started x = v at hcut htext
  rw [← htext] at hcut
  constructor
  · intro qs q' t hstep
    cases hstep with
    | value h' =>
      rw [valueText, if_pos rfl] at h'
      rw [h'] at hcut
      refine ⟨_, .value hcut, ?_, ?_⟩
      · simp [Piece.content_append, Piece.content_argumentPieces, Piece.content]
      · simp [Piece.marks_append, Piece.marks_argumentPieces, dropLastNewline_cut h', escapeText_append,
          Piece.marks]
  · intro qs q' t hpause
    cases hpause with
    | value hs' h' =>
      rw [valueText, if_pos rfl] at h' ⊢
      rw [h'] at hcut
      have hp := Pause.value (n := n) (k := k) (w := w) hxy hcut
      rw [htext, certain_of_append, uncertain_of_append] at hp
      refine ⟨_, hp, ?_, ?_⟩
      · simp [Piece.content_append, Piece.content_argumentPieces]
      · simp [Piece.marks_append, Piece.marks_argumentPieces, escapeText_append]

theorem Pause.resumes {p q : Progress} {x r : List Char} {ps : List Piece} (h : Pause p x ps q r)
    (y : List Char) : Resumes p x ps q r y := by
  cases h with
  | content h => exact .content h y
  | value hs h => exact .value hs h y
  | wrapper _ _ | name _ | function _ | key _ | unstarted | functionEnd _ => exact .of_same _ _ y

/-! ## Runs over cut texts, in which no wrapper is overtaken -/

/-- No wrapper that a run comes to ends in front of the function that is taken for its own. -/
def Orderly (p : Progress) (s : List Char) : Prop :=
  ∀ q t, Visits Step p s q t → q.mode = .wrapper → ¬ Overtaken t

theorem Orderly.step {p q : Progress} {s t : List Char} {ps : List Piece} (h : Orderly p s)
    (hs : Step p s ps q t) : Orderly q t := fun r u hv => h r u (.there hs hv)

theorem Pause.eq_of_wrapper {p q : Progress} {s t : List Char} {ps : List Piece}
    (h : Pause p s ps q t) (hq : q.mode = .wrapper) : p = q ∧ s = t := by
  cases h <;> first | exact ⟨rfl, rfl⟩ | exact absurd hq (by simp)

theorem Orderly.pause {p q : Progress} {x r y : List Char} {ps : List Piece}
    (h : Orderly p (x ++ y)) (hp : Pause p x ps q r) : Orderly q (r ++ y) := by
  intro q' t hv hq
  cases hv with
  | here =>
    obtain ⟨rfl, rfl⟩ := hp.eq_of_wrapper hq
    exact h _ _ (.here _ _) hq
  | there hs hv =>
    obtain ⟨rs, hs', -⟩ := (hp.resumes y).step hs
    exact h q' t (.there hs' hv) hq

theorem run_resumes {p q : Progress} {x r y : List Char} {ps : List Piece}
    (h : Resumes p x ps q r y) : Piece.Alike (run p (x ++ y)).1 (ps ++ (run q (r ++ y)).1) ∧
      (run p (x ++ y)).2 = (run q (r ++ y)).2 := by
  rcases step_or_pause q (r ++ y) with ⟨qs, q', t, hs⟩ | ⟨qs, q', t, hp⟩
  · obtain ⟨rs, hs', ha⟩ := h.step hs
    rw [run_of_step hs, run_of_step hs', ← List.append_assoc]
    exact ⟨ha.append (.refl _), rfl⟩
  · obtain ⟨rs, hp', ha⟩ := h.pause hp
    rw [run_of_pause hp, run_of_pause hp']
    exact ⟨ha, rfl⟩

theorem orderly_rest {p : Progress} {x y : List Char} (h : Orderly p (x ++ y)) :
    Orderly (run p x).2.1 ((run p x).2.2 ++ y) := by
  induction p, x using run_induction with
  | step hs ih =>
    rw [run_of_step hs]
    exact ih (h.step (hs.append (h _ _ (.here _ _))))
  | pause hp =>
    rw [run_of_pause hp]
    exact h.pause hp

theorem run_append {p : Progress} {x y : List Char} (h : Orderly p (x ++ y)) :
    Piece.Alike (run p (x ++ y)).1
        ((run p x).1 ++ (run (run p x).2.1 ((run p x).2.2 ++ y)).1) ∧
      (run p (x ++ y)).2 = (run (run p x).2.1 ((run p x).2.2 ++ y)).2 := by
  induction p, x using run_induction with
  | step hs ih =>
    have hs' := hs.append (h _ _ (.here _ _))
    obtain ⟨halike, hrest⟩ := ih (h.step hs')
    rw [run_of_step hs, run_of_step hs', List.append_assoc]
    exact ⟨(Piece.Alike.refl _).append halike, hrest⟩
  | pause hp =>
    rw [run_of_pause hp]
    exact run_resumes (hp.resumes y)

/-! ## Calls -/

def marksFrom (p : Progress) (s : List Char) : List Mark := Piece.marks (run p s).1

theorem marksFrom_of_step {p q : Progress} {s t : List Char} {ps : List Piece}
    (h : Step p s ps q t) : marksFrom p s = Piece.marks ps ++ marksFrom q t := by
  rw [marksFrom, run_of_step h, Piece.marks_append, marksFrom]

theorem marksFrom_of_pause {p q : Progress} {s t : List Char} {ps : List Piece}
    (h : Pause p s ps q t) : marksFrom p s = Piece.marks ps := by
  rw [marksFrom, run_of_pause h]

def Mode.outside : Mode → Bool
  | .content | .wrapper | .functionEnd => true
  | _ => false

def marksBehind (n k : Nat) (w : Bool) (s : List Char) : List Mark :=
  (functionText s).elim [] (marksFrom ⟨.functionName, n, k, w⟩)

theorem functionText_of_cut {s b a : List Char} (h : cut? functionBegin s = some (b, a)) :
    functionText s = some a := by
  rw [functionText, h]
  rfl

theorem functionText_of_none {s : List Char} (h : cut? functionBegin s = none) :
    functionText s = none := by
  rw [functionText, h]
  rfl

theorem length_functionText {s a : List Char} (h : functionText s = some a) :
    a.length < s.length := by
  obtain ⟨⟨b, a⟩, hcut, rfl⟩ := Option.map_eq_some_iff.mp h
  exact length_cut? hcut

theorem functionText_trimStart (s : List Char) : functionText (trimStart s) = functionText s := by
  have hclear : Clear functionBegin (s.takeWhile isBlank) (trimStart s) :=
    clear_of_free rfl (fun h => absurd (List.mem_takeWhile_imp h) (by decide)) _
  rw [← functionText_append_left hclear, trimStart, List.takeWhile_append_dropWhile]

theorem functionText_of_short {s : List Char}
    (h : startsMarker [wrapperEnd, functionBegin] s = true) : functionText s = none := by
  obtain ⟨m, hm, hp, hl⟩ := startsMarker_iff.mp h
  refine functionText_of_none (cut?_functionBegin_eq_none.mpr fun hi => ?_)
  rcases List.mem_pair.mp hm with rfl | rfl
  · have hnone : cut? functionBegin wrapperEnd = none := by decide
    exact cut?_functionBegin_eq_none.mp hnone (hi.trans hp.isInfix)
  · exact absurd hi.length_le (Nat.not_le_of_lt hl)

/-- Outside of functions, a step goes past what begins no function, or past the beginning of the
first one. -/
theorem Step.outside {p q : Progress} {s t : List Char} {ps : List Piece} (h : Step p s ps q t)
    (hp : p.mode.outside = true) :
    Piece.marks ps = [] ∧
      ((q.mode.outside = true ∧ functionText s = functionText t) ∨
        (∃ w, q = ⟨.functionName, p.slot, p.params, w⟩) ∧ functionText s = some t) ∧
      q.slot = p.slot ∧ q.params = p.params := by
  cases h with
  | wrapper h =>
    obtain ⟨-, rfl, hc⟩ := angled_begins.cutAny?_eq_some_iff.mp h
    have hclear := clear_append.mpr ⟨hc functionBegin (by simp),
      angled_begins.clear_other (by simp) (by simp) (by decide) t⟩
    exact ⟨rfl, .inl ⟨rfl, functionText_append_left hclear⟩, rfl, rfl⟩
  | bareFunction h =>
    have hcut := angled_begins.cut?_of_cutAny? h
    exact ⟨rfl, .inr ⟨⟨_, rfl⟩, functionText_of_cut hcut⟩, rfl, rfl⟩
  | wrappedFunction h => exact ⟨rfl, .inr ⟨⟨_, rfl⟩, functionText_of_cut h⟩, rfl, rfl⟩
  | emptyWrapper hn h =>
    obtain rfl := cut?_append (by decide) h
    have hclear := clear_wrapperEnd hn []
    rw [List.append_nil] at hclear
    exact ⟨rfl, .inl ⟨rfl, functionText_append_left hclear⟩, rfl, rfl⟩
  | leave h =>
    have hclear : Clear functionBegin wrapperEnd t :=
      angled_behind.clear_other (by simp) (by simp) (by decide) t
    refine ⟨rfl, .inl ⟨rfl, ?_⟩, rfl, rfl⟩
    rw [← functionText_trimStart, h, functionText_append_left hclear]
  | again h =>
    have hcut : cut? functionBegin (functionBegin ++ t) = some ([], t) :=
      (cut?_eq_some_iff (by decide)).mpr ⟨rfl, clear_nil _ _⟩
    refine ⟨rfl, .inr ⟨⟨_, rfl⟩, ?_⟩, rfl, rfl⟩
    rw [← functionText_trimStart, h, functionText_of_cut hcut]
  | lost h => exact ⟨rfl, .inl ⟨rfl, rfl⟩, rfl, rfl⟩
  | name _ | parameter _ | close _ | key _ | value _ => exact absurd hp (by simp [Mode.outside])

theorem Pause.outside {p q : Progress} {s t : List Char} {ps : List Piece} (h : Pause p s ps q t)
    (hp : p.mode.outside = true) : Piece.marks ps = [] ∧ functionText s = none := by
  cases h with
  | content h =>
    have hnone := cut?_eq_none_iff.mpr (cutAny?_eq_none_iff.mp h functionBegin (by simp))
    exact ⟨rfl, functionText_of_none hnone⟩
  | wrapper hf he => exact ⟨rfl, functionText_of_none hf⟩
  | functionEnd h => exact ⟨rfl, (functionText_trimStart _).symm.trans (functionText_of_short h)⟩
  | name _ | function _ | key _ | unstarted | value _ _ => exact absurd hp (by simp [Mode.outside])

/-- Outside of functions, all that matters to calls is where the next function begins. -/
theorem marksFrom_outside {p : Progress} {s : List Char} (hp : p.mode.outside = true)
    (hw : ∀ a n k w w', a.length < s.length →
      marksFrom ⟨.functionName, n, k, w⟩ a = marksFrom ⟨.functionName, n, k, w'⟩ a) (w : Bool) :
    marksFrom p s = marksBehind p.slot p.params w s := by
  induction p, s using run_induction with
  | step hs ih =>
    obtain ⟨hmarks, ⟨hq, htext⟩ | ⟨⟨w', rfl⟩, htext⟩, hslot, hparams⟩ := hs.outside hp
    · have hlater := ih hq fun a n k w w' hl =>
        hw a n k w w' (Nat.lt_of_lt_of_le hl hs.suffix.length_le)
      rw [marksFrom_of_step hs, hmarks, hlater, hslot, hparams, marksBehind, marksBehind, htext]
      rfl
    · rw [marksFrom_of_step hs, hmarks, marksBehind, htext]
      exact hw _ _ _ _ _ (length_functionText htext)
  | pause h =>
    obtain ⟨hmarks, htext⟩ := h.outside hp
    rw [marksFrom_of_pause h, hmarks, marksBehind, htext]
    rfl

theorem Step.rewrap {p q : Progress} {s t : List Char} {ps : List Piece} (h : Step p s ps q t)
    (hp : p.mode.outside = false) (w : Bool) :
    Step { p with wrapped := w } s ps { q with wrapped := w } t := by
  cases h with
  | name h => exact .name h
  | parameter h => exact .parameter h
  | close h => exact .close h
  | key h => exact .key h
  | value h => exact .value h
  | wrapper _ | bareFunction _ | wrappedFunction _ | emptyWrapper _ _ | leave _ | again _ | lost _ =>
    exact absurd hp (by simp [Mode.outside])

theorem Pause.rewrap {p q : Progress} {s t : List Char} {ps : List Piece} (h : Pause p s ps q t)
    (hp : p.mode.outside = false) (w : Bool) :
    Pause { p with wrapped := w } s ps { q with wrapped := w } t := by
  cases h with
  | name h => exact .name h
  | function h => exact .function h
  | key h => exact .key h
  | unstarted => exact .unstarted
  | value hs h => exact .value hs h
  | content _ | wrapper _ _ | functionEnd _ => exact absurd hp (by simp [Mode.outside])

theorem marksFrom_rewrap (p : Progress) (s : List Char) (w : Bool) :
    marksFrom { p with wrapped := w } s = marksFrom p s := by
  induction h : 2 * s.length + p.mode.rank using Nat.strongRecOn generalizing p s with
  | _ l ih =>
    cases hp : p.mode.outside with
    | true =>
      have hw : ∀ a n k w₁ w₂, a.length < s.length →
          marksFrom ⟨.functionName, n, k, w₁⟩ a = marksFrom ⟨.functionName, n, k, w₂⟩ a := by
        intro a n k w₁ w₂ hl
        have hlater := fun w' => ih (2 * a.length + 0) (by omega) ⟨.functionName, n, k, w'⟩ a rfl
        exact (hlater w₁).symm.trans (hlater w₂)
      rw [marksFrom_outside hp hw w, marksFrom_outside (p := { p with wrapped := w }) hp hw w]
    | false =>
      rcases step_or_pause p s with ⟨ps, q, t, hs⟩ | ⟨ps, q, t, hpause⟩
      · rw [marksFrom_of_step hs, marksFrom_of_step (hs.rewrap hp w), ih _ (h ▸ hs.measure) q t rfl]
      · rw [marksFrom_of_pause hpause, marksFrom_of_pause (hpause.rewrap hp w)]

theorem marksFrom_eq_behind {p : Progress} {s : List Char} (hp : p.mode.outside = true) (w : Bool) :
    marksFrom p s = marksBehind p.slot p.params w s := by
  refine marksFrom_outside hp (fun a n k w₁ w₂ _ => ?_) w
  exact (marksFrom_rewrap ⟨.functionName, n, k, w₁⟩ a w₂).symm

theorem Step.marks_append {p q : Progress} {x t : List Char} {ps : List Piece}
    (h : Step p x ps q t) (y : List Char) :
    marksFrom p (x ++ y) = Piece.marks ps ++ marksFrom q (t ++ y) := by
  by_cases ho : p.mode = .wrapper → ¬ Overtaken (x ++ y)
  · exact marksFrom_of_step (h.append ho)
  · obtain ⟨hmode, -⟩ := Classical.not_imp.mp ho
    cases h with
    | wrappedFunction h =>
      exact marksFrom_of_step (.wrappedFunction (cut?_append_right (by decide) h y))
    | @emptyWrapper n k w x b a hn h =>
      obtain rfl := cut?_append (by decide) h
      have htext := functionText_append_left (clear_wrapperEnd hn y)
      rw [← List.append_assoc] at htext
      rw [marksFrom_eq_behind rfl w, marksFrom_eq_behind rfl w, marksBehind, marksBehind, htext]
      rfl
    | _ => exact absurd hmode (by simp)

theorem marks_append (p : Progress) (x y : List Char) :
    marksFrom p (x ++ y) =
      marksFrom p x ++ marksFrom (run p x).2.1 ((run p x).2.2 ++ y) := by
  induction p, x using run_induction with
  | step hs ih =>
    rw [hs.marks_append, ih, marksFrom_of_step hs, run_of_step hs, List.append_assoc]
  | pause hp =>
    rw [marksFrom_of_pause hp, run_of_pause hp]
    have halike := (run_resumes (hp.resumes y)).1.marks
    rw [Piece.marks_append] at halike
    exact halike

end ChatGateway.Markup.QwenStream
