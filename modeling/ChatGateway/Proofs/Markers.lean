import ChatGateway.Text.Marker

/-!
# First occurrences of markers

`Clear m t u` says that no occurrence of `m` begins inside `t` when `u` stands behind it. The
searches for markers are characterized by it, and so is what more text can do to their answers: an
occurrence that was found stays the first, and a tail that was not held back never becomes one.
-/

namespace ChatGateway.Text

/-- No occurrence of `m` begins inside `t` where `u` stands behind `t`. -/
def Clear (m t u : List Char) : Prop := ∀ b, b ≠ [] → b <:+ t → ¬ m <+: b ++ u

theorem clear_nil (m u : List Char) : Clear m [] u :=
  fun _ hb hs => absurd (List.suffix_nil.mp hs) hb

theorem clear_cons {m t u : List Char} {c : Char} :
    Clear m (c :: t) u ↔ ¬ m <+: c :: (t ++ u) ∧ Clear m t u := by
  constructor
  · intro h
    exact ⟨h _ (List.cons_ne_nil c t) (List.suffix_refl _),
      fun b hb hs => h b hb (hs.trans (List.suffix_cons c t))⟩
  · intro ⟨h, ht⟩ b hb hs
    rcases List.suffix_cons_iff.mp hs with rfl | hs
    · exact h
    · exact ht b hb hs

theorem clear_append {m s t u : List Char} :
    Clear m (s ++ t) u ↔ Clear m s (t ++ u) ∧ Clear m t u := by
  induction s with
  | nil => simp [clear_nil]
  | cons c s ih => simp only [List.cons_append, clear_cons, ih, List.append_assoc, and_assoc]

theorem Clear.append_right {m t u : List Char} (h : Clear m t u) (hl : m.length ≤ u.length)
    (v : List Char) : Clear m t (u ++ v) := by
  intro b hb hs hp
  refine h b hb hs ?_
  rw [← List.append_assoc] at hp
  refine List.prefix_of_prefix_length_le hp (List.prefix_append _ _) ?_
  rw [List.length_append]
  omega

theorem clear_iff_absent {m s : List Char} (hm : m ≠ []) : Clear m s [] ↔ ¬ m <:+: s := by
  induction s with
  | nil => simp [clear_nil, hm]
  | cons c s ih => rw [clear_cons, ih, List.append_nil, List.infix_cons_iff, not_or]

theorem Clear.prefix_of_occurrence {m t u x y : List Char} (h : Clear m t u)
    (he : t ++ u = x ++ m ++ y) : t <+: x := by
  rw [List.append_assoc] at he
  rcases List.append_eq_append_iff.mp he with ⟨b, rfl, -⟩ | ⟨b, rfl, hb⟩
  · exact List.prefix_append t b
  · by_cases hne : b = []
    · simp [hne]
    · exact absurd ⟨y, hb⟩ (h b hne (List.suffix_append x b))

/-! ## One marker -/

theorem cut?_eq_none_iff {m s : List Char} : cut? m s = none ↔ Clear m s [] := by
  induction s with
  | nil => simp [cut?, clear_nil]
  | cons c s ih =>
    rw [cut?, clear_cons, List.append_nil, ← List.isPrefixOf_iff_prefix]
    by_cases hp : m.isPrefixOf (c :: s) = true
    · simp [hp]
    · simp [hp, ih]

section
variable {m : List Char} (hm : m ≠ [])
include hm

theorem cut?_eq_some_iff {s b a : List Char} :
    cut? m s = some (b, a) ↔ s = b ++ m ++ a ∧ Clear m b (m ++ a) := by
  induction s generalizing b with
  | nil =>
    simp only [cut?, reduceCtorEq, false_iff, not_and]
    intro h
    exact absurd h.symm (by simp [hm])
  | cons c s ih =>
    rw [cut?]
    by_cases hp : m.isPrefixOf (c :: s) = true
    · have he := isPrefixOf_cons_eq hm hp
      simp only [hp, if_true, Option.some.injEq, Prod.mk.injEq]
      constructor
      · rintro ⟨rfl, rfl⟩
        exact ⟨by simp [he], clear_nil m _⟩
      · rintro ⟨hs, hc⟩
        cases b with
        | nil =>
          rw [List.nil_append, ← he] at hs
          exact ⟨rfl, List.append_cancel_left hs⟩
        | cons d b =>
          obtain ⟨h, -⟩ := clear_cons.mp hc
          refine absurd (List.isPrefixOf_iff_prefix.mp hp) ?_
          rw [hs]
          simpa using h
    · simp only [hp, Bool.false_eq_true, if_false, Option.map_eq_some_iff, Prod.exists,
        Prod.mk.injEq]
      have hn : ¬ m <+: c :: s := fun h => hp (List.isPrefixOf_iff_prefix.mpr h)
      constructor
      · rintro ⟨b, a, h, rfl, rfl⟩
        obtain ⟨hs, hc⟩ := ih.mp h
        refine ⟨by rw [hs]; simp, clear_cons.mpr ⟨?_, hc⟩⟩
        rw [← List.append_assoc, ← hs]
        exact hn
      · rintro ⟨hs, hc⟩
        cases b with
        | nil => exact absurd (hs ▸ List.prefix_append m a) hn
        | cons d b =>
          obtain ⟨rfl, hs'⟩ := List.cons.inj hs
          exact ⟨b, a, ih.mpr ⟨hs', (clear_cons.mp hc).2⟩, rfl, rfl⟩

theorem cut?_append_right {s b a : List Char} (h : cut? m s = some (b, a)) (y : List Char) :
    cut? m (s ++ y) = some (b, a ++ y) := by
  rw [cut?_eq_some_iff hm] at h ⊢
  obtain ⟨rfl, hc⟩ := h
  refine ⟨by simp, ?_⟩
  rw [← List.append_assoc]
  exact hc.append_right (by simp) y

end

theorem cut?_append_left {m t u : List Char} (h : Clear m t u) :
    cut? m (t ++ u) = (cut? m u).map fun (b, a) => (t ++ b, a) := by
  induction t with
  | nil => simp
  | cons c t ih =>
    obtain ⟨hp, ht⟩ := clear_cons.mp h
    rw [List.cons_append, cut?, if_neg (by simpa using hp), ih ht]
    simp [Function.comp_def]

/-- Behind the first occurrence stands all that stands behind any other. -/
theorem suffix_of_first {m s b a b' a' : List Char} (hm : m ≠ []) (h : cut? m s = some (b, a))
    (h' : s = b' ++ m ++ a') : a' <:+ a := by
  obtain ⟨hs, hc⟩ := (cut?_eq_some_iff hm).mp h
  rw [hs, List.append_assoc, List.append_assoc] at h'
  rcases List.append_eq_append_iff.mp h' with ⟨x, -, hx⟩ | ⟨x, rfl, hx⟩
  · have ha' : a' <:+ m ++ a := ⟨x ++ m, by simp [hx]⟩
    refine List.suffix_of_suffix_length_le ha' (List.suffix_append m a) ?_
    have := congrArg List.length hx
    simp only [List.length_append] at this
    omega
  · by_cases hxe : x = []
    · subst hxe
      rw [List.nil_append] at hx
      exact List.append_cancel_left hx ▸ List.suffix_refl a'
    · exact absurd ⟨a', hx⟩ (hc x hxe (List.suffix_append b' x))

theorem suffix_of_cut? {m s b a : List Char} (hm : m ≠ []) (h : cut? m s = some (b, a)) : a <:+ s :=
  ⟨b ++ m, cut?_append hm h⟩

/-- What holds no `<` stands in front of every marker that begins with it. -/
theorem clear_of_free {m t : List Char} (hm : m.head? = some '<') (ht : '<' ∉ t) (u : List Char) :
    Clear m t u := by
  intro b hb hs hp
  obtain ⟨c, b, rfl⟩ := List.exists_cons_of_ne_nil hb
  obtain ⟨m, rfl⟩ := List.head?_eq_some_iff.mp hm
  obtain ⟨rfl, -⟩ := List.cons_prefix_cons.mp hp
  exact ht (hs.subset List.mem_cons_self)

theorem clear_of_not_mem {c : Char} {t : List Char} (h : c ∉ t) (u : List Char) :
    Clear [c] t u := by
  intro b hb hs hp
  obtain ⟨d, b, rfl⟩ := List.exists_cons_of_ne_nil hb
  obtain ⟨rfl, -⟩ := List.cons_prefix_cons.mp hp
  exact h (hs.subset List.mem_cons_self)

theorem cut?_character {c : Char} {b a : List Char} (h : c ∉ b) :
    cut? [c] (b ++ c :: a) = some (b, a) :=
  (cut?_eq_some_iff (by simp)).mpr ⟨by simp, clear_of_not_mem h _⟩

/-! ## Several markers -/

theorem cutAny?_eq_none_iff {ms : List (List Char)} {s : List Char} :
    cutAny? ms s = none ↔ ∀ m ∈ ms, Clear m s [] := by
  induction s with
  | nil => simp [cutAny?, clear_nil]
  | cons c s ih =>
    rw [cutAny?]
    cases hf : ms.find? (·.isPrefixOf (c :: s)) with
    | some n =>
      have hn := List.mem_of_find?_eq_some hf
      have hp : n.isPrefixOf (c :: s) = true := by simpa using List.find?_some hf
      simp only [reduceCtorEq, false_iff]
      intro h
      exact (clear_cons.mp (h n hn)).1 (by simpa using hp)
    | none =>
      simp only [Option.map_eq_none_iff, ih, clear_cons, List.append_nil]
      refine forall₂_congr fun m' hm' => ?_
      have := List.find?_eq_none.mp hf m' hm'
      simp only [List.isPrefixOf_iff_prefix] at this
      simp [this]

/-- Markers that begin with `<` and have no other, and of which none begins another. -/
structure Angled (ms : List (List Char)) : Prop where
  head : ∀ m ∈ ms, m.head? = some '<'
  tail : ∀ m ∈ ms, '<' ∉ m.tail
  free : ∀ m ∈ ms, ∀ m' ∈ ms, m <+: m' → m = m'

namespace Angled

variable {ms : List (List Char)} (hms : Angled ms)
include hms

theorem ne_nil {m : List Char} (h : m ∈ ms) : m ≠ [] := by
  rintro rfl
  exact absurd (hms.head [] h) (by simp)

theorem no_overlap {m m' b : List Char} (h : m ∈ ms) (h' : m' ∈ ms) (hb : b ≠ []) :
    ¬ b ++ m' <+: m := by
  intro hp
  obtain ⟨c, b, rfl⟩ := List.exists_cons_of_ne_nil hb
  obtain ⟨r, rfl⟩ := hp
  refine hms.tail _ h ?_
  have : '<' ∈ m' := List.mem_of_head? (hms.head m' h')
  simp [this]

theorem eq_of_prefix {m m' t : List Char} (h : m ∈ ms) (h' : m' ∈ ms) (hp : m <+: t)
    (hp' : m' <+: t) : m = m' := by
  rcases Nat.le_total m.length m'.length with hl | hl
  · exact hms.free m h m' h' (List.prefix_of_prefix_length_le hp hp' hl)
  · exact (hms.free m' h' m h (List.prefix_of_prefix_length_le hp' hp hl)).symm

theorem clear_other {m m' : List Char} (h : m ∈ ms) (h' : m' ∈ ms) (hne : m ≠ m')
    (u : List Char) : Clear m m' u := by
  obtain ⟨t, rfl⟩ := List.head?_eq_some_iff.mp (hms.head m' h')
  refine clear_cons.mpr ⟨fun hp => hne (hms.eq_of_prefix h h' hp ?_), ?_⟩
  · exact List.prefix_append ('<' :: t) u
  · exact clear_of_free (hms.head m h) (hms.tail _ h') u

theorem clear_append_right {m m' b a : List Char} (h : m ∈ ms) (h' : m' ∈ ms)
    (hc : Clear m b (m' ++ a)) (y : List Char) : Clear m b (m' ++ a ++ y) := by
  intro x hx hs hp
  rcases Nat.le_total m.length (x ++ (m' ++ a)).length with hl | hl
  · exact hc x hx hs (List.prefix_of_prefix_length_le hp ⟨y, by simp⟩ hl)
  · -- the occurrence would reach over the marker that stands there
    refine hms.no_overlap h h' hx (List.prefix_of_prefix_length_le ?_ hp ?_)
    · simp
    · simp only [List.length_append] at hl ⊢
      omega

theorem cutAny?_eq_some_iff {s b m a : List Char} :
    cutAny? ms s = some (b, m, a) ↔
      m ∈ ms ∧ s = b ++ m ++ a ∧ ∀ m' ∈ ms, Clear m' b (m ++ a) := by
  induction s generalizing b with
  | nil =>
    simp only [cutAny?, reduceCtorEq, false_iff, not_and]
    intro hm h
    exact absurd h.symm (by simp [hms.ne_nil hm])
  | cons c s ih =>
    rw [cutAny?]
    cases hf : ms.find? (·.isPrefixOf (c :: s)) with
    | some n =>
      have hn := List.mem_of_find?_eq_some hf
      have hp : n.isPrefixOf (c :: s) = true := by simpa using List.find?_some hf
      have he := isPrefixOf_cons_eq (hms.ne_nil hn) hp
      simp only [Option.some.injEq, Prod.mk.injEq]
      constructor
      · rintro ⟨rfl, rfl, rfl⟩
        exact ⟨hn, by simp [he], fun m' _ => clear_nil m' _⟩
      · rintro ⟨hm, hs, hc⟩
        cases b with
        | nil =>
          -- both markers begin the text
          have hp' : n <+: m ++ a := by
            have := List.isPrefixOf_iff_prefix.mp hp
            rwa [hs, List.nil_append] at this
          have : n = m := hms.eq_of_prefix hn hm hp' (List.prefix_append m a)
          subst this
          rw [List.nil_append, ← he] at hs
          exact ⟨rfl, rfl, List.append_cancel_left hs⟩
        | cons d b =>
          obtain ⟨h, -⟩ := clear_cons.mp (hc n hn)
          refine absurd (List.isPrefixOf_iff_prefix.mp hp) ?_
          rw [hs]
          simpa using h
    | none =>
      have hn : ∀ m' ∈ ms, ¬ m' <+: c :: s := fun m' hm' h =>
        absurd (List.isPrefixOf_iff_prefix.mpr h) (by simpa using List.find?_eq_none.mp hf m' hm')
      simp only [Option.map_eq_some_iff, Prod.exists, Prod.mk.injEq]
      constructor
      · rintro ⟨b, m, a, h, rfl, rfl, rfl⟩
        obtain ⟨hm, hs, hc⟩ := ih.mp h
        refine ⟨hm, by rw [hs]; simp, fun m' hm' => clear_cons.mpr ⟨?_, hc m' hm'⟩⟩
        rw [← List.append_assoc, ← hs]
        exact hn m' hm'
      · rintro ⟨hm, hs, hc⟩
        cases b with
        | nil => exact absurd (hs ▸ List.prefix_append m a) (hn m hm)
        | cons d b =>
          obtain ⟨rfl, hs'⟩ := List.cons.inj hs
          exact ⟨b, m, a, ih.mpr ⟨hm, hs', fun m' hm' => (clear_cons.mp (hc m' hm')).2⟩, rfl, rfl,
            rfl⟩

theorem cutAny?_append_right {s b m a : List Char} (h : cutAny? ms s = some (b, m, a))
    (y : List Char) : cutAny? ms (s ++ y) = some (b, m, a ++ y) := by
  rw [hms.cutAny?_eq_some_iff] at h ⊢
  obtain ⟨hm, rfl, hc⟩ := h
  refine ⟨hm, by simp, fun m' hm' => ?_⟩
  rw [← List.append_assoc]
  exact hms.clear_append_right hm' hm (hc m' hm') y

theorem cut?_of_cutAny? {s b m a : List Char} (h : cutAny? ms s = some (b, m, a)) :
    cut? m s = some (b, a) := by
  obtain ⟨hm, hs, hc⟩ := hms.cutAny?_eq_some_iff.mp h
  exact (cut?_eq_some_iff (hms.ne_nil hm)).mpr ⟨hs, hc m hm⟩

end Angled

theorem suffix_of_cutAny? {ms : List (List Char)} {s b m a : List Char} (hms : Angled ms)
    (h : cutAny? ms s = some (b, m, a)) : a <:+ s :=
  ⟨b ++ m, (cutAny?_append (fun _ => hms.ne_nil) h).2⟩

theorem cutAny?_append_left {ms : List (List Char)} {t u : List Char}
    (h : ∀ m ∈ ms, Clear m t u) :
    cutAny? ms (t ++ u) = (cutAny? ms u).map fun (b, m, a) => (t ++ b, m, a) := by
  induction t with
  | nil => simp
  | cons c t ih =>
    have hf : ms.find? (·.isPrefixOf (c :: (t ++ u))) = none := by
      refine List.find?_eq_none.mpr fun m hm => ?_
      simpa using (clear_cons.mp (h m hm)).1
    rw [List.cons_append, cutAny?, hf, ih fun m hm => (clear_cons.mp (h m hm)).2]
    simp [Function.comp_def]

/-! ## The tail that is held back -/

theorem startsMarker_iff {ms : List (List Char)} {s : List Char} :
    startsMarker ms s = true ↔ ∃ m ∈ ms, s <+: m ∧ s.length < m.length := by
  simp [startsMarker]

theorem startsMarker_append {ms : List (List Char)} {s : List Char} (h : startsMarker ms s = false)
    (y : List Char) : startsMarker ms (s ++ y) = false := by
  refine Bool.eq_false_iff.mpr fun hy => Bool.eq_false_iff.mp h ?_
  obtain ⟨m, hm, hp, hl⟩ := startsMarker_iff.mp hy
  refine startsMarker_iff.mpr ⟨m, hm, (List.prefix_append s y).trans hp, ?_⟩
  rw [List.length_append] at hl
  omega

theorem startsMarker_of_beginning {ms : List (List Char)} {m s : List Char} (hm : m ∈ ms)
    (hp : s <+: m) (hn : ¬ m <+: s) : startsMarker ms s = true := by
  refine startsMarker_iff.mpr ⟨m, hm, hp, Nat.lt_of_le_of_ne hp.length_le fun hl => hn ?_⟩
  exact hp.eq_of_length hl ▸ List.prefix_refl s

theorem not_beginning {ms : List (List Char)} {m s : List Char} (hm : m ∈ ms)
    (hs : startsMarker ms s = false) (hn : ¬ m <+: s) : ¬ s <+: m := by
  intro hp
  rw [startsMarker_of_beginning hm hp hn] at hs
  exact absurd hs (by simp)

theorem beginning_of_startsMarker {m m' s : List Char} (h : startsMarker [m, m'] s = true) :
    s <+: m ∨ s <+: m' := by
  obtain ⟨n, hn, hp, -⟩ := startsMarker_iff.mp h
  simp only [List.mem_cons, List.not_mem_nil, or_false] at hn
  rcases hn with rfl | rfl
  · exact .inl hp
  · exact .inr hp

theorem not_prefix_append {ms : List (List Char)} {m s : List Char} (hm : m ∈ ms)
    (hs : startsMarker ms s = false) (hn : ¬ m <+: s) (y : List Char) : ¬ m <+: s ++ y := by
  intro hp
  rcases Nat.le_total m.length s.length with hl | hl
  · exact hn (List.prefix_of_prefix_length_le hp (List.prefix_append s y) hl)
  · have hp' := List.prefix_of_prefix_length_le (List.prefix_append s y) hp hl
    rw [startsMarker_of_beginning hm hp' hn] at hs
    exact absurd hs (by simp)

theorem Angled.not_prefix_of_startsMarker {ms : List (List Char)} (hms : Angled ms)
    {m s : List Char} (hm : m ∈ ms) (hs : startsMarker ms s = true) : ¬ m <+: s := by
  intro hp
  obtain ⟨m', hm', hp', hl⟩ := startsMarker_iff.mp hs
  obtain rfl := hms.eq_of_prefix hm hm' (hp.trans hp') (List.prefix_refl m')
  exact absurd hp.length_le (by omega)

theorem splitHeld_snd (ms : List (List Char)) (s : List Char) :
    (splitHeld ms s).2 = [] ∨ startsMarker ms (splitHeld ms s).2 = true := by
  induction s with
  | nil => exact .inl rfl
  | cons c s ih =>
    rw [splitHeld]
    split
    · next h => exact .inr h
    · exact ih

/-- The tail that is held back is the longest. -/
theorem splitHeld_fst (ms : List (List Char)) (s : List Char) :
    ∀ b, b ≠ [] → b <:+ (splitHeld ms s).1 → startsMarker ms (b ++ (splitHeld ms s).2) = false := by
  induction s with
  | nil => intro b hb hs; exact absurd (List.suffix_nil.mp hs) hb
  | cons c s ih =>
    rw [splitHeld]
    split
    · intro b hb hs; exact absurd (List.suffix_nil.mp hs) hb
    · next h =>
      intro b hb hs
      rcases List.suffix_cons_iff.mp hs with rfl | hs
      · rw [List.cons_append, splitHeld_append]
        simpa using h
      · exact ih b hb hs

theorem splitHeld_append_left {ms : List (List Char)} {t u : List Char}
    (h : ∀ b, b ≠ [] → b <:+ t → startsMarker ms (b ++ u) = false) :
    splitHeld ms (t ++ u) = (t ++ (splitHeld ms u).1, (splitHeld ms u).2) := by
  induction t with
  | nil => rfl
  | cons c t ih =>
    have hc := h (c :: t) (List.cons_ne_nil c t) (List.suffix_refl _)
    rw [List.cons_append] at hc
    rw [List.cons_append, splitHeld, hc,
      ih fun b hb hs => h b hb (hs.trans (List.suffix_cons c t))]
    rfl

/-- What was not held back never becomes a part of a marker. -/
theorem clear_splitHeld {ms : List (List Char)} {s : List Char} (h : cutAny? ms s = none)
    (y : List Char) :
    ∀ m ∈ ms, Clear m (splitHeld ms s).1 ((splitHeld ms s).2 ++ y) := by
  intro m hm b hb hs hp
  rw [cutAny?_eq_none_iff] at h
  have hc := h m hm
  rw [← splitHeld_append ms s, clear_append, List.append_nil] at hc
  rw [← List.append_assoc] at hp
  rcases Nat.lt_or_ge (b ++ (splitHeld ms s).2).length m.length with hl | hl
  · have := List.prefix_of_prefix_length_le (List.prefix_append _ y) hp (Nat.le_of_lt hl)
    have := startsMarker_iff.mpr ⟨m, hm, this, hl⟩
    rw [splitHeld_fst ms s b hb hs] at this
    exact absurd this (by simp)
  · exact hc.1 b hb hs (List.prefix_of_prefix_length_le hp (List.prefix_append _ _) hl)

/-! ## Text that is settled -/

/-- An occurrence of `m` that begins inside `s` ends inside `s`, where `t` stands behind it. -/
def Whole (m s t : List Char) : Prop := ∀ w, w ≠ [] → w <:+ s → m <+: w ++ t → m <+: w

theorem Whole.clear {m s t : List Char} (h : Whole m s t) (hn : ¬ m <:+: s) : Clear m s t := by
  intro w hw hs hp
  have hwhole := h w hw hs hp
  exact hn (hwhole.isInfix.trans hs.isInfix)

theorem Whole.restrict {m s t u v : List Char} (h : Whole m s t) (hu : u <:+ s) (hv : v <+: t) :
    Whole m u v := by
  intro w hw hs hp
  refine h w hw (hs.trans hu) (hp.trans ?_)
  exact (List.prefix_append_right_inj w).mpr hv

theorem prefix_append_cases {m s t : List Char} (h : m <+: s ++ t) :
    m <+: s ∨ ∃ r, r ≠ [] ∧ m = s ++ r ∧ r <+: t := by
  obtain ⟨u, hu⟩ := h
  rcases List.append_eq_append_iff.mp hu with ⟨v, rfl, -⟩ | ⟨r, rfl, rfl⟩
  · exact .inl (List.prefix_append m v)
  · by_cases hr : r = []
    · rw [hr, List.append_nil]
      exact .inl (List.prefix_refl s)
    · exact .inr ⟨r, hr, rfl, List.prefix_append r u⟩

/-- An occurrence never goes on over a character that the marker does not have. -/
theorem whole_of_not_mem {m : List Char} {d : Char} (h : d ∉ m) (s u : List Char) :
    Whole m s (d :: u) := by
  intro w _ _ hp
  rcases prefix_append_cases hp with hp | ⟨r, hr, rfl, hrt⟩
  · exact hp
  · obtain ⟨c, r, rfl⟩ := List.exists_cons_of_ne_nil hr
    obtain ⟨rfl, -⟩ := List.cons_prefix_cons.mp hrt
    exact absurd (List.mem_append_right w List.mem_cons_self) h

theorem Angled.ne_append {ms : List (List Char)} (hms : Angled ms) {m w r : List Char}
    (hm : m ∈ ms) (hw : w ≠ []) (hr : r.head? = some '<') : m ≠ w ++ r := by
  intro he
  obtain ⟨c, w, rfl⟩ := List.exists_cons_of_ne_nil hw
  refine hms.tail m hm ?_
  rw [he, List.cons_append, List.tail_cons]
  exact List.mem_append_right w (List.mem_of_head? hr)

theorem Angled.whole_of_head {ms : List (List Char)} (hms : Angled ms) {m t : List Char}
    (hm : m ∈ ms) (ht : t = [] ∨ t.head? = some '<') (s : List Char) : Whole m s t := by
  intro w hw _ hp
  rcases prefix_append_cases hp with hp | ⟨r, hr, he, hrt⟩
  · exact hp
  · obtain ⟨c, r, rfl⟩ := List.exists_cons_of_ne_nil hr
    obtain ⟨u, rfl⟩ := hrt
    have hc : (c :: r).head? = some '<' := by
      rcases ht with ht | ht
      · exact absurd ht (by simp)
      · exact ht
    exact absurd he (hms.ne_append hm hw hc)

/-- No marker goes on beyond `t` from inside `s`, and none that begins inside `s` ends in `t`. -/
structure Settled (ms : List (List Char)) (s t : List Char) : Prop where
  closed : ∀ w, w ≠ [] → w <:+ s → startsMarker ms (w ++ t) = false
  whole : ∀ m ∈ ms, Whole m s t

theorem Settled.append {ms : List (List Char)} {s t : List Char} (h : Settled ms s t)
    (y : List Char) : Settled ms s (t ++ y) where
  closed w hw hs := by
    rw [← List.append_assoc]
    exact startsMarker_append (h.closed w hw hs) y
  whole m hm w hw hs hp := by
    refine h.whole m hm w hw hs ?_
    rw [← List.append_assoc] at hp
    refine Decidable.byContradiction fun hn => ?_
    exact not_prefix_append hm (h.closed w hw hs) hn y hp

theorem Angled.settled_splitHeld {ms : List (List Char)} (hms : Angled ms) (s : List Char) :
    Settled ms (splitHeld ms s).1 (splitHeld ms s).2 where
  closed := splitHeld_fst ms s
  whole m hm := by
    refine hms.whole_of_head hm ?_ _
    rcases splitHeld_snd ms s with hnil | hstarts
    · exact .inl hnil
    · obtain ⟨m', hm', ⟨u, hu⟩, -⟩ := startsMarker_iff.mp hstarts
      have hhead := hms.head m' hm'
      rw [← hu, List.head?_append] at hhead
      cases hheld : (splitHeld ms s).2 with
      | nil => exact .inl rfl
      | cons c t => rw [hheld] at hhead; exact .inr hhead

end ChatGateway.Text
