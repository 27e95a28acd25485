import ChatGateway.Proofs.Printing
import ChatGateway.Text.Blank

/-!
# White space around a text

No word of JSON begins or ends with white space. A text that is read stays readable, with the same
value, when the white space around it is removed: what white space it has there is white space of
JSON, or the reader would have stopped at it.
-/

namespace ChatGateway.Json

open Text

/-! ## Text in front of white space -/

theorem isBlank_of_isDigit {c : Char} (h : c.isDigit = true) : isBlank c = false := by
  simp only [Char.isDigit, Bool.and_eq_true, decide_eq_true_eq, ge_iff_le, UInt32.le_iff_toNat_le]
    at h
  have hlow : 48 ≤ c.toNat := h.1
  have hhigh : c.toNat ≤ 57 := h.2
  simp only [isBlank, Bool.or_eq_false_iff, Bool.and_eq_false_iff, decide_eq_false_iff_not,
    beq_eq_false_iff_ne]
  omega

theorem isBlank_of_hexValue? {c : Char} {n : Nat} (h : hexValue? c = some n) :
    isBlank c = false := by
  have hrange : (48 ≤ c.toNat ∧ c.toNat ≤ 57) ∨ (97 ≤ c.toNat ∧ c.toNat ≤ 102) ∨
      (65 ≤ c.toNat ∧ c.toNat ≤ 70) := by
    simp only [hexValue?, Bool.and_eq_true, decide_eq_true_eq] at h
    split at h
    · exact .inl ‹_›
    split at h
    · exact .inr (.inl ‹_›)
    split at h
    · exact .inr (.inr ‹_›)
    · cases h
  simp only [isBlank, Bool.or_eq_false_iff, Bool.and_eq_false_iff, decide_eq_false_iff_not,
    beq_eq_false_iff_ne]
  omega

theorem isBlank_of_unescape? {e c : Char} (h : unescape? e = some c) : isBlank e = false := by
  unfold unescape? at h
  split at h <;> first | rfl | cases h

section
variable {t : List Char} (ht : ∀ c ∈ t, isBlank c = true)
include ht

theorem split_of_blanks {p s x : List Char} (hp : ∀ c ∈ p, isBlank c = false)
    (h : s ++ t = p ++ x) : ∃ y, s = p ++ y ∧ x = y ++ t := by
  rcases List.append_eq_append_iff.mp h with ⟨b, rfl, hb⟩ | ⟨y, rfl, hx⟩
  · cases b with
    | nil => exact ⟨[], by simp, by simpa using hb.symm⟩
    | cons c b =>
      have hblank := ht c (by rw [hb]; simp)
      rw [hp c (by simp)] at hblank
      cases hblank
  · exact ⟨y, rfl, hx⟩

theorem head?_of_blanks {c : Char} (hc : isBlank c = false) : t.head? ≠ some c := by
  intro h
  rw [ht c (List.mem_of_head? h)] at hc
  cases hc

theorem parted_of_blanks : Parted t := by
  intro c h
  have hc : isBlank c = true := ht c (List.mem_of_head? h)
  refine ⟨?_, ?_, ?_, ?_⟩
  · by_contra hd
    rw [isBlank_of_isDigit (by simpa using hd)] at hc
    cases hc
  all_goals
    rintro rfl
    cases hc

/-! ## Numerals -/

theorem digits1?_blanks (s : List Char) :
    digits1? (s ++ t) = (digits1? s).map fun (ds, r) => (ds, r ++ t) := by
  have hp := parted_of_blanks ht
  cases h : digits1? s with
  | some r => exact digits1?_append h hp
  | none =>
    have hhead : ∀ c ∈ (s ++ t).head?, c.isDigit = false := by
      cases s with
      | nil => exact fun c hc => (hp c hc).1
      | cons c s =>
        rintro _ ⟨⟩
        by_contra hd
        simp [digits1?, hd] at h
    rw [Option.map_none]
    cases hs : s ++ t with
    | nil => rfl
    | cons c u => simp [digits1?, hhead c (by simp [hs])]

theorem wholePart?_blanks (s : List Char) :
    wholePart? (s ++ t) = (wholePart? s).map fun (ds, r) => (ds, r ++ t) := by
  unfold wholePart?
  rw [digits1?_blanks ht]
  cases digits1? s with
  | none => rfl
  | some r =>
    simp only [Option.map_some, Option.bind_some]
    split <;> rfl

theorem fractionPart?_blanks (s : List Char) :
    fractionPart? (s ++ t) = (fractionPart? s).map fun (ds, r) => (ds, r ++ t) := by
  cases s with
  | nil => exact fractionPart?_append rfl (parted_of_blanks ht)
  | cons c s =>
    by_cases hc : c = '.'
    · subst hc
      exact digits1?_blanks ht s
    · have hnone : fractionPart? (c :: s) = some ([], c :: s) := by simp [fractionPart?, hc]
      rw [fractionPart?_append hnone (parted_of_blanks ht), hnone]
      rfl

theorem splitSign_blanks (s : List Char) :
    Number.splitSign (s ++ t) = ((Number.splitSign s).1, (Number.splitSign s).2 ++ t) := by
  cases s with
  | cons c s => exact splitSign_append (List.cons_ne_nil c s)
  | nil =>
    have hminus := head?_of_blanks ht (c := '-') rfl
    have hplus := head?_of_blanks ht (c := '+') rfl
    cases t with
    | nil => rfl
    | cons c t =>
      simp only [List.head?_cons, ne_eq, Option.some.injEq] at hminus hplus
      simp [Number.splitSign, hminus, hplus]

theorem exponentPart?_blanks (s : List Char) :
    exponentPart? (s ++ t) = (exponentPart? s).map fun (e, r) => (e, r ++ t) := by
  cases s with
  | nil => exact exponentPart?_append rfl (parted_of_blanks ht)
  | cons c s =>
    by_cases hc : (c == 'e' || c == 'E') = true
    · simp only [List.cons_append, exponentPart?, if_pos hc, splitSign_blanks ht,
        digits1?_blanks ht, Option.map_map]
      rfl
    · have hnone : exponentPart? (c :: s) = some (none, c :: s) := by
        simp only [exponentPart?, if_neg hc]
      rw [exponentPart?_append hnone (parted_of_blanks ht), hnone]
      rfl

theorem unsigned?_blanks (negative : Bool) (s : List Char) :
    unsigned? negative (s ++ t) = (unsigned? negative s).map fun (x, r) => (x, r ++ t) := by
  simp only [unsigned?, wholePart?_blanks ht, fractionPart?_blanks ht, exponentPart?_blanks ht,
    Option.bind_eq_bind, Option.bind_map, Option.map_bind, Function.comp_def, Option.map_some]

theorem numeral?_blanks (s : List Char) :
    numeral? (s ++ t) = (numeral? s).map fun (x, r) => (x, r ++ t) := by
  by_cases hm : s.head? = some '-'
  · obtain ⟨s, rfl⟩ : ∃ u, s = '-' :: u := by
      cases s with
      | nil => cases hm
      | cons c s => exact ⟨s, by rw [Option.some.inj hm]⟩
    exact unsigned?_blanks ht true s
  · have hm' : (s ++ t).head? ≠ some '-' := by
      cases s with
      | nil => exact head?_of_blanks ht rfl
      | cons c s => exact hm
    rw [numeral?_unsigned hm, numeral?_unsigned hm', unsigned?_blanks ht]

end

/-! ## Strings -/

theorem isBlank_of_hex4? {a b c d : Char} {n : Nat} (h : hex4? a b c d = some n) :
    ∀ x ∈ [a, b, c, d], isBlank x = false := by
  simp only [hex4?, Option.bind_eq_bind, Option.bind_eq_some_iff] at h
  obtain ⟨_, ha, _, hb, _, hc, _, hd, -⟩ := h
  simp [isBlank_of_hexValue? ha, isBlank_of_hexValue? hb, isBlank_of_hexValue? hc,
    isBlank_of_hexValue? hd]

theorem stringBody?_step {p s t u : List Char} {c : Option Char}
    {r : Option (List Char) × List Char} (ht : ∀ x ∈ t, isBlank x = true)
    (hp : ∀ x ∈ p, isBlank x = false) (hu : s ++ t = p ++ u)
    (hstep : ∀ y, y ++ t = u → stringBody? (p ++ y) = (stringBody? y).map (prepend c))
    (h : (stringBody? u).map (prepend c) = some r)
    (ih : ∀ {y q}, y ++ t = u → stringBody? u = some q →
      ∃ rest, q.2 = rest ++ t ∧ stringBody? y = some (q.1, rest)) :
    ∃ rest, r.2 = rest ++ t ∧ stringBody? s = some (r.1, rest) := by
  obtain ⟨q, hq, rfl⟩ := Option.map_eq_some_iff.mp h
  obtain ⟨y, rfl, hy⟩ := split_of_blanks ht hp hu
  obtain ⟨rest, hrest, hbody⟩ := ih hy.symm hq
  refine ⟨rest, hrest, ?_⟩
  rw [hstep y hy.symm, hbody]
  rfl

/-- A string that ends is read as before without white space that follows it. -/
theorem stringBody?_blanks {s t u : List Char} {r : Option (List Char) × List Char}
    (ht : ∀ c ∈ t, isBlank c = true) (hu : s ++ t = u) (h : stringBody? u = some r) :
    ∃ rest, r.2 = rest ++ t ∧ stringBody? s = some (r.1, rest) := by
  fun_induction stringBody? u generalizing s t r with
  | case1 => cases h
  | case2 u =>
    cases h
    obtain ⟨y, rfl, rfl⟩ := split_of_blanks ht (p := ['"']) (List.forall_mem_singleton.mpr rfl) hu
    exact ⟨y, rfl, rfl⟩
  | case3 => cases h
  | case4 => cases h
  | case5 a b c d e f g k u high hhigh hs low hlow hl ih =>
    have hfirst := isBlank_of_hex4? hhigh
    have hsecond := isBlank_of_hex4? hlow
    refine stringBody?_step ht (p := ['\\', 'u', a, b, c, d, '\\', 'u', e, f, g, k])
      (by simp_all; decide) hu (fun y _ => ?_) h (ih ht)
    simp [stringBody?, hhigh, hs, hlow, hl]
  | case6 a b c d e f g k u high hhigh hs low hlow hl ih =>
    have hfirst := isBlank_of_hex4? hhigh
    have hsecond := isBlank_of_hex4? hlow
    refine stringBody?_step ht (p := ['\\', 'u', a, b, c, d, '\\', 'u', e, f, g, k])
      (by simp_all; decide) hu (fun y _ => ?_) h (ih ht)
    simp [stringBody?, hhigh, hs, hlow, hl]
  | case7 a b c d e f g k u n hn hs ih =>
    have hfirst := isBlank_of_hex4? hn
    refine stringBody?_step ht (p := ['\\', 'u', a, b, c, d]) (by simp_all; decide) hu
      (fun y _ => ?_) h (ih ht)
    exact stringBody?_unpaired hn (by simpa using hs) y
  | case8 => cases h
  | case9 a b c d u hno n hn ih =>
    have hfirst := isBlank_of_hex4? hn
    refine stringBody?_step ht (p := ['\\', 'u', a, b, c, d]) (by simp_all; decide) hu
      (fun y hy => ?_) h (ih ht)
    have hno' : ∀ e f g k z, y = '\\' :: 'u' :: e :: f :: g :: k :: z → False :=
      fun e f g k z hz => hno e f g k (z ++ t) (by simp [← hy, hz])
    show stringBody? ('\\' :: 'u' :: a :: b :: c :: d :: y) = _
    rw [stringBody?, hn]
    exact hno'
  | case10 => cases h
  | case11 e u hno hno' c hc ih =>
    have he := isBlank_of_unescape? hc
    have hshort : e ≠ 'u' := by
      rintro rfl
      cases hc
    exact stringBody?_step ht (p := ['\\', e]) (by simp_all; decide) hu
      (fun y _ => stringBody?_short hc hshort y) h (ih ht)
  | case12 => cases h
  | case13 c u h1 h2 h3 h4 hc ih =>
    obtain ⟨q, hq, rfl⟩ := Option.map_eq_some_iff.mp h
    obtain ⟨hslash, hlow⟩ : c ≠ '\\' ∧ ¬ c.toNat < 0x20 := by simpa using hc
    rcases List.append_eq_cons_iff.mp hu with ⟨rfl, rfl⟩ | ⟨y, rfl, hy⟩
    · -- nothing of the text is left, and white space alone does not end a string
      obtain ⟨rest, -, hnil⟩ := ih (s := []) (fun x hx => ht x (List.mem_cons_of_mem c hx)) rfl hq
      cases hnil
    · obtain ⟨rest, hrest, hbody⟩ := ih ht hy.symm hq
      refine ⟨rest, hrest, ?_⟩
      rw [stringBody?_plain h1 hslash (by omega), hbody]
      rfl

/-! ## Words -/

section
variable {t : List Char} (ht : ∀ c ∈ t, isBlank c = true)
include ht

theorem letters_blanks {p s rest : List Char} {w w' : Token} (hp : p.any isBlank = false)
    (h : (if p.isPrefixOf (s ++ t) then some (w, (s ++ t).drop p.length) else none) =
      some (w', rest)) :
    ∃ r, rest = r ++ t ∧
      (if p.isPrefixOf s then some (w, s.drop p.length) else none) = some (w', r) := by
  split at h
  · next hprefix =>
    obtain ⟨x, hx⟩ := List.isPrefixOf_iff_prefix.mp hprefix
    obtain ⟨y, rfl, -⟩ := split_of_blanks ht (by simpa using hp) hx.symm
    obtain ⟨rfl, rfl⟩ := Prod.mk.inj (Option.some.inj h)
    exact ⟨y, by simp, by simp⟩
  · cases h

theorem word?_blanks {c : Char} {s rest : List Char} {w : Token}
    (h : word? c (s ++ t) = some (w, rest)) : ∃ r, rest = r ++ t ∧ word? c s = some (w, r) := by
  unfold word? at h ⊢
  split at h
  · cases h; exact ⟨s, rfl, rfl⟩
  · cases h; exact ⟨s, rfl, rfl⟩
  · cases h; exact ⟨s, rfl, rfl⟩
  · cases h; exact ⟨s, rfl, rfl⟩
  · cases h; exact ⟨s, rfl, rfl⟩
  · cases h; exact ⟨s, rfl, rfl⟩
  · obtain ⟨q, hq, he⟩ := Option.map_eq_some_iff.mp h
    obtain ⟨r, hr, hs⟩ := stringBody?_blanks ht rfl hq
    obtain ⟨rfl, rfl⟩ := Prod.mk.inj he
    exact ⟨r, hr, by rw [hs]; rfl⟩
  · exact letters_blanks ht rfl h
  · exact letters_blanks ht rfl h
  · exact letters_blanks ht rfl h
  · rw [← List.cons_append, numeral?_blanks ht, Option.map_map] at h
    obtain ⟨q, hq, he⟩ := Option.map_eq_some_iff.mp h
    obtain ⟨rfl, rfl⟩ := Prod.mk.inj he
    exact ⟨q.2, rfl, by rw [hq]; rfl⟩

end

theorem word?_of_blank {c : Char} (h : isBlank c = true) (s : List Char) : word? c s = none := by
  unfold word?
  split
  all_goals first
    | cases h
    | skip
  rw [Option.map_eq_none_iff, Option.eq_none_iff_forall_ne_some]
  rintro ⟨x, r⟩ hx
  rcases numeral?_head hx with rfl | hd
  · cases h
  · rw [isBlank_of_isDigit hd] at h
    cases h

theorem tokens_of_isSpace {c : Char} (h : isSpace c = true) (s : List Char) :
    tokens (c :: s) = tokens s := by
  rw [tokens, if_pos h]

theorem tokens_of_none {c : Char} {s : List Char} (hs : isSpace c = false) (h : word? c s = none) :
    tokens (c :: s) = [.bad] := by
  rw [tokens, if_neg (by simp [hs])]
  split
  · rfl
  · next he => exact absurd (h.symm.trans he) (by simp)

theorem tokens_trimStart {s : List Char} (h : Token.bad ∉ tokens s) :
    tokens (trimStart s) = tokens s := by
  induction s with
  | nil => rfl
  | cons c s ih =>
    cases hb : isBlank c with
    | false => rw [trimStart, List.dropWhile_cons_of_neg (by simp [hb])]
    | true =>
      cases hs : isSpace c with
      | false => simp [tokens_of_none hs (word?_of_blank hb s)] at h
      | true =>
        rw [tokens_of_isSpace hs] at h ⊢
        rw [trimStart, List.dropWhile_cons_of_pos hb]
        exact ih h

theorem tokens_append_blanks {s t : List Char} (ht : ∀ c ∈ t, isBlank c = true)
    (h : Token.bad ∉ tokens (s ++ t)) : tokens (s ++ t) = tokens s := by
  fun_induction tokens s with
  | case1 =>
    have hnil : trimStart t = [] := List.dropWhile_eq_nil_iff.mpr ht
    rw [List.nil_append] at h ⊢
    rw [← tokens_trimStart h, hnil, tokens]
  | case2 c s hs ih =>
    rw [List.cons_append, tokens_of_isSpace hs] at h ⊢
    exact ih h
  | case3 c s hs hw =>
    cases hwt : word? c (s ++ t) with
    | none => simp [tokens_of_none (by simpa using hs) hwt] at h
    | some r =>
      obtain ⟨_, -, hw'⟩ := word?_blanks ht hwt
      cases hw.symm.trans hw'
  | case4 c s hs w r hw ih =>
    cases hwt : word? c (s ++ t) with
    | none => simp [tokens_of_none (by simpa using hs) hwt] at h
    | some q =>
      obtain ⟨r', hr, hw'⟩ := word?_blanks ht hwt
      obtain ⟨rfl, rfl⟩ := Prod.mk.inj (Option.some.inj (hw.symm.trans hw'))
      obtain ⟨w', rest⟩ := q
      obtain rfl : rest = r ++ t := hr
      rw [List.cons_append, tokens_of_word? (by simpa using hs) hwt, List.mem_cons, not_or] at h
      rw [List.cons_append, tokens_of_word? (by simpa using hs) hwt, ih h.2]

/-! ## Reading -/

namespace Document

theorem foldl_step_failed (d : Document) (ts : List Token) :
    ts.foldl step (.failed d) = .failed d := by
  induction ts with
  | nil => rfl
  | cons t ts ih => exact ih

theorem step_bad (stage : Stage) : ∃ d, step stage .bad = .failed d := by
  unfold step
  -- the stages that go on do so for a mark, which `bad` is not
  split <;> first | exact ⟨_, rfl⟩ | contradiction

theorem not_ended_of_bad {stage : Stage} {ts : List Token} (h : Token.bad ∈ ts) :
    (finish (ts.foldl step stage)).2 = false := by
  obtain ⟨before, after, rfl⟩ := List.append_of_mem h
  obtain ⟨d, hd⟩ := step_bad (before.foldl step stage)
  rw [List.foldl_append, List.foldl_cons, hd, foldl_step_failed]
  rfl

end Document

/-- **White space around a text.** What is read stays readable without the white space around it. -/
theorem read_trim {s : List Char} {v : Value} (h : read s = some v) : read (trim s) = some v := by
  have hgood : Token.bad ∉ tokens s := by
    intro hbad
    have hended : (Document.ofText s).2 = false := Document.not_ended_of_bad hbad
    rw [read] at h
    simp [hended] at h
  have hstart := tokens_trimStart hgood
  have hend : tokens (trim s) = tokens (trimStart s) := by
    have happ := trimEnd_append_trailing (trimStart s)
    have hblank := List.all_eq_true.mp (trailing_blank (trimStart s))
    have hsame := tokens_append_blanks (s := trim s) hblank
    rw [trim, happ, hstart] at hsame
    rw [trim, hstart, hsame hgood]
  rw [read, Document.ofText] at h ⊢
  rwa [hend, hstart]

end ChatGateway.Json
