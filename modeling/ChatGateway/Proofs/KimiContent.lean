import ChatGateway.Proofs.KimiSnapshots
import ChatGateway.Proofs.Removal

/-!
# Content of a growing text, shown to the Kimi parser

From ordinary text the beginnings of sections are removed, and then the ends. Where a beginning
stands inside of an end, an end is left behind that is removed as well if all of it is at hand, and
sent on if a cut stands behind the beginning. Otherwise the content does not depend on the cuts.
-/

namespace ChatGateway.Markup.KimiStream

open Text Kimi

/-! ## Removing the markers of sections from parts -/

/-- A part of the text is no end of a section but becomes one as beginnings are removed. -/
def Sutured (s : List Char) : Prop :=
  ∃ u, u <:+: s ∧ ¬ sectionEnd <:+: u ∧ remove sectionBegin u = sectionEnd

theorem Sutured.mono {s t : List Char} (h : Sutured s) (hst : s <:+: t) : Sutured t := by
  obtain ⟨u, hu, hn, hr⟩ := h
  exact ⟨u, hu.trans hst, hn, hr⟩

theorem begin_ne_nil : sectionBegin ≠ [] := by decide

theorem end_ne_nil : sectionEnd ≠ [] := by decide

theorem whole_of_unsutured {s t : List Char} (hb : Whole sectionBegin s t)
    (he : Whole sectionEnd s t) (h : ¬ Sutured (s ++ t)) :
    Whole sectionEnd (remove sectionBegin s) (remove sectionBegin t) := by
  intro w hw hs hp
  rcases prefix_append_cases hp with hp | ⟨r, hr, hwr, hrt⟩
  · exact hp
  exfalso
  obtain ⟨u, hu, rfl⟩ := exists_suffix_remove begin_ne_nil hs
  obtain ⟨v, hv, rfl⟩ := exists_prefix_remove begin_ne_nil hrt
  have hlen := congrArg List.length hwr
  rw [List.length_append] at hlen
  have hlonger : ∀ y, sectionEnd <:+: y →
      sectionEnd.length ≤ (remove sectionBegin y).length := fun y =>
    angled_markers.length_le_remove (by simp [markers]) (by simp [markers]) (by decide)
  have hnu : ¬ sectionEnd <:+: u := fun hi => by
    have := hlonger u hi
    have := List.length_pos_iff.mpr hr
    omega
  have hnv : ¬ sectionEnd <:+: v := fun hi => by
    have := hlonger v hi
    have := List.length_pos_iff.mpr hw
    omega
  have hnuv : ¬ sectionEnd <:+: u ++ v := by
    rw [← clear_iff_absent end_ne_nil, clear_append, List.append_nil]
    exact ⟨(he.restrict hu hv).clear hnu, (clear_iff_absent end_ne_nil).mpr hnv⟩
  refine h ⟨u ++ v, ?_, hnuv, ?_⟩
  · obtain ⟨x, rfl⟩ := hu
    obtain ⟨y, rfl⟩ := hv
    exact ⟨x, y, by simp⟩
  · rw [remove_append begin_ne_nil (hb.restrict hu hv), hwr]

theorem dropSectionMarkers_append {s t : List Char} (hb : Whole sectionBegin s t)
    (he : Whole sectionEnd s t) (h : ¬ Sutured (s ++ t)) :
    dropSectionMarkers (s ++ t) = dropSectionMarkers s ++ dropSectionMarkers t := by
  have hwhole := whole_of_unsutured hb he h
  unfold dropSectionMarkers
  rw [remove_append begin_ne_nil hb, remove_append end_ne_nil hwhole]

/-! ## Content behind a move -/

/-- The text in front of the next call. -/
def ordinary (s : List Char) : List Char := (cut? callBegin s).elim s (·.1)

theorem ordinary_begins (s : List Char) : ordinary s <+: s := by
  unfold ordinary
  cases h : cut? callBegin s with
  | none => exact List.prefix_refl s
  | some r =>
    have hs := cut?_append (by decide) h
    rw [List.append_assoc] at hs
    exact ⟨_, hs⟩

theorem ordinary_append {s t : List Char} (h : Clear callBegin s t) :
    ordinary (s ++ t) = s ++ ordinary t := by
  unfold ordinary
  rw [cut?_append_left h]
  cases cut? callBegin t with
  | none => rfl
  | some r => rfl

/-- No ordinary text that a run comes to is sutured. -/
def Seamless (p : Progress) (s : List Char) : Prop :=
  ∀ q t, Visits Step p s q t → q.mode = .content → ¬ Sutured (ordinary t)

theorem seamless_of_unsutured {s : List Char} (h : ¬ Sutured s) (p : Progress) : Seamless p s := by
  intro q t hv _ hs
  exact h (hs.mono ((ordinary_begins t).isInfix.trans (hv.suffix Step.suffix).isInfix))

theorem Move.seamless {p q : Progress} {s t : List Char} {l : List Part} (h : Move p s l q t)
    (hs : Seamless p s) : Seamless q t := by
  intro r u hv hr
  cases h with
  | step h => exact hs r u (.there h hv) hr
  | @content n s t hn hset =>
    have hclear := (hset.whole callBegin (by simp [markers])).clear hn
    cases hv with
    | here =>
      have hno := hs _ _ (.here _ _) rfl
      rw [ordinary_append hclear] at hno
      exact fun h => hno (h.mono (List.suffix_append s _).isInfix)
    | there h' hv =>
      cases h' with
      | call h' =>
        have hcut := cut?_append_left hclear
        rw [h'] at hcut
        exact hs r u (.there (.call hcut) hv) hr
  | @blanks n s t h =>
    cases hv with
    | here => exact absurd hr (by simp)
    | there h' hv =>
      cases h' with
      | ended h' =>
        have htext : argumentText false (s ++ t) = argumentText false t :=
          trimStart_append_blanks h t
        rw [← htext] at h'
        exact hs r u (.there (.ended h') hv) hr
  | @argument n started s t hb hne hn hset =>
    have hclear := (hset.whole callEnd (by simp)).clear hn
    cases hv with
    | here => exact absurd hr (by simp)
    | there h' hv =>
      cases h' with
      | ended h' =>
        have hcut := cut?_append_left hclear
        rw [argumentText, if_pos rfl] at h'
        rw [h', ← argumentText_settled hb hne] at hcut
        exact hs r u (.there (.ended hcut) hv) hr

theorem content_behind {n : Nat} {s t : List Char} (hn : ¬ callBegin <:+: s)
    (hs : Settled markers s t) (h : ¬ Sutured (ordinary (s ++ t))) :
    Piece.content (run ⟨.content, n⟩ (s ++ t)).1 =
      dropSectionMarkers s ++ Piece.content (run ⟨.content, n⟩ t).1 := by
  have hclear := (hs.whole callBegin (by simp [markers])).clear hn
  have hsplit : ∀ u, u <+: t → ¬ Sutured (s ++ u) →
      dropSectionMarkers (s ++ u) = dropSectionMarkers s ++ dropSectionMarkers u := by
    intro u hu
    have hb := hs.whole sectionBegin (by simp [markers])
    have he := hs.whole sectionEnd (by simp [markers])
    exact dropSectionMarkers_append (hb.restrict (List.suffix_refl s) hu)
      (he.restrict (List.suffix_refl s) hu)
  rw [ordinary_append hclear] at h
  have hcut := cut?_append_left hclear
  have hheld := splitHeld_append_left hs.closed
  cases ht : cut? callBegin t with
  | some r =>
    obtain ⟨b, a⟩ := r
    rw [ht] at hcut
    have hb : ordinary t = b := by rw [ordinary, ht]; rfl
    rw [hb] at h
    rw [run_of_step (.call hcut), run_of_step (.call ht)]
    simp [piecesOf, Part.pieces, Piece.content, hsplit b (hb ▸ ordinary_begins t) h]
  | none =>
    rw [ht] at hcut
    have ht' : ordinary t = t := by rw [ordinary, ht]; rfl
    rw [ht'] at h
    have hu : (splitHeld markers t).1 <+: t := ⟨_, splitHeld_append markers t⟩
    have hno : ¬ Sutured (s ++ (splitHeld markers t).1) := fun hsut =>
      h (hsut.mono ((List.prefix_append_right_inj s).mpr hu).isInfix)
    rw [run_of_pause (.content hcut), run_of_pause (.content ht), hheld]
    simp [Piece.content, hsplit _ hu hno]

theorem Move.content_eq {p q : Progress} {s t : List Char} {l : List Part} (h : Move p s l q t)
    (hs : Seamless p s) :
    Piece.content (run p s).1 = Piece.content (piecesOf l) ++ Piece.content (run q t).1 := by
  cases h with
  | step h => rw [run_of_step h, Piece.content_append]
  | content hn hset =>
    rw [content_behind hn hset (hs _ _ (.here _ _) rfl)]
    simp [piecesOf, Part.pieces, Piece.content]
  | blanks h =>
    rw [run_behind_blanks h]
    rfl
  | argument hb hne hn hset =>
    rw [(run_behind_argument hb hne hn hset).2.2]
    simp [piecesOf, Part.pieces, Piece.content_argumentPieces]

theorem Moves.content_eq {p q : Progress} {s t : List Char} {l : List Part} (h : Moves p s l q t)
    (hs : Seamless p s) :
    Piece.content (run p s).1 = Piece.content (piecesOf l) ++ Piece.content (run q t).1 ∧
      Seamless q t := by
  induction h with
  | nil p s => exact ⟨rfl, hs⟩
  | cons h hm ih =>
    obtain ⟨hcontent, hseamless⟩ := ih (h.seamless hs)
    refine ⟨?_, hseamless⟩
    rw [h.content_eq hs, hcontent, piecesOf_append, Piece.content_append, List.append_assoc]

/-! ## Content that is sent on -/

theorem content_found {p : Progress} {rest : List Char} (x : String) (xs : List String)
    (h : Seamless p (rest ++ (String.join (x :: xs)).toList)) :
    Piece.content (reader.found p rest (x :: xs)).flatten =
      Piece.content (run p (rest ++ (String.join (x :: xs)).toList)).1 := by
  induction xs generalizing p rest x with
  | nil => simp [Reader.found, reader_run]
  | cons y ys ih =>
    rw [String.join_cons, String.toList_append, ← List.append_assoc] at h ⊢
    obtain ⟨l, hl, hpieces⟩ := run_moves p (rest ++ x.toList) (String.join (y :: ys)).toList
    obtain ⟨hcontent, hseamless⟩ := hl.content_eq h
    rw [Reader.found, List.flatten_cons, Piece.content_append, reader_run, ih y hseamless, hcontent,
      hpieces]

theorem contentIn_shown (supply : Supply) {xs : List String}
    (h : Seamless start.progress (String.join xs).toList) :
    contentIn (parser.feed supply start "" xs) =
      Piece.content (run start.progress (String.join xs).toList).1 := by
  rw [Parser.contentIn_feed, finds_eq]
  cases xs with
  | nil => rw [String.join_nil, String.toList_empty, run_start]; rfl
  | cons x xs => exact content_found x xs h

/-- **Content of a growing text.** However a text is cut whose ordinary text is not sutured, a parser
sends on the content that it sends on when it is shown the text at once. -/
theorem growing_content (supply : Supply) (xs : List String)
    (h : Seamless start.progress (String.join xs).toList) :
    contentIn (parser.feed supply start "" xs) =
      contentIn (parser.feed supply start "" [String.join xs]) := by
  have hone : Seamless start.progress (String.join [String.join xs]).toList := by rwa [join_singleton]
  rw [contentIn_shown supply h, contentIn_shown supply hone, join_singleton]

theorem Sutured.exists_begin {s : List Char} (h : Sutured s) :
    ∃ k < sectionEnd.length, sectionEnd.take (k + 1) ++ sectionBegin <:+: s := by
  obtain ⟨u, hu, hn, hr⟩ := h
  fun_induction remove sectionBegin u with
  | case1 u hc => exact absurd (hr ▸ List.infix_refl u) hn
  | case2 u b a hc ih =>
    have hsplit := cut?_append begin_ne_nil hc
    by_cases hb : b = []
    · subst hb
      have ha : a <:+ u := suffix_of_cut? begin_ne_nil hc
      exact ih (ha.isInfix.trans hu) (fun hi => hn (hi.trans ha.isInfix)) hr
    · have hb' : b <+: sectionEnd := ⟨_, hr⟩
      have hpos := List.length_pos_iff.mpr hb
      have hle := hb'.length_le
      refine ⟨b.length - 1, by omega, ?_⟩
      rw [Nat.sub_add_cancel hpos, ← List.prefix_iff_eq_take.mp hb']
      exact List.IsInfix.trans ⟨[], a, hsplit⟩ hu

theorem growing_content_split :
    let xs := ["so <|tool_calls_section_be", "gin|><|tool_call_begin|>f:0<|tool_call_argu",
      "ment_begin|>{}<|tool_call_end|><|tool_calls_section", "_end|> then"]
    contentIn (parser.feed (fun _ => "call") start "" xs) =
      contentIn (parser.feed (fun _ => "call") start "" [String.join xs]) := by
  intro xs
  refine growing_content _ xs (seamless_of_unsutured (fun h => ?_) _)
  obtain ⟨k, hk, hi⟩ := h.exists_begin
  have hnone : ∀ k < sectionEnd.length,
      ¬ sectionEnd.take (k + 1) ++ sectionBegin <:+: (String.join xs).toList := by decide +kernel
  exact hnone k hk hi

/-- The halves around the beginning of a section are an end, which is removed if they are shown at
once. -/
theorem growing_content_sutured :
    let xs := ["<|tool_calls_section_<|tool_calls_section_begin|>", "end|>"]
    contentIn (parser.feed (fun _ => "call") start "" xs) =
        "<|tool_calls_section_end|>".toList ∧
      contentIn (parser.feed (fun _ => "call") start "" [String.join xs]) = [] := by
  decide +kernel

end ChatGateway.Markup.KimiStream
