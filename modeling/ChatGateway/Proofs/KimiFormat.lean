import ChatGateway.Proofs.KimiContent
import ChatGateway.Proofs.Spacing

/-!
# The format of Kimi markup

`spell` writes a text and calls in the format. What is written is read back, from the whole text and
from a text that grows. Each marker begins with `<`, which none has inside, so that no marker reaches
from a text that holds none into the marker behind it.
-/

namespace ChatGateway.Text

theorem takeWhile_front {p : Char → Bool} {s : List Char} (hs : ∀ c ∈ s, p c = true) {d : Char}
    (hd : p d = false) (t : List Char) : (s ++ d :: t).takeWhile p = s := by
  rw [List.takeWhile_append_of_pos hs, List.takeWhile_cons_of_neg (by simp [hd]), List.append_nil]

theorem dropWhile_front {p : Char → Bool} {s : List Char} (hs : ∀ c ∈ s, p c = true) {d : Char}
    (hd : p d = false) (t : List Char) : (s ++ d :: t).dropWhile p = d :: t := by
  rw [List.dropWhile_append_of_pos hs, List.dropWhile_cons_of_neg (by simp [hd])]

theorem trimStart_of_head {c : Char} (h : isBlank c = false) (s : List Char) :
    trimStart (c :: s) = c :: s := List.dropWhile_cons_of_neg (by simp [h])

theorem trimStart_append_of_head {d : Char} (h : isBlank d = false) (s t : List Char) :
    trimStart (s ++ d :: t) = trimStart s ++ d :: t := by
  by_cases hs : s.all isBlank = true
  · have hnil : trimStart s = [] := List.dropWhile_eq_nil_iff.mpr (List.all_eq_true.mp hs)
    rw [trimStart_append_blanks hs, trimStart_of_head h, hnil, List.nil_append]
  · refine trimStart_append (fun hnil => hs ?_) _
    exact List.all_eq_true.mpr (List.dropWhile_eq_nil_iff.mp hnil)

theorem trimEnd_of_last {c : Char} (h : isBlank c = false) (s : List Char) :
    trimEnd (s ++ [c]) = s ++ [c] := by
  rw [trimEnd, List.reverse_append, List.reverse_singleton, List.singleton_append,
    List.dropWhile_cons_of_neg (by simp [h]), List.reverse_cons, List.reverse_reverse]

/-- The code points of white space. -/
def blankPoints : List Nat :=
  [9, 10, 11, 12, 13, 0x20, 0x85, 0xA0, 0x1680, 0x2000, 0x2001, 0x2002, 0x2003, 0x2004, 0x2005,
    0x2006, 0x2007, 0x2008, 0x2009, 0x200A, 0x2028, 0x2029, 0x202F, 0x205F, 0x3000]

theorem isBlank_iff {c : Char} : isBlank c = true ↔ c.toNat ∈ blankPoints := by
  simp only [isBlank, blankPoints, Bool.or_eq_true, Bool.and_eq_true, decide_eq_true_eq, beq_iff_eq,
    List.mem_cons, List.not_mem_nil, or_false]
  omega

/-- The kernel computes `Nat.ble` at once, where it would unfold the decision of an inequality. -/
theorem isBlank_of_inRanges {ranges : List (Nat × Nat)}
    (h : (blankPoints.any fun n => ranges.any fun r => r.1.ble n && n.ble r.2) = false)
    {c : Char} (hc : inRanges ranges c = true) : isBlank c = false := by
  refine Bool.eq_false_iff.mpr fun hb => List.any_eq_false.mp h _ (isBlank_iff.mp hb) ?_
  simpa [inRanges] using hc

theorem isBlank_of_isWord {c : Char} (h : isWord c = true) : isBlank c = false :=
  isBlank_of_inRanges (by decide +kernel) h

theorem isBlank_of_isDigit {c : Char} (h : isDigit c = true) : isBlank c = false :=
  isBlank_of_inRanges (by decide +kernel) h

end ChatGateway.Text

namespace ChatGateway.Markup.Kimi

open Text

/-! ## What is written -/

def formatMarkers : List (List Char) :=
  [sectionBegin, sectionEnd, callBegin, argumentBegin, callEnd]

theorem angled_formatMarkers : Angled formatMarkers := ⟨by decide, by decide, by decide⟩

def MarkerFree (s : List Char) : Prop := ∀ m ∈ formatMarkers, ¬ m <:+: s

/-- A call as it is written: a name with its prefix, an index, and arguments that are JSON text. -/
structure Written where
  name : List Char
  index : List Char
  arguments : List Char
  value : Json.Value
  name_ne : name ≠ []
  name_chars : ∀ c ∈ name, isNameChar c = true
  index_ne : index ≠ []
  index_digits : ∀ c ∈ index, isDigit c = true
  reads : Json.read arguments = some value
  free : MarkerFree arguments

namespace Written

variable (w : Written)

def header : List Char := w.name ++ ':' :: w.index

def text : List Char := callBegin ++ w.header ++ argumentBegin ++ w.arguments ++ callEnd

def id : String := "call_" ++ String.ofList w.index

/-- The name without anything up to its first point. -/
def bareName : List Char :=
  if '.' ∈ w.name then (w.name.dropWhile (· != '.')).tail else w.name

def call : Call := ⟨some w.id, String.ofList w.bareName, w.value⟩

end Written

/-- A text, and behind it the section of the calls. -/
def spell (p : List Char) (ws : List Written) : List Char :=
  p ++ sectionBegin ++ ws.flatMap Written.text ++ sectionEnd

/-- What stands behind the beginning of the section, or behind a call. -/
def remainder (ws : List Written) : List Char := ws.flatMap Written.text ++ sectionEnd

theorem spell_eq (p : List Char) (ws : List Written) :
    spell p ws = (p ++ sectionBegin) ++ remainder ws := List.append_assoc _ _ _

theorem remainder_cons (w : Written) (ws : List Written) :
    remainder (w :: ws) = w.text ++ remainder ws := List.append_assoc _ _ _

/-! ## Headers -/

theorem isNameChar_cases {c : Char} (h : isNameChar c = true) :
    isWord c = true ∨ c = '.' ∨ c = '-' := by
  simpa [isNameChar, or_assoc] using h

theorem isBlank_of_isNameChar {c : Char} (h : isNameChar c = true) : isBlank c = false := by
  rcases isNameChar_cases h with hw | rfl | rfl
  · exact isBlank_of_isWord hw
  · rfl
  · rfl

theorem isNameChar_colon : isNameChar ':' = false := by decide +kernel

theorem isNameChar_angle : isNameChar '<' = false := by decide +kernel

theorem isDigit_colon : isDigit ':' = false := by decide +kernel

theorem isDigit_angle : isDigit '<' = false := by decide +kernel

theorem not_mem_of_all {p : Char → Bool} {s : List Char} (hs : ∀ c ∈ s, p c = true) {d : Char}
    (hd : p d = false) : d ∉ s := fun h => absurd (hs d h) (by simp [hd])

namespace Written

variable (w : Written)

theorem colon_not_mem_index : ':' ∉ w.index := not_mem_of_all w.index_digits isDigit_colon

theorem angle_not_mem_header : '<' ∉ w.header := by
  have hname := not_mem_of_all w.name_chars isNameChar_angle
  have hindex := not_mem_of_all w.index_digits isDigit_angle
  simp [header, hname, hindex]

theorem trimStart_header (t : List Char) : trimStart (w.header ++ t) = w.header ++ t := by
  obtain ⟨c, s, hs⟩ := List.exists_cons_of_ne_nil w.name_ne
  have hc := isBlank_of_isNameChar (w.name_chars c (by simp [hs]))
  rw [header, hs, List.cons_append, List.cons_append]
  exact trimStart_of_head hc _

theorem trim_header : trim w.header = w.header := by
  have hstart := w.trimStart_header []
  rw [List.append_nil] at hstart
  obtain ⟨s, c, hs⟩ := (List.eq_nil_or_concat w.index).resolve_left w.index_ne
  rw [List.concat_eq_append] at hs
  have hc := isBlank_of_isDigit (w.index_digits c (by simp [hs]))
  have hlast : w.header = w.name ++ ':' :: s ++ [c] := by simp [header, hs]
  rw [trim, hstart, hlast, trimEnd_of_last hc]

theorem takeHeader_header {d : Char} (hd : isDigit d = false) (t : List Char) :
    takeHeader (w.header ++ d :: t) = some (w.header, d :: t) := by
  have htext : w.header ++ d :: t = w.name ++ ':' :: (w.index ++ d :: t) := by simp [header]
  rw [takeHeader, htext]
  simp only [takeWhile_front w.name_chars isNameChar_colon,
    dropWhile_front w.name_chars isNameChar_colon, takeWhile_front w.index_digits hd,
    dropWhile_front w.index_digits hd]
  simp [w.name_ne, w.index_ne, header]

theorem parseHeader_header : parseHeader w.header = (w.bareName, w.index) := by
  have hlast : cutLast? ':' w.header = some (w.name, w.index) := by
    have hrev : w.header.reverse = w.index.reverse ++ ':' :: w.name.reverse := by simp [header]
    rw [cutLast?, hrev, cut?_character (by simpa using w.colon_not_mem_index)]
    simp
  rw [parseHeader, hlast, bareName]
  dsimp only
  by_cases hpoint : '.' ∈ w.name
  · obtain ⟨b, a, hname, hb⟩ := List.eq_append_cons_of_mem hpoint
    have hdrop : w.name.dropWhile (· != '.') = '.' :: a := by
      rw [hname]
      refine dropWhile_front (fun c hc => bne_iff_ne.mpr ?_) (by simp) a
      rintro rfl
      exact hb hc
    rw [if_pos hpoint, hdrop, hname, cut?_character hb, List.tail_cons]
  · have hnone : cut? ['.'] w.name = none := cut?_eq_none_iff.mpr (clear_of_not_mem hpoint [])
    rw [if_neg hpoint, hnone]

end Written

/-! ## Markers -/

theorem mem_formatMarkers {m : List Char} : m ∈ formatMarkers ↔ m = sectionBegin ∨
    m = sectionEnd ∨ m = callBegin ∨ m = argumentBegin ∨ m = callEnd := by
  simp [formatMarkers]

theorem MarkerFree.of_infix {s t : List Char} (h : MarkerFree s) (ht : t <:+: s) : MarkerFree t :=
  fun m hm hi => h m hm (hi.trans ht)

/-- A marker does not begin inside a text that holds none, in front of another. -/
theorem MarkerFree.clear {s : List Char} (h : MarkerFree s) {m m' : List Char}
    (hm : m ∈ formatMarkers) (hm' : m' ∈ formatMarkers) (u : List Char) : Clear m s (m' ++ u) := by
  refine (angled_formatMarkers.whole_of_head hm (.inr ?_) s).clear (h m hm)
  rw [List.head?_append, angled_formatMarkers.head m' hm']
  rfl

theorem MarkerFree.cut? {s : List Char} (h : MarkerFree s) {m : List Char}
    (hm : m ∈ formatMarkers) (u : List Char) : cut? m (s ++ (m ++ u)) = some (s, u) := by
  refine (cut?_eq_some_iff (angled_formatMarkers.ne_nil hm)).mpr ⟨by simp, h.clear hm hm u⟩

theorem clear_front {p : List Char} (hp : MarkerFree p) (u : List Char) :
    Clear callBegin (p ++ sectionBegin) u :=
  clear_append.mpr ⟨hp.clear (by simp [formatMarkers]) (by simp [formatMarkers]) u,
    angled_formatMarkers.clear_other (by simp [formatMarkers]) (by simp [formatMarkers])
      (by decide) u⟩

/-! ## The whole text -/

theorem rawCalls_of_cut? {s b a : List Char} (h : Text.cut? callBegin s = some (b, a)) :
    rawCalls s = match takeCall a with
      | none => rawCalls a
      | some (header, arguments, rest) => (header, arguments) :: rawCalls rest := by
  rw [rawCalls]
  split
  · next h' => rw [h] at h'; cases h'
  · next h' =>
    obtain ⟨rfl, rfl⟩ := Prod.mk.inj (Option.some.inj (h.symm.trans h'))
    split <;> simp_all

theorem rawCalls_of_none {s : List Char} (h : Text.cut? callBegin s = none) : rawCalls s = [] := by
  rw [rawCalls]
  split
  · rfl
  · next h' => rw [h] at h'; cases h'

theorem rawCalls_behind {t : List Char} {u : List Char} (h : Clear callBegin t u) :
    rawCalls (t ++ u) = rawCalls u := by
  have hcut := cut?_append_left h
  cases hu : Text.cut? callBegin u with
  | none =>
    rw [hu] at hcut
    rw [rawCalls_of_none hcut, rawCalls_of_none hu]
  | some r =>
    obtain ⟨b, a⟩ := r
    rw [hu] at hcut
    rw [rawCalls_of_cut? hcut, rawCalls_of_cut? hu]

theorem trimStart_marker {m : List Char} (hm : m ∈ formatMarkers) (u : List Char) :
    trimStart (m ++ u) = m ++ u := by
  obtain ⟨t, rfl⟩ := List.head?_eq_some_iff.mp (angled_formatMarkers.head m hm)
  exact trimStart_of_head rfl _

namespace Written

variable (w : Written)

theorem text_append (u : List Char) : w.text ++ u =
    callBegin ++ (w.header ++ (argumentBegin ++ (w.arguments ++ (callEnd ++ u)))) := by
  simp [text]

theorem takeArguments_arguments (u : List Char) :
    takeArguments (argumentBegin ++ (w.arguments ++ (callEnd ++ u))) =
      some (trim w.arguments, u) := by
  have hcut := w.free.cut? (m := callEnd) (by simp [formatMarkers]) u
  rw [takeArguments, if_pos (List.isPrefixOf_iff_prefix.mpr (List.prefix_append _ _)),
    List.drop_left, hcut]
  rfl

theorem takeCall_text (u : List Char) :
    takeCall (w.header ++ (argumentBegin ++ (w.arguments ++ (callEnd ++ u)))) =
      some (w.header, trim w.arguments, u) := by
  have hheader := w.takeHeader_header isDigit_angle
    ((argumentBegin ++ (w.arguments ++ (callEnd ++ u))).tail)
  have hargument : ∀ v, argumentBegin ++ v = '<' :: (argumentBegin ++ v).tail := fun _ => rfl
  rw [← hargument] at hheader
  rw [takeCall, w.trimStart_header, hheader]
  dsimp only
  rw [trimStart_marker (by simp [formatMarkers]), w.takeArguments_arguments]
  rfl

theorem rawCalls_text (u : List Char) :
    rawCalls (w.text ++ u) = (w.header, trim w.arguments) :: rawCalls u := by
  have hcut : Text.cut? callBegin (w.text ++ u) = some ([], _) :=
    (cut?_eq_some_iff (by decide)).mpr ⟨w.text_append u, clear_nil _ _⟩
  rw [rawCalls_of_cut? hcut, w.takeCall_text]

theorem callId_index : callId w.index = w.id := by
  show String.ofList ("call_".toList ++ w.index) = "call_" ++ String.ofList w.index
  rw [String.ofList_append, String.ofList_toList]

theorem callOf_text : callOf w.header (trim w.arguments) = w.call := by
  rw [callOf, w.parseHeader_header, Json.read_trim w.reads]
  dsimp only
  rw [w.callId_index]
  rfl

end Written

theorem calls_remainder (ws : List Written) : calls (remainder ws) = ws.map Written.call := by
  induction ws with
  | nil => decide +kernel
  | cons w ws ih =>
    unfold calls at ih ⊢
    rw [remainder_cons, w.rawCalls_text, List.map_cons, ih]
    exact congrArg (· :: _) w.callOf_text

theorem extract_spell {p : List Char} (hp : MarkerFree p) {ws : List Written} (hws : ws ≠ []) :
    extract (String.ofList (spell p ws)) =
      ⟨if blank p then none else some (String.ofList (trim p)), ws.map Written.call⟩ := by
  have hcut := hp.cut? (m := sectionBegin) (by simp [formatMarkers]) (remainder ws)
  have hcalls : calls (spell p ws) = ws.map Written.call := by
    rw [← calls_remainder, calls, spell_eq, rawCalls_behind (clear_front hp _)]
    rfl
  rw [extract, String.toList_ofList, hcalls, spell_eq, List.append_assoc, hcut]
  dsimp only
  rw [if_neg (by simpa using hws)]
  by_cases hblank : blank p = true
  · rw [if_pos (by simpa using trim_eq_nil_iff.mpr hblank), if_pos hblank]
  · rw [if_neg (by simpa using mt trim_eq_nil_iff.mp hblank), if_neg hblank]

end ChatGateway.Markup.Kimi

namespace ChatGateway.Markup.KimiStream

open Text Kimi

/-! ## The places that a run comes to -/

theorem Step.unique {p q q' : Progress} {s t t' : List Char} {l l' : List Part}
    (h : Step p s l q t) (h' : Step p s l' q' t') : q = q' ∧ t = t' := by
  have hrun := (run_of_step h).symm.trans (run_of_step h')
  cases h with
  | call h =>
    cases h' with
    | call h' => cases h.symm.trans h'; exact ⟨rfl, rfl⟩
  | named h =>
    cases h' with
    | named h' => cases h.symm.trans h'; exact ⟨rfl, rfl⟩
  | ended h =>
    cases h' with
    | ended h' => cases h.symm.trans h'; exact ⟨rfl, rfl⟩

theorem Pause.no_step {p q q' : Progress} {s t t' : List Char} {ps : List Piece} {l : List Part}
    (h : Pause p s ps q t) (h' : Step p s l q' t') : False := by
  cases h with
  | content h => cases h' with | call h' => cases h.symm.trans h'
  | header h => cases h' with | named h' => cases h.symm.trans h'
  | arguments h => cases h' with | ended h' => cases h.symm.trans h'

theorem seamless_of_step {p q : Progress} {s t : List Char} {l : List Part} (h : Step p s l q t)
    (hhere : p.mode = .content → ¬ Sutured (ordinary s)) (hs : Seamless q t) : Seamless p s := by
  intro r u hv hr
  cases hv with
  | here => exact hhere hr
  | there h' hv =>
    obtain ⟨rfl, rfl⟩ := h.unique h'
    exact hs r u hv hr

theorem seamless_of_pause {p q : Progress} {s t : List Char} {ps : List Piece}
    (h : Pause p s ps q t) (hhere : p.mode = .content → ¬ Sutured (ordinary s)) :
    Seamless p s := by
  intro r u hv hr
  cases hv with
  | here => exact hhere hr
  | there h' hv => exact (h.no_step h').elim

/-! ## Ordinary text -/

theorem Sutured.has_begin {s : List Char} (h : Sutured s) : sectionBegin <:+: s := by
  obtain ⟨k, -, hk⟩ := h.exists_begin
  exact (List.suffix_append _ _).isInfix.trans hk

theorem not_sutured {p : List Char} (hp : MarkerFree p) : ¬ Sutured (p ++ sectionBegin) := by
  rintro ⟨u, ⟨x, y, hu⟩, hn, hr⟩
  cases hc : cut? sectionBegin u with
  | none =>
    rw [remove_of_none hc] at hr
    exact hn (hr ▸ List.infix_refl u)
  | some r =>
    obtain ⟨b, a⟩ := r
    obtain ⟨rfl, -⟩ := (cut?_eq_some_iff begin_ne_nil).mp hc
    have hcut := hp.cut? (m := sectionBegin) (by simp [formatMarkers]) []
    rw [List.append_nil] at hcut
    -- the beginning in `u` is the one behind `p`, so that nothing stands behind it
    have hsuffix : a ++ y <:+ [] := suffix_of_first begin_ne_nil hcut
      (show p ++ sectionBegin = (x ++ b) ++ sectionBegin ++ (a ++ y) by rw [← hu]; simp)
    obtain ⟨rfl, rfl⟩ := List.append_eq_nil_iff.mp (List.suffix_nil.mp hsuffix)
    have hb : b = sectionEnd := by
      rw [remove_of_some hc, remove_of_none (s := []) rfl, List.append_nil] at hr
      exact hr
    have hp' : (x ++ b) ++ sectionBegin = p ++ sectionBegin := by simpa using hu
    refine hp sectionEnd (by simp [formatMarkers]) ⟨x, [], ?_⟩
    rw [← hb, List.append_nil, List.append_cancel_right hp']

theorem dropSectionMarkers_spelled {p : List Char} (hp : MarkerFree p) :
    dropSectionMarkers (p ++ sectionBegin) = p := by
  have hcut := hp.cut? (m := sectionBegin) (by simp [formatMarkers]) []
  rw [List.append_nil] at hcut
  rw [dropSectionMarkers, remove_of_some hcut, remove_of_none (s := []) rfl, List.append_nil,
    remove_of_absent end_ne_nil (hp sectionEnd (by simp [formatMarkers]))]

/-! ## Calls that are written -/

section
variable (w : Written) (n : Nat) (u : List Char)

theorem cut?_call {b : List Char} (hb : Clear callBegin b (w.text ++ u)) :
    cut? callBegin (b ++ (w.text ++ u)) =
      some (b, w.header ++ (argumentBegin ++ (w.arguments ++ (callEnd ++ u)))) := by
  rw [w.text_append] at hb ⊢
  exact (cut?_eq_some_iff (by decide)).mpr ⟨by simp, hb⟩

theorem step_named :
    Step ⟨.header, n⟩ (w.header ++ (argumentBegin ++ (w.arguments ++ (callEnd ++ u))))
      [.header n w.header, .argumentBegin] ⟨.arguments false, n⟩
      (w.arguments ++ (callEnd ++ u)) := by
  refine .named ((cut?_eq_some_iff (by decide)).mpr ⟨by simp, ?_⟩)
  exact clear_of_free rfl w.angle_not_mem_header _

theorem step_ended :
    ∃ l, Step ⟨.arguments false, n⟩ (w.arguments ++ (callEnd ++ u)) l ⟨.content, n + 1⟩ u ∧
      Piece.marks (piecesOf l) = (trim w.arguments).map (.argument n) ∧
      Piece.content (piecesOf l) = [] := by
  have htext : argumentText false (w.arguments ++ (callEnd ++ u)) =
      trimStart w.arguments ++ (callEnd ++ u) := trimStart_append_of_head rfl _ _
  have hcut := (w.free.of_infix (trimStart_suffix _).isInfix).cut? (m := callEnd)
    (by simp [formatMarkers]) u
  rw [← htext] at hcut
  exact ⟨_, .ended hcut, marks_ended _ _ _ _ _ _, content_ended _ _ _ _ _ _⟩

theorem headerPiece_header :
    headerPiece n w.header = .header n (some w.id) (String.ofList w.bareName) := by
  rw [headerPiece, w.trim_header, w.parseHeader_header]
  dsimp only
  rw [w.callId_index]

variable {w n u} {b : List Char} (hb : Clear callBegin b (w.text ++ u))
include hb

theorem marksFrom_call : marksFrom ⟨.content, n⟩ (b ++ (w.text ++ u)) =
    .header n (some w.id) (String.ofList w.bareName) ::
      ((trim w.arguments).map (.argument n) ++ marksFrom ⟨.content, n + 1⟩ u) := by
  obtain ⟨l, hended, hmarks, -⟩ := step_ended w n u
  rw [marksFrom_of_step (.call (cut?_call w u hb)), marksFrom_of_step (step_named w n u),
    marksFrom_of_step hended, hmarks]
  simp [piecesOf, Part.pieces, Piece.marks, headerPiece_header]

theorem content_call : Piece.content (run ⟨.content, n⟩ (b ++ (w.text ++ u))).1 =
    dropSectionMarkers b ++ Piece.content (run ⟨.content, n + 1⟩ u).1 := by
  obtain ⟨l, hended, -, hcontent⟩ := step_ended w n u
  rw [run_of_step (.call (cut?_call w u hb)), run_of_step (step_named w n u), run_of_step hended]
  simp only [Piece.content_append, hcontent]
  simp [piecesOf, Part.pieces, Piece.content, headerPiece_header]

theorem seamless_call (hno : ¬ Sutured b) (h : Seamless ⟨.content, n + 1⟩ u) :
    Seamless ⟨.content, n⟩ (b ++ (w.text ++ u)) := by
  obtain ⟨l, hended, -, -⟩ := step_ended w n u
  have hheader := seamless_of_step (step_named w n u) (by simp)
    (seamless_of_step hended (by simp) h)
  refine seamless_of_step (.call (cut?_call w u hb)) (fun _ => ?_) hheader
  rwa [ordinary, cut?_call w u hb]

end

/-! ## Sections -/

theorem pause_remainder (n : Nat) :
    Pause ⟨.content, n⟩ (remainder []) [.text []] ⟨.content, n⟩ [] := by
  have hnone : cut? callBegin (remainder []) = none := by decide +kernel
  have hheld : splitHeld markers (remainder []) = (sectionEnd, []) := by decide +kernel
  have hdrop : dropSectionMarkers sectionEnd = [] := by decide +kernel
  have hpause := Pause.content (n := n) hnone
  rwa [hheld, hdrop] at hpause

def received (n : Nat) (w : Written) : Received :=
  ⟨n, some w.id, String.ofList w.bareName, trim w.arguments⟩

theorem calls_call (supply : Supply) (k : Nat) {w : Written} {n : Nat} {b u : List Char}
    (hb : Clear callBegin b (w.text ++ u)) :
    Mark.calls supply k (marksFrom ⟨.content, n⟩ (b ++ (w.text ++ u))) =
      received n w :: Mark.calls supply k (marksFrom ⟨.content, n + 1⟩ u) := by
  -- ordinary text adds nothing to the arguments of the call in front of it
  have hnone : Mark.argumentsOf (marksFrom ⟨.content, n + 1⟩ u) = [] :=
    argumentsOf_marksFrom (by simp)
  rw [marksFrom_call hb, Mark.calls, Mark.argumentsOf_append, hnone, Mark.calls_append,
    List.append_nil]
  rfl

theorem received_remainder (supply : Supply) (k n : Nat) (ws : List Written) :
    Mark.calls supply k (marksFrom ⟨.content, n⟩ (remainder ws)) =
      ws.mapIdx fun i w => received (n + i) w := by
  induction ws generalizing n with
  | nil =>
    rw [marksFrom_of_pause (pause_remainder n)]
    rfl
  | cons w ws ih =>
    have hcall := calls_call supply k (n := n) (clear_nil callBegin (w.text ++ remainder ws))
    rw [List.nil_append] at hcall
    rw [remainder_cons, hcall, ih, List.mapIdx_cons]
    simp [Nat.add_assoc, Nat.add_comm 1]

theorem content_remainder (n : Nat) (ws : List Written) :
    Piece.content (run ⟨.content, n⟩ (remainder ws)).1 = [] := by
  induction ws generalizing n with
  | nil =>
    rw [run_of_pause (pause_remainder n)]
    rfl
  | cons w ws ih =>
    have hcall := content_call (n := n) (clear_nil callBegin (w.text ++ remainder ws))
    have hdrop : dropSectionMarkers [] = [] := by decide +kernel
    rw [List.nil_append, hdrop, List.nil_append] at hcall
    rw [remainder_cons, hcall, ih]

theorem seamless_remainder (n : Nat) (ws : List Written) :
    Seamless ⟨.content, n⟩ (remainder ws) := by
  induction ws generalizing n with
  | nil =>
    refine seamless_of_pause (pause_remainder n) fun _ h => ?_
    have hnone : ordinary (remainder []) = sectionEnd := by decide +kernel
    rw [hnone] at h
    exact absurd h.has_begin (by decide +kernel)
  | cons w ws ih =>
    have hno : ¬ Sutured [] := fun h => absurd h.has_begin (by decide +kernel)
    have hcall := seamless_call (n := n) (clear_nil callBegin (w.text ++ remainder ws)) hno (ih _)
    rwa [List.nil_append, ← remainder_cons] at hcall

/-! ## What is read back -/

theorem trimmed_received (n : Nat) (w : Written) : (received n w).trimmed = received n w := by
  rw [Received.trimmed, received, trim, trimEnd_trimEnd]

section
variable {p : List Char} (hp : MarkerFree p) {ws : List Written} (hws : ws ≠ [])
include hp hws

theorem calls_spell (supply : Supply) :
    Mark.calls supply 0 (marksFrom start.progress (spell p ws)) = ws.mapIdx received := by
  obtain ⟨w, ws, rfl⟩ := List.exists_cons_of_ne_nil hws
  have hcall := calls_call supply 0 (n := 0) (clear_front hp (w.text ++ remainder ws))
  rw [spell_eq, remainder_cons, start, hcall, received_remainder, List.mapIdx_cons]
  simp [Nat.add_comm]

theorem content_spell : Piece.content (run start.progress (spell p ws)).1 = p := by
  obtain ⟨w, ws, rfl⟩ := List.exists_cons_of_ne_nil hws
  have hcall := content_call (n := 0) (clear_front hp (w.text ++ remainder ws))
  rw [spell_eq, remainder_cons, start, hcall, content_remainder, dropSectionMarkers_spelled hp,
    List.append_nil]

theorem seamless_spell : Seamless start.progress (spell p ws) := by
  obtain ⟨w, ws, rfl⟩ := List.exists_cons_of_ne_nil hws
  rw [spell_eq, remainder_cons]
  exact seamless_call (clear_front hp _) (not_sutured hp) (seamless_remainder 1 ws)

end

/-- **Kimi markup is read back.** A text without markers and the calls that are written behind it
are extracted from the whole, and sent on in whatever parts the whole is shown: the content is the
text, and the calls are numbered in their order, with arguments that differ from what is written at
most in the white space around them. -/
theorem sections_decoded (supply : Supply) (p : List Char) (ws : List Written)
    (hp : MarkerFree p) (hws : ws ≠ []) :
    Kimi.extract (String.ofList (spell p ws)) =
        ⟨if blank p then none else some (String.ofList (trim p)), ws.map Written.call⟩ ∧
      ∀ xs, String.join xs = String.ofList (spell p ws) →
        contentIn (parser.feed supply start "" xs) = p ∧
          Numbered 0 (fragmentsIn (parser.feed supply start "" xs)) ∧
          (callsIn (fragmentsIn (parser.feed supply start "" xs))).map Received.trimmed =
            ws.mapIdx received := by
  refine ⟨extract_spell hp hws, fun xs hxs => ?_⟩
  have htext : (String.join xs).toList = spell p ws := by rw [hxs, String.toList_ofList]
  refine ⟨?_, numbered_feed supply xs, ?_⟩
  · rw [contentIn_shown supply (htext ▸ seamless_spell hp hws), htext, content_spell hp hws]
  · -- what is received of a call that is written has no white space to remove
    have htrimmed : ∀ r ∈ ws.mapIdx received, r.trimmed = id r := by
      intro r hr
      obtain ⟨i, hi, rfl⟩ := List.mem_mapIdx.mp hr
      exact trimmed_received i _
    rw [trimmed_feed, htext, Mark.calls_tidy, calls_spell hp hws, List.map_congr_left htrimmed,
      List.map_id]

/-- A call with points in its name, and arguments that hold most of a marker between white space. -/
def lookup : Written where
  name := "functions.get-weather.now".toList
  index := "12".toList
  arguments := " \x7b\"at\": \"<|tool_call_end\"\x7d\n".toList
  value := .obj [("at", .str "<|tool_call_end")]
  name_ne := by decide
  name_chars := List.all_eq_true.mp (by decide +kernel)
  index_ne := by decide
  index_digits := List.all_eq_true.mp (by decide +kernel)
  reads := by decide +kernel
  free := (by decide +kernel : ∀ m ∈ formatMarkers, ¬ m <:+: _)

theorem sections_decoded_lookup :
    let xs := ["so <|tool_", "call<|tool_calls_section_begin|><|tool_call_begin|>functions.get-wea",
      "ther.now:12<|tool_call_argument_be", "gin|> \x7b\"at\": \"<|tool_call_", "end\"\x7d",
      "\n<|tool_call_end|><|tool_calls_section_end|>"]
    MarkerFree "so <|tool_call".toList ∧ [lookup] ≠ [] ∧
      String.join xs = String.ofList (spell "so <|tool_call".toList [lookup]) ∧
      Kimi.extract (String.join xs) = ⟨some "so <|tool_call",
        [⟨some "call_12", "get-weather.now", .obj [("at", .str "<|tool_call_end")]⟩]⟩ ∧
      contentIn (parser.feed (fun _ => "call") start "" xs) = "so <|tool_call".toList ∧
      (callsIn (fragmentsIn (parser.feed (fun _ => "call") start "" xs))).map Received.trimmed =
        [⟨0, some "call_12", "get-weather.now", "\x7b\"at\": \"<|tool_call_end\"\x7d".toList⟩] := by
  intro xs
  have hp : ∀ m ∈ formatMarkers, ¬ m <:+: "so <|tool_call".toList := by decide +kernel
  have hws : [lookup] ≠ [] := by simp
  have hxs : String.join xs = String.ofList (spell "so <|tool_call".toList [lookup]) := by
    decide +kernel
  obtain ⟨hwhole, hparts⟩ := sections_decoded (fun _ => "call") _ [lookup] hp hws
  obtain ⟨hcontent, -, hcalls⟩ := hparts xs hxs
  refine ⟨hp, hws, hxs, ?_, hcontent, hcalls.trans (by decide +kernel)⟩
  rw [hxs, hwhole]
  decide +kernel

end ChatGateway.Markup.KimiStream
