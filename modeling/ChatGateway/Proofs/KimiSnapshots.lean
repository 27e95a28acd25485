import ChatGateway.Proofs.Growing
import ChatGateway.Proofs.KimiCuts

/-!
# Calls in a growing text, shown to the Kimi parser

However a text is cut, the parser sends on the calls that it sends on when it is shown the text at
once, up to white space behind their arguments. What it sends on as arguments never touches the
marker at which arguments end.
-/

namespace ChatGateway.Markup.KimiStream

open Text Kimi

/-! ## The parser -/

theorem run_start : run start.progress [] = ([.text []], start.progress, []) := by
  have hnone : dropSectionMarkers [] = [] := by decide +kernel
  have hpause := Pause.content (n := 0) (s := []) rfl
  rw [splitHeld, hnone] at hpause
  exact run_of_pause hpause

theorem named_argumentPieces (n : Nat) (s : List Char) (slot : Nat) (name : String) :
    .header slot none name ∉ argumentPieces n s := by
  unfold argumentPieces
  split <;> simp

theorem named_run (p : Progress) (s : List Char) (slot : Nat) (name : String) :
    .header slot none name ∉ (run p s).1 := by
  have hargument := named_argumentPieces
  induction p, s using run_induction with
  | step h ih =>
    rw [run_of_step h, List.mem_append, not_or]
    refine ⟨?_, ih⟩
    cases h with
    | call h => simp [piecesOf, Part.pieces]
    | named h => simp [piecesOf, Part.pieces, headerPiece]
    | ended h => simpa [piecesOf, Part.pieces] using hargument _ _ slot name
  | pause h =>
    rw [run_of_pause h]
    cases h with
    | content h => simp
    | header h => simp
    | arguments h => exact hargument _ _ slot name

theorem freshIds_advance (st : State) (previous current : String) :
    Piece.freshIds (advance st previous current).1 = 0 :=
  Piece.freshIds_of_named fun slot name => named_run _ _ slot name

def parser : Parser State where
  start := start
  advance := advance
  issued _ := 0
  issues st previous current := by rw [freshIds_advance]

def reader : Reader State Progress where
  toParser := parser
  place := State.place
  run := run
  place_start := rfl
  advance_eq _ _ _ := rfl
  run_suffix := run_suffix
  run_start := congrArg Prod.snd run_start

theorem reader_run : reader.run = run := rfl

/-! ## Runs over the parts of a text -/

theorem reads_found (p : Progress) (rest : List Char) (xs : List String) :
    ∃ l, Moves p (rest ++ (String.join xs).toList) l (reader.reached p rest xs).1
        (reader.reached p rest xs).2 ∧
      piecesOf l = (reader.found p rest xs).flatten := by
  induction xs generalizing p rest with
  | nil =>
    refine ⟨[], ?_, rfl⟩
    rw [String.join_nil, String.toList_empty, List.append_nil]
    exact .nil p rest
  | cons x xs ih =>
    obtain ⟨l, hl, hpieces⟩ := run_moves p (rest ++ x.toList) (String.join xs).toList
    obtain ⟨l', hl', hpieces'⟩ :=
      ih (run p (rest ++ x.toList)).2.1 (run p (rest ++ x.toList)).2.2
    refine ⟨l ++ l', ?_, ?_⟩
    · rw [String.join_cons, String.toList_append, ← List.append_assoc]
      exact hl.trans hl'
    · rw [piecesOf_append, hpieces, hpieces', Reader.found, List.flatten_cons, reader_run]

theorem marks_found (p : Progress) (rest : List Char) (x : String) (xs : List String) :
    Mark.tidy (Piece.marks (reader.found p rest (x :: xs)).flatten) =
        Mark.tidy (marksFrom p (rest ++ (String.join (x :: xs)).toList)) ∧
      reader.reached p rest (x :: xs) = (run p (rest ++ (String.join (x :: xs)).toList)).2 := by
  induction xs generalizing p rest x with
  | nil => simp [Reader.found, Reader.reached, marksFrom, reader_run]
  | cons y ys ih =>
    obtain ⟨hmarks, hreached⟩ :=
      ih (run p (rest ++ x.toList)).2.1 (run p (rest ++ x.toList)).2.2 y
    have htext : rest ++ (String.join (x :: y :: ys)).toList =
        rest ++ x.toList ++ (String.join (y :: ys)).toList := by
      rw [String.join_cons, String.toList_append, List.append_assoc]
    obtain ⟨hboth, hrest⟩ := run_append p (rest ++ x.toList) (String.join (y :: ys)).toList
    constructor
    · rw [Reader.found, List.flatten_cons, Piece.marks_append, reader_run,
        Mark.tidy_append_left hmarks, htext, hboth]
      rfl
    · rw [Reader.reached, reader_run, hreached, htext, hrest]

theorem finds_eq (xs : List String) :
    parser.finds start "" xs = reader.found start.progress [] xs :=
  (reader.follows_start.finds_eq xs).1

theorem callsStarted_eq (st : State) : st.callsStarted = st.progress.headers := by
  obtain ⟨consumed, mode, n⟩ := st
  cases mode <;> rfl

theorem trimmed_feed (supply : Supply) (xs : List String) :
    (callsIn (fragmentsIn (parser.feed supply start "" xs))).map Received.trimmed =
      Mark.calls supply 0
        (Mark.tidy (marksFrom start.progress (String.join xs).toList)) := by
  rw [Parser.callsIn_feed, ← Mark.calls_tidy, finds_eq]
  cases xs with
  | nil => rw [String.join_nil, String.toList_empty, marksFrom, run_start]; rfl
  | cons x xs => exact congrArg _ (marks_found start.progress [] x xs).1

theorem reached_eq (xs : List String) :
    (parser.last start "" xs).progress =
      (run start.progress (String.join xs).toList).2.1 := by
  have hlast : (parser.last start "" xs).progress = (reader.reached start.progress [] xs).1 :=
    (reader.follows_start.finds_eq xs).2
  rw [hlast]
  cases xs with
  | nil => rw [String.join_nil, String.toList_empty, run_start]; rfl
  | cons x xs => exact congrArg Prod.fst (marks_found start.progress [] x xs).2

theorem numbered_feed (supply : Supply) (xs : List String) :
    Numbered 0 (fragmentsIn (parser.feed supply start "" xs)) :=
  reader.numbered_feed run_counts supply xs

/-! ## The marker at which arguments end -/

/-- No occurrence of `m` in `b ++ a ++ c` has a character in `a`. -/
def Apart (m b a c : List Char) : Prop :=
  ∀ x y, b ++ a ++ c = x ++ m ++ y →
    x.length + m.length ≤ b.length ∨ b.length + a.length ≤ x.length

theorem apart_of_clear {m u v a c : List Char} (hl : m.length ≤ v.length + 1)
    (h : Clear m (v ++ a) c) : Apart m (u ++ v) a c := by
  intro x y he
  by_cases hbefore : x.length + m.length ≤ (u ++ v).length
  · exact .inl hbefore
  by_cases hbehind : (u ++ v).length + a.length ≤ x.length
  · exact .inr hbehind
  exfalso
  simp only [List.length_append] at hbefore hbehind
  -- the occurrence would begin inside `v ++ a`
  rw [List.append_assoc, List.append_assoc, List.append_assoc] at he
  obtain ⟨x', rfl⟩ : u <+: x := by
    have hu : u <+: x ++ (m ++ y) := he ▸ List.prefix_append u _
    exact List.prefix_of_prefix_length_le hu (List.prefix_append x _) (by omega)
  rw [List.append_assoc] at he
  have hrest : (v ++ a) ++ c = x' ++ (m ++ y) := by
    rw [List.append_assoc]
    exact List.append_cancel_left he
  rw [List.length_append] at hbehind
  rcases List.append_eq_append_iff.mp hrest with ⟨w, rfl, -⟩ | ⟨w, hw, hc⟩
  · simp only [List.length_append] at hbehind
    omega
  · have hne : w ≠ [] := by
      rintro rfl
      have := congrArg List.length hw
      simp only [List.length_append, List.length_nil] at this
      omega
    exact h w hne ⟨x', hw.symm⟩ ⟨y, hc⟩

/-- The arguments among the parts stay apart from the marker at which arguments end, where `d`
stands before the parts and `t` behind them. -/
def Spared : List Char → List Part → List Char → Prop
  | _, [], _ => True
  | d, p :: l, t =>
    (∀ n a, p = .argument n a → Apart callEnd d a (spelled l ++ t)) ∧ Spared (d ++ p.text) l t

theorem spared_append (d : List Char) (l l' : List Part) (t : List Char) :
    Spared d (l ++ l') t ↔ Spared d l (spelled l' ++ t) ∧ Spared (d ++ spelled l) l' t := by
  induction l generalizing d with
  | nil => simp [Spared, spelled]
  | cons p l ih =>
    have htext : d ++ p.text ++ spelled l = d ++ spelled (p :: l) := by simp [spelled]
    rw [List.cons_append, Spared, Spared, ih, spelled_append, List.append_assoc, htext, and_assoc]

/-- Inside of arguments no end of theirs begins between their beginning and the rest. -/
def Guarded (p : Progress) (d s : List Char) : Prop :=
  ∀ started, p.mode = .arguments started →
    ∃ u v, d = u ++ v ∧ callEnd.length ≤ v.length + 1 ∧ Clear callEnd v s

theorem clear_of_blank {m s : List Char} (hm : m.head? = some '<') (hs : s.all isBlank = true)
    (t : List Char) : Clear m s t := by
  refine clear_of_free hm (fun h => ?_) t
  exact absurd (List.all_eq_true.mp hs '<' h) (by decide)

theorem Step.spared {p q : Progress} {d s t : List Char} {l : List Part} (h : Step p s l q t)
    (hg : Guarded p d s) : Spared d l t ∧ Guarded q (d ++ spelled l) t := by
  cases h with
  | call h => exact ⟨by simp [Spared], fun started h => absurd h (by simp)⟩
  | @named n s b a h =>
    refine ⟨by simp [Spared], fun started _ => ⟨d ++ b, argumentBegin, ?_, by decide, ?_⟩⟩
    · simp [spelled, Part.text]
    · exact angled_callEnd.clear_other (by simp) (by simp) (by decide) t
  | @ended n started s b a h =>
    refine ⟨?_, fun started h => absurd h (by simp)⟩
    obtain ⟨u, v, rfl, hl, hv⟩ := hg started rfl
    obtain ⟨htext, hb⟩ := (cut?_eq_some_iff (by decide)).mp h
    have hlead : Clear callEnd (leading started s) (argumentText started s) :=
      clear_of_blank rfl (leading_blank started s) _
    have hparts : argumentText started s = trimEnd b ++ (trailing b ++ (callEnd ++ t)) := by
      rw [← List.append_assoc, trimEnd_append_trailing, htext, List.append_assoc]
    rw [← trimEnd_append_trailing b, clear_append] at hb
    rw [← leading_append started s, hparts] at hv
    rw [hparts] at hlead
    have hclear : Clear callEnd (v ++ leading started s ++ trimEnd b)
        (trailing b ++ (callEnd ++ t)) := by
      rw [clear_append, clear_append]
      exact ⟨⟨hv, hlead⟩, hb.1⟩
    have hlong : callEnd.length ≤ (v ++ leading started s).length + 1 := by
      rw [List.length_append]
      omega
    have hapart := apart_of_clear (u := u) hlong hclear
    simpa [Spared, spelled, Part.text, List.append_assoc] using hapart

theorem Move.spared {p q : Progress} {d s t : List Char} {l : List Part} (h : Move p s l q t)
    (hg : Guarded p d s) : Spared d l t ∧ Guarded q (d ++ spelled l) t := by
  cases h with
  | step h => exact h.spared hg
  | content hn hs => exact ⟨by simp [Spared], fun started h => absurd h (by simp)⟩
  | @blanks n s t h =>
    refine ⟨by simp [Spared], fun started hmode => ?_⟩
    obtain ⟨u, v, rfl, hl, hv⟩ := hg false rfl
    refine ⟨u, v ++ s, by simp [spelled, Part.text], ?_, ?_⟩
    · rw [List.length_append]
      omega
    · exact clear_append.mpr ⟨hv, clear_of_blank rfl h t⟩
  | @argument n started s t hb hne hn hs =>
    obtain ⟨u, v, rfl, hl, hv⟩ := hg started rfl
    have hclear : Clear callEnd (v ++ s) t := clear_append.mpr ⟨hv, (hs.whole callEnd (by simp)).clear hn⟩
    constructor
    · have hapart := apart_of_clear (u := u) hl hclear
      simpa [Spared, spelled] using hapart
    · refine fun _ _ => ⟨u, v ++ s, by simp [spelled, Part.text], ?_, hclear⟩
      rw [List.length_append]
      omega

theorem Moves.spared {p q : Progress} {d s t : List Char} {l : List Part} (h : Moves p s l q t)
    (hg : Guarded p d s) : Spared d l t := by
  induction h generalizing d with
  | nil p s => trivial
  | cons h hm ih =>
    obtain ⟨hfirst, hnext⟩ := h.spared hg
    refine (spared_append _ _ _ _).mpr ⟨?_, ih hnext⟩
    rwa [hm.spells]

/-! ## The calls -/

/-- **Calls in a growing text.** However a text is cut, the calls that are sent on, with what they
are numbered and named and their arguments up to white space behind, are those of the text shown at
once, and as many calls have begun in the end. Each further fragment has the number of the latest
header. The text falls into parts of which the deltas tell, and no character of a marker that ends
arguments stands in a part that is sent on as arguments. -/
theorem growing_calls (supply : Supply) (xs : List String) :
    (callsIn (fragmentsIn (parser.feed supply start "" xs))).map Received.trimmed =
        (callsIn (fragmentsIn (parser.feed supply start "" [String.join xs]))).map
          Received.trimmed ∧
      (parser.last start "" xs).callsStarted =
        (parser.last start "" [String.join xs]).callsStarted ∧
      Numbered 0 (fragmentsIn (parser.feed supply start "" xs)) ∧
      ∃ l rest, spelled l ++ rest = (String.join xs).toList ∧
        contentIn (parser.feed supply start "" xs) = Piece.content (piecesOf l) ∧
        fragmentsIn (parser.feed supply start "" xs) = Piece.fragments supply 0 (piecesOf l) ∧
        ∀ l₁ n a l₂, l = l₁ ++ .argument n a :: l₂ →
          Apart callEnd (spelled l₁) a (spelled l₂ ++ rest) := by
  refine ⟨?_, ?_, numbered_feed supply xs, ?_⟩
  · rw [trimmed_feed, trimmed_feed, join_singleton]
  · rw [callsStarted_eq, callsStarted_eq, Progress.headers, Progress.headers, reached_eq,
      reached_eq, join_singleton]
  · obtain ⟨l, hl, hpieces⟩ := reads_found start.progress [] xs
    have hfinds := finds_eq xs
    refine ⟨l, _, hl.spells, ?_, ?_, ?_⟩
    · rw [Parser.contentIn_feed, hfinds, hpieces]
    · rw [Parser.fragmentsIn_feed, hfinds, hpieces]
      rfl
    · rintro l₁ n a l₂ rfl
      have hguarded : Guarded start.progress [] ([] ++ (String.join xs).toList) :=
        fun started h => absurd h (by simp [start])
      have hspared := hl.spared hguarded
      rw [spared_append] at hspared
      exact hspared.2.1 n a rfl

end ChatGateway.Markup.KimiStream
