import ChatGateway.Proofs.QwenCuts

/-!
# A growing text, shown to the Qwen parser

However a text is cut, the calls that the parser sends on are those of the text shown at once, and so
is the content where the text is `Orderly`.
-/

namespace ChatGateway.Markup.QwenStream

open Text Qwen

/-! ## The parser -/

theorem run_fresh : run fresh [] = ([.text []], fresh, []) := run_of_pause (.content rfl)

def parser : Parser State where
  start := start
  advance := advance
  issued := State.issued
  issues _ _ _ := rfl

def reader : Reader State Progress where
  toParser := parser
  place := State.place
  run := run
  place_start := rfl
  advance_eq _ _ _ := rfl
  run_suffix := run_suffix
  run_start := congrArg Prod.snd run_fresh

theorem reader_run : reader.run = run := rfl

theorem finds_eq (xs : List String) : parser.finds start "" xs = reader.found fresh [] xs :=
  (reader.follows_start.finds_eq xs).1

/-! ## Runs over the parts of a text -/

theorem marks_found (p : Progress) (rest : List Char) (x : String) (xs : List String) :
    Piece.marks (reader.found p rest (x :: xs)).flatten =
      marksFrom p (rest ++ (String.join (x :: xs)).toList) := by
  induction xs generalizing p rest x with
  | nil => simp [Reader.found, marksFrom, reader_run]
  | cons y ys ih =>
    rw [String.join_cons, String.toList_append, ← List.append_assoc, marks_append, Reader.found,
      List.flatten_cons, Piece.marks_append, reader_run, ih]
    rfl

theorem marks_found_fresh (xs : List String) :
    Piece.marks (reader.found fresh [] xs).flatten = marksFrom fresh (String.join xs).toList := by
  cases xs with
  | nil => rw [String.join_nil, marksFrom, String.toList_empty, run_fresh]; rfl
  | cons x xs => exact marks_found fresh [] x xs

theorem content_found {p : Progress} {rest : List Char} (x : String) (xs : List String)
    (h : Orderly p (rest ++ (String.join (x :: xs)).toList)) :
    Piece.content (reader.found p rest (x :: xs)).flatten =
      Piece.content (run p (rest ++ (String.join (x :: xs)).toList)).1 := by
  induction xs generalizing p rest x with
  | nil => simp [Reader.found, reader_run]
  | cons y ys ih =>
    rw [String.join_cons, String.toList_append, ← List.append_assoc] at h ⊢
    rw [Reader.found, List.flatten_cons, Piece.content_append, reader_run, ih y (orderly_rest h),
      (run_append h).1.content, Piece.content_append]

theorem content_found_fresh {xs : List String} (h : Orderly fresh (String.join xs).toList) :
    Piece.content (reader.found fresh [] xs).flatten =
      Piece.content (run fresh (String.join xs).toList).1 := by
  cases xs with
  | nil => rw [String.join_nil, String.toList_empty, run_fresh]; rfl
  | cons x xs => exact content_found x xs h

theorem callsIn_shown (supply : Supply) (xs : List String) :
    callsIn (fragmentsIn (parser.feed supply start "" xs)) =
      Mark.calls supply 0 (marksFrom fresh (String.join xs).toList) := by
  rw [Parser.callsIn_feed, finds_eq, marks_found_fresh]
  rfl

theorem contentIn_shown (supply : Supply) {xs : List String}
    (h : Orderly fresh (String.join xs).toList) :
    contentIn (parser.feed supply start "" xs) =
      Piece.content (run fresh (String.join xs).toList).1 := by
  rw [Parser.contentIn_feed, finds_eq, content_found_fresh h]

theorem numbered_feed (supply : Supply) (xs : List String) :
    Numbered 0 (fragmentsIn (parser.feed supply start "" xs)) :=
  reader.numbered_feed run_counts supply xs

/-- **Calls in a growing text.** However a text is cut, a parser sends on the calls that it sends on
when it is shown the text at once. They are numbered from 0 on, and each further fragment has the
number of the latest header. -/
theorem snapshots_calls (supply : Supply) (xs : List String) :
    callsIn (fragmentsIn (parser.feed supply start "" xs)) =
        callsIn (fragmentsIn (parser.feed supply start "" [String.join xs])) ∧
      Numbered 0 (fragmentsIn (parser.feed supply start "" xs)) ∧
      (callsIn (fragmentsIn (parser.feed supply start "" xs))).map (·.index) =
        List.range (callsIn (fragmentsIn (parser.feed supply start "" xs))).length := by
  refine ⟨?_, numbered_feed supply xs, ?_⟩
  · rw [callsIn_shown, callsIn_shown, join_singleton]
  · rw [index_callsIn (numbered_feed supply xs), List.range_eq_range']

/-- **Content in a growing text.** However a text is cut in which no wrapper is overtaken, a parser
sends on the content that it sends on when it is shown the text at once. -/
theorem snapshots_content (supply : Supply) (xs : List String)
    (h : Orderly fresh (String.join xs).toList) :
    contentIn (parser.feed supply start "" xs) =
      contentIn (parser.feed supply start "" [String.join xs]) := by
  have hone : Orderly fresh (String.join [String.join xs]).toList := by rwa [join_singleton]
  rw [contentIn_shown supply h, contentIn_shown supply hone, join_singleton]

theorem orderly_of_wrapperEnd {s b a : List Char} (h : cut? wrapperEnd s = some (b, a))
    (ha : cut? functionBegin a = none) (p : Progress) : Orderly p s := by
  rintro q t hv - ⟨b', a', ht, -, hi⟩
  obtain ⟨d, hd⟩ := hv.suffix Step.suffix
  rw [ht, ← List.append_assoc, ← List.append_assoc] at hd
  have hsuffix := suffix_of_first (by decide) h hd.symm
  exact cut?_functionBegin_eq_none.mp ha (hi.trans hsuffix.isInfix)

theorem snapshots_content_wrapped :
    let xs := ["so <tool", "_call><function=f", ">\n</function>\n</tool_call", "> then"]
    contentIn (parser.feed (fun _ => "call") start "" xs) =
      contentIn (parser.feed (fun _ => "call") start "" [String.join xs]) := by
  intro xs
  refine snapshots_content _ xs ?_
  have hend : cut? wrapperEnd (String.join xs).toList =
      some ("so <tool_call><function=f>\n</function>\n".toList, " then".toList) := by
    decide +kernel
  exact orderly_of_wrapperEnd hend (by decide +kernel) fresh

/-- The words between an empty wrapper and a wrapper with a function are lost if both are shown at
once. -/
theorem snapshots_content_overtaken :
    let xs := ["<tool_call></tool_call> then ", "<tool_call><function=a></function></tool_call>"]
    contentIn (parser.feed (fun _ => "call") start "" xs) = " then ".toList ∧
      contentIn (parser.feed (fun _ => "call") start "" [String.join xs]) = [] := by
  decide +kernel

end ChatGateway.Markup.QwenStream
