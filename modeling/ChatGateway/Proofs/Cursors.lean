import ChatGateway.Proofs.Pacing
import ChatGateway.Proofs.Rounds

/-!
# The cursor of a parser

Both parsers of growing texts keep a cursor from one text to the next. Main statement: as long as
the text only grows, the loop of a parser ends on each text, and its cursor only moves forward, from
one boundary between characters to another.
-/

namespace ChatGateway.Markup

open Text

namespace Dialect

def place (d : Dialect) : d.State → d.Progress × Nat := d.reader.place

def round : (d : Dialect) → List Char → d.Progress → Nat → Option (Round d.Progress)
  | kimi => KimiStream.round
  | qwen => QwenStream.round

def entry (d : Dialect) : d.State → String → String → d.Progress × Nat := d.reader.entry

/-- A parser that has been shown texts of which each begins with the one before, the last of them
`seen`. Whatever it was told to have been shown before is free. -/
inductive Fed (d : Dialect) : d.State → String → Prop where
  | start : Fed d d.parser.start ""
  | grown {st : d.State} {seen : String} (h : Fed d st seen) (previous x : String) :
    Fed d (d.parser.advance st previous (seen ++ x)).2 (seen ++ x)

theorem rounds_run (d : Dialect) (done : List Char) (p : d.Progress) (s : List Char) :
    ∃ n cs, Rounds d.round (done ++ s) (p, byteSize done) n cs (d.reader.run p s).1
        ((d.reader.run p s).2.1, byteSize (done ++ s) - byteSize (d.reader.run p s).2.2) ∧
      n ≤ 2 * s.length + 2 ∧ Along (done ++ s) (byteSize done :: cs) := by
  cases d with
  | kimi =>
    obtain ⟨n, cs, hn, hle, halong⟩ := exists_rounds KimiStream.round_mirrors done p s
    exact ⟨n, cs, hn, by omega, halong⟩
  | qwen =>
    obtain ⟨n, cs, hn, hle, halong⟩ := exists_rounds QwenStream.round_mirrors done p s
    have hrank := QwenStream.Mode.rank_le p.mode
    exact ⟨n, cs, hn, by omega, halong⟩

/-! ## A text that only grows -/

theorem Fed.follows {d : Dialect} {st : d.State} {seen : String} (h : Fed d st seen) :
    ∃ rest, d.reader.Follows st seen rest := by
  induction h with
  | start => exact ⟨[], d.reader.follows_start⟩
  | grown h previous x ih =>
    obtain ⟨rest, hrest⟩ := ih
    exact hrest.grown previous x

/-- The loop of a parser ends on a text, after at most two rounds for each byte behind its cursor
and two more. Of the offsets to which the cursor is moved none is in front of the one before, none
behind the end of the text and none within a character. -/
structure Ends (d : Dialect) (text : String) (place : d.Progress × Nat) (n : Nat) (cs : List Nat)
    (ps : List Piece) (place' : d.Progress × Nat) : Prop where
  rounds : Rounds d.round text.toList place n cs ps place'
  few : n ≤ 2 * (text.utf8ByteSize - place.2) + 2
  forward : (place.2 :: cs).IsChain (· ≤ ·)
  inside : ∀ c ∈ place.2 :: cs, c ≤ text.utf8ByteSize
  between : ∀ c ∈ place.2 :: cs, String.Pos.Raw.IsValid text ⟨c⟩

theorem exists_ends (d : Dialect) (p : d.Progress) {text : String} {done s : List Char}
    (h : text.toList = done ++ s) : ∃ n cs, Ends d text (p, byteSize done) n cs (d.reader.run p s).1
      ((d.reader.run p s).2.1, byteSize text.toList - byteSize (d.reader.run p s).2.2) := by
  obtain ⟨n, cs, hrounds, hle, hforward, hboundary⟩ := d.rounds_run done p s
  rw [← h] at hrounds hboundary
  have hleft : s.length ≤ text.utf8ByteSize - byteSize done := by
    have hsize := congrArg byteSize h
    rw [byteSize_toList, byteSize_append] at hsize
    have hlength := length_le_byteSize s
    omega
  exact ⟨n, cs, {
    rounds := hrounds
    few := by simp only; omega
    forward := hforward
    inside := fun c hc => byteSize_toList text ▸ (hboundary c hc).le
    between := fun c hc => boundary_iff_isValid.mp (hboundary c hc) }⟩

/-- **The cursor of a parser.** Whatever texts a parser has been shown, if each begins with the one
before, and whatever text it is shown then that goes on behind the last: its loop ends and has found
what the parser finds, so that no cut within it fails. The cursor never moves backwards, never
passes the end of the text and always stands between two characters. The loop begins where the
cursor stood, unless the parser is told that it has been shown nothing yet. -/
theorem loop_ends (d : Dialect) {st : d.State} {seen : String} (h : Fed d st seen)
    (previous x : String) :
    (∃ n cs, Ends d (seen ++ x) (d.entry st previous (seen ++ x)) n cs
      (d.parser.advance st previous (seen ++ x)).1
      (d.place (d.parser.advance st previous (seen ++ x)).2)) ∧
    ((previous = "" → seen = "") →
      d.entry st previous (seen ++ x) = d.place st ∧
        (d.place st).2 ≤ (d.place (d.parser.advance st previous (seen ++ x)).2).2) := by
  obtain ⟨rest, hrest⟩ := h.follows
  constructor
  · obtain ⟨p, done, s, htext, hentry, -⟩ := hrest.exists_entry previous x
    obtain ⟨hpieces, hplace⟩ := d.reader.advance_behind htext hentry
    rw [entry, parser, place, hentry, hpieces, hplace]
    exact d.exists_ends p htext
  · intro hp
    have hsame : d.entry st previous (seen ++ x) = d.place st := hrest.entry_of_told hp x
    exact ⟨hsame, hsame ▸ hrest.place_le previous x⟩

theorem loop_ends_accents :
    ∃ st, Fed qwen st "é<tool_" ∧ qwen.place st = (⟨.content, 0, 0, false⟩, 2) ∧
      ∃ n cs, Ends qwen "é<tool_call>ü" (⟨.content, 0, 0, false⟩, 2) n cs [.text []]
        (⟨.wrapper, 0, 0, true⟩, 13) := by
  let st := (qwen.parser.advance qwen.parser.start "" "é<tool_").2
  have hfed : Fed qwen st "é<tool_" := Fed.grown .start "" "é<tool_"
  have hplace : qwen.place st = (⟨.content, 0, 0, false⟩, 2) := by decide +kernel
  have hpieces : (qwen.parser.advance st "é<tool_" ("é<tool_" ++ "call>ü")).1 = [.text []] := by
    decide +kernel
  have hend : qwen.place (qwen.parser.advance st "é<tool_" ("é<tool_" ++ "call>ü")).2 =
      (⟨.wrapper, 0, 0, true⟩, 13) := by decide +kernel
  obtain ⟨hends, hentry⟩ := loop_ends qwen hfed "é<tool_" "call>ü"
  rw [(hentry (by decide)).1, hplace, hpieces, hend] at hends
  exact ⟨st, hfed, hplace, hends⟩

end Dialect

end ChatGateway.Markup
