import ChatGateway.Proofs.Characters
import ChatGateway.Proofs.Replay

/-!
# Calls that are read back

A text is parsed in pieces of some size, and what the parser sends on is replayed. Which calls a
client reads depends on the size only where a delta brings content together with further arguments of
an earlier call; single characters do not lead to one, nor does the whole text at once.
-/

namespace ChatGateway.Answer.Stream

open Markup Messages

/-! ## Deltas that are not mixed -/

theorem head_fragments (supply : Supply) {ps : List Piece} {b : Bool} (h : Paced false ps b)
    (n : Nat) : (Piece.fragments supply n ps).head?.all (·.name?.isSome) = true := by
  generalize hb : false = b' at h
  induction h with
  | nil _ => rfl
  | text s _ ih => exact ih rfl
  | header slot id? name _ _ => cases id? <;> rfl
  | argument slot s _ _ => exact absurd hb (by simp)

theorem unmixed_of_separate (supply : Supply) {ps : List Piece} (h : Separate ps) (n : Nat) :
    Unmixed (Piece.delta supply n ps) := by
  rw [Unmixed, contentIn_delta, fragmentsIn_delta]
  obtain hc | ⟨b, hpaced⟩ := h
  · exact .inl hc
  · exact .inr (head_fragments supply hpaced n)

theorem unmixed_feed {σ : Type} (a : Parser σ) (supply : Supply) {st : σ} {seen : String}
    {xs : List String} (h : ∀ ps ∈ a.finds st seen xs, Separate ps) :
    ∀ e ∈ a.feed supply st seen xs, Unmixed e := by
  induction xs generalizing st seen with
  | nil => simp [Parser.feed]
  | cons x xs ih =>
    obtain ⟨hx, hxs⟩ := List.forall_mem_cons.mp h
    exact List.forall_mem_cons.mpr ⟨unmixed_of_separate supply hx _, ih hxs⟩

/-! ## Pieces of one size -/

def slices (n : Nat) : List Char → List String
  | [] => []
  | c :: s => String.ofList ((c :: s).take n) :: slices n (s.drop (n - 1))
termination_by s => s.length
decreasing_by exact Nat.lt_succ_of_le ((List.drop_sublist _ _).length_le)

theorem join_slices {n : Nat} (hn : 0 < n) (s : List Char) :
    String.join (slices n s) = String.ofList s := by
  fun_induction slices n s with
  | case1 => rfl
  | case2 c s ih =>
    have hdrop : s.drop (n - 1) = (c :: s).drop n := by
      obtain ⟨k, rfl⟩ := Nat.exists_eq_succ_of_ne_zero (Nat.ne_of_gt hn)
      rfl
    rw [String.join_cons, ih, hdrop, ← String.ofList_append, List.take_append_drop]

theorem slices_one (s : List Char) : ∀ x ∈ slices 1 s, ∃ ch, x.toList = [ch] := by
  fun_induction slices 1 s with
  | case1 => simp
  | case2 c s ih => exact List.forall_mem_cons.mpr ⟨⟨c, by simp⟩, ih⟩

theorem slices_whole {n : Nat} {s : List Char} (hs : s ≠ []) (hn : s.length ≤ n) :
    slices n s = [String.ofList s] := by
  obtain ⟨c, s, rfl⟩ := List.exists_cons_of_ne_nil hs
  have hrest : s.drop (n - 1) = [] := by
    rw [List.length_cons] at hn
    exact List.drop_eq_nil_iff.mpr (by omega)
  rw [slices, List.take_of_length_le hn, hrest, slices]

/-- The calls that a client reads where a text is parsed in pieces of `n` characters and what the
parser sends on is replayed. The parser and the stream draw their ids from one supply in turn. -/
def readBack (d : Dialect) (c : Setting) (n : Nat) (t : String) : List (String × String) :=
  callsOf (blocksOf (run { c with supply := c.supply.odds }
    (replay (d.deltas c.supply.evens (slices n t.toList)) ++ [.finish]) initial).1)

/-- The content that is found opens no markup, and no delta is mixed unless the pieces are single
characters or the whole text. -/
structure Clean (d : Dialect) (supply : Supply) (n : Nat) (t : String) : Prop where
  markless : Markless (contentIn (d.deltas supply (slices n t.toList)))
  unmixed : 1 < n → n < t.toList.length → ∀ e ∈ d.deltas supply (slices n t.toList), Unmixed e

theorem Clean.all_unmixed {d : Dialect} {supply : Supply} {n : Nat} {t : String}
    (h : Clean d supply n t) (hn : 0 < n) :
    ∀ e ∈ d.deltas supply (slices n t.toList), Unmixed e := by
  by_cases hone : n = 1
  · subst hone
    exact unmixed_feed d.parser supply (d.separate_single (slices_one t.toList))
  by_cases hwhole : t.toList.length ≤ n
  · by_cases ht : t.toList = []
    · rw [ht, slices]
      intro e he
      exact absurd he List.not_mem_nil
    · rw [slices_whole ht hwhole]
      exact unmixed_feed d.parser supply (d.separate_whole _)
  · exact h.unmixed (by omega) (by omega)

theorem readBack_eq {d : Dialect} {c : Setting} {n : Nat} {t : String}
    (h : Clean d c.supply.evens n t) (hn : 0 < n) : readBack d c n t =
      (callsIn (fragmentsIn (d.deltas c.supply.evens (slices n t.toList)))).filterMap
        (input? c.tools) :=
  callsOf_replay d _ c.supply.evens h.markless (h.all_unmixed hn)

/-- **Inputs of replayed calls.** A client reads the same names and inputs whatever the size of the
pieces in which a text was parsed, where neither size leads to a delta that brings content together
with further arguments of an earlier call, and where the content opens no markup. Single characters
and the whole text lead to no such delta. The ids that are given out do not matter. -/
theorem readBack_agree (d : Dialect) {c c' : Setting} (hc : c.tools = c'.tools) (t : String)
    {p q : Nat} (hp : 0 < p) (hq : 0 < q) (hcp : Clean d c.supply.evens p t)
    (hcq : Clean d c'.supply.evens q t) : readBack d c p t = readBack d c' q t := by
  have hjoin : String.join (slices p t.toList) = String.join (slices q t.toList) := by
    rw [join_slices hp, join_slices hq]
  have hgist : ∀ rs : List Received, (rs.map (·.trimmed.anonymous)).filterMap (input? c.tools) =
      rs.filterMap (input? c.tools) := by
    intro rs
    rw [List.filterMap_map]
    exact congrArg (rs.filterMap ·) (funext (input?_gist c.tools))
  rw [readBack_eq hcp hp, readBack_eq hcq hq, ← hc, ← hgist,
    d.anonymous_deltas c.supply.evens c'.supply.evens hjoin, hgist]

def plainCall : String := "<tool_call><function=f></function></tool_call>"

def counting : Setting := ⟨"m", "c", [], fun n => "call_" ++ toString n⟩

theorem readBack_agree_cut :
    readBack .qwen counting 37 ("so " ++ plainCall ++ " then") =
      readBack .qwen counting 100 ("so " ++ plainCall ++ " then") := by
  have hcut : Clean .qwen counting.supply.evens 37 ("so " ++ plainCall ++ " then") :=
    ⟨by decide +kernel, fun _ _ => by decide +kernel⟩
  have hwhole : Clean .qwen counting.supply.evens 100 ("so " ++ plainCall ++ " then") :=
    ⟨by decide +kernel, fun _ h => absurd h (by decide +kernel)⟩
  exact readBack_agree .qwen rfl _ (by decide) (by decide) hcut hwhole

/-- Three calls of `f`. The texts around them hold no marker, and make up a call of `g` if they are
found at once. -/
def scattered : String :=
  "<tool_" ++ plainCall ++ "call><func" ++ plainCall ++ "tion=g></tool_" ++ plainCall ++ "call>"

/-- A piece of 30 characters ends inside the arguments, and the next one goes on behind them. And
texts that open no markup open one if they are found at once. -/
theorem readBack_differ :
    readBack .qwen counting 100 (plainCall ++ " x") = [("f", "\x7b\x7d")] ∧
      readBack .qwen counting 30 (plainCall ++ " x") =
        [("f", "\x7b\"error\":\"Failed to decode arguments\",\"raw\":\"\x7b\"\x7d")] ∧
      (readBack .qwen counting 115 scattered).map (·.1) = ["f", "f", "f"] ∧
      (readBack .qwen counting 200 scattered).map (·.1) = ["g", "f", "f", "f"] := by
  decide +kernel

end ChatGateway.Answer.Stream
