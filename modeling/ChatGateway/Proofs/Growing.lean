import ChatGateway.Proofs.Deltas

/-!
# A growing text, shown to a parser

A parser is shown a text each time that it has grown by a part. `finds` is what it finds each time,
`feed` the deltas in which it sends that on, and `last` the state in which it is left. A reader is a
parser that runs from where it stopped; as long as the text only grows, it does what its run does on
what was left and what has been added.
-/

namespace ChatGateway.Markup

open Chat Text

theorem Piece.freshIds_of_named {ps : List Piece}
    (h : ∀ slot name, .header slot none name ∉ ps) : Piece.freshIds ps = 0 := by
  induction ps with
  | nil => rfl
  | cons p ps ih =>
    have hps := ih fun slot name hm => h slot name (List.mem_cons_of_mem p hm)
    cases p with
    | text s => exact hps
    | argument slot s => exact hps
    | header slot id? name =>
      cases id? with
      | none => exact absurd List.mem_cons_self (h slot name)
      | some id => exact hps

/-- A parser that is shown a text after an earlier one. It gives out an id for each header that has
none. -/
structure Parser (σ : Type) where
  start : σ
  advance : σ → String → String → List Piece × σ
  issued : σ → Nat
  issues : ∀ st previous current, issued (advance st previous current).2 =
    issued st + Piece.freshIds (advance st previous current).1

namespace Parser

variable {σ : Type} (a : Parser σ)

def finds : σ → String → List String → List (List Piece)
  | _, _, [] => []
  | st, seen, x :: xs =>
    (a.advance st seen (seen ++ x)).1 :: finds (a.advance st seen (seen ++ x)).2 (seen ++ x) xs

def last : σ → String → List String → σ
  | st, _, [] => st
  | st, seen, x :: xs => last (a.advance st seen (seen ++ x)).2 (seen ++ x) xs

def feed (supply : Supply) : σ → String → List String → List (Option ChunkDelta)
  | _, _, [] => []
  | st, seen, x :: xs =>
    Piece.delta supply (a.issued st) (a.advance st seen (seen ++ x)).1 ::
      feed supply (a.advance st seen (seen ++ x)).2 (seen ++ x) xs

theorem contentIn_feed (supply : Supply) (st : σ) (seen : String) (xs : List String) :
    contentIn (a.feed supply st seen xs) = Piece.content (a.finds st seen xs).flatten := by
  induction xs generalizing st seen with
  | nil => rfl
  | cons x xs ih =>
    rw [feed, finds, contentIn_cons, contentIn_delta, ih, List.flatten_cons, Piece.content_append]

theorem fragmentsIn_feed (supply : Supply) (st : σ) (seen : String) (xs : List String) :
    fragmentsIn (a.feed supply st seen xs) =
      Piece.fragments supply (a.issued st) (a.finds st seen xs).flatten := by
  induction xs generalizing st seen with
  | nil => rfl
  | cons x xs ih =>
    rw [feed, finds, fragmentsIn_cons, fragmentsIn_delta, ih, List.flatten_cons,
      Piece.fragments_append, a.issues]

theorem callsIn_feed (supply : Supply) (st : σ) (seen : String) (xs : List String) :
    callsIn (fragmentsIn (a.feed supply st seen xs)) =
      Mark.calls supply (a.issued st) (Piece.marks (a.finds st seen xs).flatten) := by
  rw [fragmentsIn_feed, callsIn_fragments]

end Parser

/-! ## Readers -/

/-- A parser that keeps the place where its last run stopped and how much of the text it has dealt
with. -/
structure Reader (σ π : Type) extends Parser σ where
  place : σ → π × Nat
  run : π → List Char → List Piece × π × List Char
  place_start : (place start).2 = 0
  advance_eq : ∀ st previous current,
    ((advance st previous current).1, place (advance st previous current).2) =
      proceed run (place start).1 (place st) previous current
  run_suffix : ∀ p s, (run p s).2.2 <:+ s
  run_start : (run (place start).1 []).2 = ((place start).1, [])

namespace Reader

variable {σ π : Type} (a : Reader σ π)

/-- Where the run begins when a text is shown after an earlier one. It begins anew after the empty
text, and where the text has become shorter than what has been dealt with. -/
def entry (st : σ) (previous current : String) : π × Nat :=
  if previous.isEmpty || byteSize current.toList < (a.place st).2 then a.place a.start
  else a.place st

theorem advance_entered (st : σ) (previous current : String) {p : π} {c : Nat}
    (h : a.entry st previous current = (p, c)) :
    (a.advance st previous current).1 = (a.run p (dropBytes c current.toList)).1 ∧
      a.place (a.advance st previous current).2 =
        ((a.run p (dropBytes c current.toList)).2.1,
          byteSize current.toList - byteSize (a.run p (dropBytes c current.toList)).2.2) := by
  have hfirst : ((a.place a.start).1, 0) = a.place a.start := Prod.ext rfl a.place_start.symm
  have hadvance := a.advance_eq st previous current
  rw [proceed, hfirst] at hadvance
  rw [entry] at h
  rw [h] at hadvance
  exact Prod.mk.inj hadvance

/-- The state of a reader that has dealt with all that it has seen but the rest. -/
structure Follows (st : σ) (seen : String) (rest : List Char) : Prop where
  consumed : ∃ done, seen.toList = done ++ rest ∧ (a.place st).2 = byteSize done
  unmoved : seen = "" → a.place st = a.place a.start

theorem follows_start : a.Follows a.start "" [] where
  consumed := ⟨[], rfl, a.place_start⟩
  unmoved _ := rfl

theorem advance_behind {st : σ} {previous current : String} {p : π} {done s : List Char}
    (htext : current.toList = done ++ s) (h : a.entry st previous current = (p, byteSize done)) :
    (a.advance st previous current).1 = (a.run p s).1 ∧
      a.place (a.advance st previous current).2 =
        ((a.run p s).2.1, byteSize current.toList - byteSize (a.run p s).2.2) := by
  have hadvance := a.advance_entered st previous current h
  rwa [htext, dropBytes_append, ← htext] at hadvance

theorem follows_advance {st : σ} {previous current : String} {p : π} {done s : List Char}
    (htext : current.toList = done ++ s) (h : a.entry st previous current = (p, byteSize done))
    (hp : current = "" → p = (a.place a.start).1) :
    a.Follows (a.advance st previous current).2 current (a.run p s).2.2 := by
  obtain ⟨-, hplace⟩ := a.advance_behind htext h
  constructor
  · obtain ⟨front, hfront⟩ := a.run_suffix p s
    have hsplit : current.toList = done ++ front ++ (a.run p s).2.2 := by
      rw [List.append_assoc, hfront, htext]
    refine ⟨done ++ front, hsplit, ?_⟩
    rw [hplace, hsplit]
    simp only [byteSize_append, Nat.add_sub_cancel]
  · rintro rfl
    obtain ⟨rfl, rfl⟩ := List.append_eq_nil_iff.mp htext.symm
    rw [hplace, hp rfl, a.run_start]
    exact Prod.ext rfl a.place_start.symm

section
variable {a} {st : σ} {seen : String} {rest : List Char} (h : a.Follows st seen rest)
include h

/-- Only a reader that is told of the empty text starts anew. -/
theorem Follows.entry_eq (previous x : String) : a.entry st previous (seen ++ x) =
    if previous = "" then a.place a.start else a.place st := by
  obtain ⟨done, hseen, hsize⟩ := h.consumed
  have hlong : ¬ byteSize (seen ++ x).toList < (a.place st).2 := by
    rw [String.toList_append, byteSize_append, hseen, byteSize_append, hsize]
    omega
  rw [entry]
  by_cases hp : previous = ""
  · rw [if_pos hp, if_pos (by simp [hp])]
  · rw [if_neg hp, if_neg (by simpa [hp] using hlong)]

theorem Follows.entry_of_told {previous : String} (hp : previous = "" → seen = "") (x : String) :
    a.entry st previous (seen ++ x) = a.place st := by
  rw [h.entry_eq]
  split
  · next he => exact (h.unmoved (hp he)).symm
  · rfl

theorem Follows.exists_entry (previous x : String) : ∃ p done s,
    (seen ++ x).toList = done ++ s ∧ a.entry st previous (seen ++ x) = (p, byteSize done) ∧
      (seen ++ x = "" → p = (a.place a.start).1) := by
  rw [h.entry_eq]
  split
  · exact ⟨_, [], _, rfl, Prod.ext rfl a.place_start, fun _ => rfl⟩
  · obtain ⟨done, hseen, hsize⟩ := h.consumed
    refine ⟨_, done, rest ++ x.toList, ?_, Prod.ext rfl hsize, fun he => ?_⟩
    · rw [String.toList_append, hseen, List.append_assoc]
    · rw [h.unmoved (String.append_eq_empty_iff.mp he).1]

theorem Follows.grown (previous x : String) :
    ∃ rest', a.Follows (a.advance st previous (seen ++ x)).2 (seen ++ x) rest' := by
  obtain ⟨p, done, s, htext, hentry, hp⟩ := h.exists_entry previous x
  exact ⟨_, a.follows_advance htext hentry hp⟩

theorem Follows.place_le (previous x : String) : (a.entry st previous (seen ++ x)).2 ≤
    (a.place (a.advance st previous (seen ++ x)).2).2 := by
  obtain ⟨p, done, s, htext, hentry, -⟩ := h.exists_entry previous x
  obtain ⟨front, hfront⟩ := a.run_suffix p s
  have hsize : byteSize s = byteSize front + byteSize (a.run p s).2.2 := by
    rw [← byteSize_append, hfront]
  rw [hentry, (a.advance_behind htext hentry).2, htext]
  simp only [byteSize_append]
  omega

/-- A reader that is told what it has seen goes on where it stopped. -/
theorem Follows.advance (x : String) :
    (a.advance st seen (seen ++ x)).1 = (a.run (a.place st).1 (rest ++ x.toList)).1 ∧
      (a.place (a.advance st seen (seen ++ x)).2).1 =
        (a.run (a.place st).1 (rest ++ x.toList)).2.1 ∧
      a.Follows (a.advance st seen (seen ++ x)).2 (seen ++ x)
        (a.run (a.place st).1 (rest ++ x.toList)).2.2 := by
  obtain ⟨done, hseen, hsize⟩ := h.consumed
  have htext : (seen ++ x).toList = done ++ (rest ++ x.toList) := by
    rw [String.toList_append, hseen, List.append_assoc]
  have hentry : a.entry st seen (seen ++ x) = ((a.place st).1, byteSize done) :=
    (h.entry_of_told id x).trans (Prod.ext rfl hsize)
  obtain ⟨hpieces, hplace⟩ := a.advance_behind htext hentry
  refine ⟨hpieces, congrArg Prod.fst hplace, a.follows_advance htext hentry fun he => ?_⟩
  rw [h.unmoved (String.append_eq_empty_iff.mp he).1]

end

/-! ## Runs over the parts of a text -/

def found : π → List Char → List String → List (List Piece)
  | _, _, [] => []
  | p, rest, x :: xs =>
    (a.run p (rest ++ x.toList)).1 ::
      found (a.run p (rest ++ x.toList)).2.1 (a.run p (rest ++ x.toList)).2.2 xs

def reached : π → List Char → List String → π × List Char
  | p, rest, [] => (p, rest)
  | p, rest, x :: xs =>
    reached (a.run p (rest ++ x.toList)).2.1 (a.run p (rest ++ x.toList)).2.2 xs

variable {a} in
theorem Follows.finds_eq {st : σ} {seen : String} {rest : List Char} (h : a.Follows st seen rest)
    (xs : List String) :
    a.finds st seen xs = a.found (a.place st).1 rest xs ∧
      (a.place (a.last st seen xs)).1 = (a.reached (a.place st).1 rest xs).1 := by
  induction xs generalizing st seen rest with
  | nil => exact ⟨rfl, rfl⟩
  | cons x xs ih =>
    obtain ⟨hpieces, hplace, hfollows⟩ := h.advance x
    obtain ⟨hfinds, hlast⟩ := ih hfollows
    rw [hplace] at hfinds hlast
    rw [Parser.finds, Parser.last, hpieces, hfinds]
    exact ⟨rfl, hlast⟩

theorem counts_found {headers : π → Nat}
    (h : ∀ p s, Counts (headers p) (a.run p s).1 (headers (a.run p s).2.1)) (p : π)
    (rest : List Char) (xs : List String) :
    ∃ n, Counts (headers p) (a.found p rest xs).flatten n := by
  induction xs generalizing p rest with
  | nil => exact ⟨_, .nil _⟩
  | cons x xs ih =>
    obtain ⟨n, hn⟩ := ih (a.run p (rest ++ x.toList)).2.1 (a.run p (rest ++ x.toList)).2.2
    exact ⟨n, (h p _).append hn⟩

theorem numbered_feed {headers : π → Nat}
    (h : ∀ p s, Counts (headers p) (a.run p s).1 (headers (a.run p s).2.1)) (supply : Supply)
    (xs : List String) :
    Numbered (headers (a.place a.start).1) (fragmentsIn (a.feed supply a.start "" xs)) := by
  obtain ⟨n, hn⟩ := a.counts_found h (a.place a.start).1 [] xs
  rw [Parser.fragmentsIn_feed, (a.follows_start.finds_eq xs).1]
  exact hn.numbered supply _

end Reader

end ChatGateway.Markup
