import ChatGateway.Markup.Piece
import Mathlib.Data.List.Range

/-!
# Calls in what a parser sends on

Deltas are read back: their content, and the calls that their fragments make up. What is read depends
on the text and the marks of the pieces only, and not on where pieces and deltas begin.
-/

namespace ChatGateway.Markup

open Chat

/-! ## Deltas, read back -/

structure Received where
  index : Nat
  id : Option String
  name : String
  arguments : List Char
deriving DecidableEq, Repr

def contentIn (ds : List (Option ChunkDelta)) : List Char :=
  ds.flatMap fun d => ((d.bind (·.content)).getD "").toList

def fragmentsIn (ds : List (Option ChunkDelta)) : List CallFragment :=
  ds.flatMap fun d => (d.bind (·.toolCalls)).getD []

def argumentsOf : List CallFragment → List Char
  | [] => []
  | f :: fs => if f.name?.isSome then [] else (f.arguments?.getD "").toList ++ argumentsOf fs

/-- A fragment with a name is the header of a call, and the call goes on to the next header. -/
def callsIn : List CallFragment → List Received
  | [] => []
  | f :: fs =>
    match f.name? with
    | some name =>
      ⟨f.index, f.id, name, (f.arguments?.getD "").toList ++ argumentsOf fs⟩ :: callsIn fs
    | none => callsIn fs

/-- Headers are numbered from `n` on, and every other fragment has the number of the header before
it. -/
def Numbered : Nat → List CallFragment → Prop
  | _, [] => True
  | n, f :: fs => if f.name?.isSome then f.index = n ∧ Numbered (n + 1) fs
    else f.index + 1 = n ∧ Numbered n fs

theorem index_callsIn {n : Nat} {fs : List CallFragment} (h : Numbered n fs) :
    (callsIn fs).map (·.index) = List.range' n (callsIn fs).length := by
  induction fs generalizing n with
  | nil => rfl
  | cons f fs ih =>
    rw [Numbered] at h
    cases hf : f.name? with
    | none =>
      rw [hf] at h
      simp only [callsIn, hf]
      exact ih h.2
    | some name =>
      rw [hf] at h
      simp only [callsIn, hf, List.map_cons, List.length_cons, List.range'_succ]
      rw [ih h.2, h.1]

/-! ## Marks of pieces -/

/-- What pieces say about calls, character by character. -/
inductive Mark where
  | header (slot : Nat) (id? : Option String) (name : String)
  | argument (slot : Nat) (c : Char)
deriving DecidableEq, Repr

namespace Piece

def marks : List Piece → List Mark
  | [] => []
  | .text _ :: ps => marks ps
  | .header slot id? name :: ps => .header slot id? name :: marks ps
  | .argument slot s :: ps => s.map (.argument slot) ++ marks ps

theorem marks_append (ps qs : List Piece) : marks (ps ++ qs) = marks ps ++ marks qs := by
  induction ps with
  | nil => rfl
  | cons p ps ih => cases p <;> simp [marks, ih]

theorem content_append (ps qs : List Piece) : content (ps ++ qs) = content ps ++ content qs := by
  induction ps with
  | nil => rfl
  | cons p ps ih => cases p <;> simp [content, ih]

theorem marks_argumentPieces (slot : Nat) (s : List Char) :
    marks (argumentPieces slot s) = s.map (.argument slot) := by
  unfold argumentPieces
  split
  · next h => rw [List.isEmpty_iff.mp h]; rfl
  · exact List.append_nil _

theorem content_argumentPieces (slot : Nat) (s : List Char) :
    content (argumentPieces slot s) = [] := by
  unfold argumentPieces
  split <;> rfl

theorem fragments_append (supply : Supply) (n : Nat) (ps qs : List Piece) :
    fragments supply n (ps ++ qs) =
      fragments supply n ps ++ fragments supply (n + freshIds ps) qs := by
  induction ps generalizing n with
  | nil => rfl
  | cons p ps ih =>
    cases p with
    | text s => exact ih n
    | header slot id? name =>
      cases id? with
      | none =>
        simp only [List.cons_append, fragments, freshIds, ih]
        rw [Nat.add_right_comm, Nat.add_assoc]
      | some id => simp only [List.cons_append, fragments, freshIds, ih]
    | argument slot s => simp only [List.cons_append, fragments, freshIds, ih]

structure Alike (ps qs : List Piece) : Prop where
  content : content ps = content qs
  marks : marks ps = marks qs

theorem Alike.refl (ps : List Piece) : Alike ps ps := ⟨rfl, rfl⟩

theorem Alike.append {ps ps' qs qs' : List Piece} (h : Alike ps ps') (h' : Alike qs qs') :
    Alike (ps ++ qs) (ps' ++ qs') where
  content := by rw [content_append, content_append, h.content, h'.content]
  marks := by rw [marks_append, marks_append, h.marks, h'.marks]

end Piece

/-! ## Calls from marks -/

def Mark.argumentsOf : List Mark → List Char
  | .argument _ c :: ms => c :: argumentsOf ms
  | _ => []

def Mark.calls (supply : Supply) : Nat → List Mark → List Received
  | _, [] => []
  | n, .header slot (some id) name :: ms =>
    ⟨slot, some id, name, argumentsOf ms⟩ :: calls supply n ms
  | n, .header slot none name :: ms =>
    ⟨slot, some (supply n), name, argumentsOf ms⟩ :: calls supply (n + 1) ms
  | n, .argument _ _ :: ms => calls supply n ms

namespace Mark

theorem argumentsOf_append (slot : Nat) (s : List Char) (ms : List Mark) :
    argumentsOf (s.map (.argument slot) ++ ms) = s ++ argumentsOf ms := by
  induction s with
  | nil => rfl
  | cons c s ih => exact congrArg (c :: ·) ih

theorem calls_append (supply : Supply) (n slot : Nat) (s : List Char) (ms : List Mark) :
    calls supply n (s.map (.argument slot) ++ ms) = calls supply n ms := by
  induction s with
  | nil => rfl
  | cons c s ih => exact ih

section
variable {α : Type} (name : α → String) (arguments : α → List Char)

/-- The marks of calls that have no ids of their own and are numbered from `n` on. -/
def ofCalls : Nat → List α → List Mark
  | _, [] => []
  | n, c :: cs => .header n none (name c) :: ((arguments c).map (.argument n) ++ ofCalls (n + 1) cs)

theorem calls_ofCalls (supply : Supply) (n : Nat) (cs : List α) :
    calls supply n (ofCalls name arguments n cs) =
      cs.mapIdx fun i c => ⟨n + i, some (supply (n + i)), name c, arguments c⟩ := by
  induction cs generalizing n with
  | nil => rfl
  | cons c cs ih =>
    have hnone : argumentsOf (ofCalls name arguments (n + 1) cs) = [] := by cases cs <;> rfl
    rw [ofCalls, calls, argumentsOf_append, hnone, calls_append, ih, List.mapIdx_cons,
      List.append_nil]
    simp [Nat.add_assoc, Nat.add_comm 1]

end

end Mark

theorem argumentsOf_fragments (supply : Supply) (n : Nat) (ps : List Piece) :
    argumentsOf (Piece.fragments supply n ps) = Mark.argumentsOf (Piece.marks ps) := by
  induction ps with
  | nil => rfl
  | cons p ps ih =>
    cases p with
    | text s => exact ih
    | header slot id? name => cases id? <;> rfl
    | argument slot s =>
      rw [Piece.marks, Mark.argumentsOf_append, ← ih]
      simp [Piece.fragments, argumentsOf, CallFragment.name?, CallFragment.arguments?]

theorem callsIn_fragments (supply : Supply) (n : Nat) (ps : List Piece) :
    callsIn (Piece.fragments supply n ps) = Mark.calls supply n (Piece.marks ps) := by
  induction ps generalizing n with
  | nil => rfl
  | cons p ps ih =>
    cases p with
    | text s => exact ih n
    | header slot id? name =>
      cases id? <;>
        simp [Piece.fragments, Piece.marks, callsIn, Mark.calls, CallFragment.name?,
          CallFragment.arguments?, argumentsOf_fragments, ih]
    | argument slot s =>
      rw [Piece.marks, Mark.calls_append, ← ih n]
      rfl

/-- The pieces take the number of headers from one number to another. -/
inductive Counts : Nat → List Piece → Nat → Prop where
  | nil (n : Nat) : Counts n [] n
  | text {n m : Nat} {ps : List Piece} (s : List Char) (h : Counts n ps m) :
    Counts n (.text s :: ps) m
  | header {n m : Nat} {ps : List Piece} (id? : Option String) (name : String)
    (h : Counts (n + 1) ps m) : Counts n (.header n id? name :: ps) m
  | argument {n m : Nat} {ps : List Piece} (s : List Char) (h : Counts (n + 1) ps m) :
    Counts (n + 1) (.argument n s :: ps) m

theorem Counts.append {n m k : Nat} {ps qs : List Piece} (h : Counts n ps m) (h' : Counts m qs k) :
    Counts n (ps ++ qs) k := by
  induction h with
  | nil n => exact h'
  | text s h ih => exact .text s (ih h')
  | header id? name h ih => exact .header id? name (ih h')
  | argument s h ih => exact .argument s (ih h')

theorem counts_argumentPieces (n : Nat) (s : List Char) :
    Counts (n + 1) (argumentPieces n s) (n + 1) := by
  unfold argumentPieces
  split
  · exact .nil _
  · exact .argument s (.nil _)

theorem Counts.numbered {n m : Nat} {ps : List Piece} (h : Counts n ps m) (supply : Supply)
    (i : Nat) : Numbered n (Piece.fragments supply i ps) := by
  induction h generalizing i with
  | nil n => trivial
  | text s h ih => exact ih i
  | header id? name h ih => cases id? <;> exact ⟨rfl, ih _⟩
  | argument s h ih => exact ⟨rfl, ih i⟩

/-! ## One delta for each text -/

theorem contentIn_delta (supply : Supply) (n : Nat) (ps : List Piece) :
    contentIn [Piece.delta supply n ps] = Piece.content ps := by
  unfold contentIn Piece.delta
  cases hc : Piece.content ps with
  | nil => cases hf : Piece.fragments supply n ps <;> simp
  | cons c t => simp

theorem fragmentsIn_delta (supply : Supply) (n : Nat) (ps : List Piece) :
    fragmentsIn [Piece.delta supply n ps] = Piece.fragments supply n ps := by
  unfold fragmentsIn Piece.delta
  cases hf : Piece.fragments supply n ps with
  | nil => cases hc : Piece.content ps <;> simp
  | cons f fs => simp

theorem join_singleton (t : String) : String.join [t] = t := by
  simp [String.join_cons]

theorem contentIn_cons (d : Option ChunkDelta) (ds : List (Option ChunkDelta)) :
    contentIn (d :: ds) = contentIn [d] ++ contentIn ds := by
  simp [contentIn]

theorem fragmentsIn_cons (d : Option ChunkDelta) (ds : List (Option ChunkDelta)) :
    fragmentsIn (d :: ds) = fragmentsIn [d] ++ fragmentsIn ds := by
  simp [fragmentsIn]

end ChatGateway.Markup
