import ChatGateway.Proofs.Sequence

/-!
# What a client reads

A client keeps the blocks of a message by their index and adds each delta to its block. It cannot
see how a text was split into deltas: `fuse` puts adjacent texts of a block together, and the blocks
that are read stay the same.
-/

namespace ChatGateway.Answer.Stream

open Messages

/-! ## Reading blocks -/

/-- A block as a client holds it. The input of a call is the text of its JSON. -/
inductive Shown where
  | text (text : String)
  | thinking (thinking signature : String)
  | toolUse (id name input : String)
deriving DecidableEq, Repr

namespace Shown

def ofStart : ReplyBlock → Shown
  | .text t => .text t
  | .thinking t s => .thinking t (s.getD "")
  | .toolUse id name _ => .toolUse id name ""

def add : Shown → Delta → Shown
  | .text t, .text u => .text (t ++ u)
  | .thinking t s, .thinking u => .thinking (t ++ u) s
  | .thinking t s, .signature u => .thinking t (s ++ u)
  | .toolUse id name t, .inputJson u => .toolUse id name (t ++ u)
  | b, _ => b

theorem add_text_text (b : Shown) (t u : String) :
    (b.add (.text t)).add (.text u) = b.add (.text (t ++ u)) := by
  cases b <;> simp [add, String.append_assoc]

end Shown

/-- The blocks that a client holds after an event, by their index. -/
def view (held : List (Nat × Shown)) : Event → List (Nat × Shown)
  | .blockStart i b => held ++ [(i, .ofStart b)]
  | .blockDelta i d => held.map fun (j, b) => (j, if j = i then b.add d else b)
  | _ => held

def blocksOf (es : List Event) : List Shown := (es.foldl view []).map (·.2)

def Written.shown (w : Written) : Shown := w.deltas.foldl .add (.ofStart w.block)

theorem view_deltas {held : List (Nat × Shown)} {i : Nat} (h : ∀ p ∈ held, p.1 < i) (b : Shown)
    (ds : List Delta) :
    (ds.map (Event.blockDelta i)).foldl view (held ++ [(i, b)]) =
      held ++ [(i, ds.foldl .add b)] := by
  induction ds generalizing b with
  | nil => rfl
  | cons d ds ih =>
    have hold : held.map (fun (j, b) => (j, if j = i then b.add d else b)) = held := by
      conv => rhs; rw [← List.map_id held]
      refine List.map_congr_left fun p hp => ?_
      have := h p hp
      simp [show ¬ p.1 = i by omega]
    rw [List.map_cons, List.foldl_cons, view, List.map_append, hold]
    simpa using ih (b.add d)

theorem view_opened {held : List (Nat × Shown)} {i : Nat} (h : ∀ p ∈ held, p.1 < i) (w : Written) :
    (w.opened i).foldl view held = held ++ [(i, w.shown)] := by
  rw [Written.opened, List.foldl_cons]
  exact view_deltas h _ w.deltas

theorem view_numbered {held : List (Nat × Shown)} {n : Nat} (h : ∀ p ∈ held, p.1 < n)
    (ws : List Written) :
    ((numbered n ws).foldl view held).map (·.2) = held.map (·.2) ++ ws.map Written.shown := by
  induction ws generalizing held n with
  | nil => simp [numbered]
  | cons w ws ih =>
    have hn : ∀ p ∈ held ++ [(n, w.shown)], p.1 < n + 1 := by
      refine List.forall_mem_append.mpr ⟨fun p hp => ?_, by simp⟩
      have := h p hp
      omega
    rw [numbered, Written.events, List.append_assoc, List.foldl_append, view_opened h]
    simpa [view] using ih hn

theorem blocksOf_ended {h : List Event} (he : Ended h) :
    ∃ m ws e u, (∀ w ∈ ws, Complete w) ∧
      h = .messageStart m :: (numbered 0 ws ++ [.messageDelta e u, .messageStop]) ∧
      blocksOf h = ws.map Written.shown := by
  obtain ⟨m, ws, e, u, hws, rfl⟩ := he
  refine ⟨m, ws, e, u, hws, rfl, ?_⟩
  rw [blocksOf, List.foldl_cons, List.foldl_append]
  exact @view_numbered [] 0 (by simp) ws

/-! ## Texts put together -/

/-- Puts a text in front of what may begin with a text of the same block. -/
def glue (i : Nat) (t : String) : List Event → List Event
  | .blockDelta j (.text u) :: es =>
    if i = j then .blockDelta i (.text (t ++ u)) :: es
    else .blockDelta i (.text t) :: .blockDelta j (.text u) :: es
  | es => .blockDelta i (.text t) :: es

/-- The events with adjacent texts of a block put together. -/
def fuse : List Event → List Event
  | .blockDelta i (.text t) :: es => glue i t (fuse es)
  | e :: es => e :: fuse es
  | [] => []

theorem glue_cases (i : Nat) (es : List Event) :
    (∃ u r, es = .blockDelta i (.text u) :: r ∧
        ∀ t, glue i t es = .blockDelta i (.text (t ++ u)) :: r) ∨
      ∀ t, glue i t es = .blockDelta i (.text t) :: es := by
  unfold glue
  split
  · next j u r =>
    by_cases h : i = j
    · subst h
      exact .inl ⟨u, r, rfl, fun t => if_pos rfl⟩
    · exact .inr fun t => if_neg h
  · exact .inr fun t => rfl

theorem glue_glue (i : Nat) (t u : String) (es : List Event) :
    glue i t (glue i u es) = glue i (t ++ u) es := by
  rcases glue_cases i es with ⟨v, r, rfl, h⟩ | h
  · rw [h u, h (t ++ u)]
    simp [glue, String.append_assoc]
  · rw [h u, h (t ++ u)]
    simp [glue]

theorem fuse_text (i : Nat) (t : String) (es : List Event) :
    fuse (.blockDelta i (.text t) :: es) = glue i t (fuse es) := rfl

theorem fuse_other {e : Event} (h : ∀ i t, e ≠ .blockDelta i (.text t)) (es : List Event) :
    fuse (e :: es) = e :: fuse es := by
  rw [fuse]
  exact h

theorem text_or_other (e : Event) :
    (∃ i t, e = .blockDelta i (.text t)) ∨ ∀ i t, e ≠ .blockDelta i (.text t) := by
  by_cases h : ∃ i t, e = .blockDelta i (.text t)
  · exact .inl h
  · exact .inr fun i t he => h ⟨i, t, he⟩

theorem fuse_append_left {b b' : List Event} (h : fuse b = fuse b') (a : List Event) :
    fuse (a ++ b) = fuse (a ++ b') := by
  induction a with
  | nil => exact h
  | cons e a ih =>
    rcases text_or_other e with ⟨i, t, rfl⟩ | he
    · rw [List.cons_append, List.cons_append, fuse_text, fuse_text, ih]
    · rw [List.cons_append, List.cons_append, fuse_other he, fuse_other he, ih]

theorem fuse_fuse_append (a b : List Event) : fuse (fuse a ++ b) = fuse (a ++ b) := by
  induction a with
  | nil => rfl
  | cons e a ih =>
    rcases text_or_other e with ⟨i, t, rfl⟩ | he
    · rw [List.cons_append, fuse_text, fuse_text, ← ih]
      rcases glue_cases i (fuse a) with ⟨u, r, hr, h⟩ | h
      · rw [h t, hr, List.cons_append, fuse_text, List.cons_append, fuse_text, glue_glue]
      · rw [h t, List.cons_append, fuse_text]
    · rw [fuse_other he, List.cons_append, fuse_other he, List.cons_append, fuse_other he, ih]

theorem fuse_append_right {a a' : List Event} (h : fuse a = fuse a') (b : List Event) :
    fuse (a ++ b) = fuse (a' ++ b) := by
  rw [← fuse_fuse_append, h, fuse_fuse_append]

theorem view_text_text (held : List (Nat × Shown)) (i : Nat) (t u : String) :
    view (view held (.blockDelta i (.text t))) (.blockDelta i (.text u)) =
      view held (.blockDelta i (.text (t ++ u))) := by
  simp only [view, List.map_map]
  refine List.map_congr_left fun p _ => ?_
  by_cases h : p.1 = i <;> simp [h, Shown.add_text_text]

theorem foldl_view_fuse (es : List Event) (held : List (Nat × Shown)) :
    (fuse es).foldl view held = es.foldl view held := by
  induction es generalizing held with
  | nil => rfl
  | cons e es ih =>
    rcases text_or_other e with ⟨i, t, rfl⟩ | he
    · rw [fuse_text, List.foldl_cons, ← ih]
      rcases glue_cases i (fuse es) with ⟨u, r, hr, h⟩ | h
      · rw [h t, hr, List.foldl_cons, List.foldl_cons, view_text_text]
      · rw [h t, List.foldl_cons]
    · rw [fuse_other he, List.foldl_cons, List.foldl_cons, ih]

/-- A client cannot see how texts were split. -/
theorem blocksOf_eq_of_fuse {es es' : List Event} (h : fuse es = fuse es') :
    blocksOf es = blocksOf es' := by
  rw [blocksOf, blocksOf, ← foldl_view_fuse, h, foldl_view_fuse]

end ChatGateway.Answer.Stream
