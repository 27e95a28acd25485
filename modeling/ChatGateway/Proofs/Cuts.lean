import ChatGateway.Proofs.Reading
import ChatGateway.Proofs.Scanning

/-!
# Cutting content into chunks

Content may arrive in one chunk or in many, and a marker may be split anywhere: what is emitted
differs at most in how texts are split into deltas, and the state is the same. The buffer keeps
what the scan has not settled, so the argument is that of `drain_append`.
-/

namespace ChatGateway.Answer.Stream

open Markup Messages

/-! ## Alike up to the split of texts -/

/-- The same state, and the same events once adjacent texts of a block are put together. -/
def Same (x y : List Event × State) : Prop := fuse x.1 = fuse y.1 ∧ x.2 = y.2

namespace Same

variable {x y z : List Event × State} {f f' g g' : Emit} {s : State}

theorem refl (x : List Event × State) : Same x x := ⟨rfl, rfl⟩

theorem of_eq (h : x = y) : Same x y := h ▸ refl x

theorem trans (h : Same x y) (h' : Same y z) : Same x z :=
  ⟨h.1.trans h'.1, h.2.trans h'.2⟩

instance : Trans Same Same Same := ⟨trans⟩

theorem andThen_left (h : Same (f s) (f' s)) (g : Emit) :
    Same (f.andThen g s) (f'.andThen g s) := by
  rw [Emit.andThen, Emit.andThen, ← h.2]
  exact ⟨fuse_append_right h.1 _, rfl⟩

theorem andThen_right (f : Emit) (h : Same (g (f s).2) (g' (f s).2)) :
    Same (f.andThen g s) (f.andThen g' s) :=
  ⟨fuse_append_left h.1 _, h.2⟩

end Same

section
variable (c : Setting)

theorem say_append (t u : List Char) (s : State) :
    Same ((say c t).andThen (say c u) s) (say c (t ++ u) s) := by
  by_cases ht : t = []
  · subst ht
    exact .refl _
  by_cases hu : u = []
  · subst hu
    rw [say_nil, Emit.andThen_nothing, List.append_nil]
    exact .refl _
  have htu : t ++ u ≠ [] := by simp [ht]
  by_cases hb : ∃ i, s.block = some (i, .text)
  · obtain ⟨i, hb⟩ := hb
    rw [Emit.andThen, say_of_text c ht hb, say_of_text c hu hb, say_of_text c htu hb]
    simp [Same, fuse, glue]
  · have hb' : ∀ i, s.block ≠ some (i, .text) := fun i h => hb ⟨i, h⟩
    rw [Emit.andThen, say_of_other c ht hb', say_of_text c hu rfl, say_of_other c htu hb']
    refine ⟨?_, rfl⟩
    rw [List.append_assoc]
    exact fuse_append_left (by simp [fuse, glue]) _

/-! ## The buffer is only kept -/

/-- An emission that neither reads nor changes the buffer. -/
def Blind (f : Emit) : Prop :=
  ∀ s b, f { s with buffer := b } = ((f s).1, { (f s).2 with buffer := b })

namespace Blind

variable {f g : Emit}

theorem andThen (hf : Blind f) (hg : Blind g) : Blind (f.andThen g) := by
  intro s b
  simp only [Emit.andThen, hf s b, hg (f s).2 b]

theorem each {α : Type} {f : α → Emit} {as : List α} (hf : ∀ a ∈ as, Blind (f a)) :
    Blind (Emit.each f as) := by
  induction as with
  | nil => exact fun _ _ => rfl
  | cons a as ih =>
    exact (hf a List.mem_cons_self).andThen (ih fun b hb => hf b (List.mem_cons_of_mem a hb))

end Blind

theorem closeBlock_fst_buffer (s : State) (b : List Char) :
    (closeBlock c { s with buffer := b }).1 = (closeBlock c s).1 := by
  simp only [closeBlock]
  split <;> rfl

theorem blind_say (t : List Char) : Blind (say c t) := by
  intro s b
  by_cases ht : t = []
  · subst ht
    rfl
  by_cases hb : ∃ i, s.block = some (i, .text)
  · obtain ⟨i, hb⟩ := hb
    rw [say_of_text c ht hb, @say_of_text c t ht { s with buffer := b } i hb]
  · have hb' : ∀ i, s.block ≠ some (i, .text) := fun i h => hb ⟨i, h⟩
    rw [say_of_other c ht hb', @say_of_other c t ht { s with buffer := b } hb',
      closeBlock_fst_buffer]

theorem blind_embedded (call : Call) : Blind (embedded c call) := by
  intro s b
  rw [embedded_eq, embedded_eq, closeBlock_fst_buffer]

theorem blind_segment (g : Segment) : Blind (segment c g) := by
  cases g with
  | text t => exact blind_say c t
  | calls cs => exact Blind.each fun call _ => blind_embedded c call

/-! ## What a drain emits -/

def deliver (d : Drained) : Emit := (Emit.each (segment c) d.segments).andThen (say c d.settled)

theorem settle_eq (s : State) :
    settle c s = deliver c (drain c.tools s.buffer)
      { s with buffer := (drain c.tools s.buffer).held } := rfl

theorem blind_deliver (d : Drained) : Blind (deliver c d) :=
  (Blind.each fun g _ => blind_segment c g).andThen (blind_say c _)

theorem deliver_after (d : Drained) (ss : List Segment) :
    deliver c (d.after ss) = (Emit.each (segment c) ss).andThen (deliver c d) := by
  rw [deliver, Drained.after, Emit.each_append, Emit.andThen_assoc]
  rfl

theorem deliver_cons (g : Segment) (ss : List Segment) (settled held : List Char) :
    deliver c ⟨g :: ss, settled, held⟩ = (segment c g).andThen (deliver c ⟨ss, settled, held⟩) :=
  Emit.andThen_assoc _ _ _

theorem deliver_behind (t : List Char) (d : Drained) (s : State) :
    Same ((say c t).andThen (deliver c d) s) (deliver c (d.behind t) s) := by
  obtain ⟨segments, settled, held⟩ := d
  cases segments with
  | nil => exact say_append c t settled s
  | cons g ss =>
    cases g with
    | text u =>
      have h := (say_append c t u s).andThen_left (deliver c ⟨ss, settled, held⟩)
      rw [Emit.andThen_assoc] at h
      rw [deliver_cons]
      exact h.trans (.of_eq (by rw [Drained.behind, deliver_cons]; rfl))
    | calls cs => exact .of_eq (by rw [Drained.behind, deliver_cons c (.text t)]; rfl)

theorem settle_append (y : List Char) (s : State) :
    Same ((settle c).andThen ((Emit.change fun s => { s with buffer := s.buffer ++ y }).andThen
        (settle c)) s)
      (settle c { s with buffer := s.buffer ++ y }) := by
  obtain ⟨d, hd⟩ : ∃ d, drain c.tools s.buffer = d := ⟨_, rfl⟩
  obtain ⟨e, he⟩ : ∃ e, drain c.tools (d.held ++ y) = e := ⟨_, rfl⟩
  have hz : drain c.tools (s.buffer ++ y) = (e.behind d.settled).after d.segments := by
    rw [drain_append, hd, he]
  have hheld : ((e.behind d.settled).after d.segments).held = e.held := by
    rw [Drained.after, Drained.behind]
    split <;> rfl
  -- no step reads the buffer, so both sides may run over what is held at the end
  have hfirst : settle c s =
      ((deliver c d s).1, { (deliver c d s).2 with buffer := d.held }) := by
    rw [settle_eq, hd, blind_deliver]
  have hsecond : settle c { (deliver c d s).2 with buffer := d.held ++ y } =
      deliver c e { (deliver c d s).2 with buffer := e.held } := by
    rw [settle_eq]
    simp only [he]
  have hboth : (settle c).andThen ((Emit.change fun s => { s with buffer := s.buffer ++ y }).andThen
      (settle c)) s = (deliver c d).andThen (deliver c e) { s with buffer := e.held } := by
    rw [Emit.andThen, Emit.change_andThen, hfirst]
    simp only [hsecond, Emit.andThen, blind_deliver c d s e.held]
  have hwhole : settle c { s with buffer := s.buffer ++ y } =
      (Emit.each (segment c) d.segments).andThen (deliver c (e.behind d.settled))
        { s with buffer := e.held } := by
    rw [settle_eq, ← deliver_after]
    simp only [hz, hheld]
  rw [hboth, hwhole, deliver, Emit.andThen_assoc]
  exact .andThen_right _ (deliver_behind c _ e _)

/-! ## Content in two parts -/

def NoCall (s : State) : Prop := ∀ i slot id name a, s.block ≠ some (i, .toolUse slot id name a)

theorem leaveCall_of_noCall {s : State} (h : NoCall s) : leaveCall c s = ([], s) := by
  unfold leaveCall
  split
  · next i slot id name a hb => exact absurd hb (h i slot id name a)
  · rfl

theorem noCall_of_none {s : State} (h : s.block = none) : NoCall s := by
  intro i slot id name a hb
  rw [h] at hb
  exact absurd hb (by simp)

theorem noCall_leaveCall (s : State) : NoCall (leaveCall c s).2 := by
  unfold leaveCall
  split
  · rw [closeBlock_snd]
    exact noCall_of_none rfl
  · next h => exact h

theorem noCall_say (t : List Char) {s : State} (h : NoCall s) : NoCall (say c t s).2 := by
  rcases say_cases c t s with ⟨-, he⟩ | ⟨i, -, -, he⟩ | ⟨-, -, he⟩
  · rwa [he]
  · rwa [he]
  · rw [he]
    intro i slot id name a hb
    exact absurd hb (by simp)

theorem noCall_segment (g : Segment) : (segment c g).Leads (fun _ => NoCall) (fun _ => NoCall) := by
  cases g with
  | text t => exact fun _ s h => noCall_say c t h
  | calls cs =>
    refine .each fun call _ => fun _ s _ => ?_
    rw [embedded_eq]
    exact noCall_of_none rfl

theorem noCall_deliver (d : Drained) : (deliver c d).Leads (fun _ => NoCall) (fun _ => NoCall) :=
  .andThen (.each fun g _ => noCall_segment c g) fun _ _ h => noCall_say c _ h

theorem noCall_settle {s : State} (h : NoCall s) : NoCall (settle c s).2 := by
  rw [settle_eq]
  exact noCall_deliver c _ [] { s with buffer := (drain c.tools s.buffer).held } h

theorem content_nil : content c [] = .nothing := rfl

theorem content_eq {t : List Char} (ht : t ≠ []) :
    content c t = (leaveCall c).andThen
      ((Emit.change fun s => { s with buffer := s.buffer ++ t }).andThen (settle c)) := by
  rw [content, if_neg (by simpa using ht)]

theorem content_append (x y : List Char) (s : State) :
    Same ((content c x).andThen (content c y) s) (content c (x ++ y) s) := by
  by_cases hx : x = []
  · subst hx
    exact .refl _
  by_cases hy : y = []
  · subst hy
    rw [content_nil, Emit.andThen_nothing, List.append_nil]
    exact .refl _
  have hxy : x ++ y ≠ [] := by simp [hx]
  rw [content_eq c hx, content_eq c hxy, Emit.andThen_assoc, Emit.andThen_assoc]
  refine .andThen_right _ ?_
  have hn := noCall_leaveCall c s
  generalize (leaveCall c s).2 = s at hn ⊢
  -- behind the first part no native call is open, and the second has none to leave
  have hn' : NoCall (settle c { s with buffer := s.buffer ++ x }).2 :=
    noCall_settle c (s := { s with buffer := s.buffer ++ x }) hn
  have hy' : content c y (settle c { s with buffer := s.buffer ++ x }).2 =
      (Emit.change fun s => { s with buffer := s.buffer ++ y }).andThen (settle c)
        (settle c { s with buffer := s.buffer ++ x }).2 := by
    rw [content_eq c hy, Emit.andThen, leaveCall_of_noCall c hn', List.nil_append]
  have h := settle_append c y { s with buffer := s.buffer ++ x }
  rw [Emit.change_andThen, Emit.change_andThen, ← List.append_assoc]
  refine .trans (.of_eq ?_) h
  rw [Emit.andThen, Emit.andThen, hy']

/-! ## Chunks with nothing but content -/

def said (k : Chat.Chunk) : String := (k.choices.head?.bind (·.delta.content)).getD ""

def reasonOf (k : Chat.Chunk) : Option String := k.choices.head?.bind (·.finishReason)

/-- The first choice of a chunk neither reasons nor calls a tool. -/
def Plain (k : Chat.Chunk) : Prop :=
  ∀ x ∈ k.choices.head?, x.delta.reasoning.getD "" = "" ∧ x.delta.toolCalls.getD [] = []

/-- Nothing in a chunk counts but its content. -/
structure ContentOnly (k : Chat.Chunk) : Prop where
  usage : k.usage = none
  reason : reasonOf k = none
  plain : Plain k

def textChunk (t : String) : Chat.Chunk := .ofDelta ⟨none, some t, none, none⟩

theorem contentOnly_textChunk (t : String) : ContentOnly (textChunk t) where
  usage := rfl
  reason := rfl
  plain x hx := by
    obtain rfl := Option.some.inj hx
    exact ⟨rfl, rfl⟩

def note (k : Chat.Chunk) (s : State) : State :=
  let s := k.usage.elim s (record · s)
  { s with finishReason := (reasonOf k).or s.finishReason }

theorem chunk_of_plain {k : Chat.Chunk} (h : Plain k) {s : State} (hf : s.finished = false) :
    chunk c k s =
      (start c).andThen ((Emit.change (note k)).andThen (content c (said k).toList)) s := by
  rw [chunk_of_open c hf]
  unfold note said reasonOf
  cases hk : k.choices.head? with
  | none => rfl
  | some x =>
    obtain ⟨hr, ht⟩ := h x hk
    rw [Option.elim_some, choice, hr, ht]
    rfl

def utter (t : String) : Emit := fun s =>
  if s.finished then ([], s) else (start c).andThen (content c t.toList) s

theorem utter_of_finished {s : State} (h : s.finished = true) (t : String) :
    utter c t s = ([], s) := if_pos h

theorem utter_of_open {s : State} (h : s.finished = false) (t : String) :
    utter c t s = (start c).andThen (content c t.toList) s := if_neg (by simp [h])

theorem utter_of_started {s : State} (h : s.finished = false) (hst : s.started = true)
    (t : String) : utter c t s = content c t.toList s := by
  rw [utter_of_open c h, Emit.andThen, start_of_started c hst]
  rfl

theorem chunk_of_contentOnly {k : Chat.Chunk} (h : ContentOnly k) :
    chunk c k = utter c (said k) := by
  have hnote : note k = id := by
    funext s
    rw [note, h.usage, h.reason]
    rfl
  funext s
  cases hf : s.finished with
  | true => rw [chunk_of_finished c hf, utter_of_finished c hf]
  | false =>
    rw [chunk_of_plain c h.plain hf, utter_of_open c hf, hnote]
    rfl

theorem utter_flags {s : State} (h : s.finished = false) (t : String) :
    (utter c t s).2.finished = false ∧ (utter c t s).2.started = true := by
  rw [utter_of_open c h]
  refine ((kept_flags c true false).content t.toList [] (start c s).2 ?_).symm
  rw [start_snd]
  exact ⟨rfl, h⟩

theorem utter_append (x y : String) (s : State) :
    Same ((utter c x).andThen (utter c y) s) (utter c (x ++ y) s) := by
  cases hf : s.finished with
  | true =>
    rw [Emit.andThen, utter_of_finished c hf, utter_of_finished c hf, utter_of_finished c hf]
    exact .refl _
  | false =>
    obtain ⟨hf', hst'⟩ := utter_flags c hf x
    have h := content_append c x.toList y.toList (start c s).2
    rw [Emit.andThen, utter_of_started c hf' hst', utter_of_open c hf, utter_of_open c hf,
      String.toList_append]
    refine .trans (.of_eq ?_) (.andThen_right (start c) h)
    simp [Emit.andThen]

theorem start_finish {s : State} (h : s.finished = false) :
    (start c).andThen (finish c) s = finish c s := by
  cases hst : s.started with
  | true =>
    rw [Emit.andThen, start_of_started c hst]
    rfl
  | false => simp [Emit.andThen, finish, start, h, hst]

theorem joined_cons (t : String) (ts : List String) : joined (t :: ts) = t ++ joined ts := by
  apply String.toList_injective
  simp [joined]

theorem utter_finish (ts : List String) (s : State) :
    Same ((Emit.each (utter c) ts).andThen (finish c) s)
      ((utter c (joined ts)).andThen (finish c) s) := by
  induction ts generalizing s with
  | nil =>
    show Same (finish c s) _
    cases hf : s.finished with
    | true =>
      rw [Emit.andThen, utter_of_finished c hf]
      exact .refl _
    | false =>
      rw [Emit.andThen, utter_of_open c hf, ← start_finish c hf]
      exact .of_eq (by simp [joined, content_nil, Emit.andThen, Emit.nothing])
  | cons t ts ih =>
    have h := (utter_append c t (joined ts) s).andThen_left (finish c)
    rw [Emit.andThen_assoc, ← joined_cons] at h
    rw [Emit.each, Emit.andThen_assoc]
    exact .trans (.andThen_right (utter c t) (ih _)) h

theorem run_contentOnly {ks : List Chat.Chunk} (h : ∀ k ∈ ks, ContentOnly k) :
    run c (ks.map .chunk) = Emit.each (utter c) (ks.map said) := by
  induction ks with
  | nil => rfl
  | cons k ks ih =>
    obtain ⟨hk, hks⟩ := List.forall_mem_cons.mp h
    rw [List.map_cons, run_cons, accept, ih hks, chunk_of_contentOnly c hk]
    rfl

theorem run_cut {ks : List Chat.Chunk} (h : ∀ k ∈ ks, ContentOnly k) (is : List Input) (s : State) :
    Same (run c (is ++ ks.map .chunk ++ [.finish]) s)
      ((run c is).andThen ((utter c (joined (ks.map said))).andThen (finish c)) s) := by
  rw [run_concat, run_append, run_contentOnly c h, Emit.andThen_assoc, accept]
  exact .andThen_right _ (utter_finish c _ _)

/-- **Cuts do not matter.** In every state a chunk of content does what two chunks do that share
its content; and whatever was before, contents that are the same text end in the same message. -/
theorem content_cut :
    (∀ k k₁ k₂, ContentOnly k → ContentOnly k₁ → ContentOnly k₂ → said k = said k₁ ++ said k₂ →
      ∀ s, Same ((chunk c k₁).andThen (chunk c k₂) s) (chunk c k s)) ∧
    ∀ (is : List Input) (ks ls : List Chat.Chunk), (∀ k ∈ ks, ContentOnly k) →
      (∀ l ∈ ls, ContentOnly l) → joined (ks.map said) = joined (ls.map said) → ∀ s,
        Same (run c (is ++ ks.map .chunk ++ [.finish]) s)
            (run c (is ++ ls.map .chunk ++ [.finish]) s) ∧
          blocksOf (run c (is ++ ks.map .chunk ++ [.finish]) s).1 =
            blocksOf (run c (is ++ ls.map .chunk ++ [.finish]) s).1 := by
  refine ⟨fun k k₁ k₂ hk h₁ h₂ he s => ?_, fun is ks ls hks hls he s => ?_⟩
  · rw [chunk_of_contentOnly c hk, chunk_of_contentOnly c h₁, chunk_of_contentOnly c h₂, he]
    exact utter_append c _ _ s
  · have hk := run_cut c hks is s
    have hl := run_cut c hls is s
    rw [← he] at hl
    have h : Same (run c (is ++ ks.map .chunk ++ [.finish]) s)
        (run c (is ++ ls.map .chunk ++ [.finish]) s) :=
      ⟨hk.1.trans hl.1.symm, hk.2.trans hl.2.symm⟩
    exact ⟨h, blocksOf_eq_of_fuse h.1⟩

def bare : Setting := ⟨"message", "model", [], fun _ => "call"⟩

theorem content_cut_in_marker :
    said (textChunk "so <tool_call>") = said (textChunk "so <tool") ++ said (textChunk "_call>") ∧
      Same ((chunk bare (textChunk "so <tool")).andThen (chunk bare (textChunk "_call>")) initial)
        (chunk bare (textChunk "so <tool_call>") initial) ∧
      joined ([textChunk "so <tool", textChunk "_call>"].map said) =
        joined ([textChunk "so <tool_call>"].map said) ∧
      blocksOf (run bare ([.start] ++ [textChunk "so <tool", textChunk "_call>"].map .chunk ++
          [.finish]) initial).1 =
        blocksOf (run bare ([.start] ++ [textChunk "so <tool_call>"].map .chunk ++
          [.finish]) initial).1 := by
  have hsaid : said (textChunk "so <tool_call>") =
      said (textChunk "so <tool") ++ said (textChunk "_call>") := by decide
  have hjoined : joined ([textChunk "so <tool", textChunk "_call>"].map said) =
      joined ([textChunk "so <tool_call>"].map said) := by decide
  refine ⟨hsaid, ?_, hjoined, ?_⟩
  · exact (content_cut bare).1 _ _ _ (contentOnly_textChunk _) (contentOnly_textChunk _)
      (contentOnly_textChunk _) hsaid initial
  · refine ((content_cut bare).2 [.start] _ _ ?_ ?_ hjoined initial).2
    · exact List.forall_mem_cons.mpr
        ⟨contentOnly_textChunk _, List.forall_mem_singleton.mpr (contentOnly_textChunk _)⟩
    · exact List.forall_mem_singleton.mpr (contentOnly_textChunk _)

end

end ChatGateway.Answer.Stream
