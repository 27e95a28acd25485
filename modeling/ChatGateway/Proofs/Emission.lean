import ChatGateway.Answer.Stream

/-!
# Runs of a stream

A stream is started, given chunks and finished, in any order and any number of times. `run` is what
comes of it. An assertion about the events so far and the state is kept by every run if it is kept
by the few operations that open, fill and close blocks (`Kept`).
-/

namespace ChatGateway.Answer.Stream

open Markup Messages

/-! ## Emissions one after the other -/

namespace Emit

theorem andThen_nothing (f : Emit) : f.andThen nothing = f := by
  funext s
  simp [andThen, nothing]

theorem andThen_assoc (f g h : Emit) : (f.andThen g).andThen h = f.andThen (g.andThen h) := by
  funext s
  simp [andThen]

theorem change_andThen (f : State → State) (g : Emit) (s : State) :
    (change f).andThen g s = g (f s) := rfl

theorem each_append {α : Type} (f : α → Emit) (as bs : List α) :
    each f (as ++ bs) = (each f as).andThen (each f bs) := by
  induction as with
  | nil => rfl
  | cons a as ih => rw [List.cons_append, each, each, ih, andThen_assoc]

end Emit

/-! ## Runs -/

inductive Input where
  | start
  | chunk (k : Chat.Chunk)
  | finish

def accept (c : Setting) : Input → Emit
  | .start => start c
  | .chunk k => chunk c k
  | .finish => finish c

def run (c : Setting) (is : List Input) : Emit := .each (accept c) is

theorem run_cons (c : Setting) (i : Input) (is : List Input) :
    run c (i :: is) = (accept c i).andThen (run c is) := rfl

theorem run_append (c : Setting) (is js : List Input) :
    run c (is ++ js) = (run c is).andThen (run c js) := Emit.each_append _ is js

theorem run_concat (c : Setting) (is : List Input) (i : Input) :
    run c (is ++ [i]) = (run c is).andThen (accept c i) := by
  rw [run_append]
  exact congrArg _ (Emit.andThen_nothing _)

/-! ## What runs keep -/

abbrev Assertion := List Event → State → Prop

def Emit.Leads (P : Assertion) (f : Emit) (Q : Assertion) : Prop :=
  ∀ h s, P h s → Q (h ++ (f s).1) (f s).2

namespace Emit.Leads

variable {P Q R : Assertion} {f g : Emit}

theorem nothing (P : Assertion) : Emit.nothing.Leads P P := by
  intro h s hp
  rwa [Emit.nothing, List.append_nil]

theorem change {m : State → State} (hm : ∀ h s, P h s → Q h (m s)) :
    (Emit.change m).Leads P Q := by
  intro h s hp
  rw [Emit.change, List.append_nil]
  exact hm h s hp

theorem andThen (hf : f.Leads P Q) (hg : g.Leads Q R) : (f.andThen g).Leads P R := by
  intro h s hp
  rw [Emit.andThen, ← List.append_assoc]
  exact hg _ _ (hf h s hp)

theorem each {α : Type} {f : α → Emit} {as : List α} (hf : ∀ a ∈ as, (f a).Leads P P) :
    (Emit.each f as).Leads P P := by
  induction as with
  | nil => exact nothing P
  | cons a as ih =>
    exact andThen (hf a List.mem_cons_self) (ih fun b hb => hf b (List.mem_cons_of_mem a hb))

end Emit.Leads

/-! ## What each operation does -/

section
variable (c : Setting)

theorem closeBlock_snd (s : State) : (closeBlock c s).2 = { s with block := none } := by
  unfold closeBlock
  split
  · next h => rw [← h]
  · rfl

theorem replaceBlock_eq (b : OpenBlock) (s : State) :
    replaceBlock c b s = ((closeBlock c s).1 ++ [.blockStart s.nextIndex b.shown],
      { s with block := some (s.nextIndex, b), nextIndex := s.nextIndex + 1 }) := by
  rw [replaceBlock, Emit.andThen, closeBlock_snd]
  rfl

theorem say_nil : say c [] = .nothing := rfl

theorem say_of_text {t : List Char} (ht : t ≠ []) {s : State} {i : Nat}
    (h : s.block = some (i, .text)) :
    say c t s = ([.blockDelta i (.text (String.ofList t))], s) := by
  rw [say, if_neg (by simpa using ht)]
  simp only [Emit.andThen, needText, addText, h, List.nil_append]

theorem say_of_other {t : List Char} (ht : t ≠ []) {s : State}
    (h : ∀ i, s.block ≠ some (i, .text)) :
    say c t s = ((closeBlock c s).1 ++ [.blockStart s.nextIndex (.text ""),
        .blockDelta s.nextIndex (.text (String.ofList t))],
      { s with block := some (s.nextIndex, .text), nextIndex := s.nextIndex + 1 }) := by
  have hn : needText c s = replaceBlock c .text s := by
    unfold needText
    split
    · next i hb => exact absurd hb (h i)
    · rfl
  rw [say, if_neg (by simpa using ht), Emit.andThen, hn, replaceBlock_eq]
  simp [addText, OpenBlock.shown]

theorem say_cases (t : List Char) (s : State) :
    (t = [] ∧ say c t s = ([], s)) ∨
      (∃ i, t ≠ [] ∧ s.block = some (i, .text) ∧
        say c t s = ([.blockDelta i (.text (String.ofList t))], s)) ∨
      (t ≠ [] ∧ (∀ i, s.block ≠ some (i, .text)) ∧
        say c t s = ((closeBlock c s).1 ++ [.blockStart s.nextIndex (.text ""),
            .blockDelta s.nextIndex (.text (String.ofList t))],
          { s with block := some (s.nextIndex, .text), nextIndex := s.nextIndex + 1 })) := by
  by_cases ht : t = []
  · exact .inl ⟨ht, by rw [ht, say_nil]; rfl⟩
  by_cases hb : ∃ i, s.block = some (i, .text)
  · obtain ⟨i, hb⟩ := hb
    exact .inr (.inl ⟨i, ht, hb, say_of_text c ht hb⟩)
  · have hb' : ∀ i, s.block ≠ some (i, .text) := fun i h => hb ⟨i, h⟩
    exact .inr (.inr ⟨ht, hb', say_of_other c ht hb'⟩)

theorem say_snd (t : List Char) (s : State) :
    ∃ b n, (say c t s).2 = { s with block := b, nextIndex := n } := by
  rcases say_cases c t s with ⟨-, he⟩ | ⟨i, -, -, he⟩ | ⟨-, -, he⟩
  · exact ⟨s.block, s.nextIndex, by rw [he]⟩
  · exact ⟨s.block, s.nextIndex, by rw [he]⟩
  · exact ⟨_, _, by rw [he]⟩

def reflect (t : List Char) : Emit := (needThinking c).andThen (addThinking t)

theorem reflect_of_thinking (t : List Char) {s : State} {i : Nat} {said : List Char}
    (h : s.block = some (i, .thinking said)) :
    reflect c t s = ([.blockDelta i (.thinking (String.ofList t))],
      { s with block := some (i, .thinking (said ++ t)) }) := by
  simp only [reflect, Emit.andThen, needThinking, addThinking, h, List.nil_append]

theorem reflect_of_other (t : List Char) {s : State}
    (h : ∀ i said, s.block ≠ some (i, .thinking said)) :
    reflect c t s = ((closeBlock c s).1 ++ [.blockStart s.nextIndex (.thinking "" none),
        .blockDelta s.nextIndex (.thinking (String.ofList t))],
      { s with block := some (s.nextIndex, .thinking t), nextIndex := s.nextIndex + 1 }) := by
  have hn : needThinking c s = replaceBlock c (.thinking []) s := by
    unfold needThinking
    split
    · next i said hb => exact absurd hb (h i said)
    · rfl
  rw [reflect, Emit.andThen, hn, replaceBlock_eq]
  simp [addThinking, OpenBlock.shown]

theorem reflect_snd (t : List Char) (s : State) :
    ∃ b n, (reflect c t s).2 = { s with block := b, nextIndex := n } := by
  by_cases hb : ∃ i said, s.block = some (i, .thinking said)
  · obtain ⟨i, said, hb⟩ := hb
    rw [reflect_of_thinking c t hb]
    exact ⟨_, s.nextIndex, rfl⟩
  · rw [reflect_of_other c t fun i said h => hb ⟨i, said, h⟩]
    exact ⟨_, _, rfl⟩

theorem think_eq {t : List Char} (ht : t ≠ []) : think c t = (flush c).andThen (reflect c t) := by
  rw [think, if_neg (by simpa using ht)]
  rfl

def openCall (slot : Nat) (id name : String) : Emit :=
  (replaceBlock c (.toolUse slot id name [])).andThen
    (.change fun s => { s with calledTool := true })

theorem openCall_eq (slot : Nat) (id name : String) (s : State) :
    openCall c slot id name s =
      ((closeBlock c s).1 ++ [.blockStart s.nextIndex (.toolUse id name (.obj []))],
        { s with block := some (s.nextIndex, .toolUse slot id name [])
                 nextIndex := s.nextIndex + 1
                 calledTool := true }) := by
  rw [openCall, Emit.andThen, replaceBlock_eq]
  simp [Emit.change, OpenBlock.shown]

theorem beginCall_of_continues {s : State} {slot : Nat} {id : String} (name : String)
    (h : continuesCall s slot id = true) : beginCall c slot id name s = ([], s) := if_pos h

theorem beginCall_of_new {s : State} {slot : Nat} {id : String} (name : String)
    (h : continuesCall s slot id = false) :
    beginCall c slot id name s = (flush c).andThen (openCall c slot id name) s := by
  rw [beginCall, h, openCall, ← Emit.andThen_assoc]
  rfl

theorem addArguments_snd (slot : Nat) (t : List Char) (s : State) :
    ∃ b, (addArguments slot t s).2 = { s with block := b } := by
  simp only [addArguments, Emit.change]
  split
  · split
    · exact ⟨_, rfl⟩
    · exact ⟨s.block, rfl⟩
  · exact ⟨s.block, rfl⟩

def embeddedEvents (index : Nat) (id name input : String) : List Event :=
  [.blockStart index (.toolUse id name (.obj [])), .blockDelta index (.inputJson input),
    .blockStop index]

/-- The input of an embedded call as it is sent. -/
def inputText (call : Call) : String :=
  (Tool.coerceArguments c.tools call.name call.arguments).text

theorem embedded_eq (call : Call) (s : State) :
    embedded c call s =
      ((closeBlock c s).1 ++ embeddedEvents s.nextIndex (call.issue c.supply s.issued).1 call.name
          (inputText c call),
        { s with block := none
                 nextIndex := s.nextIndex + 1
                 calledTool := true
                 issued := (call.issue c.supply s.issued).2 }) := by
  rw [embedded, Emit.andThen, closeBlock_snd]
  rfl

end

/-! ## The operations that matter -/

/-- What keeps an assertion through all that becomes of content and of native calls: text that is not
empty, embedded and native calls, arguments, and the end of a block. The buffer may be anything. -/
structure Carried (c : Setting) (P : Assertion) : Prop where
  buffer : ∀ h s b, P h s → P h { s with buffer := b }
  say : ∀ t, t ≠ [] → (say c t).Leads P P
  embedded : ∀ call, (embedded c call).Leads P P
  openCall : ∀ slot id name, name ≠ "" → (openCall c slot id name).Leads P P
  arguments : ∀ slot t, (addArguments slot t).Leads P P
  close : (closeBlock c).Leads P P

/-- What keeps an assertion through a whole run: reasoning as well, and any counts and reasons. -/
structure Kept (c : Setting) (P : Assertion) : Prop extends Carried c P where
  record : ∀ h s u, P h s → P h (record u s)
  reason : ∀ h s r, P h s → P h { s with finishReason := r }
  reflect : ∀ t, t ≠ [] → (reflect c t).Leads P P

namespace Carried

variable {c : Setting} {P : Assertion} (hp : Carried c P)
include hp

theorem say' (t : List Char) : (Stream.say c t).Leads P P := by
  by_cases ht : t = []
  · rw [ht]
    exact .nothing P
  · exact hp.say t ht

theorem flush : (flush c).Leads P P := fun h s hs => hp.say' s.buffer h _ (hp.buffer h s [] hs)

theorem settle : (settle c).Leads P P := by
  intro h s hs
  refine Emit.Leads.andThen (Emit.Leads.each fun g _ => ?_) (hp.say' _) h _ (hp.buffer h s _ hs)
  cases g with
  | text t => exact hp.say' t
  | calls cs => exact .each fun call _ => hp.embedded call

theorem think {Q : Assertion} {t : List Char} (ht : t ≠ []) (hr : (reflect c t).Leads P Q) :
    (think c t).Leads P Q := by
  rw [think_eq c ht]
  exact hp.flush.andThen hr

theorem beginCall (slot : Nat) (id : String) {name : String} (hn : name ≠ "") :
    (beginCall c slot id name).Leads P P := by
  intro h s hs
  cases hc : continuesCall s slot id with
  | true => rw [beginCall_of_continues c name hc, List.append_nil]; exact hs
  | false =>
    rw [beginCall_of_new c name hc]
    exact hp.flush.andThen (hp.openCall slot id name hn) h s hs

theorem fragment (f : Chat.CallFragment) : (fragment c f).Leads P P := by
  refine Emit.Leads.andThen ?_ (hp.arguments _ _)
  unfold callHeader
  split
  · next id name hid hname =>
    refine hp.beginCall f.index id ?_
    rintro rfl
    rw [filled, Option.filter_eq_some_iff] at hname
    exact absurd hname.2 (by decide)
  · exact .nothing P

theorem content (t : List Char) : (content c t).Leads P P := by
  unfold Stream.content
  split
  · exact .nothing P
  · refine Emit.Leads.andThen ?_ (.andThen (.change fun h s => hp.buffer h s _) hp.settle)
    intro h s hs
    unfold leaveCall
    split
    · exact hp.close h s hs
    · rwa [List.append_nil]

end Carried

namespace Kept

variable {c : Setting} {P : Assertion} (hp : Kept c P)
include hp

theorem think' (t : List Char) : (Stream.think c t).Leads P P := by
  by_cases ht : t = []
  · rw [ht]
    exact .nothing P
  · exact hp.think ht (hp.reflect t ht)

theorem choice (k : Chat.ChunkChoice) : (choice c k).Leads P P :=
  .andThen (.change fun h s => hp.reason h s _)
    (.andThen (hp.think' _) (.andThen (.each fun f _ => hp.fragment f) (hp.content _)))

end Kept

/-! ## Chunks and the end -/

section
variable (c : Setting)

theorem start_of_started {s : State} (h : s.started = true) : start c s = ([], s) := if_pos h

theorem start_of_fresh {s : State} (h : s.started = false) :
    ∃ m, start c s = ([.messageStart m], { s with started := true }) := by
  rw [start, if_neg (by simp [h])]
  exact ⟨_, rfl⟩

theorem start_snd (s : State) : (start c s).2 = { s with started := true } := by
  unfold start
  split
  · next h => rw [← h]
  · rfl

theorem chunk_of_finished {s : State} (h : s.finished = true) (k : Chat.Chunk) :
    chunk c k s = ([], s) := if_pos h

theorem chunk_of_open {s : State} (h : s.finished = false) (k : Chat.Chunk) :
    chunk c k s = (start c).andThen ((Emit.change fun s => k.usage.elim s (record · s)).andThen
      (k.choices.head?.elim .nothing (choice c))) s := if_neg (by simp [h])

/-- What is emitted at the end before the message is closed. -/
def lastWords : Emit :=
  (start c).andThen ((settle c).andThen ((flush c).andThen (closeBlock c)))

theorem finish_of_finished {s : State} (h : s.finished = true) : finish c s = ([], s) := if_pos h

theorem finish_of_open {s : State} (h : s.finished = false) :
    finish c s = ((lastWords c { s with finished := true }).1 ++
        closing (lastWords c { s with finished := true }).2,
      (lastWords c { s with finished := true }).2) := by
  rw [finish, if_neg (by simp [h])]
  simp [lastWords, Emit.andThen]

end

theorem Carried.lastWords {c : Setting} {P : Assertion} (hp : Carried c P) {h : List Event}
    {s : State} (hs : P (h ++ (start c s).1) (start c s).2) :
    P (h ++ (lastWords c s).1) (lastWords c s).2 := by
  rw [Stream.lastWords, Emit.andThen, ← List.append_assoc]
  exact hp.settle.andThen (hp.flush.andThen hp.close) _ _ hs

namespace Kept

variable {c : Setting} {P : Assertion} (hp : Kept c P)
include hp

theorem chunk {h : List Event} {s : State} (hf : s.finished = false)
    (hs : P (h ++ (start c s).1) (start c s).2) (k : Chat.Chunk) :
    P (h ++ (chunk c k s).1) (chunk c k s).2 := by
  rw [chunk_of_open c hf, Emit.andThen, ← List.append_assoc]
  refine Emit.Leads.andThen (Q := P) (.change fun h s hs => ?_) ?_ _ _ hs
  · cases k.usage with
    | none => exact hs
    | some u => exact hp.record h s u hs
  · cases k.choices.head? with
    | none => exact .nothing P
    | some choice => exact hp.choice choice

end Kept

theorem kept_flags (c : Setting) (started finished : Bool) :
    Kept c fun _ s => s.started = started ∧ s.finished = finished where
  buffer _ _ _ h := h
  record _ _ _ h := h
  reason _ _ _ h := h
  say t _ h s hs := by
    obtain ⟨b, n, he⟩ := say_snd c t s
    rwa [he]
  reflect t _ h s hs := by
    obtain ⟨b, n, he⟩ := reflect_snd c t s
    rwa [he]
  embedded call h s hs := by rwa [embedded_eq]
  openCall slot id name _ h s hs := by rwa [openCall_eq]
  arguments slot t h s hs := by
    obtain ⟨b, he⟩ := addArguments_snd slot t s
    rwa [he]
  close h s hs := by rwa [closeBlock_snd]

theorem carried_counts (c : Setting) (u : Usage) (r : Option String) :
    Carried c fun _ s => s.usage = u ∧ s.finishReason = r where
  buffer _ _ _ h := h
  say t _ h s hs := by
    obtain ⟨b, n, he⟩ := say_snd c t s
    rwa [he]
  embedded call h s hs := by rwa [embedded_eq]
  openCall slot id name _ h s hs := by rwa [openCall_eq]
  arguments slot t h s hs := by
    obtain ⟨b, he⟩ := addArguments_snd slot t s
    rwa [he]
  close h s hs := by rwa [closeBlock_snd]

theorem chunk_flags (c : Setting) (k : Chat.Chunk) {s : State} (hf : s.finished = false) :
    (chunk c k s).2.started = true ∧ (chunk c k s).2.finished = false :=
  (kept_flags c true false).chunk (h := []) hf (by rw [start_snd]; exact ⟨rfl, hf⟩) k

theorem lastWords_snd (c : Setting) (s : State) :
    (lastWords c s).2.block = none ∧ (lastWords c s).2.started = true ∧
      (lastWords c s).2.finished = s.finished := by
  refine ⟨by simp only [lastWords, Emit.andThen, closeBlock_snd], ?_⟩
  exact (kept_flags c true s.finished).lastWords (h := []) (by rw [start_snd]; exact ⟨rfl, rfl⟩)

/-- A choice counts nothing, and of its reason it is known whether it has one. -/
theorem choice_counts (c : Setting) (x : Chat.ChunkChoice) (s : State) :
    (choice c x s).2.usage = s.usage ∧
      (choice c x s).2.finishReason = x.finishReason.or s.finishReason := by
  have hp := carried_counts c s.usage (x.finishReason.or s.finishReason)
  have hthink : ∀ t, (think c t).Leads (fun _ s' => s'.usage = s.usage ∧
      s'.finishReason = x.finishReason.or s.finishReason) (fun _ s' => s'.usage = s.usage ∧
      s'.finishReason = x.finishReason.or s.finishReason) := by
    intro t
    by_cases ht : t = []
    · rw [ht]
      exact .nothing _
    · refine hp.think ht fun h s' hs => ?_
      obtain ⟨b, n, he⟩ := reflect_snd c t s'
      rwa [he]
  exact (hthink _).andThen (.andThen (.each fun f _ => hp.fragment f) (hp.content _)) []
    { s with finishReason := x.finishReason.or s.finishReason } ⟨rfl, rfl⟩

theorem lastWords_counts (c : Setting) (s : State) :
    (lastWords c s).2.usage = s.usage ∧ (lastWords c s).2.finishReason = s.finishReason :=
  (carried_counts c s.usage s.finishReason).lastWords (h := [])
    (by rw [start_snd]; exact ⟨rfl, rfl⟩)

theorem accept_of_finished (c : Setting) {s : State} (hf : s.finished = true)
    (hst : s.started = true) (i : Input) : accept c i s = ([], s) := by
  cases i with
  | start => exact start_of_started c hst
  | chunk k => exact chunk_of_finished c hf k
  | finish => exact finish_of_finished c hf

theorem run_of_finished (c : Setting) {s : State} (hf : s.finished = true)
    (hst : s.started = true) (is : List Input) : run c is s = ([], s) := by
  induction is with
  | nil => rfl
  | cons i is ih =>
    rw [run_cons, Emit.andThen, accept_of_finished c hf hst, ih]
    rfl

theorem finished_accept (c : Setting) (i : Input) (s : State) :
    (accept c i s).2.finished = true ↔ s.finished = true ∨ i = .finish := by
  cases hf : s.finished with
  | true =>
    have : (accept c i s).2.finished = true := by
      cases i with
      | start => rw [accept, start_snd]; exact hf
      | chunk k => rw [accept, chunk_of_finished c hf]; exact hf
      | finish => rw [accept, finish_of_finished c hf]; exact hf
    simp [this]
  | false =>
    cases i with
    | start => simp [accept, start_snd, hf]
    | chunk k => simp [accept, (chunk_flags c k hf).2]
    | finish =>
      obtain ⟨-, -, hfin⟩ := lastWords_snd c { s with finished := true }
      simp [accept, finish_of_open c hf, hfin]

theorem finished_run (c : Setting) (is : List Input) (s : State) :
    (run c is s).2.finished = true ↔ s.finished = true ∨ .finish ∈ is := by
  induction is generalizing s with
  | nil => simp [run, Emit.each, Emit.nothing]
  | cons i is ih =>
    rw [run_cons, Emit.andThen, ih, finished_accept, List.mem_cons, or_assoc, eq_comm (a := i)]

/-! ## Chunks that are taken -/

/-- The chunks that a stream is given until it is told to finish. -/
def taken : List Input → List Chat.Chunk
  | [] => []
  | .start :: is => taken is
  | .chunk k :: is => k :: taken is
  | .finish :: _ => []

/-- What each step keeps, or brings on by the chunk that it takes, a run brings on by all the chunks
that it takes. -/
theorem run_taken {c : Setting} {P : List Chat.Chunk → Assertion}
    (hstart : ∀ ks, (start c).Leads (P ks) (P ks))
    (hchunk : ∀ ks k h s, s.finished = false → P ks h s →
      P (ks ++ [k]) (h ++ (chunk c k s).1) (chunk c k s).2)
    (hfinish : ∀ ks h s, s.finished = false → P ks h s →
      P ks (h ++ (finish c s).1) (finish c s).2)
    (is : List Input) {ks : List Chat.Chunk} {h : List Event} {s : State}
    (hf : s.finished = false) (hs : P ks h s) :
    P (ks ++ taken is) (h ++ (run c is s).1) (run c is s).2 := by
  induction is generalizing ks h s with
  | nil => simpa [run, Emit.each, Emit.nothing, taken] using hs
  | cons i is ih =>
    rw [run_cons, Emit.andThen, ← List.append_assoc]
    cases i with
    | start =>
      have hopen : (start c s).2.finished = false := by rw [start_snd]; exact hf
      exact ih hopen (hstart ks h s hs)
    | chunk k =>
      have hnext := ih (chunk_flags c k hf).2 (hchunk ks k h s hf hs)
      rwa [List.append_assoc] at hnext
    | finish =>
      -- nothing is taken any more
      obtain ⟨-, hst, hfin⟩ := lastWords_snd c { s with finished := true }
      have hrest : run c is (finish c s).2 = ([], (finish c s).2) := by
        rw [finish_of_open c hf]
        exact run_of_finished c hfin hst is
      rw [accept, hrest, taken, List.append_nil, List.append_nil]
      exact hfinish ks h s hf hs

end ChatGateway.Answer.Stream
