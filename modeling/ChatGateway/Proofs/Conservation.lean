import ChatGateway.Proofs.Cuts

/-!
# No content is lost

The events of a run are read as a list of entries: text that was passed on, spans of markup that
became calls, and what has nothing to do with content. The contents of the entries and the buffer
are together what was received, and nothing is passed on behind a block of thinking or a native call
that was received in front of it. `Ledger` says this of one step, `Account` of a run.
-/

namespace ChatGateway.Answer.Stream

open Markup Messages

/-! ## Entries -/

inductive Entry where
  | text (index : Nat) (text : List Char)
  /-- A span of markup and its calls with their ids, in blocks numbered from `first` on. -/
  | markup (span : List Char) (first : Nat) (calls : List (String × Call))
  | other (e : Event)

namespace Entry

def content : Entry → List Char
  | .text _ t => t
  | .markup span _ _ => span
  | .other _ => []

def events (c : Setting) : Entry → List Event
  | .text i t => [.blockDelta i (.text (String.ofList t))]
  | .markup _ first calls =>
    numbered first (calls.map fun (id, call) => .call id call.name (inputText c call))
  | .other e => [e]

/-- Text is not empty, markup is a whole span with the calls that it spells, and all text is
accounted for as text. -/
def Sound (tools : List Tool) : Entry → Prop
  | .text _ t => t ≠ []
  | .markup span _ calls => ∃ g body, IsSpan g body ∧ span = g.opening ++ body ++ g.closing ∧
      calls ≠ [] ∧ calls.map (·.2) = g.calls tools body
  | .other e => ∀ i t, e ≠ .blockDelta i (.text t)

def Opens : Entry → Prop
  | .other (.blockStart _ (.thinking _ _)) => True
  | .other (.blockStart _ (.toolUse _ _ _)) => True
  | _ => False

end Entry

/-- Entries for a step that is given the content `t` in the state `s`. -/
structure Ledger (c : Setting) (f : Emit) (s : State) (t : List Char) (L : List Entry) : Prop where
  events : (f s).1 = L.flatMap (Entry.events c)
  sound : ∀ e ∈ L, e.Sound c.tools
  balance : L.flatMap Entry.content ++ (f s).2.buffer = s.buffer ++ t
  timely : ∀ A e B, L = A ++ e :: B → e.Opens → A.flatMap Entry.content = s.buffer
  waiting : Waiting s.buffer → Waiting (f s).2.buffer

namespace Ledger

variable {c : Setting} {f g : Emit} {s : State} {t : List Char} {L M : List Entry}

theorem nothing (c : Setting) (s : State) : Ledger c .nothing s [] [] where
  events := rfl
  sound := by simp
  balance := by simp [Emit.nothing]
  timely A e B h := by simp at h
  waiting h := h

theorem balance_nil (hf : Ledger c f s [] L) :
    L.flatMap Entry.content ++ (f s).2.buffer = s.buffer := by
  rw [hf.balance, List.append_nil]

theorem andThen (hf : Ledger c f s [] L) (hg : Ledger c g (f s).2 t M) :
    Ledger c (f.andThen g) s t (L ++ M) where
  events := by rw [Emit.andThen, hf.events, hg.events, List.flatMap_append]
  sound := List.forall_mem_append.mpr ⟨hf.sound, hg.sound⟩
  balance := by
    rw [Emit.andThen, List.flatMap_append, List.append_assoc, hg.balance, ← List.append_assoc,
      hf.balance_nil]
  timely A e B h ho := by
    -- an entry that opens a block is one of the first step or one of the second
    rcases List.append_eq_append_iff.mp h with ⟨A', rfl, hM⟩ | ⟨B', rfl, hB⟩
    · rw [List.flatMap_append, hg.timely A' e B hM ho, hf.balance_nil]
    · cases B' with
      | nil =>
        have hbuf : (f s).2.buffer = [] := (hg.timely [] e B hB.symm ho).symm
        have h := hf.balance_nil
        rwa [hbuf, List.append_nil, List.append_nil] at h
      | cons e' B' =>
        obtain ⟨rfl, -⟩ := List.cons.inj hB
        exact hf.timely A e B' rfl ho
  waiting h := hg.waiting (hf.waiting h)

theorem of_eq {s' : State} (hf : Ledger c f s' t L) (h : g s = f s')
    (hb : s.buffer = s'.buffer) : Ledger c g s t L where
  events := by rw [h, hf.events]
  sound := hf.sound
  balance := by rw [h, hb, hf.balance]
  timely := by rw [hb]; exact hf.timely
  waiting := by rw [h, hb]; exact hf.waiting

end Ledger

/-! ## What has nothing to do with content -/

theorem content_others (es : List Event) : (es.map Entry.other).flatMap Entry.content = [] := by
  induction es with
  | nil => rfl
  | cons e es ih => exact ih

theorem events_others (c : Setting) (es : List Event) :
    (es.map Entry.other).flatMap (Entry.events c) = es := by
  induction es with
  | nil => rfl
  | cons e es ih => exact congrArg (e :: ·) ih

section
variable (c : Setting)

/-- A step that leaves the buffer alone and passes on no text. If it opens a block, the buffer is
empty. -/
theorem Ledger.of_others {f : Emit} {s : State}
    (ht : ∀ e ∈ (f s).1, ∀ i t, e ≠ .blockDelta i (.text t))
    (hb : (f s).2.buffer = s.buffer)
    (ho : s.buffer = [] ∨ ∀ e ∈ (f s).1, ¬ (Entry.other e).Opens) :
    Ledger c f s [] ((f s).1.map .other) where
  events := (events_others c _).symm
  sound := List.forall_mem_map.mpr ht
  balance := by rw [content_others, hb, List.append_nil]; rfl
  timely A e B h hopen := by
    rcases ho with ho | ho
    · have hA := congrArg (List.flatMap Entry.content) h
      rw [content_others, List.flatMap_append] at hA
      rw [ho]
      exact (List.append_eq_nil_iff.mp hA.symm).1
    · have he : e ∈ (f s).1.map .other := by rw [h]; simp
      obtain ⟨e, hm, rfl⟩ := List.mem_map.mp he
      exact absurd hopen (ho e hm)
  waiting h := by rwa [hb]

theorem closeBlock_quiet (s : State) : ∀ e ∈ (closeBlock c s).1,
    (∀ i t, e ≠ .blockDelta i (.text t)) ∧ ¬ (Entry.other e).Opens := by
  unfold closeBlock
  split
  · simp
  · next index b _ =>
    cases b <;> simp [lastDeltas, Entry.Opens]

theorem ledger_closeBlock (s : State) : ∃ L, Ledger c (closeBlock c) s [] L :=
  ⟨_, .of_others c (fun e he => (closeBlock_quiet c s e he).1) (by rw [closeBlock_snd])
    (.inr fun e he => (closeBlock_quiet c s e he).2)⟩

theorem ledger_start (s : State) : ∃ L, Ledger c (start c) s [] L := by
  refine ⟨_, .of_others c ?_ (by rw [start_snd]) (.inr ?_)⟩
  all_goals
    unfold start
    split <;> simp [Entry.Opens]

theorem ledger_change {m : State → State} {s : State} (h : (m s).buffer = s.buffer) :
    Ledger c (.change m) s [] [] where
  events := rfl
  sound := by simp
  balance := by simp [Emit.change, h]
  timely A e B h := by simp at h
  waiting hw := by rwa [Emit.change, h]

theorem ledger_reflect (t : List Char) {s : State} (hs : s.buffer = []) :
    ∃ L, Ledger c (reflect c t) s [] L := by
  refine ⟨_, .of_others c ?_ ?_ (.inl hs)⟩
  · by_cases hb : ∃ i said, s.block = some (i, .thinking said)
    · obtain ⟨i, said, hb⟩ := hb
      rw [reflect_of_thinking c t hb]
      simp
    · rw [reflect_of_other c t fun i said h => hb ⟨i, said, h⟩]
      exact List.forall_mem_append.mpr ⟨fun e he => (closeBlock_quiet c s e he).1, by simp⟩
  · obtain ⟨b, n, he⟩ := reflect_snd c t s
    rw [he]

theorem ledger_openCall (slot : Nat) (id name : String) {s : State} (hs : s.buffer = []) :
    ∃ L, Ledger c (openCall c slot id name) s [] L := by
  refine ⟨_, .of_others c ?_ ?_ (.inl hs)⟩
  · rw [openCall_eq]
    exact List.forall_mem_append.mpr ⟨fun e he => (closeBlock_quiet c s e he).1, by simp⟩
  · rw [openCall_eq]

theorem ledger_addArguments (slot : Nat) (t : List Char) (s : State) :
    Ledger c (addArguments slot t) s [] [] := by
  obtain ⟨b, he⟩ := addArguments_snd slot t s
  have hb : (addArguments slot t s).2.buffer = s.buffer := by rw [he]
  exact ledger_change c hb

/-! ## Content that is passed on -/

/-- Entries for events that pass on the content `t` and open no block but for text and embedded
calls. -/
structure Tells (es : List Event) (t : List Char) (L : List Entry) : Prop where
  events : es = L.flatMap (Entry.events c)
  sound : ∀ e ∈ L, e.Sound c.tools
  content : L.flatMap Entry.content = t
  calm : ∀ e ∈ L, ¬ e.Opens

variable {c} in
theorem Tells.append {es fs : List Event} {t u : List Char} {L M : List Entry}
    (h : Tells c es t L) (h' : Tells c fs u M) : Tells c (es ++ fs) (t ++ u) (L ++ M) where
  events := by rw [List.flatMap_append, ← h.events, ← h'.events]
  sound := List.forall_mem_append.mpr ⟨h.sound, h'.sound⟩
  content := by rw [List.flatMap_append, h.content, h'.content]
  calm := List.forall_mem_append.mpr ⟨h.calm, h'.calm⟩

variable {c} in
theorem Ledger.of_tells {f : Emit} {s : State} {t u : List Char} {L : List Entry}
    (h : Tells c (f s).1 u L) (hb : u ++ (f s).2.buffer = s.buffer ++ t)
    (hw : Waiting s.buffer → Waiting (f s).2.buffer) : Ledger c f s t L where
  events := h.events
  sound := h.sound
  balance := by rw [h.content, hb]
  timely A e B he ho := absurd ho (h.calm e (by rw [he]; simp))
  waiting := hw

theorem tells_closeBlock (s : State) :
    Tells c (closeBlock c s).1 [] ((closeBlock c s).1.map .other) where
  events := (events_others c _).symm
  sound := List.forall_mem_map.mpr fun e he => (closeBlock_quiet c s e he).1
  content := content_others _
  calm := List.forall_mem_map.mpr fun e he => (closeBlock_quiet c s e he).2

theorem tells_text (i : Nat) {t : List Char} (ht : t ≠ []) :
    Tells c [.blockDelta i (.text (String.ofList t))] t [.text i t] where
  events := rfl
  sound := by simpa [Entry.Sound] using ht
  content := by simp [Entry.content]
  calm := by simp [Entry.Opens]

theorem tells_textStart (i : Nat) :
    Tells c [.blockStart i (.text "")] [] [.other (.blockStart i (.text ""))] where
  events := rfl
  sound := by simp [Entry.Sound]
  content := rfl
  calm := by simp [Entry.Opens]

theorem tells_nothing : Tells c [] [] [] where
  events := rfl
  sound := by simp
  content := rfl
  calm := by simp

theorem tells_say (t : List Char) (s : State) : ∃ L, Tells c (say c t s).1 t L := by
  rcases say_cases c t s with ⟨rfl, he⟩ | ⟨i, ht, -, he⟩ | ⟨ht, -, he⟩
  · rw [he]
    exact ⟨[], tells_nothing c⟩
  · rw [he]
    exact ⟨_, tells_text c i ht⟩
  · rw [he]
    exact ⟨_, (tells_closeBlock c s).append
      ((tells_textStart c s.nextIndex).append (tells_text c s.nextIndex ht))⟩

theorem issueAll_map_snd (supply : Supply) (n : Nat) (cs : List Call) :
    (issueAll supply n cs).map (·.2) = cs := by
  induction cs generalizing n with
  | nil => rfl
  | cons call cs ih => rw [issueAll, List.map_cons, ih]

theorem each_embedded {s : State} (hs : s.block = none) (cs : List Call) :
    (Emit.each (embedded c) cs s).1 = numbered s.nextIndex
      ((issueAll c.supply s.issued cs).map fun (id, call) =>
        .call id call.name (inputText c call)) := by
  induction cs generalizing s with
  | nil => rfl
  | cons call cs ih =>
    rw [Emit.each, Emit.andThen, embedded_eq, ih rfl, issueAll, List.map_cons, numbered,
      embeddedEvents_eq, closeBlock, hs]
    rfl

theorem each_embedded_cons (call : Call) (cs : List Call) (s : State) :
    (Emit.each (embedded c) (call :: cs) s).1 =
      (closeBlock c s).1 ++ (Emit.each (embedded c) (call :: cs) { s with block := none }).1 := by
  simp only [Emit.each, Emit.andThen, embedded_eq]
  simp [closeBlock]

theorem tells_calls {g : Grammar} {body : List Char} (hg : IsSpan g body)
    (hc : g.calls c.tools body ≠ []) (s : State) :
    ∃ L, Tells c (Emit.each (embedded c) (g.calls c.tools body) s).1
      (g.opening ++ body ++ g.closing) L := by
  obtain ⟨call, cs, he⟩ := List.exists_cons_of_ne_nil hc
  have hcalls : Tells c (Emit.each (embedded c) (g.calls c.tools body) { s with block := none }).1
      (g.opening ++ body ++ g.closing)
      [.markup (g.opening ++ body ++ g.closing) s.nextIndex
        (issueAll c.supply s.issued (g.calls c.tools body))] :=
    { events := by
        rw [each_embedded c rfl]
        simp [Entry.events]
      sound := by
        refine List.forall_mem_singleton.mpr ⟨g, body, hg, rfl, ?_, issueAll_map_snd _ _ _⟩
        rw [he, issueAll]
        simp
      content := by simp [Entry.content]
      calm := by simp [Entry.Opens] }
  -- the first call closes the block that was open
  have h := (tells_closeBlock c s).append hcalls
  rw [he] at h ⊢
  rw [each_embedded_cons]
  exact ⟨_, h⟩

theorem tells_segments {ss : List Segment} {r : List Char} (h : Spells c.tools ss r) (s : State) :
    ∃ L, Tells c (Emit.each (segment c) ss s).1 r L := by
  induction h generalizing s with
  | nil => exact ⟨[], tells_nothing c⟩
  | text t _ ih =>
    obtain ⟨L, hL⟩ := tells_say c t s
    obtain ⟨M, hM⟩ := ih (say c t s).2
    exact ⟨_, hL.append hM⟩
  | calls hs hc _ ih =>
    obtain ⟨L, hL⟩ := tells_calls c hs hc s
    obtain ⟨M, hM⟩ := ih _
    exact ⟨_, hL.append hM⟩

theorem tells_settle (s : State) : ∃ t L, Tells c (settle c s).1 t L ∧
    t ++ (settle c s).2.buffer = s.buffer ∧ Waiting (settle c s).2.buffer := by
  obtain ⟨r, hr, hz⟩ := drain_spells c.tools s.buffer
  have hw := waiting_held c.tools s.buffer
  rw [settle_eq]
  generalize drain c.tools s.buffer = d at hr hz hw ⊢
  obtain ⟨L, hL⟩ := tells_segments c hr { s with buffer := d.held }
  obtain ⟨M, hM⟩ := tells_say c d.settled
    (Emit.each (segment c) d.segments { s with buffer := d.held }).2
  have hb : (deliver c d { s with buffer := d.held }).2.buffer = d.held := by rw [blind_deliver]
  refine ⟨_, _, hL.append hM, ?_, ?_⟩
  · rw [hb, hz]
  · rwa [hb]

theorem ledger_settle (s : State) : ∃ L, Ledger c (settle c) s [] L := by
  obtain ⟨t, L, hL, hb, hw⟩ := tells_settle c s
  exact ⟨L, .of_tells hL (by rw [hb, List.append_nil]) fun _ => hw⟩

theorem flush_buffer (s : State) : (flush c s).2.buffer = [] := by
  obtain ⟨b, n, he⟩ := say_snd c s.buffer { s with buffer := [] }
  rw [flush, he]

theorem ledger_flush (s : State) : ∃ L, Ledger c (flush c) s [] L := by
  obtain ⟨L, hL⟩ := tells_say c s.buffer { s with buffer := [] }
  refine ⟨L, .of_tells hL ?_ fun _ => ?_⟩
  · rw [flush_buffer]
  · rw [flush_buffer]
    exact waiting_nil

/-! ## Chunks -/

theorem ledger_think (t : List Char) (s : State) : ∃ L, Ledger c (think c t) s [] L := by
  by_cases ht : t = []
  · subst ht
    exact ⟨[], .nothing c s⟩
  · rw [think_eq c ht]
    obtain ⟨L, hL⟩ := ledger_flush c s
    obtain ⟨M, hM⟩ := ledger_reflect c t (flush_buffer c s)
    exact ⟨_, hL.andThen hM⟩

theorem ledger_beginCall (slot : Nat) (id name : String) (s : State) :
    ∃ L, Ledger c (beginCall c slot id name) s [] L := by
  cases hc : continuesCall s slot id with
  | true => exact ⟨[], (Ledger.nothing c s).of_eq (beginCall_of_continues c name hc) rfl⟩
  | false =>
    obtain ⟨L, hL⟩ := ledger_flush c s
    obtain ⟨M, hM⟩ := ledger_openCall c slot id name (flush_buffer c s)
    exact ⟨_, (hL.andThen hM).of_eq (beginCall_of_new c name hc) rfl⟩

theorem ledger_fragment (f : Chat.CallFragment) (s : State) :
    ∃ L, Ledger c (fragment c f) s [] L := by
  have hheader : ∃ L, Ledger c (callHeader c f) s [] L := by
    unfold callHeader
    split
    · exact ledger_beginCall c f.index _ _ s
    · exact ⟨[], .nothing c s⟩
  obtain ⟨L, hL⟩ := hheader
  exact ⟨_, hL.andThen (ledger_addArguments c f.index _ _)⟩

theorem ledger_fragments (fs : List Chat.CallFragment) (s : State) :
    ∃ L, Ledger c (.each (fragment c) fs) s [] L := by
  induction fs generalizing s with
  | nil => exact ⟨[], .nothing c s⟩
  | cons f fs ih =>
    obtain ⟨L, hL⟩ := ledger_fragment c f s
    obtain ⟨M, hM⟩ := ih (fragment c f s).2
    exact ⟨_, hL.andThen hM⟩

theorem ledger_leaveCall (s : State) : ∃ L, Ledger c (leaveCall c) s [] L := by
  by_cases h : NoCall s
  · exact ⟨[], (Ledger.nothing c s).of_eq (leaveCall_of_noCall c h) rfl⟩
  · obtain ⟨L, hL⟩ := ledger_closeBlock c s
    refine ⟨L, hL.of_eq ?_ rfl⟩
    unfold leaveCall
    split
    · rfl
    · next hn => exact absurd hn h

theorem ledger_content (t : List Char) (s : State) : ∃ L, Ledger c (content c t) s t L := by
  by_cases ht : t = []
  · subst ht
    exact ⟨[], .nothing c s⟩
  · rw [content_eq c ht]
    obtain ⟨L, hL⟩ := ledger_leaveCall c s
    obtain ⟨u, M, hM, hb, hw⟩ := tells_settle c
      { (leaveCall c s).2 with buffer := (leaveCall c s).2.buffer ++ t }
    exact ⟨_, hL.andThen (.of_tells hM hb fun _ => hw)⟩

theorem ledger_choice (x : Chat.ChunkChoice) (s : State) :
    ∃ L, Ledger c (choice c x) s (x.delta.content.getD "").toList L := by
  have hreason := ledger_change c (m := fun s =>
    { s with finishReason := x.finishReason.or s.finishReason }) (s := s) rfl
  obtain ⟨L, hL⟩ := ledger_think c (x.delta.reasoning.getD "").toList (Emit.change _ s).2
  obtain ⟨M, hM⟩ := ledger_fragments c (x.delta.toolCalls.getD []) _
  obtain ⟨N, hN⟩ := ledger_content c (x.delta.content.getD "").toList _
  exact ⟨_, hreason.andThen (hL.andThen (hM.andThen hN))⟩

theorem ledger_chunk (k : Chat.Chunk) {s : State} (hf : s.finished = false) :
    ∃ L, Ledger c (chunk c k) s (said k).toList L := by
  obtain ⟨L, hL⟩ := ledger_start c s
  have husage : Ledger c (.change fun s => k.usage.elim s (record · s)) (start c s).2 [] [] := by
    refine ledger_change c ?_
    cases k.usage <;> rfl
  have hchoice : ∀ s, ∃ M,
      Ledger c (k.choices.head?.elim .nothing (choice c)) s (said k).toList M := by
    intro s
    unfold said
    cases k.choices.head? with
    | none => exact ⟨[], .nothing c s⟩
    | some x => exact ledger_choice c x s
  obtain ⟨M, hM⟩ := hchoice _
  exact ⟨_, (hL.andThen (husage.andThen hM)).of_eq (chunk_of_open c hf k) rfl⟩

theorem ledger_lastWords (s : State) : ∃ L, Ledger c (lastWords c) s [] L := by
  obtain ⟨A, hA⟩ := ledger_start c s
  obtain ⟨B, hB⟩ := ledger_settle c (start c s).2
  obtain ⟨C, hC⟩ := ledger_flush c (settle c (start c s).2).2
  obtain ⟨D, hD⟩ := ledger_closeBlock c (flush c (settle c (start c s).2).2).2
  exact ⟨_, hA.andThen (hB.andThen (hC.andThen hD))⟩

theorem lastWords_buffer (s : State) : (lastWords c s).2.buffer = [] := by
  simp only [lastWords, Emit.andThen, closeBlock_snd, flush_buffer]

theorem ledger_finish {s : State} (hf : s.finished = false) :
    ∃ L, Ledger c (finish c) s [] L := by
  obtain ⟨L, hL⟩ := ledger_lastWords c { s with finished := true }
  have hclosing : ∀ s, Ledger c (fun s => (closing s, s)) s [] ((closing s).map .other) := by
    intro s
    exact .of_others c (by simp [closing]) rfl (.inr (by simp [closing, Entry.Opens]))
  exact ⟨_, (hL.andThen (hclosing _)).of_eq (finish_of_open c hf) rfl⟩

/-! ## Whole runs -/

/-- The content that a stream receives until it is told to finish. -/
def received : List Input → List Char
  | [] => []
  | .start :: is => received is
  | .chunk k :: is => (said k).toList ++ received is
  | .finish :: _ => []

omit c in
theorem received_append {is : List Input} (h : .finish ∉ is) (js : List Input) :
    received (is ++ js) = received is ++ received js := by
  induction is with
  | nil => rfl
  | cons i is ih =>
    have h' := ih fun hm => h (List.mem_cons_of_mem i hm)
    cases i with
    | start => exact h'
    | chunk k => rw [List.cons_append, received, received, h', List.append_assoc]
    | finish => exact absurd List.mem_cons_self h

omit c in
theorem received_of_finish {is : List Input} (h : .finish ∈ is) (js : List Input) :
    received (is ++ js) = received is := by
  induction is with
  | nil => exact absurd h (by simp)
  | cons i is ih =>
    cases i with
    | start => exact ih (by simpa using h)
    | chunk k => rw [List.cons_append, received, received, ih (by simpa using h)]
    | finish => rfl

/-- The entries account for what a run has emitted and for what it has received. -/
structure Account (is : List Input) (L : List Entry) : Prop where
  events : (run c is initial).1 = L.flatMap (Entry.events c)
  sound : ∀ e ∈ L, e.Sound c.tools
  balance : L.flatMap Entry.content ++ (run c is initial).2.buffer = received is
  waiting : Waiting (run c is initial).2.buffer

theorem account_nil : Account c [] [] where
  events := rfl
  sound := by simp
  balance := rfl
  waiting := waiting_nil

variable {c} in
theorem Account.concat {is : List Input} {L : List Entry} (hL : Account c is L) {i : Input}
    {M : List Entry} {t : List Char} (hM : Ledger c (accept c i) (run c is initial).2 t M)
    (ht : received (is ++ [i]) = received is ++ t) : Account c (is ++ [i]) (L ++ M) where
  events := by
    rw [run_concat, Emit.andThen, hL.events, hM.events, List.flatMap_append]
  sound := List.forall_mem_append.mpr ⟨hL.sound, hM.sound⟩
  balance := by
    rw [run_concat, Emit.andThen, List.flatMap_append, List.append_assoc, hM.balance,
      ← List.append_assoc, hL.balance, ht]
  waiting := by
    rw [run_concat, Emit.andThen]
    exact hM.waiting hL.waiting

theorem ledger_accept (is : List Input) (i : Input) : ∃ t M,
    Ledger c (accept c i) (run c is initial).2 t M ∧ received (is ++ [i]) = received is ++ t := by
  have hfin := finished_run c is initial
  rcases stage_run c is with ⟨hf, -⟩ | ⟨hf, hst, -⟩
  · have hn : .finish ∉ is := fun hm => absurd (hfin.mpr (.inr hm)) (by simp [hf])
    rw [received_append hn]
    cases i with
    | start =>
      obtain ⟨M, hM⟩ := ledger_start c (run c is initial).2
      exact ⟨_, M, hM, rfl⟩
    | chunk k =>
      obtain ⟨M, hM⟩ := ledger_chunk c k hf
      exact ⟨_, M, hM, by simp [received]⟩
    | finish =>
      obtain ⟨M, hM⟩ := ledger_finish c hf
      exact ⟨_, M, hM, rfl⟩
  · have hm : .finish ∈ is := by simpa [initial] using hfin.mp hf
    rw [received_of_finish hm]
    exact ⟨[], [], (Ledger.nothing c _).of_eq (accept_of_finished c hf hst i) rfl, by simp⟩

theorem account_append (is : List Input) {L : List Entry} (hL : Account c is L) (js : List Input) :
    ∃ M, Account c (is ++ js) (L ++ M) := by
  induction js generalizing is L with
  | nil => exact ⟨[], by simpa using hL⟩
  | cons j js ih =>
    obtain ⟨t, M, hM, ht⟩ := ledger_accept c is j
    obtain ⟨N, hN⟩ := ih (is ++ [j]) (hL.concat hM ht)
    exact ⟨M ++ N, by simpa using hN⟩

theorem emptied_accept (i : Input) :
    (accept c i).Leads (fun _ s => s.finished = true → s.started = true ∧ s.buffer = [])
      (fun _ s => s.finished = true → s.started = true ∧ s.buffer = []) := by
  intro _ s hs hf
  cases hfin : s.finished with
  | true =>
    obtain ⟨hst, hb⟩ := hs hfin
    rw [accept_of_finished c hfin hst]
    exact ⟨hst, hb⟩
  | false =>
    rcases (finished_accept c i s).mp hf with h | rfl
    · rw [hfin] at h
      exact absurd h (by simp)
    · rw [accept, finish_of_open c hfin]
      exact ⟨(lastWords_snd c _).2.1, lastWords_buffer c _⟩

theorem buffer_of_finish {is : List Input} (h : .finish ∈ is) :
    (run c is initial).2.buffer = [] := by
  have hs := Emit.Leads.each (fun i (_ : i ∈ is) => emptied_accept c i) [] initial
    (fun hf => absurd hf (by simp [initial]))
  exact (hs ((finished_run c is initial).mpr (.inr h))).2

/-- **No content is lost.** At every point of a run, the text that was passed on, the spans of
markup that became calls and the buffer are together what was received, in order. What is in the
buffer may still become markup; at the end it is empty. Of a chunk that opens a block of thinking or
of a native call, nothing that was received before stands behind the start of that block. -/
theorem run_conserves (is : List Input) :
    ∃ L, Account c is L ∧ (.finish ∈ is → (run c is initial).2.buffer = []) ∧
      ∀ k, ∃ M, Account c (is ++ [.chunk k]) (L ++ M) ∧
        ∀ A e B, M = A ++ e :: B → e.Opens → (L ++ A).flatMap Entry.content = received is := by
  obtain ⟨L, hL⟩ : ∃ L, Account c is L := account_append c [] (account_nil c) is
  refine ⟨L, hL, buffer_of_finish c, fun k => ?_⟩
  obtain ⟨t, M, hM, ht⟩ := ledger_accept c is (.chunk k)
  refine ⟨M, hL.concat hM ht, fun A e B he ho => ?_⟩
  rw [List.flatMap_append, hM.timely A e B he ho, hL.balance]

end

end ChatGateway.Answer.Stream
