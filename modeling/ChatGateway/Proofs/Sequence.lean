import ChatGateway.Proofs.Emission

/-!
# The order of events

Whatever a stream is given and in whatever order, it emits the opening of the message, blocks one
after the other with ascending indices, and the end of the message. `Complete` and `Growing` say
what a block consists of, `Stage` what a run consists of.
-/

namespace ChatGateway.Answer.Stream

open Markup Messages

/-! ## Blocks as they are written -/

/-- How a block starts and what is added to it. -/
structure Written where
  block : ReplyBlock
  deltas : List Delta
deriving DecidableEq, Repr

namespace Written

def opened (index : Nat) (w : Written) : List Event :=
  .blockStart index w.block :: w.deltas.map (.blockDelta index)

def events (index : Nat) (w : Written) : List Event := w.opened index ++ [.blockStop index]

def call (id name input : String) : Written := ⟨.toolUse id name (.obj []), [.inputJson input]⟩

theorem opened_append (index : Nat) (b : ReplyBlock) (ds es : List Delta) :
    opened index ⟨b, ds⟩ ++ es.map (.blockDelta index) = opened index ⟨b, ds ++ es⟩ := by
  simp [opened]

end Written

theorem embeddedEvents_eq (index : Nat) (id name input : String) :
    embeddedEvents index id name input = (Written.call id name input).events index := rfl

/-- The events of blocks that stand one after the other, numbered from `first` on. -/
def numbered (first : Nat) : List Written → List Event
  | [] => []
  | w :: ws => w.events first ++ numbered (first + 1) ws

theorem numbered_append (n : Nat) (ws vs : List Written) :
    numbered n (ws ++ vs) = numbered n ws ++ numbered (n + ws.length) vs := by
  induction ws generalizing n with
  | nil => rfl
  | cons w ws ih =>
    rw [List.cons_append, numbered, ih, numbered, List.append_assoc, List.length_cons,
      Nat.add_assoc, Nat.add_comm 1]

def joined (ts : List String) : String := String.ofList (ts.flatMap String.toList)

/-- One text or more, and none of them empty. -/
def Spoken (ts : List String) : Prop := ts ≠ [] ∧ ∀ t ∈ ts, t ≠ ""

theorem ofList_ne_empty {t : List Char} (h : t ≠ []) : String.ofList t ≠ "" := by
  intro he
  exact h (by simpa using congrArg String.toList he)

theorem spoken_singleton {t : List Char} (h : t ≠ []) : Spoken [String.ofList t] :=
  ⟨by simp, by simpa using ofList_ne_empty h⟩

theorem Spoken.concat {ts : List String} (hts : Spoken ts) {t : List Char} (h : t ≠ []) :
    Spoken (ts ++ [String.ofList t]) :=
  ⟨by simp, List.forall_mem_append.mpr ⟨hts.2, (spoken_singleton h).2⟩⟩

/-- A block from its start to its stop: texts that are not empty, or thinking and its signature, or
the input of a call in one piece. -/
inductive Complete : Written → Prop where
  | text {ts : List String} (h : Spoken ts) : Complete ⟨.text "", ts.map .text⟩
  | thinking {ts : List String} (h : Spoken ts) :
    Complete ⟨.thinking "" none, ts.map .thinking ++ [.signature (signature (joined ts))]⟩
  | toolUse (id name input : String) : Complete (.call id name input)

inductive Growing : OpenBlock → Written → Prop where
  | text {ts : List String} (h : Spoken ts) : Growing .text ⟨.text "", ts.map .text⟩
  | thinking {ts : List String} (h : Spoken ts) {said : List Char}
    (hs : said = ts.flatMap String.toList) :
    Growing (.thinking said) ⟨.thinking "" none, ts.map .thinking⟩
  | toolUse (slot : Nat) (id name : String) (arguments : List Char) :
    Growing (.toolUse slot id name arguments) ⟨.toolUse id name (.obj []), []⟩

theorem Growing.complete (c : Setting) (i : Nat) {b : OpenBlock} {w : Written} (h : Growing b w) :
    ∃ w', Complete w' ∧ w.opened i ++ (lastDeltas c i b ++ [.blockStop i]) = w'.events i := by
  cases h with
  | text h => exact ⟨_, .text h, rfl⟩
  | thinking h hs =>
    refine ⟨_, .thinking h, ?_⟩
    rw [Written.events, ← Written.opened_append, List.append_assoc, hs]
    rfl
  | toolUse slot id name arguments =>
    exact ⟨_, .toolUse id name (streamedArguments c.tools name arguments), rfl⟩

theorem Growing.add_text {w : Written} (hg : Growing .text w) {t : List Char} (ht : t ≠ [])
    (i : Nat) : ∃ w', Growing .text w' ∧
      w.opened i ++ [.blockDelta i (.text (String.ofList t))] = w'.opened i := by
  cases hg with
  | text h =>
    refine ⟨_, .text (h.concat ht), ?_⟩
    rw [List.map_append, ← Written.opened_append]
    rfl

theorem Growing.add_thinking {said : List Char} {w : Written} (hg : Growing (.thinking said) w)
    {t : List Char} (ht : t ≠ []) (i : Nat) : ∃ w', Growing (.thinking (said ++ t)) w' ∧
      w.opened i ++ [.blockDelta i (.thinking (String.ofList t))] = w'.opened i := by
  cases hg with
  | thinking h hs =>
    refine ⟨_, .thinking (h.concat ht) (by simp [hs]), ?_⟩
    rw [List.map_append, ← Written.opened_append]
    rfl

/-! ## A message under way -/

/-- The blocks so far are complete, but for the open one. -/
def Underway (h : List Event) (s : State) : Prop :=
  ∃ m ws, (∀ w ∈ ws, Complete w) ∧
    ((s.block = none ∧ s.nextIndex = ws.length ∧ h = .messageStart m :: numbered 0 ws) ∨
      ∃ b w, Growing b w ∧ s.block = some (ws.length, b) ∧ s.nextIndex = ws.length + 1 ∧
        h = .messageStart m :: (numbered 0 ws ++ w.opened ws.length))

theorem Underway.growing {h : List Event} {s : State} (hu : Underway h s) {i : Nat} {b : OpenBlock}
    (hb : s.block = some (i, b)) :
    ∃ m ws w, (∀ w ∈ ws, Complete w) ∧ Growing b w ∧ i = ws.length ∧
      s.nextIndex = ws.length + 1 ∧
      h = .messageStart m :: (numbered 0 ws ++ w.opened ws.length) := by
  obtain ⟨m, ws, hws, ⟨hn, -, -⟩ | ⟨b', w, hg, hs, hx, he⟩⟩ := hu
  · rw [hn] at hb
    exact absurd hb (by simp)
  · rw [hs] at hb
    obtain ⟨rfl, rfl⟩ := Prod.mk.inj (Option.some.inj hb)
    exact ⟨m, ws, w, hws, hg, rfl, hx, he⟩

section
variable (c : Setting)

theorem Underway.close {h : List Event} {s : State} (hu : Underway h s) :
    ∃ m ws, (∀ w ∈ ws, Complete w) ∧ s.nextIndex = ws.length ∧
      h ++ (closeBlock c s).1 = .messageStart m :: numbered 0 ws := by
  cases hb : s.block with
  | none =>
    obtain ⟨m, ws, hws, ⟨-, hx, he⟩ | ⟨b, w, -, hs, -⟩⟩ := hu
    · exact ⟨m, ws, hws, hx, by simp [closeBlock, hb, he]⟩
    · rw [hs] at hb
      exact absurd hb (by simp)
  | some p =>
    obtain ⟨i, b⟩ := p
    obtain ⟨m, ws, w, hws, hg, rfl, hx, rfl⟩ := hu.growing hb
    obtain ⟨w', hw', he⟩ := hg.complete c ws.length
    refine ⟨m, ws ++ [w'], List.forall_mem_append.mpr ⟨hws, by simpa using hw'⟩, by simp [hx], ?_⟩
    simp only [closeBlock, hb, List.cons_append, List.append_assoc, he, numbered_append]
    simp [numbered]

theorem Underway.open {h : List Event} {s s' : State} (hu : Underway h s) {b : OpenBlock}
    {w : Written} (hg : Growing b w) (hb : s'.block = some (s.nextIndex, b))
    (hx : s'.nextIndex = s.nextIndex + 1) :
    Underway (h ++ ((closeBlock c s).1 ++ w.opened s.nextIndex)) s' := by
  obtain ⟨m, ws, hws, hn, he⟩ := hu.close c
  rw [hn] at hb hx ⊢
  refine ⟨m, ws, hws, .inr ⟨b, w, hg, hb, hx, ?_⟩⟩
  rw [← List.append_assoc, he, List.cons_append]

omit c in
theorem Underway.grow {h : List Event} {s s' : State} (hu : Underway h s) {i : Nat}
    {b b' : OpenBlock} (hb : s.block = some (i, b)) {es : List Event}
    (hg : ∀ w, Growing b w → ∃ w', Growing b' w' ∧ w.opened i ++ es = w'.opened i)
    (hb' : s'.block = some (i, b')) (hx : s'.nextIndex = s.nextIndex) :
    Underway (h ++ es) s' := by
  obtain ⟨m, ws, w, hws, hw, rfl, hn, rfl⟩ := hu.growing hb
  obtain ⟨w', hw', he⟩ := hg w hw
  refine ⟨m, ws, hws, .inr ⟨b', w', hw', hb', hx.trans hn, ?_⟩⟩
  rw [List.cons_append, List.append_assoc, he]

theorem underway_say {t : List Char} (ht : t ≠ []) : (say c t).Leads Underway Underway := by
  intro h s hu
  rcases say_cases c t s with ⟨hn, -⟩ | ⟨i, -, hb, he⟩ | ⟨-, -, he⟩
  · exact absurd hn ht
  · rw [he]
    exact hu.grow hb (fun w hw => hw.add_text ht i) hb rfl
  · rw [he]
    exact hu.open c (.text (spoken_singleton ht)) rfl rfl

theorem underway_reflect {t : List Char} (ht : t ≠ []) :
    (reflect c t).Leads Underway Underway := by
  intro h s hu
  by_cases hb : ∃ i said, s.block = some (i, .thinking said)
  · obtain ⟨i, said, hb⟩ := hb
    rw [reflect_of_thinking c t hb]
    exact hu.grow hb (fun w hw => hw.add_thinking ht i) rfl rfl
  · rw [reflect_of_other c t fun i said h => hb ⟨i, said, h⟩]
    exact hu.open c (.thinking (spoken_singleton ht) (by simp)) rfl rfl

theorem underway_embedded (call : Call) : (embedded c call).Leads Underway Underway := by
  intro h s hu
  rw [embedded_eq]
  obtain ⟨m, ws, hws, hn, he⟩ := hu.close c
  refine ⟨m, ws ++ [.call (call.issue c.supply s.issued).1 call.name (inputText c call)],
    List.forall_mem_append.mpr ⟨hws, by simpa using .toolUse _ _ _⟩, .inl ⟨rfl, by simp [hn], ?_⟩⟩
  rw [← List.append_assoc, he, numbered_append, embeddedEvents_eq, hn]
  simp [numbered]

theorem underway_arguments (slot : Nat) (t : List Char) :
    (addArguments slot t).Leads Underway Underway := by
  refine .change fun h s hu => ?_
  split
  · next i slot' id name arguments hb =>
    split
    · rw [← List.append_nil h]
      refine hu.grow hb (fun w hw => ?_) rfl rfl
      cases hw
      exact ⟨_, .toolUse slot' id name (arguments ++ t), List.append_nil _⟩
    · exact hu
  · exact hu

/-- **Blocks one after the other.** Whatever opens, fills or closes a block keeps the order. -/
theorem kept_underway : Kept c Underway where
  buffer _ _ _ h := h
  record _ _ _ h := h
  reason _ _ _ h := h
  say _ ht := underway_say c ht
  reflect _ ht := underway_reflect c ht
  embedded := underway_embedded c
  openCall slot id name _ h s hu := by
    rw [openCall_eq]
    exact hu.open c (.toolUse slot id name []) rfl rfl
  arguments := underway_arguments
  close h s hu := by
    obtain ⟨m, ws, hws, hn, he⟩ := hu.close c
    rw [closeBlock_snd]
    exact ⟨m, ws, hws, .inl ⟨rfl, hn, he⟩⟩

/-! ## Whole runs -/

def Open (h : List Event) (s : State) : Prop :=
  (h = [] ∧ s.started = false ∧ s.block = none ∧ s.nextIndex = 0) ∨
    (s.started = true ∧ Underway h s)

theorem Open.start {h : List Event} {s : State} (hs : Open h s) :
    Underway (h ++ (start c s).1) (start c s).2 := by
  rcases hs with ⟨rfl, hst, hb, hn⟩ | ⟨hst, hu⟩
  · obtain ⟨m, he⟩ := start_of_fresh c hst
    rw [he]
    exact ⟨m, [], by simp, .inl ⟨hb, hn, rfl⟩⟩
  · rw [start_of_started c hst, List.append_nil]
    exact hu

/-- A message from its start to its end. -/
def Ended (h : List Event) : Prop :=
  ∃ m ws e u, (∀ w ∈ ws, Complete w) ∧
    h = .messageStart m :: (numbered 0 ws ++ [.messageDelta e u, .messageStop])

theorem Open.finish {h : List Event} {s : State} (hs : Open h s) (hf : s.finished = false) :
    Ended (h ++ (finish c s).1) := by
  obtain ⟨hb, -, -⟩ := lastWords_snd c { s with finished := true }
  have hopen : Open h { s with finished := true } := hs
  obtain ⟨m, ws, hws, ⟨-, -, he⟩ | ⟨b, w, -, hb', -⟩⟩ :=
    (kept_underway c).lastWords (hopen.start c)
  · obtain ⟨e, u, hc⟩ : ∃ e u, closing (lastWords c { s with finished := true }).2 =
        [.messageDelta e u, .messageStop] := ⟨_, _, rfl⟩
    refine ⟨m, ws, e, u, hws, ?_⟩
    rw [finish_of_open c hf, ← List.append_assoc, he, hc]
    rfl
  · rw [hb] at hb'
    exact absurd hb' (by simp)

def Stage (h : List Event) (s : State) : Prop :=
  (s.finished = false ∧ Open h s) ∨ (s.finished = true ∧ s.started = true ∧ Ended h)

theorem stage_accept (i : Input) : (accept c i).Leads Stage Stage := by
  rintro h s (⟨hf, hs⟩ | ⟨hf, hst, he⟩)
  · cases i with
    | start =>
      refine .inl ⟨?_, .inr ⟨?_, hs.start c⟩⟩
      · rw [accept, start_snd]
        exact hf
      · rw [accept, start_snd]
    | chunk k =>
      obtain ⟨hst, hf'⟩ := chunk_flags c k hf
      exact .inl ⟨hf', .inr ⟨hst, (kept_underway c).chunk hf (hs.start c) k⟩⟩
    | finish =>
      obtain ⟨-, hst, hfin⟩ := lastWords_snd c { s with finished := true }
      refine .inr ⟨?_, ?_, hs.finish c hf⟩
      · rw [accept, finish_of_open c hf]
        exact hfin
      · rw [accept, finish_of_open c hf]
        exact hst
  · rw [accept_of_finished c hf hst, List.append_nil]
    exact .inr ⟨hf, hst, he⟩

theorem stage_run (is : List Input) : Stage (run c is initial).1 (run c is initial).2 :=
  Emit.Leads.each (fun i _ => stage_accept c i) [] initial
    (.inl ⟨rfl, .inl ⟨rfl, rfl, rfl, rfl⟩⟩)

theorem ended_finish (is : List Input) : Ended (run c (is ++ [.finish]) initial).1 := by
  have hfin : (run c (is ++ [.finish]) initial).2.finished = true :=
    (finished_run c _ initial).mpr (.inr (by simp))
  rcases stage_run c (is ++ [.finish]) with ⟨hf, -⟩ | ⟨-, -, he⟩
  · rw [hfin] at hf
    exact absurd hf (by simp)
  · exact he

end

/-- What was emitted before the end: nothing, or complete blocks and at most one that is open. -/
def Unended (h : List Event) : Prop :=
  h = [] ∨ ∃ m ws, (∀ w ∈ ws, Complete w) ∧
    (h = .messageStart m :: numbered 0 ws ∨
      ∃ b w, Growing b w ∧ h = .messageStart m :: (numbered 0 ws ++ w.opened ws.length))

theorem Open.unended {h : List Event} {s : State} (hs : Open h s) : Unended h := by
  rcases hs with ⟨rfl, -⟩ | ⟨-, m, ws, hws, ⟨-, -, he⟩ | ⟨b, w, hg, -, -, he⟩⟩
  · exact .inl rfl
  · exact .inr ⟨m, ws, hws, .inl he⟩
  · exact .inr ⟨m, ws, hws, .inr ⟨b, w, hg, he⟩⟩

/-- What may stand behind blocks that are complete: a block that is still open, or the end. -/
inductive Rear (n : Nat) : List Event → Prop where
  | nothing : Rear n []
  | growing {b : OpenBlock} {w : Written} (h : Growing b w) : Rear n (w.opened n)
  | ended (e : Ending) (u : Tally) : Rear n [.messageDelta e u, .messageStop]

theorem run_blocks (c : Setting) (is : List Input) :
    (run c is initial).1 = [] ∨ ∃ m ws rear, (∀ w ∈ ws, Complete w) ∧ Rear ws.length rear ∧
      (run c is initial).1 = .messageStart m :: (numbered 0 ws ++ rear) := by
  rcases stage_run c is with ⟨-, hopen⟩ | ⟨-, -, m, ws, e, u, hws, he⟩
  · rcases hopen.unended with he | ⟨m, ws, hws, he | ⟨b, w, hg, he⟩⟩
    · exact .inl he
    · exact .inr ⟨m, ws, [], hws, .nothing, by rw [he, List.append_nil]⟩
    · exact .inr ⟨m, ws, _, hws, .growing hg, he⟩
  · exact .inr ⟨m, ws, _, hws, .ended e u, he⟩

/-- **The order of events.** A run that was not told to finish has emitted complete blocks and at
most one open block behind the start of the message; one that was has emitted a whole message, and
emits nothing more whatever it is given. -/
theorem run_sequenced (c : Setting) (is : List Input) :
    (.finish ∉ is ∧ Unended (run c is initial).1) ∨
      (.finish ∈ is ∧ Ended (run c is initial).1 ∧
        ∀ js, (run c (is ++ js) initial).1 = (run c is initial).1) := by
  have hfin := finished_run c is initial
  rcases stage_run c is with ⟨hf, hs⟩ | ⟨hf, hst, he⟩
  · refine .inl ⟨fun hm => absurd (hfin.mpr (.inr hm)) (by simp [hf]), hs.unended⟩
  · refine .inr ⟨?_, he, fun js => ?_⟩
    · simpa [initial] using hfin.mp hf
    · rw [run_append, Emit.andThen, run_of_finished c hf hst, List.append_nil]

end ChatGateway.Answer.Stream
