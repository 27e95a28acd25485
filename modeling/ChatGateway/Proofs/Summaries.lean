import ChatGateway.Proofs.Counting
import ChatGateway.Proofs.Natives

/-!
# The summary of a streamed message

The end of a message says why it ended and what it took. It is read off the whole run: the last
reason that a provider gave, whether a call was started anywhere, and of each count the last value
that a chunk brought, whatever came behind it.
-/

namespace ChatGateway.Answer.Stream

open Markup Messages

/-! ## What was given last -/

section
variable {α : Type}

def lastGiven (f : Chat.Chunk → Option α) (ks : List Chat.Chunk) : Option α :=
  (ks.filterMap f).getLast?

theorem lastGiven_concat (f : Chat.Chunk → Option α) (ks : List Chat.Chunk) (k : Chat.Chunk) :
    lastGiven f (ks ++ [k]) = (f k).or (lastGiven f ks) := by
  unfold lastGiven
  cases h : f k <;> simp [h]

end

def lastCount (f : Chat.Usage → Option Nat) (ks : List Chat.Chunk) : Option Nat :=
  lastGiven (fun k => k.usage.bind f) ks

/-- Of each count the last value; tokens that nobody counted are none. -/
def tallied (ks : List Chat.Chunk) : Usage where
  inputTokens := (lastCount (·.promptTokens) ks).getD 0
  outputTokens := (lastCount (·.completionTokens) ks).getD 0
  cacheCreation := lastCount (·.cacheCreation) ks
  cacheRead := lastCount (·.cachedTokens) ks

theorem counts_tallied (ks : List Chat.Chunk) (k : Chat.Chunk) :
    counts (tallied ks) k = tallied (ks ++ [k]) := by
  unfold counts tallied lastCount
  simp only [lastGiven_concat]
  cases k.usage with
  | none => rfl
  | some u => simp

/-! ## What has been noted -/

def endings (es : List Event) : List (Ending × Tally) :=
  es.filterMap fun e => match e with
    | .messageDelta e u => some (e, u)
    | _ => none

theorem endings_append (es es' : List Event) : endings (es ++ es') = endings es ++ endings es' :=
  List.filterMap_append

/-- It is known whether a call has been started, and the message has not ended. -/
def Noted : Assertion := fun h s => s.calledTool = h.any isCallStart ∧ endings h = []

section
variable (c : Setting)

theorem any_isCallStart {es : List Event} (h : starts es = 0) : es.any isCallStart = false := by
  rw [List.any_eq_false]
  intro e he
  simpa using List.countP_eq_zero.mp h e he

theorem endings_closeBlock (s : State) : endings (closeBlock c s).1 = [] := by
  unfold closeBlock
  split
  · rfl
  · next i b hb => cases b <;> rfl

theorem endings_start (s : State) : endings (start c s).1 = [] := by
  unfold start
  split <;> rfl

variable {c} in
theorem noted_of_quiet {f : Emit} (hs : ∀ s, starts (f s).1 = 0) (he : ∀ s, endings (f s).1 = [])
    (hf : ∀ s, (f s).2.calledTool = s.calledTool) : f.Leads Noted Noted := by
  intro h s ⟨hcalled, hnone⟩
  refine ⟨?_, by rw [endings_append, hnone, he, List.append_nil]⟩
  rw [hf, hcalled, List.any_append, any_isCallStart (hs s), Bool.or_false]

theorem noted_start : (start c).Leads Noted Noted := by
  refine noted_of_quiet (fun s => ?_) (endings_start c) fun s => by rw [start_snd]
  unfold start
  split <;> rfl

theorem noted_say (t : List Char) : (say c t).Leads Noted Noted := by
  refine noted_of_quiet (starts_say c t) (fun s => ?_) fun s => ?_
  · rcases say_cases c t s with ⟨-, he⟩ | ⟨i, -, -, he⟩ | ⟨-, -, he⟩
    · rw [he]
      rfl
    · rw [he]
      rfl
    · rw [he, endings_append, endings_closeBlock]
      rfl
  · obtain ⟨b, n, he⟩ := say_snd c t s
    rw [he]

theorem noted_reflect (t : List Char) : (reflect c t).Leads Noted Noted := by
  refine noted_of_quiet (starts_reflect c t) (fun s => ?_) fun s => ?_
  · by_cases hb : ∃ i said, s.block = some (i, .thinking said)
    · obtain ⟨i, said, hb⟩ := hb
      rw [reflect_of_thinking c t hb]
      rfl
    · rw [reflect_of_other c t fun i said h => hb ⟨i, said, h⟩, endings_append, endings_closeBlock]
      rfl
  · obtain ⟨b, n, he⟩ := reflect_snd c t s
    rw [he]

theorem kept_noted : Kept c Noted where
  buffer _ _ _ h := h
  record _ _ _ h := h
  reason _ _ _ h := h
  say t _ := noted_say c t
  reflect t _ := noted_reflect c t
  embedded call h s hs := by
    rw [embedded_eq]
    refine ⟨?_, by rw [endings_append, endings_append, hs.2, endings_closeBlock]; rfl⟩
    simp [embeddedEvents, isCallStart]
  openCall slot id name _ h s hs := by
    rw [openCall_eq]
    refine ⟨?_, by rw [endings_append, endings_append, hs.2, endings_closeBlock]; rfl⟩
    simp [isCallStart]
  arguments slot t := by
    refine noted_of_quiet (fun _ => rfl) (fun _ => rfl) fun s => ?_
    obtain ⟨b, he⟩ := addArguments_snd slot t s
    rw [he]
  close := by
    refine noted_of_quiet (starts_closeBlock c) (endings_closeBlock c) fun s => ?_
    rw [closeBlock_snd]

/-! ## Sums over a run -/

theorem reason_chunk {s : State} (hf : s.finished = false) (k : Chat.Chunk) :
    (chunk c k s).2.finishReason = (reasonOf k).or s.finishReason := by
  have hchoice : ∀ s, (k.choices.head?.elim .nothing (choice c) s).2.finishReason =
      (reasonOf k).or s.finishReason := by
    intro s
    unfold reasonOf
    cases k.choices.head? with
    | none => rfl
    | some x => exact (choice_counts c x s).2
  rw [chunk_of_open c hf, Emit.andThen, Emit.andThen, hchoice]
  simp only [Emit.change, start_snd]
  cases k.usage <;> rfl

/-- What a run has come to by the chunks that it has taken. -/
structure Summed (ks : List Chat.Chunk) (h : List Event) (s : State) : Prop where
  usage : s.usage = tallied ks
  reason : s.finishReason = lastGiven reasonOf ks
  called : s.calledTool = h.any isCallStart
  told : endings h = if s.finished then endings (closing s) else []

theorem Summed.start {ks : List Chat.Chunk} : (start c).Leads (Summed ks) (Summed ks) := by
  intro h s hs
  have hstarts : starts (Stream.start c s).1 = 0 := by
    unfold Stream.start
    split <;> rfl
  rw [start_snd]
  refine ⟨hs.usage, hs.reason, ?_, ?_⟩
  · rw [hs.called, List.any_append, any_isCallStart hstarts, Bool.or_false]
  · rw [endings_append, endings_start, List.append_nil, hs.told]
    rfl

theorem Summed.chunk {ks : List Chat.Chunk} (k : Chat.Chunk) {h : List Event} {s : State}
    (hf : s.finished = false) (hs : Summed ks h s) :
    Summed (ks ++ [k]) (h ++ (chunk c k s).1) (chunk c k s).2 := by
  have hnone : endings h = [] := by simpa [hf] using hs.told
  obtain ⟨hcalled, hend⟩ := (kept_noted c).chunk hf (noted_start c h s ⟨hs.called, hnone⟩) k
  refine ⟨?_, ?_, hcalled, ?_⟩
  · rw [usage_chunk c hf, hs.usage, counts_tallied]
  · rw [lastGiven_concat, ← hs.reason, reason_chunk c hf]
  · rw [hend, (chunk_flags c k hf).2]
    rfl

theorem Summed.finish {ks : List Chat.Chunk} {h : List Event} {s : State}
    (hf : s.finished = false) (hs : Summed ks h s) :
    Summed ks (h ++ (finish c s).1) (finish c s).2 := by
  have hnone : endings h = [] := by simpa [hf] using hs.told
  obtain ⟨hcalled, hend⟩ := (kept_noted c).lastWords
    (noted_start c h { s with finished := true } ⟨hs.called, hnone⟩)
  obtain ⟨hu, hr⟩ := lastWords_counts c { s with finished := true }
  obtain ⟨-, -, hfin⟩ := lastWords_snd c { s with finished := true }
  rw [finish_of_open c hf]
  refine ⟨hu.trans hs.usage, hr.trans hs.reason, ?_, ?_⟩
  · rw [← List.append_assoc, List.any_append, ← hcalled]
    simp [closing, isCallStart]
  · rw [← List.append_assoc, endings_append, hend, List.nil_append, hfin]
    rfl

theorem summed_run (is : List Input) :
    Summed (taken is) (run c is initial).1 (run c is initial).2 := by
  have hinitial : Summed [] [] initial := ⟨rfl, rfl, rfl, rfl⟩
  exact run_taken (P := Summed) (fun _ => Summed.start c) (fun _ k _ _ hf hs => hs.chunk c k hf)
    (fun _ _ _ hf hs => hs.finish c hf) is rfl hinitial

end

/-! ## What the end of a message says -/

/-- The chunks and the events of a message, in short. -/
structure Summarises (ks : List Chat.Chunk) (es : List Event) (e : Ending) (u : Tally) : Prop where
  cutShort : lastGiven reasonOf ks = some "length" → e.stopReason = some "max_tokens"
  called : lastGiven reasonOf ks ≠ some "length" →
    (∃ ev ∈ es, isCallStart ev = true) ∨ lastGiven reasonOf ks = some "tool_calls" ∨
      lastGiven reasonOf ks = some "function_call" → e.stopReason = some "tool_use"
  ended : lastGiven reasonOf ks ≠ some "length" → (∀ ev ∈ es, isCallStart ev = false) →
    lastGiven reasonOf ks ≠ some "tool_calls" → lastGiven reasonOf ks ≠ some "function_call" →
      e.stopReason = some "end_turn"
  input : u.inputTokens = some ((lastCount (·.promptTokens) ks).getD 0)
  output : u.outputTokens = (lastCount (·.completionTokens) ks).getD 0
  cacheCreation : u.cacheCreation = lastCount (·.cacheCreation) ks
  cacheRead : u.cacheRead = lastCount (·.cachedTokens) ks

theorem ofFinish_of_unknown {reason : Option String} (hl : reason ≠ some "length")
    (ht : reason ≠ some "tool_calls") (hf : reason ≠ some "function_call") :
    StopReason.ofFinish reason = .endTurn := by
  unfold StopReason.ofFinish
  split
  · exact absurd rfl hl
  · exact absurd rfl ht
  · exact absurd rfl hf
  · rfl

theorem final_of_called {reason : Option String} (h : reason ≠ some "length") :
    StopReason.final reason true = .toolUse := by
  by_cases ht : reason = some "tool_calls"
  · rw [ht]
    rfl
  by_cases hf : reason = some "function_call"
  · rw [hf]
    rfl
  rw [StopReason.final, ofFinish_of_unknown h ht hf]
  rfl

theorem final_of_asked {reason : Option String}
    (h : reason = some "tool_calls" ∨ reason = some "function_call") (called : Bool) :
    StopReason.final reason called = .toolUse := by
  rcases h with rfl | rfl <;> cases called <;> rfl

theorem Summed.summarises {ks : List Chat.Chunk} {es : List Event} {s : State}
    (h : Summed ks es s) : ∃ e u, endings (closing s) = [(e, u)] ∧ Summarises ks es e u := by
  refine ⟨_, _, rfl, ?_⟩
  refine
    { cutShort := fun hr => ?_
      called := fun hr hc => ?_
      ended := fun hr hc ht hf => ?_
      input := by rw [h.usage]; rfl
      output := by rw [h.usage]; rfl
      cacheCreation := by rw [h.usage]; rfl
      cacheRead := by rw [h.usage]; rfl }
  · rw [h.reason, hr]
    rfl
  · have hfinal : StopReason.final s.finishReason s.calledTool = .toolUse := by
      rw [h.reason]
      rcases hc with hstarted | hasked
      · rw [h.called, List.any_eq_true.mpr hstarted]
        exact final_of_called hr
      · exact final_of_asked hasked _
    rw [hfinal]
    rfl
  · have hnone : s.calledTool = false := by
      rw [h.called, List.any_eq_false]
      intro ev hev
      simp [hc ev hev]
    rw [h.reason, hnone, StopReason.final, ofFinish_of_unknown hr ht hf]
    rfl

/-- **The summary of a message.** At any point of a run each counter is the last value that a chunk
brought, whether or not the chunk had choices. The end of a message is told once, and it sums up
the whole run: its reason is the last that was given, if that is the length, or else the use of a
tool, if a call was started anywhere or the reason says so, or else the end of the turn, and its
counts are the counters. -/
theorem run_summarised (c : Setting) (is : List Input) :
    (run c is initial).2.usage = tallied (taken is) ∧
    (.finish ∉ is → endings (run c is initial).1 = []) ∧
    (.finish ∈ is → ∃ e u, endings (run c is initial).1 = [(e, u)] ∧
      Summarises (taken is) (run c is initial).1 e u) := by
  have h := summed_run c is
  have hfin := finished_run c is initial
  refine ⟨h.usage, fun hn => ?_, fun hm => ?_⟩
  · have hf : (run c is initial).2.finished = false := by
      rw [← Bool.not_eq_true, hfin]
      simpa [initial] using hn
    simpa [hf] using h.told
  · obtain ⟨e, u, he, hs⟩ := h.summarises
    refine ⟨e, u, ?_, hs⟩
    rw [h.told, if_pos (hfin.mpr (.inr hm)), he]

/-- A call that is complete only when the turn is said to end, and counts without choices. -/
def lateCall : List Input :=
  [.chunk { textChunk "<tool_call><function=f></function></tool_call" with
      usage := some ⟨some 3, some 1, none, none, none⟩ },
    .chunk ⟨"", "", 0, "", [⟨0, ⟨none, some ">", none, none⟩, some "stop"⟩], none⟩,
    .chunk ⟨"", "", 0, "", [], some ⟨none, some 5, none, some (some 2), none⟩⟩, .finish]

theorem run_summarised_lateCall : .finish ∈ lateCall ∧
    ∃ e, endings (run bare lateCall initial).1 = [(e, ⟨5, some 3, none, some 2⟩)] ∧
      e.stopReason = some "tool_use" := by
  have hfinish : .finish ∈ lateCall := by simp [lateCall]
  obtain ⟨e, u, he, hs⟩ := (run_summarised bare lateCall).2.2 hfinish
  have hcall : ∃ ev ∈ (run bare lateCall initial).1, isCallStart ev = true := by
    rw [← List.any_eq_true]
    decide +kernel
  have hu : u = ⟨5, some 3, none, some 2⟩ := by
    obtain ⟨output, input, cacheCreation, cacheRead⟩ := u
    rw [Tally.mk.injEq]
    exact ⟨hs.output, hs.input, hs.cacheCreation, hs.cacheRead⟩
  exact ⟨hfinish, e, hu ▸ he, hs.called (by decide) (.inl hcall)⟩

end ChatGateway.Answer.Stream
