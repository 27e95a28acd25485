import ChatGateway.Proofs.Cuts

/-!
# Reasoning that is passed on

All the reasoning that a stream receives goes out as the texts of thinking blocks, in order and
however often such a block is closed by what comes between. A block that has been closed is signed
by the digest of its own texts.
-/

namespace ChatGateway.Answer.Stream

open Markup Messages

/-! ## Reasoning received and emitted -/

def mused (k : Chat.Chunk) : String := (k.choices.head?.bind (·.delta.reasoning)).getD ""

/-- The reasoning that a stream receives until it is told to finish. -/
def reasoned (is : List Input) : List Char := (taken is).flatMap fun k => (mused k).toList

def thoughts (es : List Event) : List Char :=
  es.flatMap fun e => match e with
    | .blockDelta _ (.thinking t) => t.toList
    | _ => []

theorem thoughts_append (es es' : List Event) : thoughts (es ++ es') = thoughts es ++ thoughts es' :=
  List.flatMap_append

section
variable (c : Setting)

theorem thoughts_closeBlock (s : State) : thoughts (closeBlock c s).1 = [] := by
  unfold closeBlock
  split
  · rfl
  · next i b hb => cases b <;> rfl

theorem thoughts_start (s : State) : thoughts (start c s).1 = [] := by
  unfold start
  split <;> rfl

theorem thoughts_say (t : List Char) (s : State) : thoughts (say c t s).1 = [] := by
  rcases say_cases c t s with ⟨-, he⟩ | ⟨i, -, -, he⟩ | ⟨-, -, he⟩
  · rw [he]
    rfl
  · rw [he]
    rfl
  · rw [he, thoughts_append, thoughts_closeBlock]
    rfl

theorem thoughts_reflect (t : List Char) (s : State) : thoughts (reflect c t s).1 = t := by
  by_cases hb : ∃ i said, s.block = some (i, .thinking said)
  · obtain ⟨i, said, hb⟩ := hb
    rw [reflect_of_thinking c t hb]
    simp [thoughts]
  · rw [reflect_of_other c t fun i said h => hb ⟨i, said, h⟩, thoughts_append, thoughts_closeBlock]
    simp [thoughts]

/-- The reasoning `z` has been passed on. -/
def Thought (z : List Char) : Assertion := fun h _ => thoughts h = z

variable {c} in
theorem thought_of_quiet {f : Emit} (hf : ∀ s, thoughts (f s).1 = []) (z : List Char) :
    f.Leads (Thought z) (Thought z) := by
  intro h s hs
  rw [Thought, thoughts_append, hf, List.append_nil]
  exact hs

/-- Only reasoning is passed on as reasoning. -/
theorem carried_thought (z : List Char) : Carried c (Thought z) where
  buffer _ _ _ h := h
  say t _ := thought_of_quiet (thoughts_say c t) z
  embedded call := by
    refine thought_of_quiet (fun s => ?_) z
    rw [embedded_eq, thoughts_append, thoughts_closeBlock]
    rfl
  openCall slot id name _ := by
    refine thought_of_quiet (fun s => ?_) z
    rw [openCall_eq, thoughts_append, thoughts_closeBlock]
    rfl
  arguments slot t := thought_of_quiet (fun _ => rfl) z
  close := thought_of_quiet (thoughts_closeBlock c) z

theorem thought_think (z t : List Char) :
    (think c t).Leads (Thought z) (Thought (z ++ t)) := by
  by_cases ht : t = []
  · rw [ht, List.append_nil]
    exact .nothing _
  · refine (carried_thought c z).think ht fun h s hs => ?_
    rw [Thought, thoughts_append, thoughts_reflect, hs]

theorem thought_choice (x : Chat.ChunkChoice) (z : List Char) :
    (choice c x).Leads (Thought z) (Thought (z ++ (x.delta.reasoning.getD "").toList)) := by
  have hp := carried_thought c (z ++ (x.delta.reasoning.getD "").toList)
  exact .andThen (.change fun h s hs => hs)
    (.andThen (thought_think c z _) (.andThen (.each fun f _ => hp.fragment f) (hp.content _)))

theorem thought_chunk (k : Chat.Chunk) {z : List Char} {h : List Event} {s : State}
    (hf : s.finished = false) (hs : Thought z h s) :
    Thought (z ++ (mused k).toList) (h ++ (chunk c k s).1) (chunk c k s).2 := by
  have hchoice : (k.choices.head?.elim .nothing (choice c)).Leads (Thought z)
      (Thought (z ++ (mused k).toList)) := by
    unfold mused
    cases k.choices.head? with
    | none =>
      simp only [Option.bind_none, Option.getD_none, String.toList_empty, List.append_nil]
      exact .nothing _
    | some x => exact thought_choice c x z
  have hcount : (Emit.change fun s => k.usage.elim s (record · s)).Leads (Thought z) (Thought z) :=
    .change fun h s hs => hs
  rw [chunk_of_open c hf]
  exact (thought_of_quiet (thoughts_start c) z).andThen (hcount.andThen hchoice) h s hs

theorem thought_finish {z : List Char} {h : List Event} {s : State} (hf : s.finished = false)
    (hs : Thought z h s) : Thought z (h ++ (finish c s).1) (finish c s).2 := by
  have hwords := (carried_thought c z).lastWords
    (thought_of_quiet (thoughts_start c) z h { s with finished := true } hs)
  rw [finish_of_open c hf, ← List.append_assoc, Thought, thoughts_append, hwords]
  exact List.append_nil z

theorem thoughts_run (is : List Input) : thoughts (run c is initial).1 = reasoned is := by
  have hinitial : Thought ([].flatMap fun k => (mused k).toList) [] initial := rfl
  refine run_taken (P := fun ks => Thought (ks.flatMap fun k => (mused k).toList))
    (fun ks => thought_of_quiet (thoughts_start c) _) ?_
    (fun ks h s hf hs => thought_finish c hf hs) is rfl hinitial
  intro ks k h s hf hs
  rw [List.flatMap_append, List.flatMap_singleton]
  exact thought_chunk c k hf hs

end

/-! ## Blocks by their index -/

def deltasAt (i : Nat) (es : List Event) : List Delta :=
  es.filterMap fun e => match e with
    | .blockDelta j d => if j = i then some d else none
    | _ => none

/-- The indices of the thinking blocks that are started. -/
def musings (es : List Event) : List Nat :=
  es.filterMap fun e => match e with
    | .blockStart i (.thinking _ _) => some i
    | _ => none

def thinking? : Delta → Option String
  | .thinking t => some t
  | _ => none

def signature? : Delta → Option String
  | .signature t => some t
  | _ => none

def thoughtsAt (i : Nat) (es : List Event) : List String := (deltasAt i es).filterMap thinking?

def signaturesAt (i : Nat) (es : List Event) : List String := (deltasAt i es).filterMap signature?

theorem deltasAt_append (i : Nat) (es es' : List Event) :
    deltasAt i (es ++ es') = deltasAt i es ++ deltasAt i es' := List.filterMap_append

theorem musings_append (es es' : List Event) : musings (es ++ es') = musings es ++ musings es' :=
  List.filterMap_append

theorem deltasAt_cons (i j : Nat) (d : Delta) (es : List Event) :
    deltasAt i (.blockDelta j d :: es) =
      if j = i then d :: deltasAt i es else deltasAt i es := by
  by_cases h : j = i <;> simp [deltasAt, h]

theorem deltasAt_deltas (i j : Nat) (ds : List Delta) :
    deltasAt i (ds.map (.blockDelta j)) = if j = i then ds else [] := by
  induction ds with
  | nil => exact (ite_self _).symm
  | cons d ds ih =>
    rw [List.map_cons, deltasAt_cons, ih]
    split <;> rfl

theorem deltasAt_opened (i j : Nat) (w : Written) :
    deltasAt i (w.opened j) = if j = i then w.deltas else [] :=
  deltasAt_deltas i j w.deltas

theorem deltasAt_events (i j : Nat) (w : Written) :
    deltasAt i (w.events j) = if j = i then w.deltas else [] := by
  rw [Written.events, deltasAt_append, deltasAt_opened]
  simp [deltasAt]

theorem deltasAt_outside {ws : List Written} {i n : Nat} (h : i < n ∨ n + ws.length ≤ i) :
    deltasAt i (numbered n ws) = [] := by
  induction ws generalizing n with
  | nil => rfl
  | cons w ws ih =>
    rw [List.length_cons] at h
    have hn : n ≠ i := by omega
    have hrest : deltasAt i (numbered (n + 1) ws) = [] := ih (by omega)
    rw [numbered, deltasAt_append, deltasAt_events, if_neg hn, hrest, List.append_nil]

theorem deltasAt_numbered (front back : List Written) (w : Written) (n : Nat) :
    deltasAt (n + front.length) (numbered n (front ++ w :: back)) = w.deltas := by
  have hfront : deltasAt (n + front.length) (numbered n front) = [] :=
    deltasAt_outside (.inr (Nat.le_refl _))
  have hback : deltasAt (n + front.length) (numbered (n + front.length + 1) back) = [] :=
    deltasAt_outside (.inl (Nat.lt_succ_self _))
  rw [numbered_append, deltasAt_append, hfront, numbered, deltasAt_append, deltasAt_events, hback]
  simp

theorem start_mem_numbered {i : Nat} {b : ReplyBlock} {ws : List Written} {n : Nat}
    (h : .blockStart i b ∈ numbered n ws) :
    ∃ front w back, ws = front ++ w :: back ∧ i = n + front.length ∧ w.block = b := by
  induction ws generalizing n with
  | nil => exact absurd h List.not_mem_nil
  | cons w ws ih =>
    rw [numbered] at h
    rcases List.mem_append.mp h with h | h
    · obtain ⟨rfl, rfl⟩ : i = n ∧ b = w.block := by
        simpa [Written.events, Written.opened] using h
      exact ⟨[], w, ws, rfl, rfl, rfl⟩
    · obtain ⟨front, w', back, rfl, rfl, hb⟩ := ih h
      exact ⟨w :: front, w', back, rfl, by rw [List.length_cons]; omega, hb⟩

theorem stop_mem_numbered {i : Nat} {ws : List Written} {n : Nat}
    (h : .blockStop i ∈ numbered n ws) : i < n + ws.length := by
  induction ws generalizing n with
  | nil => exact absurd h List.not_mem_nil
  | cons w ws ih =>
    rw [numbered] at h
    rw [List.length_cons]
    rcases List.mem_append.mp h with h | h
    · have hi : i = n := by simpa [Written.events, Written.opened] using h
      omega
    · have := ih h
      omega

namespace Rear

variable {n : Nat} {rear : List Event}

theorem stop_not_mem (h : Rear n rear) (i : Nat) : .blockStop i ∉ rear := by
  cases h with
  | nothing => simp
  | growing h => simp [Written.opened]
  | ended e u => simp

theorem start_index (h : Rear n rear) {i : Nat} {b : ReplyBlock} (hs : .blockStart i b ∈ rear) :
    i = n := by
  cases h with
  | nothing => exact absurd hs List.not_mem_nil
  | @growing b' w h =>
    have hstart : i = n ∧ b = w.block := by simpa [Written.opened] using hs
    exact hstart.1
  | ended e u => simp at hs

theorem deltasAt_of_lt (h : Rear n rear) {i : Nat} (hi : i < n) : deltasAt i rear = [] := by
  cases h with
  | nothing => rfl
  | growing h => rw [deltasAt_opened, if_neg (by omega)]
  | ended e u => rfl

theorem thoughts_eq (h : Rear n rear) (hm : musings rear = []) : thoughts rear = [] := by
  cases h with
  | nothing => rfl
  | growing h =>
    cases h with
    | text h => simp [thoughts, Written.opened, List.flatMap_map]
    | thinking h hs => simp [musings, Written.opened] at hm
    | toolUse slot id name arguments => rfl
  | ended e u => rfl

end Rear

theorem Spoken.joined_ne {ts : List String} (h : Spoken ts) : joined ts ≠ "" := by
  obtain ⟨t, ts, rfl⟩ := List.exists_cons_of_ne_nil h.1
  refine ofList_ne_empty ?_
  have ht : t.toList ≠ [] := by simpa using h.2 t List.mem_cons_self
  simp [ht]

/-! ## Blocks of reasoning -/

/-- A block of reasoning that has been closed. -/
def Written.reasoning (ts : List String) : Written :=
  ⟨.thinking "" none, ts.map .thinking ++ [.signature (signature (joined ts))]⟩

theorem musings_reasoning (ts : List String) (n : Nat) :
    musings ((Written.reasoning ts).events n) = [n] := by
  simp [musings, Written.reasoning, Written.events, Written.opened]

theorem thoughts_reasoning (ts : List String) (n : Nat) :
    thoughts ((Written.reasoning ts).events n) = ts.flatMap String.toList := by
  simp [thoughts, Written.reasoning, Written.events, Written.opened, List.flatMap_map]

theorem thinking?_reasoning (ts : List String) :
    (Written.reasoning ts).deltas.filterMap thinking? = ts := by
  simp [Written.reasoning, thinking?, List.filterMap_map, Function.comp_def]

theorem signature?_reasoning (ts : List String) :
    (Written.reasoning ts).deltas.filterMap signature? = [signature (joined ts)] := by
  simp [Written.reasoning, signature?, List.filterMap_map, Function.comp_def]

theorem Complete.reasons {w : Written} (h : Complete w) :
    (∃ ts, Spoken ts ∧ w = .reasoning ts) ∨
      ∀ n, musings (w.events n) = [] ∧ thoughts (w.events n) = [] := by
  cases h with
  | text h =>
    refine .inr fun n => ⟨?_, ?_⟩
    · simp [musings, Written.events, Written.opened]
    · simp [thoughts, Written.events, Written.opened, List.flatMap_map]
  | thinking h => exact .inl ⟨_, h, rfl⟩
  | toolUse id name input => exact .inr fun n => ⟨rfl, rfl⟩

theorem thoughts_numbered {ws : List Written} (hws : ∀ w ∈ ws, Complete w) {n : Nat}
    (hm : musings (numbered n ws) = []) : thoughts (numbered n ws) = [] := by
  induction ws generalizing n with
  | nil => rfl
  | cons w ws ih =>
    obtain ⟨hw, hws⟩ := List.forall_mem_cons.mp hws
    rw [numbered, musings_append, List.append_eq_nil_iff] at hm
    rw [numbered, thoughts_append, ih hws hm.2, List.append_nil]
    rcases hw.reasons with ⟨ts, -, rfl⟩ | hquiet
    · rw [musings_reasoning] at hm
      exact absurd hm.1 (by simp)
    · exact (hquiet n).2

/-- The block of an index that a run starts as reasoning and stops, among the others. -/
structure Reflected (es : List Event) (i : Nat) (ts : List String) (front back : List Written)
    (rear : List Event) : Prop where
  index : i = front.length
  before : ∀ w ∈ front, Complete w
  spoken : Spoken ts
  behind : ∀ w ∈ back, Complete w
  last : Rear (front ++ .reasoning ts :: back).length rear
  events : ∃ m, es = .messageStart m :: (numbered 0 (front ++ .reasoning ts :: back) ++ rear)

theorem reflected_run (c : Setting) (is : List Input) {i : Nat}
    (hi : i ∈ musings (run c is initial).1) (hstop : .blockStop i ∈ (run c is initial).1) :
    ∃ ts front back rear, Reflected (run c is initial).1 i ts front back rear := by
  obtain ⟨t, s, hstart⟩ : ∃ t s, .blockStart i (.thinking t s) ∈ (run c is initial).1 := by
    obtain ⟨e, he, h⟩ := List.mem_filterMap.mp hi
    split at h
    · next j t s =>
      obtain rfl := Option.some.inj h
      exact ⟨t, s, he⟩
    · exact absurd h (by simp)
  rcases run_blocks c is with he | ⟨m, ws, rear, hws, hrear, he⟩
  · rw [he] at hi
    exact absurd hi (by simp [musings])
  rw [he] at hstart hstop
  -- the block has been stopped, so it is one of those that are complete
  have hlt : i < ws.length := by
    have h : .blockStop i ∈ numbered 0 ws := by
      simpa [hrear.stop_not_mem i] using hstop
    have := stop_mem_numbered h
    omega
  have hblock : .blockStart i (.thinking t s) ∈ numbered 0 ws := by
    rcases List.mem_append.mp (by simpa using hstart) with h | h
    · exact h
    · exact absurd (hrear.start_index h) (by omega)
  obtain ⟨front, w, back, rfl, hindex, hb⟩ := start_mem_numbered hblock
  obtain ⟨hfront, hw, hback⟩ : (∀ w ∈ front, Complete w) ∧ Complete w ∧ ∀ w ∈ back, Complete w := by
    simpa [or_imp, forall_and] using hws
  have hts : ∃ ts, Spoken ts ∧ w = .reasoning ts := by
    cases hw with
    | text h => exact absurd hb (by simp)
    | thinking h => exact ⟨_, h, rfl⟩
    | toolUse id name input => exact absurd hb (by simp [Written.call])
  obtain ⟨ts, hts, rfl⟩ := hts
  exact ⟨ts, front, back, rear, by omega, hfront, hts, hback, hrear, m, he⟩

namespace Reflected

variable {es : List Event} {i : Nat} {ts : List String} {front back : List Written}
  {rear : List Event}

theorem deltasAt_eq (h : Reflected es i ts front back rear) :
    deltasAt i es = (Written.reasoning ts).deltas := by
  obtain ⟨m, he⟩ := h.events
  have hblock := deltasAt_numbered front back (.reasoning ts) 0
  have hrear := h.last.deltasAt_of_lt (i := i) (by rw [h.index]; simp)
  rw [Nat.zero_add, ← h.index] at hblock
  rw [he, ← List.singleton_append, deltasAt_append, deltasAt_append, hblock, hrear]
  simp [deltasAt]

theorem thoughtsAt_eq (h : Reflected es i ts front back rear) : thoughtsAt i es = ts := by
  rw [thoughtsAt, h.deltasAt_eq, thinking?_reasoning]

theorem signaturesAt_eq (h : Reflected es i ts front back rear) :
    signaturesAt i es = [signature (joined ts)] := by
  rw [signaturesAt, h.deltasAt_eq, signature?_reasoning]

/-- If it is the only one, it holds all reasoning that is emitted. -/
theorem thoughts_eq (h : Reflected es i ts front back rear) (hi : musings es = [i]) :
    thoughts es = ts.flatMap String.toList := by
  obtain ⟨m, he⟩ := h.events
  have hsplit : es = [.messageStart m] ++ (numbered 0 front ++
      ((Written.reasoning ts).events i ++ (numbered (i + 1) back ++ rear))) := by
    rw [he, numbered_append, numbered, Nat.zero_add, ← h.index]
    simp
  obtain ⟨hfront, hback, hrear⟩ : musings (numbered 0 front) = [] ∧
      musings (numbered (i + 1) back) = [] ∧ musings rear = [] := by
    rw [hsplit] at hi
    simp only [musings_append, musings_reasoning] at hi
    have hlength := congrArg List.length hi
    simp only [List.length_append, List.length_singleton] at hlength
    refine ⟨?_, ?_, ?_⟩ <;> exact List.eq_nil_of_length_eq_zero (by omega)
  rw [hsplit]
  simp only [thoughts_append, thoughts_reasoning, thoughts_numbered h.before hfront,
    thoughts_numbered h.behind hback, h.last.thoughts_eq hrear]
  simp [thoughts]

end Reflected

theorem head?_whole (supply : Supply) (tools : List Tool) (model : String) {r : Chat.Reply}
    {x : Chat.Choice} (hx : r.choices.head? = some x) {t : String}
    (ht : x.message.reasoning = some t) (hne : t ≠ "") :
    (whole supply tools model r).content.head? = some (.thinking t (some (signature t))) := by
  have hreasoning : reasoningBlocks (some t) = [.thinking t (some (signature t))] := by
    rw [reasoningBlocks, if_neg (by simpa [String.isEmpty_iff] using hne)]
  simp [whole, hx, messageBlocks, ht, hreasoning]

/-- **Reasoning is conserved and signed.** The reasoning that is emitted is what has been received,
in order. Each block of it that has been stopped has one signature, that of its own texts together;
and if it is the only one, a whole reply with the same reasoning is signed alike. -/
theorem run_reasons (c : Setting) (is : List Input) :
    thoughts (run c is initial).1 = reasoned is ∧
    ∀ i ∈ musings (run c is initial).1, .blockStop i ∈ (run c is initial).1 →
      signaturesAt i (run c is initial).1 =
        [signature (joined (thoughtsAt i (run c is initial).1))] ∧
      (musings (run c is initial).1 = [i] → ∀ (supply : Supply) (tools : List Tool) (model : String)
        (r : Chat.Reply) (x : Chat.Choice), r.choices.head? = some x →
        x.message.reasoning = some (String.ofList (reasoned is)) →
        ∃ s, signaturesAt i (run c is initial).1 = [s] ∧
          (whole supply tools model r).content.head? =
            some (.thinking (String.ofList (reasoned is)) (some s))) := by
  have hconserved := thoughts_run c is
  refine ⟨hconserved, fun i hi hstop => ?_⟩
  obtain ⟨ts, front, back, rear, h⟩ := reflected_run c is hi hstop
  refine ⟨by rw [h.signaturesAt_eq, h.thoughtsAt_eq], fun honly supply tools model r x hx hr => ?_⟩
  have hall : String.ofList (reasoned is) = joined ts := by
    rw [← hconserved, h.thoughts_eq honly, joined]
  rw [hall] at hr ⊢
  exact ⟨_, h.signaturesAt_eq, head?_whole supply tools model hx hr h.spoken.joined_ne⟩

def thinkingChunk (t : String) : Chat.Chunk := .ofDelta ⟨none, none, some t, none⟩

/-- Reasoning in two chunks, and then an answer. -/
def pondering : List Input :=
  [.chunk (thinkingChunk "H"), .chunk (thinkingChunk "m"), .chunk (textChunk "So."), .finish]

def ponderedReply : Chat.Reply :=
  ⟨"", "", 0, "", [⟨0, ⟨none, some "So.", some "Hm", none⟩, none⟩], none⟩

theorem run_reasons_pondering :
    musings (run bare pondering initial).1 = [0] ∧
    thoughts (run bare pondering initial).1 = "Hm".toList ∧
    ∃ s, signaturesAt 0 (run bare pondering initial).1 = [s] ∧
      (whole bare.supply bare.tools "model" ponderedReply).content.head? =
        some (.thinking "Hm" (some s)) := by
  obtain ⟨hconserved, hsigned⟩ := run_reasons bare pondering
  have honly : musings (run bare pondering initial).1 = [0] := by decide +kernel
  have hstop : .blockStop 0 ∈ (run bare pondering initial).1 := by decide +kernel
  refine ⟨honly, hconserved, ?_⟩
  exact (hsigned 0 (by rw [honly]; simp) hstop).2 honly _ _ _ ponderedReply _ rfl rfl

end ChatGateway.Answer.Stream
