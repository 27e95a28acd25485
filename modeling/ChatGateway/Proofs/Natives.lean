import ChatGateway.Proofs.Agreement
import ChatGateway.Proofs.Assembly

/-!
# Runs whose content opens no markup

Where the content that is received opens no markup, a run starts no block of a call but for the
headers that arrive. If each header opens a call of its own, a client reads the native calls and no
others.
-/

namespace ChatGateway.Answer.Stream

open Markup Messages

/-! ## Starts of calls -/

def isCallStart : Event → Bool
  | .blockStart _ (.toolUse _ _ _) => true
  | _ => false

def starts (es : List Event) : Nat := es.countP isCallStart

theorem starts_append (es es' : List Event) : starts (es ++ es') = starts es + starts es' :=
  List.countP_append

/-- No markup begins in a text. -/
def Markless (z : List Char) : Prop := ∀ o ∈ openings, ¬ o <:+: z

instance : DecidablePred Markless := fun z =>
  inferInstanceAs (Decidable (∀ o ∈ openings, ¬ o <:+: z))

theorem Markless.mono {y z : List Char} (h : Markless z) (hy : y <:+: z) : Markless y :=
  fun o ho hi => h o ho (hi.trans hy)

theorem Markless.cutAny? {z : List Char} (h : Markless z) : Text.cutAny? openings z = none := by
  refine Text.cutAny?_eq_none_iff.mpr fun o ho => ?_
  exact (Text.clear_iff_absent (openings_angled.ne_nil ho)).mpr (h o ho)

/-- At most `k` calls have been started, and what is buffered is the end of the content `z`. -/
def Modest (k : Nat) (z : List Char) : Assertion :=
  fun h s => starts h ≤ k ∧ s.buffer <:+ z

section
variable (c : Setting)

theorem starts_closeBlock (s : State) : starts (closeBlock c s).1 = 0 := by
  unfold closeBlock
  split
  · rfl
  · next i b hb => cases b <;> rfl

theorem starts_say (t : List Char) (s : State) : starts (say c t s).1 = 0 := by
  rcases say_cases c t s with ⟨-, he⟩ | ⟨i, -, -, he⟩ | ⟨-, -, he⟩
  · rw [he]
    rfl
  · rw [he]
    rfl
  · rw [he, starts_append, starts_closeBlock]
    rfl

theorem starts_reflect (t : List Char) (s : State) : starts (reflect c t s).1 = 0 := by
  by_cases hb : ∃ i said, s.block = some (i, .thinking said)
  · obtain ⟨i, said, hb⟩ := hb
    rw [reflect_of_thinking c t hb]
    rfl
  · rw [reflect_of_other c t fun i said h => hb ⟨i, said, h⟩, starts_append, starts_closeBlock]
    rfl

variable {c} in
theorem modest_of_quiet {f : Emit} {k : Nat} {z : List Char} (hf : ∀ s, starts (f s).1 = 0)
    (hb : ∀ s, (f s).2.buffer = [] ∨ (f s).2.buffer = s.buffer) :
    f.Leads (Modest k z) (Modest k z) := by
  intro h s ⟨hk, hz⟩
  refine ⟨?_, ?_⟩
  · rw [starts_append, hf]
    exact hk
  · rcases hb s with he | he
    · exact he ▸ List.nil_suffix
    · exact he ▸ hz

section
variable {k : Nat} {z : List Char}

theorem modest_say (t : List Char) : (say c t).Leads (Modest k z) (Modest k z) := by
  refine modest_of_quiet (starts_say c t) fun s => .inr ?_
  obtain ⟨b, n, he⟩ := say_snd c t s
  rw [he]

theorem modest_flush : (flush c).Leads (Modest k z) (Modest k z) := by
  refine modest_of_quiet (fun s => starts_say c s.buffer _) fun s => .inl ?_
  obtain ⟨b, n, he⟩ := say_snd c s.buffer { s with buffer := [] }
  rw [flush, he]

theorem modest_think (t : List Char) : (think c t).Leads (Modest k z) (Modest k z) := by
  by_cases ht : t = []
  · rw [ht]
    exact .nothing _
  rw [think_eq c ht]
  refine (modest_flush c).andThen (modest_of_quiet (starts_reflect c t) fun s => .inr ?_)
  obtain ⟨b, n, he⟩ := reflect_snd c t s
  rw [he]

theorem modest_closeBlock : (closeBlock c).Leads (Modest k z) (Modest k z) := by
  refine modest_of_quiet (starts_closeBlock c) fun s => .inr ?_
  rw [closeBlock_snd]

theorem modest_start : (start c).Leads (Modest k z) (Modest k z) := by
  refine modest_of_quiet (fun s => ?_) fun s => .inr ?_
  · unfold start
    split <;> rfl
  · rw [start_snd]

theorem modest_openCall (slot : Nat) (id name : String) :
    (openCall c slot id name).Leads (Modest k z) (Modest (k + 1) z) := by
  intro h s ⟨hk, hz⟩
  rw [openCall_eq]
  refine ⟨?_, hz⟩
  rw [starts_append, starts_append, starts_closeBlock, Nat.zero_add]
  exact Nat.add_le_add_right hk 1

theorem modest_fragment (f : Chat.CallFragment) : (fragment c f).Leads (Modest k z)
    (Modest (k + if (opens? (.fragment f)).isSome then 1 else 0) z) := by
  have harguments : ∀ k, (addArguments f.index (argumentText f)).Leads (Modest k z) (Modest k z) := by
    intro k
    refine modest_of_quiet (fun s => rfl) fun s => .inr ?_
    obtain ⟨b, he⟩ := addArguments_snd f.index (argumentText f) s
    rw [he]
  refine Emit.Leads.andThen ?_ (harguments _)
  cases hf : header? f with
  | none =>
    rw [header?_none c hf, opens?_of_headless hf]
    exact .nothing _
  | some p =>
    obtain ⟨id, name⟩ := p
    rw [header?_some c hf, opens?_of_header hf]
    intro h s hs
    cases hc : continuesCall s f.index id with
    | true =>
      rw [beginCall_of_continues c name hc, List.append_nil]
      exact ⟨Nat.le_succ_of_le hs.1, hs.2⟩
    | false =>
      rw [beginCall_of_new c name hc]
      exact (modest_flush c).andThen (modest_openCall c f.index id name) h s hs

theorem modest_fragments (fs : List Chat.CallFragment) : (Emit.each (fragment c) fs).Leads
    (Modest k z) (Modest (k + (fs.map Arrival.fragment).countP fun a => (opens? a).isSome) z) := by
  induction fs generalizing k with
  | nil => exact .nothing _
  | cons f fs ih =>
    have hcount : k + ((f :: fs).map Arrival.fragment).countP (fun a => (opens? a).isSome) =
        k + (if (opens? (.fragment f)).isSome then 1 else 0) +
          (fs.map Arrival.fragment).countP fun a => (opens? a).isSome := by
      rw [List.map_cons, List.countP_cons]
      omega
    rw [hcount]
    exact (modest_fragment c f).andThen ih

theorem modest_settle (hz : Markless z) : (settle c).Leads (Modest k z) (Modest k z) := by
  intro h s ⟨hk, hb⟩
  have hdrain := drain_of_none c.tools (hz.mono hb.isInfix).cutAny?
  have hsettle : settle c s = say c (Text.splitHeld openings s.buffer).1
      { s with buffer := (Text.splitHeld openings s.buffer).2 } := by
    rw [settle_eq, hdrain, deliver, Emit.each, Emit.andThen, Emit.nothing, List.nil_append]
  have hheld : (Text.splitHeld openings s.buffer).2 <:+ s.buffer :=
    ⟨_, Text.splitHeld_append openings s.buffer⟩
  rw [hsettle]
  exact modest_say c _ h _ ⟨hk, hheld.trans hb⟩

theorem modest_content {t : List Char} (hz : Markless (z ++ t)) :
    (content c t).Leads (Modest k z) (Modest k (z ++ t)) := by
  by_cases ht : t = []
  · rw [ht, List.append_nil]
    exact .nothing _
  rw [content_eq c ht]
  refine Emit.Leads.andThen (Q := Modest k z) ?_ (.andThen (.change ?_) (modest_settle c hz))
  · intro h s hs
    unfold leaveCall
    split
    · exact modest_closeBlock c h s hs
    · rwa [List.append_nil]
  · intro h s ⟨hk, hb⟩
    obtain ⟨d, rfl⟩ := hb
    exact ⟨hk, d, by rw [List.append_assoc]⟩

/-! ## Whole runs -/

def headers (as : List Arrival) : Nat := as.countP fun a => (opens? a).isSome

theorem headers_append (as bs : List Arrival) : headers (as ++ bs) = headers as + headers bs :=
  List.countP_append

theorem headers_arrivalsOf (x : Chat.ChunkChoice) : headers (arrivalsOf x) =
    headers ((x.delta.toolCalls.getD []).map .fragment) := by
  have hother : ∀ p : Prop, [Decidable p] → headers (if p then [] else [.other]) = 0 := by
    intro p _
    split <;> rfl
  rw [arrivalsOf, headers_append, headers_append, hother, hother]
  omega

theorem modest_choice (x : Chat.ChunkChoice) (hz : Markless (z ++ (x.delta.content.getD "").toList)) :
    (choice c x).Leads (Modest k z)
      (Modest (k + headers (arrivalsOf x)) (z ++ (x.delta.content.getD "").toList)) := by
  rw [headers_arrivalsOf]
  exact .andThen (.change fun h s hs => hs) (.andThen (modest_think c _)
    (.andThen (modest_fragments c _) (modest_content c hz)))

theorem modest_chunk (x : Chat.Chunk) (hz : Markless (z ++ (said x).toList)) {h : List Event}
    {s : State} (hf : s.finished = false) (hs : Modest k z h s) :
    Modest (k + headers (x.choices.head?.elim [] arrivalsOf)) (z ++ (said x).toList)
      (h ++ (chunk c x s).1) (chunk c x s).2 := by
  rw [chunk_of_open c hf]
  refine Emit.Leads.andThen (modest_start c) (.andThen (Q := Modest k z) (.change ?_) ?_) h s hs
  · intro h s hs
    cases x.usage <;> exact hs
  · unfold said at hz ⊢
    cases hx : x.choices.head? with
    | none =>
      simp only [Option.bind_none, Option.getD_none, String.toList_empty, List.append_nil]
      exact .nothing _
    | some y =>
      rw [hx] at hz
      exact modest_choice c y hz

theorem modest_finish (hz : Markless z) {h : List Event} {s : State} (hf : s.finished = false)
    (hs : Modest k z h s) : Modest k z (h ++ (finish c s).1) (finish c s).2 := by
  have hwords : (lastWords c).Leads (Modest k z) (Modest k z) :=
    .andThen (modest_start c) (.andThen (modest_settle c hz)
      (.andThen (modest_flush c) (modest_closeBlock c)))
  obtain ⟨hstarts, hbuffer⟩ := hwords h { s with finished := true } hs
  rw [finish_of_open c hf]
  refine ⟨?_, hbuffer⟩
  rw [← List.append_assoc, starts_append]
  exact hstarts

end

/-- A run starts no more calls than headers arrive, if the content that it receives is markless. -/
theorem modest_run {is : List Input} (h : Markless (received is)) :
    Modest (headers (arrivals is)) (received is) (run c is initial).1 (run c is initial).2 := by
  induction is using List.reverseRecOn with
  | nil => exact ⟨Nat.le_refl 0, List.nil_suffix⟩
  | append_singleton is i ih =>
    have hfin := finished_run c is initial
    rw [run_concat, Emit.andThen]
    rcases stage_run c is with ⟨hf, -⟩ | ⟨hf, hst, -⟩
    · have hn : .finish ∉ is := fun hm => absurd (hfin.mpr (.inr hm)) (by simp [hf])
      rw [received_append hn] at h ⊢
      rw [arrivals_append hn, headers_append]
      have hs := ih (h.mono (List.prefix_append _ _).isInfix)
      cases i with
      | start =>
        rw [received, received, List.append_nil]
        exact modest_start c _ _ hs
      | chunk k =>
        rw [received, received, List.append_nil] at h ⊢
        rw [arrivals, arrivals, List.append_nil]
        exact modest_chunk c k h hf hs
      | finish =>
        rw [received, List.append_nil] at h ⊢
        exact modest_finish c h hf hs
    · have hm : .finish ∈ is := by simpa [initial] using hfin.mp hf
      rw [received_of_finish hm] at h ⊢
      rw [arrivals_of_finish hm, accept_of_finished c hf hst, List.append_nil]
      exact ih h

/-! ## What a client reads -/

def Item.call? : Item → Option (String × String)
  | .native _ n => some (n.name, streamedArguments c.tools n.name n.text)
  | .embedded _ _ call => some (call.name, inputText c call)
  | .plain _ => none

def nativeInputs (ns : List Native) : List (String × String) :=
  ns.map fun n => (n.name, streamedArguments c.tools n.name n.text)

theorem markedCalls_plain {e : Event} (h : (Item.plain e).Sound) (ms : List Mark) :
    markedCalls (eventMarks e ++ ms) = markedCalls ms := by
  unfold eventMarks
  split
  · next i id name input => exact absurd rfl (h.1 i id name input)
  · exact markedCalls_ink _ ms
  · next i t => exact absurd rfl (h.2 i t)
  · rfl

theorem markedCalls_items {L : List Item} (h : ∀ e ∈ L, e.Sound) :
    markedCalls ((L.flatMap (Item.events c)).flatMap eventMarks) = L.filterMap (Item.call? c) := by
  induction L with
  | nil => rfl
  | cons e L ih =>
    obtain ⟨he, hL⟩ := List.forall_mem_cons.mp h
    rw [List.flatMap_cons, List.flatMap_append]
    cases e with
    | native i n => exact congrArg (_ :: ·) (ih hL)
    | embedded i id call => exact congrArg (_ :: ·) (ih hL)
    | plain e =>
      rw [Item.events, List.flatMap_cons, List.flatMap_nil, List.append_nil,
        markedCalls_plain he, ih hL]
      rfl

theorem starts_items {L : List Item} (h : ∀ e ∈ L, e.Sound) :
    starts (L.flatMap (Item.events c)) = (L.filterMap (Item.call? c)).length := by
  induction L with
  | nil => rfl
  | cons e L ih =>
    obtain ⟨he, hL⟩ := List.forall_mem_cons.mp h
    rw [List.flatMap_cons, starts_append, ih hL]
    cases e with
    | native i n => exact Nat.add_comm 1 _
    | embedded i id call => exact Nat.add_comm 1 _
    | plain e =>
      have hnone : starts [e] = 0 := by
        cases e with
        | blockStart i b =>
          cases b with
          | toolUse id name input => exact absurd rfl (he.1 i id name input)
          | _ => rfl
        | _ => rfl
      rw [Item.events, hnone, Nat.zero_add]
      rfl

theorem natives_sublist (L : List Item) :
    (nativeInputs c (natives L)).Sublist (L.filterMap (Item.call? c)) := by
  induction L with
  | nil => exact List.Sublist.refl _
  | cons e L ih =>
    cases e with
    | native i n => exact ih.cons_cons _
    | embedded i id call => exact ih.cons _
    | plain e => exact ih

theorem current_finish {is : List Input} (h : .finish ∉ is) :
    current (run c (is ++ [.finish]) initial).2 = none := by
  obtain ⟨L, hL⟩ := assembled_run c (is ++ [.finish])
  have hcalls := congrArg Prod.snd hL.calls
  rw [arrivals_append h, arrivals, ← gather_none, gather_append, gather_other] at hcalls
  exact Option.map_eq_none_iff.mp hcalls.symm

/-- **Native calls only.** Where the content opens no markup and each header opens a call of its own,
a client reads the calls that arrived. -/
theorem callsOf_natives {is : List Input} (hn : .finish ∉ is) (hz : Markless (received is))
    (hh : headers (arrivals is) ≤ (calls (arrivals (is ++ [.finish]))).1.length) :
    callsOf (blocksOf (run c (is ++ [.finish]) initial).1) =
      nativeInputs c (calls (arrivals (is ++ [.finish]))).1 := by
  obtain ⟨L, hL⟩ := assembled_run c (is ++ [.finish])
  have hevents : (run c (is ++ [.finish]) initial).1 = L.flatMap (Item.events c) := by
    rw [hL.events, current_finish c hn, begun, List.append_nil]
  have hcalls : callsOf (blocksOf (run c (is ++ [.finish]) initial).1) =
      L.filterMap (Item.call? c) := by
    rw [← markedCalls_marks, marks_blocksOf (ended_finish c is), hevents,
      markedCalls_items c hL.sound]
  have hreceived : received (is ++ [.finish]) = received is := by
    rw [received_append hn, received, List.append_nil]
  have hstarts : starts (run c (is ++ [.finish]) initial).1 ≤ headers (arrivals is) := by
    have hz' : Markless (received (is ++ [.finish])) := hreceived.symm ▸ hz
    have hmodest := modest_run c hz'
    rw [arrivals_append hn, headers_append] at hmodest
    exact hmodest.1
  have hnatives : (calls (arrivals (is ++ [.finish]))).1 = natives L := congrArg Prod.fst hL.calls
  rw [hnatives] at hh ⊢
  -- no call is read but the native ones, since there are not more starts than these
  rw [hcalls]
  refine ((natives_sublist c L).eq_of_length_le ?_).symm
  rw [← starts_items c hL.sound, ← hevents, nativeInputs, List.length_map]
  exact hstarts.trans hh

end

end ChatGateway.Answer.Stream
