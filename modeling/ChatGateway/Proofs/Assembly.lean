import ChatGateway.Proofs.Arguments
import ChatGateway.Proofs.Arrivals
import ChatGateway.Proofs.Cuts
import Mathlib.Data.List.Basic
import Mathlib.Data.List.Induction

/-!
# Native calls in what is emitted

A run emits exactly the native calls that arrive, each in a block whose one input is what the text of
the call spells (`Assembled`). `Gathers` says this of one step, `Ends` of steps to which nothing
arrives but what ends the open call.
-/

namespace ChatGateway.Answer.Stream

open Markup Messages

/-! ## Calls in what is emitted -/

/-- A part of the events: the block of a native call or of an embedded one, or an event that has
nothing to do with calls. -/
inductive Item where
  | native (index : Nat) (n : Native)
  | embedded (index : Nat) (id : String) (call : Call)
  | plain (e : Event)

namespace Item

def events (c : Setting) : Item → List Event
  | .native i n => [.blockStart i (.toolUse n.id n.name (.obj [])),
      .blockDelta i (.inputJson (streamedArguments c.tools n.name n.text)), .blockStop i]
  | .embedded i id call => embeddedEvents i id call.name (inputText c call)
  | .plain e => [e]

/-- All starts of calls and all inputs are accounted for as calls. -/
def Sound : Item → Prop
  | .plain e => (∀ i id name input, e ≠ .blockStart i (.toolUse id name input)) ∧
      ∀ i t, e ≠ .blockDelta i (.inputJson t)
  | _ => True

end Item

def natives : List Item → List Native
  | [] => []
  | .native _ n :: L => n :: natives L
  | _ :: L => natives L

theorem natives_append (L M : List Item) : natives (L ++ M) = natives L ++ natives M := by
  induction L with
  | nil => rfl
  | cons e L ih => cases e <;> simp [natives, ih]

theorem mem_natives {n : Native} {L : List Item} : n ∈ natives L ↔ ∃ i, .native i n ∈ L := by
  induction L with
  | nil => simp [natives]
  | cons e L ih => cases e <;> simp [natives, ih, exists_or]

theorem natives_plain (es : List Event) : natives (es.map .plain) = [] := by
  induction es with
  | nil => rfl
  | cons e es ih => exact ih

theorem events_plain (c : Setting) (es : List Event) :
    (es.map Item.plain).flatMap (Item.events c) = es := by
  induction es with
  | nil => rfl
  | cons e es ih => exact congrArg (e :: ·) ih

def current (s : State) : Option (Nat × Native) :=
  match s.block with
  | some (i, .toolUse slot id name arguments) => some (i, ⟨slot, id, name, arguments⟩)
  | _ => none

def begun : Option (Nat × Native) → List Event
  | none => []
  | some (i, n) => [.blockStart i (.toolUse n.id n.name (.obj []))]

/-- Items for a step to which this arrives in the state `s`. -/
structure Gathers (c : Setting) (f : Emit) (s : State) (as : List Arrival) (L : List Item) :
    Prop where
  sound : ∀ e ∈ L, e.Sound
  events : begun (current s) ++ (f s).1 = L.flatMap (Item.events c) ++ begun (current (f s).2)
  calls : gather ((current s).map (·.2)) as = (natives L, (current (f s).2).map (·.2))

namespace Gathers

variable {c : Setting} {f g : Emit} {s : State} {as bs : List Arrival} {L M : List Item}

theorem nothing (c : Setting) (s : State) : Gathers c .nothing s [] [] where
  sound := by simp
  events := List.append_nil _
  calls := rfl

theorem andThen (hf : Gathers c f s as L) (hg : Gathers c g (f s).2 bs M) :
    Gathers c (f.andThen g) s (as ++ bs) (L ++ M) where
  sound := List.forall_mem_append.mpr ⟨hf.sound, hg.sound⟩
  events := by
    rw [Emit.andThen, ← List.append_assoc, hf.events, List.append_assoc, hg.events,
      List.flatMap_append, List.append_assoc]
  calls := by
    rw [Emit.andThen, gather_append, hf.calls, hg.calls, natives_append]

theorem of_gather (hf : Gathers c f s as L)
    (h : gather ((current s).map (·.2)) bs = gather ((current s).map (·.2)) as) :
    Gathers c f s bs L where
  sound := hf.sound
  events := hf.events
  calls := h.trans hf.calls

theorem of_eq {s' : State} (hf : Gathers c f s' as L) (h : g s = f s')
    (hc : current s = current s') : Gathers c g s as L where
  sound := hf.sound
  events := by rw [h, hc, hf.events]
  calls := by rw [h, hc, hf.calls]

theorem silent (h : f s = ([], (f s).2)) (hc : current (f s).2 = current s) :
    Gathers c f s [] [] where
  sound := by simp
  events := by rw [h, hc, List.append_nil]; rfl
  calls := by rw [hc]; rfl

theorem of_plain (hs : current s = none) (hf : current (f s).2 = none)
    (he : ∀ e ∈ (f s).1, (Item.plain e).Sound) : Gathers c f s [] ((f s).1.map .plain) where
  sound := List.forall_mem_map.mpr he
  events := by rw [hs, hf, events_plain]; simp [begun]
  calls := by rw [hs, hf, natives_plain]; rfl

end Gathers

section
variable (c : Setting)

theorem current_closeBlock (s : State) : current (closeBlock c s).2 = none := by
  rw [closeBlock_snd]
  rfl

theorem gather_other (o : Option Native) : gather o [.other] = (o.toList, none) := by
  cases o <;> rfl

theorem closeBlock_of_current {s : State} {i : Nat} {n : Native} (h : current s = some (i, n)) :
    (closeBlock c s).1 =
      [.blockDelta i (.inputJson (streamedArguments c.tools n.name n.text)), .blockStop i] := by
  unfold current at h
  split at h
  · next j slot id name arguments hb =>
    obtain ⟨rfl, rfl⟩ := Prod.mk.inj (Option.some.inj h)
    simp [closeBlock, hb, lastDeltas]
  · exact absurd h (by simp)

theorem closeBlock_plain {s : State} (h : current s = none) :
    ∀ e ∈ (closeBlock c s).1, (Item.plain e).Sound := by
  unfold closeBlock
  split
  · simp
  · next i b hb =>
    cases b with
    | text => simp [lastDeltas, Item.Sound]
    | thinking said => simp [lastDeltas, Item.Sound]
    | toolUse slot id name arguments => simp [current, hb] at h

theorem gathers_closeBlock (s : State) : ∃ L, Gathers c (closeBlock c) s [.other] L ∧
    natives L = ((current s).map (·.2)).toList := by
  cases hs : current s with
  | none =>
    refine ⟨_, (Gathers.of_plain hs (current_closeBlock c s) (closeBlock_plain c hs)).of_gather ?_,
      natives_plain _⟩
    rw [hs]
    rfl
  | some p =>
    obtain ⟨i, n⟩ := p
    refine ⟨[.native i n], ⟨by simp [Item.Sound], ?_, ?_⟩, rfl⟩
    · rw [hs, current_closeBlock, closeBlock_of_current c hs]
      rfl
    · rw [hs, current_closeBlock]
      rfl

variable {c} in
theorem Gathers.closing {f : Emit} {s : State} {M : List Item}
    (he : (f s).1 = (closeBlock c s).1 ++ M.flatMap (Item.events c)) (hM : ∀ e ∈ M, e.Sound)
    (hn : natives M = []) (hf : current (f s).2 = none) : ∃ L, Gathers c f s [.other] L := by
  obtain ⟨L, hL, -⟩ := gathers_closeBlock c s
  refine ⟨L ++ M, List.forall_mem_append.mpr ⟨hL.sound, hM⟩, ?_, ?_⟩
  · rw [he, ← List.append_assoc, hL.events, hf, current_closeBlock, List.flatMap_append]
    simp [begun]
  · rw [hL.calls, natives_append, hn, hf, current_closeBlock, List.append_nil]

/-! ## Steps that may end a call -/

/-- A step that at most ends the open call, however often. -/
def Ends (f : Emit) : Prop := ∀ s, ∃ k L, Gathers c f s (List.replicate k .other) L

namespace Ends

variable {c} {f g : Emit}

theorem nothing : Ends c .nothing := fun s => ⟨0, [], .nothing c s⟩

theorem andThen (hf : Ends c f) (hg : Ends c g) : Ends c (f.andThen g) := by
  intro s
  obtain ⟨j, L, hL⟩ := hf s
  obtain ⟨k, M, hM⟩ := hg (f s).2
  refine ⟨j + k, L ++ M, ?_⟩
  rw [← List.replicate_append_replicate]
  exact hL.andThen hM

theorem each {α : Type} {f : α → Emit} (hf : ∀ a, Ends c (f a)) (as : List α) :
    Ends c (.each f as) := by
  induction as with
  | nil => exact nothing
  | cons a as ih => exact (hf a).andThen ih

end Ends

theorem current_of_text {s : State} {i : Nat} (h : s.block = some (i, .text)) :
    current s = none := by
  rw [current, h]

theorem current_of_thinking {s : State} {i : Nat} {said : List Char}
    (h : s.block = some (i, .thinking said)) : current s = none := by
  rw [current, h]

theorem ends_say (t : List Char) : Ends c (say c t) := by
  intro s
  rcases say_cases c t s with ⟨-, he⟩ | ⟨i, -, hb, he⟩ | ⟨-, -, he⟩
  · refine ⟨0, [], .silent (by rw [he]) (by rw [he])⟩
  · have hc : current (say c t s).2 = none := by rw [he]; exact current_of_text hb
    exact ⟨0, _, .of_plain (current_of_text hb) hc (by rw [he]; simp [Item.Sound])⟩
  · refine ⟨1, Gathers.closing (M := [.plain (.blockStart s.nextIndex (.text "")),
      .plain (.blockDelta s.nextIndex (.text (String.ofList t)))]) ?_ ?_ rfl ?_⟩
    · rw [he]
      rfl
    · simp [Item.Sound]
    · rw [he]
      exact current_of_text rfl

theorem ends_embedded (call : Call) : Ends c (embedded c call) := by
  intro s
  refine ⟨1, Gathers.closing (M := [.embedded s.nextIndex (call.issue c.supply s.issued).1 call])
    ?_ ?_ rfl ?_⟩
  · rw [embedded_eq]
    simp [Item.events]
  · simp [Item.Sound]
  · rw [embedded_eq]
    rfl

theorem ends_segment (g : Segment) : Ends c (segment c g) := by
  cases g with
  | text t => exact ends_say c t
  | calls cs => exact .each (ends_embedded c) cs

theorem ends_deliver (d : Drained) : Ends c (deliver c d) :=
  (Ends.each (ends_segment c) d.segments).andThen (ends_say c d.settled)

theorem ends_settle : Ends c (settle c) := by
  intro s
  obtain ⟨k, L, hL⟩ := ends_deliver c (drain c.tools s.buffer)
    { s with buffer := (drain c.tools s.buffer).held }
  exact ⟨k, L, hL.of_eq (settle_eq c s) rfl⟩

theorem ends_flush : Ends c (flush c) := by
  intro s
  obtain ⟨k, L, hL⟩ := ends_say c s.buffer { s with buffer := [] }
  exact ⟨k, L, hL.of_eq rfl rfl⟩

theorem gathers_reflect (t : List Char) (s : State) :
    ∃ L, Gathers c (reflect c t) s [.other] L := by
  by_cases hb : ∃ i said, s.block = some (i, .thinking said)
  · obtain ⟨i, said, hb⟩ := hb
    have he := reflect_of_thinking c t hb
    have hc : current (reflect c t s).2 = none := by rw [he]; exact current_of_thinking rfl
    refine ⟨_, (Gathers.of_plain (current_of_thinking hb) hc ?_).of_gather ?_⟩
    · rw [he]
      simp [Item.Sound]
    · rw [current_of_thinking hb]
      rfl
  · have he := reflect_of_other c t fun i said h => hb ⟨i, said, h⟩
    refine Gathers.closing (M := [.plain (.blockStart s.nextIndex (.thinking "" none)),
      .plain (.blockDelta s.nextIndex (.thinking (String.ofList t)))]) ?_ ?_ rfl ?_
    · rw [he]
      rfl
    · simp [Item.Sound]
    · rw [he]
      exact current_of_thinking rfl

/-! ## Fragments -/

theorem header?_none {f : Chat.CallFragment} (h : header? f = none) :
    callHeader c f = .nothing := by
  unfold header? at h
  unfold callHeader
  split at h <;> simp_all

theorem header?_some {f : Chat.CallFragment} {id name : String}
    (h : header? f = some (id, name)) : callHeader c f = beginCall c f.index id name := by
  unfold header? at h
  unfold callHeader
  split at h <;> simp_all

omit c in
theorem continuesCall_iff {f : Chat.CallFragment} {id name : String}
    (h : header? f = some (id, name)) (s : State) :
    continuesCall s f.index id = true ↔
      ∃ i n, current s = some (i, n) ∧ stays n.slot n.id (.fragment f) = true := by
  rcases hb : s.block with _ | ⟨i, b⟩
  · simp [continuesCall, current, hb]
  · cases b with
    | text => simp [continuesCall, current, hb]
    | thinking said => simp [continuesCall, current, hb]
    | toolUse slot id' name' arguments => simp [continuesCall, current, hb, stays, h]

theorem gather_singleton {o : Option Native} {a : Arrival}
    (h : ∀ n ∈ o, stays n.slot n.id a = false) : gather o [a] = (o.toList, opens? a) := by
  cases o with
  | none => rfl
  | some n => simp [gather, take, h n rfl]

/-- An arrival that ends the open call finds the same calls where it has been ended before. -/
theorem gather_replicate_append (k : Nat) {o : Option Native} {a : Arrival}
    (h : ∀ n ∈ o, stays n.slot n.id a = false) :
    gather o (List.replicate k .other ++ [a]) = gather o [a] := by
  induction k generalizing o with
  | zero => rfl
  | succ k ih =>
    have hnone : ∀ n ∈ (none : Option Native), stays n.slot n.id a = false := by simp
    rw [List.replicate_succ, List.cons_append, ← List.singleton_append, gather_append, gather_other,
      ih hnone, gather_singleton h, gather_singleton hnone]
    simp

theorem gather_replicate_snd (k : Nat) (o : Option Native) :
    (gather o (List.replicate k .other)).2 = o ∨ (gather o (List.replicate k .other)).2 = none := by
  cases k with
  | zero => exact .inl rfl
  | succ k =>
    rw [List.replicate_succ, ← List.singleton_append, gather_append, gather_other,
      gather_of_headless (by simp [opens?])]
    exact .inr rfl

def argumentText (f : Chat.CallFragment) : List Char := (f.arguments?.getD "").toList

theorem addArguments_of_current {s : State} {i : Nat} {n : Native} (h : current s = some (i, n))
    (f : Chat.CallFragment) :
    current (addArguments f.index (argumentText f) s).2 = some (i, n.grown [.fragment f]) := by
  unfold current at h
  split at h
  · next j slot id name arguments hb =>
    obtain ⟨rfl, rfl⟩ := Prod.mk.inj (Option.some.inj h)
    simp only [addArguments, Emit.change, hb]
    by_cases hslot : slot = f.index
    · subst hslot
      simp [current, Native.grown, argumentsFor, argumentText]
    · simp [current, hb, hslot, Ne.symm hslot, Native.grown, argumentsFor]
  · exact absurd h (by simp)

theorem addArguments_of_none {s : State} (h : current s = none) (slot : Nat) (t : List Char) :
    (addArguments slot t s).2 = s := by
  unfold current at h
  split at h
  · exact absurd h (by simp)
  · next hb =>
    simp only [addArguments, Emit.change]

theorem gathers_addArguments {f : Chat.CallFragment} {s : State}
    (h : ∀ i n, current s = some (i, n) → stays n.slot n.id (.fragment f) = true)
    (hf : current s = none → header? f = none) :
    Gathers c (addArguments f.index (argumentText f)) s [.fragment f] [] := by
  cases hs : current s with
  | none =>
    have hc := addArguments_of_none hs f.index (argumentText f)
    refine ⟨by simp, ?_, ?_⟩
    · rw [hc, hs]
      rfl
    · rw [hc, hs]
      exact gather_of_headless (by simpa using opens?_of_headless (hf hs))
  | some p =>
    obtain ⟨i, n⟩ := p
    have hc := addArguments_of_current hs f
    refine ⟨by simp, ?_, ?_⟩
    · rw [hc, hs]
      rfl
    · rw [hc, hs]
      exact gather_of_stays (by simpa using h i n hs)

theorem gathers_openCall {f : Chat.CallFragment} {id name : String}
    (hf : header? f = some (id, name)) {s : State}
    (h : ∀ n ∈ (current s).map (·.2), stays n.slot n.id (.fragment f) = false) :
    ∃ L, Gathers c ((openCall c f.index id name).andThen (addArguments f.index (argumentText f))) s
      [.fragment f] L := by
  obtain ⟨L, hL, hn⟩ := gathers_closeBlock c s
  have hevents := hL.events
  rw [current_closeBlock, begun, List.append_nil] at hevents
  have hopened : current (openCall c f.index id name s).2 =
      some (s.nextIndex, ⟨f.index, id, name, []⟩) := by rw [openCall_eq]; rfl
  have hc := addArguments_of_current hopened f
  refine ⟨L, hL.sound, ?_, ?_⟩
  · rw [Emit.andThen, hc, openCall_eq, ← hevents]
    simp [addArguments, Emit.change, begun, Native.grown]
  · rw [Emit.andThen, hc, hn]
    rw [gather_singleton h, opens?_of_header hf]
    simp [Native.grown]

theorem gathers_fragment (f : Chat.CallFragment) (s : State) :
    ∃ L, Gathers c (fragment c f) s [.fragment f] L := by
  have hfragment : fragment c f =
      (callHeader c f).andThen (addArguments f.index (argumentText f)) := rfl
  cases hf : header? f with
  | none =>
    have hstays : ∀ i n, current s = some (i, n) → stays n.slot n.id (.fragment f) = true :=
      fun i n _ => by rw [stays, hf]
    rw [hfragment, header?_none c hf]
    exact ⟨_, (Gathers.nothing c s).andThen (gathers_addArguments c hstays fun _ => hf)⟩
  | some p =>
    obtain ⟨id, name⟩ := p
    rw [hfragment, header?_some c hf]
    cases hc : continuesCall s f.index id with
    | true =>
      obtain ⟨i, n, hs, hstays⟩ := (continuesCall_iff hf s).mp hc
      have hopen : ∀ j m, current s = some (j, m) → stays m.slot m.id (.fragment f) = true := by
        intro j m hm
        rw [hs] at hm
        obtain ⟨rfl, rfl⟩ := Prod.mk.inj (Option.some.inj hm)
        exact hstays
      have hadd := gathers_addArguments c hopen fun hn => by
        rw [hs] at hn
        exact absurd hn (by simp)
      refine ⟨_, hadd.of_eq ?_ rfl⟩
      rw [Emit.andThen, beginCall_of_continues c name hc]
      simp
    | false =>
      have hends : ∀ n ∈ (current s).map (·.2), stays n.slot n.id (.fragment f) = false := by
        intro n hn
        obtain ⟨⟨i, m⟩, hm, rfl⟩ := Option.map_eq_some_iff.mp hn
        refine Bool.eq_false_iff.mpr fun h => ?_
        rw [(continuesCall_iff hf s).mpr ⟨i, m, hm, h⟩] at hc
        exact absurd hc (by simp)
      obtain ⟨k, L, hL⟩ := ends_flush c s
      -- flushing leaves the open call open, or ends it
      have hends' : ∀ n ∈ (current (flush c s).2).map (·.2),
          stays n.slot n.id (.fragment f) = false := by
        have hcalls := congrArg Prod.snd hL.calls
        simp only at hcalls
        rw [← hcalls]
        rcases gather_replicate_snd k ((current s).map (·.2)) with h | h
        · rw [h]; exact hends
        · rw [h]; simp
      obtain ⟨M, hM⟩ := gathers_openCall c hf hends'
      refine ⟨L ++ M, ((hL.andThen hM).of_gather (gather_replicate_append k hends).symm).of_eq
        ?_ rfl⟩
      simp only [Emit.andThen, beginCall_of_new c name hc, List.append_assoc]

theorem gathers_fragments (fs : List Chat.CallFragment) (s : State) :
    ∃ L, Gathers c (.each (fragment c) fs) s (fs.map .fragment) L := by
  induction fs generalizing s with
  | nil => exact ⟨[], .nothing c s⟩
  | cons f fs ih =>
    obtain ⟨L, hL⟩ := gathers_fragment c f s
    obtain ⟨M, hM⟩ := ih (fragment c f s).2
    exact ⟨_, hL.andThen hM⟩

/-! ## Chunks and the end -/

theorem gathers_think {t : List Char} (ht : t ≠ []) (s : State) :
    ∃ L, Gathers c (think c t) s [.other] L := by
  obtain ⟨k, L, hL⟩ := ends_flush c s
  obtain ⟨M, hM⟩ := gathers_reflect c t (flush c s).2
  rw [think_eq c ht]
  exact ⟨_, (hL.andThen hM).of_gather (gather_replicate_append k (fun _ _ => rfl)).symm⟩

theorem gathers_leaveCall (s : State) : ∃ L, Gathers c (leaveCall c) s [.other] L := by
  by_cases h : NoCall s
  · have hs : current s = none := by
      unfold current
      split
      · next i slot id name arguments hb => exact absurd hb (h i slot id name arguments)
      · rfl
    have he := leaveCall_of_noCall c h
    refine ⟨[], (Gathers.silent (by rw [he]) (by rw [he])).of_gather ?_⟩
    rw [hs]
    rfl
  · obtain ⟨L, hL, -⟩ := gathers_closeBlock c s
    refine ⟨L, hL.of_eq ?_ rfl⟩
    unfold leaveCall
    split
    · rfl
    · next hn => exact absurd hn h

theorem gathers_content {t : List Char} (ht : t ≠ []) (s : State) :
    ∃ L, Gathers c (content c t) s [.other] L := by
  obtain ⟨L, hL⟩ := gathers_leaveCall c s
  obtain ⟨k, M, hM⟩ := ends_settle c
    { (leaveCall c s).2 with buffer := (leaveCall c s).2.buffer ++ t }
  have hbuffer : Gathers c (.change fun s => { s with buffer := s.buffer ++ t }) (leaveCall c s).2
      [] [] := .silent rfl rfl
  rw [content_eq c ht]
  refine ⟨_, (hL.andThen (hbuffer.andThen hM)).of_gather ?_⟩
  -- behind the first end no call is open that could end again
  have hrest : gather none (List.replicate k .other) = ([], none) :=
    gather_of_headless (by simp [opens?])
  rw [List.nil_append, gather_append, gather_other, hrest]
  simp

theorem gathers_choice (x : Chat.ChunkChoice) (s : State) :
    ∃ L, Gathers c (choice c x) s (arrivalsOf x) L := by
  have hreason : Gathers c (.change fun s =>
      { s with finishReason := x.finishReason.or s.finishReason }) s [] [] := .silent rfl rfl
  have hthink : ∀ s, ∃ L, Gathers c (think c (x.delta.reasoning.getD "").toList) s
      (if x.delta.reasoning.getD "" = "" then [] else [.other]) L := by
    intro s
    split
    · next h => exact ⟨[], by rw [h]; exact .nothing c s⟩
    · next h => exact gathers_think c (by simpa using h) s
  have hcontent : ∀ s, ∃ L, Gathers c (content c (x.delta.content.getD "").toList) s
      (if x.delta.content.getD "" = "" then [] else [.other]) L := by
    intro s
    split
    · next h => exact ⟨[], by rw [h]; exact .nothing c s⟩
    · next h => exact gathers_content c (by simpa using h) s
  obtain ⟨L, hL⟩ := hthink (Emit.change _ s).2
  obtain ⟨M, hM⟩ := gathers_fragments c (x.delta.toolCalls.getD []) _
  obtain ⟨N, hN⟩ := hcontent _
  have h := hreason.andThen (hL.andThen (hM.andThen hN))
  rw [List.nil_append, ← List.append_assoc] at h
  exact ⟨_, h⟩

theorem gathers_start {s : State} (h : s.started = false → s.block = none) :
    ∃ L, Gathers c (start c) s [] L := by
  cases hst : s.started with
  | true =>
    have he := start_of_started c hst
    exact ⟨[], .silent (by rw [he]) (by rw [he])⟩
  | false =>
    obtain ⟨m, he⟩ := start_of_fresh c hst
    have hs : current s = none := by rw [current, h hst]
    have hc : current (start c s).2 = none := by rw [he]; exact hs
    exact ⟨_, .of_plain hs hc (by rw [he]; simp [Item.Sound])⟩

theorem gathers_chunk (k : Chat.Chunk) {s : State} (hf : s.finished = false)
    (h : s.started = false → s.block = none) :
    ∃ L, Gathers c (chunk c k) s (k.choices.head?.elim [] arrivalsOf) L := by
  obtain ⟨L, hL⟩ := gathers_start c h
  have husage : Gathers c (.change fun s => k.usage.elim s (record · s)) (start c s).2 [] [] := by
    refine .silent rfl ?_
    cases k.usage <;> rfl
  have hchoice : ∀ s, ∃ M, Gathers c (k.choices.head?.elim .nothing (choice c)) s
      (k.choices.head?.elim [] arrivalsOf) M := by
    intro s
    cases k.choices.head? with
    | none => exact ⟨[], .nothing c s⟩
    | some x => exact gathers_choice c x s
  obtain ⟨M, hM⟩ := hchoice _
  exact ⟨_, (hL.andThen (husage.andThen hM)).of_eq (chunk_of_open c hf k) rfl⟩

theorem gathers_finish {s : State} (hf : s.finished = false)
    (h : s.started = false → s.block = none) : ∃ L, Gathers c (finish c) s [.other] L := by
  obtain ⟨L, hL⟩ := gathers_start c (s := { s with finished := true }) h
  obtain ⟨k, M, hM⟩ := ((ends_settle c).andThen (ends_flush c)) (start c { s with finished := true }).2
  obtain ⟨N, hN, -⟩ := gathers_closeBlock c
    (((settle c).andThen (flush c)) (start c { s with finished := true }).2).2
  have hwords := (hL.andThen (hM.andThen hN)).of_gather
    (gather_replicate_append k (a := .other) (fun _ _ => rfl)).symm
  have hclosing : ∀ s, current s = none →
      Gathers c (fun s => (closing s, s)) s [] ((closing s).map .plain) := fun s hs =>
    .of_plain hs hs (by simp [closing, Item.Sound])
  have hlast := hclosing _ (current_closeBlock c
    (((settle c).andThen (flush c)) (start c { s with finished := true }).2).2)
  refine ⟨_, (hwords.andThen hlast).of_eq ?_ rfl⟩
  rw [finish_of_open c hf]
  simp [lastWords, Emit.andThen]

/-! ## Whole runs -/

/-- The items account for what a run has emitted, and for the calls in what has arrived. -/
structure Assembled (is : List Input) (L : List Item) : Prop where
  sound : ∀ e ∈ L, e.Sound
  events : (run c is initial).1 =
    L.flatMap (Item.events c) ++ begun (current (run c is initial).2)
  calls : calls (arrivals is) = (natives L, (current (run c is initial).2).map (·.2))

omit c in
theorem arrivals_append {is : List Input} (h : .finish ∉ is) (js : List Input) :
    arrivals (is ++ js) = arrivals is ++ arrivals js := by
  induction is with
  | nil => rfl
  | cons i is ih =>
    have h' := ih fun hm => h (List.mem_cons_of_mem i hm)
    cases i with
    | start => exact h'
    | chunk k => rw [List.cons_append, arrivals, arrivals, h', List.append_assoc]
    | finish => exact absurd List.mem_cons_self h

omit c in
theorem arrivals_of_finish {is : List Input} (h : .finish ∈ is) (js : List Input) :
    arrivals (is ++ js) = arrivals is := by
  induction is with
  | nil => exact absurd h (by simp)
  | cons i is ih =>
    cases i with
    | start => exact ih (by simpa using h)
    | chunk k => rw [List.cons_append, arrivals, arrivals, ih (by simpa using h)]
    | finish => rfl

theorem gathers_accept (is : List Input) (i : Input) : ∃ as L,
    Gathers c (accept c i) (run c is initial).2 as L ∧ arrivals (is ++ [i]) = arrivals is ++ as := by
  have hfin := finished_run c is initial
  rcases stage_run c is with ⟨hf, hopen⟩ | ⟨hf, hst, -⟩
  · have hn : .finish ∉ is := fun hm => absurd (hfin.mpr (.inr hm)) (by simp [hf])
    have hblock : (run c is initial).2.started = false → (run c is initial).2.block = none := by
      intro hst
      rcases hopen with ⟨-, -, hb, -⟩ | ⟨hst', -⟩
      · exact hb
      · rw [hst] at hst'
        exact absurd hst' (by simp)
    rw [arrivals_append hn]
    cases i with
    | start =>
      obtain ⟨L, hL⟩ := gathers_start c hblock
      exact ⟨_, L, hL, rfl⟩
    | chunk k =>
      obtain ⟨L, hL⟩ := gathers_chunk c k hf hblock
      exact ⟨_, L, hL, by simp [arrivals]⟩
    | finish =>
      obtain ⟨L, hL⟩ := gathers_finish c hf hblock
      exact ⟨_, L, hL, rfl⟩
  · have hm : .finish ∈ is := by simpa [initial] using hfin.mp hf
    rw [arrivals_of_finish hm]
    exact ⟨[], [], (Gathers.nothing c _).of_eq (accept_of_finished c hf hst i) rfl, by simp⟩

variable {c} in
theorem Assembled.concat {is : List Input} {L M : List Item} (hL : Assembled c is L) {i : Input}
    {as : List Arrival} (hM : Gathers c (accept c i) (run c is initial).2 as M)
    (ha : arrivals (is ++ [i]) = arrivals is ++ as) : Assembled c (is ++ [i]) (L ++ M) where
  sound := List.forall_mem_append.mpr ⟨hL.sound, hM.sound⟩
  events := by
    rw [run_concat, Emit.andThen, hL.events, List.append_assoc, hM.events, List.flatMap_append,
      List.append_assoc]
  calls := by
    rw [run_concat, Emit.andThen, ha, ← gather_none, gather_append, gather_none, hL.calls, hM.calls,
      natives_append]

theorem assembled_run (is : List Input) : ∃ L, Assembled c is L := by
  induction is using List.reverseRecOn with
  | nil => exact ⟨[], by simp, rfl, by rw [arrivals, Stream.calls]; rfl⟩
  | append_singleton is i ih =>
    obtain ⟨L, hL⟩ := ih
    obtain ⟨as, M, hM, ha⟩ := gathers_accept c is i
    exact ⟨_, hL.concat hM ha⟩

variable {c} in
theorem Assembled.exists_native {is : List Input} {L : List Item} (hL : Assembled c is L)
    {n : Native} (h : n ∈ (Stream.calls (arrivals is)).1) : ∃ i, .native i n ∈ L := by
  rw [hL.calls] at h
  exact mem_natives.mp h

/-! ## One input for each block -/

def inputsAt (i : Nat) (es : List Event) : List String :=
  es.filterMap fun e => match e with
    | .blockDelta j (.inputJson t) => if j = i then some t else none
    | _ => none

theorem inputsAt_append (i : Nat) (es es' : List Event) :
    inputsAt i (es ++ es') = inputsAt i es ++ inputsAt i es' := List.filterMap_append

omit c in
theorem inputsAt_complete {w : Written} (h : Complete w) (i j : Nat) :
    (inputsAt i (w.events j)).length ≤ if j = i then 1 else 0 := by
  cases h with
  | text h => simp [inputsAt, Written.events, Written.opened]
  | thinking h => simp [inputsAt, Written.events, Written.opened]
  | toolUse id name input =>
    by_cases hj : j = i
    · simp [inputsAt, Written.events, Written.opened, Written.call, hj]
    · simp [inputsAt, Written.events, Written.opened, Written.call, hj]

omit c in
theorem inputsAt_growing {b : OpenBlock} {w : Written} (h : Growing b w) (i j : Nat) :
    inputsAt i (w.opened j) = [] := by
  cases h <;> simp [inputsAt, Written.opened]

omit c in
theorem inputsAt_numbered {ws : List Written} (h : ∀ w ∈ ws, Complete w) (i n : Nat) :
    (inputsAt i (numbered n ws)).length ≤ if n ≤ i then 1 else 0 := by
  induction ws generalizing n with
  | nil => simp [numbered, inputsAt]
  | cons w ws ih =>
    obtain ⟨hw, hws⟩ := List.forall_mem_cons.mp h
    have hhead := inputsAt_complete hw i n
    have htail := ih hws (n + 1)
    rw [numbered, inputsAt_append, List.length_append]
    split at hhead <;> split at htail <;> split <;> omega

omit c in
theorem Rear.inputsAt_eq {n : Nat} {rear : List Event} (h : Rear n rear) (i : Nat) :
    inputsAt i rear = [] := by
  cases h with
  | nothing => rfl
  | growing h => exact inputsAt_growing h i n
  | ended e u => rfl

theorem inputsAt_run (is : List Input) (i : Nat) :
    (inputsAt i (run c is initial).1).length ≤ 1 := by
  rcases run_blocks c is with he | ⟨m, ws, rear, hws, hrear, he⟩
  · rw [he]
    exact Nat.zero_le 1
  · have h := inputsAt_numbered hws i 0
    rw [if_pos (Nat.zero_le i)] at h
    rw [he, ← List.singleton_append, inputsAt_append, inputsAt_append, hrear.inputsAt_eq]
    simpa [inputsAt] using h

variable {c} in
theorem Assembled.inputsAt {is : List Input} {L : List Item} (hL : Assembled c is L) {i : Nat}
    {n : Native} (h : .native i n ∈ L) :
    inputsAt i (run c is initial).1 = [streamedArguments c.tools n.name n.text] := by
  have hmem : streamedArguments c.tools n.name n.text ∈ Stream.inputsAt i (run c is initial).1 := by
    refine List.mem_filterMap.mpr ⟨.blockDelta i (.inputJson
      (streamedArguments c.tools n.name n.text)), ?_, by simp⟩
    rw [hL.events]
    exact List.mem_append_left _ (List.mem_flatMap.mpr ⟨_, h, by simp [Item.events]⟩)
  have hlen := inputsAt_run c is i
  obtain ⟨t, ht⟩ : ∃ t, Stream.inputsAt i (run c is initial).1 = [t] :=
    List.length_eq_one_iff.mp (Nat.le_antisymm hlen (List.length_pos_of_mem hmem))
  rw [ht] at hmem ⊢
  rw [List.mem_singleton.mp hmem]

theorem fragment_of_current {s : State} {i : Nat} {n : Native} (h : current s = some (i, n))
    {f : Chat.CallFragment} (hi : f.index = n.slot) (hid : f.id = some n.id) :
    (fragment c f s).1 = [] ∧
      current (fragment c f s).2 = some (i, n.grown [.fragment f]) := by
  have hheader : callHeader c f s = ([], s) := by
    cases hf : header? f with
    | none => rw [header?_none c hf]; rfl
    | some p =>
      obtain ⟨id, name⟩ := p
      have hid' : id = n.id := by
        unfold header? at hf
        split at hf
        · next id' name' hid' _ =>
          rw [hid'] at hid
          simp_all
        · exact absurd hf (by simp)
      rw [header?_some c hf]
      refine beginCall_of_continues c name ((continuesCall_iff hf s).mpr ⟨i, n, h, ?_⟩)
      simp [stays, hf, hi, hid']
  have hfragment : fragment c f s = addArguments f.index (argumentText f) s := by
    rw [fragment, Emit.andThen, hheader]
    rfl
  rw [hfragment]
  exact ⟨rfl, addArguments_of_current h f⟩

/-- **Native calls and their arguments.** The native calls that a run emits are those that can be
read off what arrived, in this order, and only the last may still be open. The block of each gets one
input, which is what its text spells: the text of the fragments for its slot, from the one that
opened the call until it ended. A fragment that repeats the slot and the id of the open call goes on
with it, and runs whose arguments are cut otherwise have the same calls. -/
theorem run_assembles (is : List Input) :
    (∃ L, Assembled c is L ∧ ∀ i n, .native i n ∈ L → ∀ out,
      inputsAt i (run c is initial).1 = [out] ↔ Spelled c.tools n.name n.text out) ∧
    (∀ i n f, current (run c is initial).2 = some (i, n) → f.index = n.slot → f.id = some n.id →
      (fragment c f (run c is initial).2).1 = [] ∧
        current (fragment c f (run c is initial).2).2 = some (i, n.grown [.fragment f])) ∧
    ∀ js as f g gs bs, Recut f g gs → arrivals is = as ++ .fragment f :: bs →
      arrivals js = as ++ (g :: gs).map .fragment ++ bs →
      ∀ L M, Assembled c is L → Assembled c js M → natives M = natives L := by
  refine ⟨?_, fun i n f h => fragment_of_current c h, ?_⟩
  · obtain ⟨L, hL⟩ := assembled_run c is
    refine ⟨L, hL, fun i n h out => ?_⟩
    rw [hL.inputsAt h, spelled_iff]
    simp
  · intro js as f g gs bs hr hi hj L M hL hM
    have hcalls : calls (arrivals js) = calls (arrivals is) := by rw [hi, hj, hr.calls_eq]
    rw [hL.calls, hM.calls] at hcalls
    exact (Prod.mk.inj hcalls).1

def calling (fs : List Chat.CallFragment) : List Input :=
  fs.map fun f => .chunk (.ofDelta ⟨none, none, none, some [f]⟩)

def twoSlots : List Chat.CallFragment :=
  [⟨0, some "t", none, some (some "f", some "[1")⟩, ⟨1, none, none, some (none, some "7")⟩]

def firstSlot (said : String) : Chat.CallFragment :=
  ⟨0, some "t", none, some (some "f", some said)⟩

theorem run_assembles_twoSlots :
    (∃ i, inputsAt i (run bare (calling (twoSlots ++ [firstSlot ",2]"]) ++ [.finish]) initial).1 =
      ["[1,2]"]) ∧
    (fragment bare (firstSlot ",2]") (run bare (calling twoSlots) initial).2).1 = [] ∧
    ∀ L M, Assembled bare (calling (twoSlots ++ [firstSlot ",2]"]) ++ [.finish]) L →
      Assembled bare (calling (twoSlots ++ [firstSlot ",", firstSlot "2]"]) ++ [.finish]) M →
      natives M = natives L := by
  obtain ⟨⟨L, hL, hspelled⟩, -, hcut⟩ :=
    run_assembles bare (calling (twoSlots ++ [firstSlot ",2]"]) ++ [.finish])
  have hcontinues := (run_assembles bare (calling twoSlots)).2.1
  refine ⟨?_, ?_, ?_⟩
  · have hcall : ⟨0, "t", "f", "[1,2]".toList⟩ ∈
        (calls (arrivals (calling (twoSlots ++ [firstSlot ",2]"]) ++ [.finish]))).1 := by
      decide +kernel
    obtain ⟨i, hi⟩ := hL.exists_native hcall
    have hread : Json.read (Text.trim "[1,2]".toList) = some (.arr [.ofNat 1, .ofNat 2]) := by
      decide +kernel
    have htext : (Tool.coerceArguments bare.tools "f" (.arr [.ofNat 1, .ofNat 2])).text =
        "[1,2]" := by decide +kernel
    have hout : Spelled bare.tools "f" "[1,2]".toList _ :=
      .plain hread (by simp [Json.Value.ofNat])
    rw [htext] at hout
    exact ⟨i, (hspelled i _ hi _).mpr hout⟩
  · have hopen : current (run bare (calling twoSlots) initial).2 =
        some (0, ⟨0, "t", "f", "[1".toList⟩) := by decide +kernel
    exact (hcontinues 0 _ (firstSlot ",2]") hopen rfl rfl).1
  · have hrecut : Recut (firstSlot ",2]") (firstSlot ",") [firstSlot "2]"] :=
      ⟨rfl, rfl, List.forall_mem_singleton.mpr ⟨rfl, .inr rfl⟩, by decide +kernel⟩
    exact hcut (calling (twoSlots ++ [firstSlot ",", firstSlot "2]"]) ++ [.finish])
      (twoSlots.map .fragment) _ _ _ [.other] hrecut rfl rfl

end

end ChatGateway.Answer.Stream
