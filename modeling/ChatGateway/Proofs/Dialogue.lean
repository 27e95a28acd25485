import ChatGateway.Outbound
import Mathlib.Tactic.ByContra

/-!
# Calls of tools and their results

A conversation is `Answered` if the results of tools stand directly behind the message that asks for
them, and nowhere else. What is sent to a provider for it is `Paired`: behind every message with
calls stand their results, each in a message of its own, and nothing comes between.
-/

namespace ChatGateway.Outbound

open Messages

/-! ## Conversations -/

def useId? : Block → Option String
  | .toolUse id _ _ => some id
  | _ => none

def resultId? : Block → Option String
  | .toolResult id _ _ => some id
  | _ => none

def asks (m : Message) : List String :=
  match m.role with
  | .user => []
  | .assistant => m.content.toBlocks.filterMap useId?

def answers (m : Message) : List String :=
  match m.role with
  | .user => m.content.toBlocks.filterMap resultId?
  | .assistant => []

/-- The results of tools are those that the message before asks for, in any order. -/
structure Answered (ms : List Message) : Prop where
  next : ∀ before m after, ms = before ++ m :: after → asks m ≠ [] →
    ∃ u rest, after = u :: rest ∧ u.role = .user ∧ (answers u).Perm (asks m)
  previous : ∀ before u after, ms = before ++ u :: after → answers u ≠ [] →
    ∃ front m, before = front ++ [m] ∧ asks m ≠ []

/-- The messages go on behind one that asks for the tools `wanted`. -/
def Continues : List String → List Message → Prop
  | pending, [] => pending = []
  | pending, m :: ms => (answers m).Perm pending ∧ Continues (asks m) ms

instance decidableContinues : (pending : List String) → (ms : List Message) →
    Decidable (Continues pending ms)
  | pending, [] => inferInstanceAs (Decidable (pending = []))
  | pending, m :: ms =>
    have := decidableContinues (asks m) ms
    inferInstanceAs (Decidable ((answers m).Perm pending ∧ Continues (asks m) ms))

def pending (ms : List Message) : List String := ms.getLast?.elim [] asks

theorem pending_concat (ms : List Message) (m : Message) : pending (ms ++ [m]) = asks m := by
  simp [pending]

theorem exists_of_pending {ms : List Message} (h : pending ms ≠ []) :
    ∃ front m, ms = front ++ [m] ∧ asks m = pending ms := by
  rcases List.eq_nil_or_concat ms with rfl | ⟨front, m, rfl⟩
  · exact absurd rfl h
  · rw [List.concat_eq_append, pending_concat]
    exact ⟨front, m, rfl, rfl⟩

theorem role_of_answers {m : Message} (h : answers m ≠ []) : m.role = .user := by
  unfold answers at h
  cases hr : m.role with
  | user => rfl
  | assistant => simp [hr] at h

theorem asks_of_user {m : Message} (h : m.role = .user) : asks m = [] := by
  unfold asks
  rw [h]

theorem Answered.continues {ms : List Message} (h : Answered ms) (rest front : List Message)
    (he : ms = front ++ rest) : Continues (pending front) rest := by
  induction rest generalizing front with
  | nil =>
    by_contra hp
    obtain ⟨f, m, rfl, hm⟩ := exists_of_pending hp
    rw [← hm] at hp
    obtain ⟨u, r, hr, -⟩ := h.next f m [] (by rw [he]; simp) hp
    exact absurd hr (by simp)
  | cons m rest ih =>
    have hrest := ih (front ++ [m]) (by rw [he]; simp)
    rw [pending_concat] at hrest
    refine ⟨?_, hrest⟩
    by_cases hp : pending front = []
    · have hm : answers m = [] := by
        by_contra hm
        obtain ⟨f, a, rfl, ha⟩ := h.previous front m rest he hm
        rw [pending_concat] at hp
        exact ha hp
      rw [hp, hm]
    · obtain ⟨f, a, rfl, ha⟩ := exists_of_pending hp
      rw [← ha] at hp ⊢
      obtain ⟨u, r, hr, -, hperm⟩ := h.next f a (m :: rest) (by rw [he]; simp) hp
      obtain ⟨rfl, -⟩ := List.cons.inj hr
      exact hperm

theorem Continues.next {wanted : List String} {ms : List Message} (h : Continues wanted ms)
    {before after : List Message} {m : Message} (he : ms = before ++ m :: after) :
    Continues (asks m) after := by
  induction before generalizing wanted ms with
  | nil =>
    subst he
    exact h.2
  | cons b before ih =>
    subst he
    exact ih h.2 rfl

theorem Continues.previous {wanted : List String} {ms : List Message} (h : Continues wanted ms)
    {before after : List Message} {u : Message} (he : ms = before ++ u :: after) :
    (answers u).Perm (before.getLast?.elim wanted asks) := by
  induction before generalizing wanted ms with
  | nil =>
    subst he
    exact h.1
  | cons b before ih =>
    subst he
    have hu := ih h.2 rfl
    cases before with
    | nil => exact hu
    | cons c before => simpa [List.getLast?_cons] using hu

theorem answered_iff {ms : List Message} : Answered ms ↔ Continues [] ms := by
  constructor
  · intro h
    exact h.continues ms [] rfl
  · intro h
    constructor
    · intro before m after he hm
      have hafter := h.next he
      cases after with
      | nil => exact absurd hafter hm
      | cons u rest =>
        have hu : answers u ≠ [] := fun hn => hm (List.perm_nil.mp (hn ▸ hafter.1.symm))
        exact ⟨u, rest, rfl, role_of_answers hu, hafter.1⟩
    · intro before u after he hu
      have hperm := h.previous he
      have hp : pending before ≠ [] := fun hn => hu (List.perm_nil.mp (hn ▸ hperm))
      obtain ⟨front, m, hb, hm⟩ := exists_of_pending hp
      exact ⟨front, m, hb, hm ▸ hp⟩

/-! ## What is sent -/

structure Paired (ms : List Chat.Message) : Prop where
  answered : ∀ before m after calls, ms = before ++ m :: after → m.toolCalls = some calls →
    m.role = .assistant ∧ ∃ results rest, after = results ++ rest ∧
      (∀ r ∈ results, r.role = .tool) ∧
      (results.map (·.toolCallId)).Perm (calls.map fun call => some call.id) ∧
      ∀ r ∈ rest.head?, r.role ≠ .tool
  asked : ∀ before r after, ms = before ++ r :: after → r.role = .tool →
    ∃ front m results, before = front ++ m :: results ∧ m.toolCalls ≠ none ∧
      ∀ r ∈ results, r.role = .tool

theorem paired_nil : Paired [] := by
  constructor
  · intro before m after calls he
    exact absurd he (by simp)
  · intro before r after he
    exact absurd he (by simp)

section
variable {m : Chat.Message} {ms : List Chat.Message}

theorem Paired.single (h : Paired ms) (hr : m.role ≠ .tool) (hc : m.toolCalls = none) :
    Paired (m :: ms) := by
  constructor
  · intro before m' after calls he hm
    rcases List.cons_eq_append_iff.mp he with ⟨rfl, hcons⟩ | ⟨before, rfl, hms⟩
    · obtain ⟨rfl, -⟩ := List.cons.inj hcons
      rw [hc] at hm
      exact absurd hm (by simp)
    · exact h.answered before m' after calls hms hm
  · intro before r after he hrole
    rcases List.cons_eq_append_iff.mp he with ⟨rfl, hcons⟩ | ⟨before, rfl, hms⟩
    · obtain ⟨rfl, -⟩ := List.cons.inj hcons
      exact absurd hrole hr
    · obtain ⟨front, a, results, rfl, ha⟩ := h.asked before r after hms hrole
      exact ⟨m :: front, a, results, rfl, ha⟩

theorem Paired.calls {cs : List Chat.ToolCall} {results : List Chat.Message} (h : Paired ms)
    (hms : ∀ r ∈ ms.head?, r.role ≠ .tool) (hr : m.role = .assistant) (hc : m.toolCalls = some cs)
    (ht : ∀ r ∈ results, r.role = .tool ∧ r.toolCalls = none)
    (hp : (results.map (·.toolCallId)).Perm (cs.map fun call => some call.id)) :
    Paired (m :: (results ++ ms)) := by
  have htool : ∀ r ∈ results, r.role = .tool := fun r hm => (ht r hm).1
  constructor
  · intro before m' after calls he hm
    rcases List.cons_eq_append_iff.mp he with ⟨rfl, hcons⟩ | ⟨before, rfl, hrest⟩
    · obtain ⟨rfl, rfl⟩ := List.cons.inj hcons
      obtain rfl := Option.some.inj (hc.symm.trans hm)
      exact ⟨hr, results, ms, rfl, htool, hp, hms⟩
    · -- a message with calls is none of the results
      rcases List.append_eq_append_iff.mp hrest with ⟨b, rfl, hb⟩ | ⟨b, hb, hafter⟩
      · exact h.answered b m' after calls hb hm
      · cases b with
        | nil => exact h.answered [] m' after calls hafter.symm hm
        | cons r b =>
          obtain ⟨rfl, -⟩ := List.cons.inj hafter
          have hnone := (ht m' (hb ▸ by simp)).2
          rw [hnone] at hm
          exact absurd hm (by simp)
  · intro before r after he hrole
    rcases List.cons_eq_append_iff.mp he with ⟨rfl, hcons⟩ | ⟨before, rfl, hrest⟩
    · obtain ⟨rfl, -⟩ := List.cons.inj hcons
      rw [hr] at hrole
      exact absurd hrole (by decide)
    · rcases List.append_eq_append_iff.mp hrest with ⟨b, rfl, hb⟩ | ⟨b, hb, -⟩
      · obtain ⟨front, a, rs, rfl, ha⟩ := h.asked b r after hb hrole
        exact ⟨m :: (results ++ front), a, rs, by simp, ha⟩
      · refine ⟨[], m, before, rfl, by simp [hc], fun x hx => htool x ?_⟩
        rw [hb]
        exact List.mem_append_left b hx

end

/-- Messages one by one, those with calls together with the results. -/
inductive Exchange : List Chat.Message → Prop where
  | nil : Exchange []
  | single {m : Chat.Message} {ms : List Chat.Message} (hr : m.role ≠ .tool)
    (hc : m.toolCalls = none) (h : Exchange ms) : Exchange (m :: ms)
  | calls {m : Chat.Message} {calls : List Chat.ToolCall} {results ms : List Chat.Message}
    (hr : m.role = .assistant) (hc : m.toolCalls = some calls)
    (ht : ∀ r ∈ results, r.role = .tool ∧ r.toolCalls = none)
    (hp : (results.map (·.toolCallId)).Perm (calls.map fun call => some call.id))
    (h : Exchange ms) : Exchange (m :: (results ++ ms))

theorem Exchange.head {ms : List Chat.Message} (h : Exchange ms) :
    ∀ m ∈ ms.head?, m.role ≠ .tool := by
  intro m hm
  cases h with
  | nil => exact absurd hm (by simp)
  | single hr hc h =>
    obtain rfl := Option.some.inj hm
    exact hr
  | calls hr hc ht hp h =>
    obtain rfl := Option.some.inj hm
    rw [hr]
    decide

theorem Exchange.paired {ms : List Chat.Message} (h : Exchange ms) : Paired ms := by
  induction h with
  | nil => exact paired_nil
  | single hr hc h ih => exact ih.single hr hc
  | calls hr hc ht hp h ih => exact ih.calls h.head hr hc ht hp

/-! ## From a conversation to what is sent -/

theorem toolMessage?_eq_some {b : Block} {r : Chat.Message} (h : toolMessage? b = some r) :
    r.role = .tool ∧ r.toolCalls = none ∧ resultId? b = r.toolCallId := by
  cases b with
  | toolResult id content isError =>
    obtain rfl := Option.some.inj h
    exact ⟨rfl, rfl, rfl⟩
  | _ => exact absurd h (by simp [toolMessage?])

theorem toolCallIds (bs : List Block) :
    (bs.filterMap toolMessage?).map (·.toolCallId) = (bs.filterMap resultId?).map some := by
  induction bs with
  | nil => rfl
  | cons b bs ih =>
    cases b with
    | toolResult id content isError => exact congrArg (some id :: ·) ih
    | _ => exact ih

theorem callIds (bs : List Block) :
    (bs.filterMap toolCall?).map (·.id) = bs.filterMap useId? := by
  induction bs with
  | nil => rfl
  | cons b bs ih =>
    cases b with
    | toolUse id name input => exact congrArg (id :: ·) ih
    | _ => exact ih

theorem userSays_eq_some {bs : List Block} {m : Chat.Message} (h : userSays bs = some m) :
    m.role ≠ .tool ∧ m.toolCalls = none := by
  simp only [userSays] at h
  split at h
  · split at h
    · exact absurd h (by simp)
    · obtain rfl := Option.some.inj h
      exact ⟨Chat.Role.noConfusion, rfl⟩
  · obtain rfl := Option.some.inj h
    exact ⟨Chat.Role.noConfusion, rfl⟩

theorem assistantMessage_cases (bs : List Block) :
    (assistantMessage bs = none ∧ bs.filterMap toolCall? = []) ∨
      ∃ m, assistantMessage bs = some m ∧ m.role = .assistant ∧
        m.toolCalls = if bs.filterMap toolCall? = [] then none else some (bs.filterMap toolCall?) := by
  by_cases h : ((joinLines (texts bs)).isEmpty && (bs.filterMap toolCall?).isEmpty) = true
  · refine .inl ⟨if_pos h, ?_⟩
    simpa using (Bool.and_eq_true_iff.mp h).2
  · refine .inr ⟨_, if_neg h, rfl, ?_⟩
    simp

theorem Exchange.userSays {ms : List Chat.Message} (h : Exchange ms) (bs : List Block) :
    Exchange ((userSays bs).toList ++ ms) := by
  cases hs : Outbound.userSays bs with
  | none => exact h
  | some m =>
    obtain ⟨hr, hc⟩ := userSays_eq_some hs
    exact .single hr hc h

/-- The results for the calls `wanted`, and behind them messages without any. -/
def Answering (wanted : List String) (ms : List Chat.Message) : Prop :=
  ∃ results rest, ms = results ++ rest ∧
    (∀ r ∈ results, r.role = .tool ∧ r.toolCalls = none) ∧
    (results.map (·.toolCallId)).Perm (wanted.map some) ∧ Exchange rest

theorem Answering.exchange {ms : List Chat.Message} (h : Answering [] ms) : Exchange ms := by
  obtain ⟨results, rest, rfl, -, hp, hx⟩ := h
  have hnone : results = [] := by simpa using hp
  rw [hnone]
  exact hx

theorem Exchange.answering {ms : List Chat.Message} (h : Exchange ms) : Answering [] ms :=
  ⟨[], ms, rfl, by simp, .nil, h⟩

theorem Exchange.user {m : Message} {ms : List Chat.Message} (h : Exchange ms)
    (hr : m.role = .user) : Answering (answers m) (messages m ++ ms) := by
  refine ⟨m.content.toBlocks.filterMap toolMessage?,
    (Outbound.userSays m.content.toBlocks).toList ++ ms, ?_, ?_, ?_, h.userSays _⟩
  · simp [messages, hr, userMessages]
  · intro r hm
    obtain ⟨b, -, hb⟩ := List.mem_filterMap.mp hm
    obtain ⟨hrole, hcalls, -⟩ := toolMessage?_eq_some hb
    exact ⟨hrole, hcalls⟩
  · have ha : answers m = m.content.toBlocks.filterMap resultId? := by simp [answers, hr]
    rw [toolCallIds, ha]

theorem Answering.assistant {m : Message} {ms : List Chat.Message} (h : Answering (asks m) ms)
    (hr : m.role = .assistant) : Exchange (messages m ++ ms) := by
  have hids : asks m = (m.content.toBlocks.filterMap toolCall?).map (·.id) := by
    simp [asks, hr, callIds]
  rw [hids] at h
  rcases assistantMessage_cases m.content.toBlocks with ⟨hm, hc⟩ | ⟨m', hm, hrole, hc⟩
  · rw [hc] at h
    simpa [messages, hr, hm] using h.exchange
  · have hmessages : messages m = [m'] := by simp [messages, hr, hm]
    rw [hmessages, List.singleton_append]
    by_cases hnil : m.content.toBlocks.filterMap toolCall? = []
    · rw [if_pos hnil] at hc
      rw [hnil] at h
      exact .single (by rw [hrole]; decide) hc h.exchange
    · rw [if_neg hnil] at hc
      obtain ⟨results, rest, rfl, ht, hp, hx⟩ := h
      rw [List.map_map] at hp
      exact .calls hrole hc ht hp hx

theorem answering_of_continues {wanted : List String} {ms : List Message}
    (h : Continues wanted ms) : Answering wanted (ms.flatMap messages) := by
  induction ms generalizing wanted with
  | nil =>
    have hnone : wanted = [] := h
    rw [hnone]
    exact Exchange.nil.answering
  | cons m ms ih =>
    obtain ⟨hperm, hrest⟩ := h
    have hms := ih hrest
    rw [List.flatMap_cons]
    cases hr : m.role with
    | user =>
      rw [asks_of_user hr] at hms
      obtain ⟨results, rest, he, ht, hp, hx⟩ := hms.exchange.user hr
      exact ⟨results, rest, he, ht, hp.trans (hperm.map some), hx⟩
    | assistant =>
      have hnone : answers m = [] := by simp [answers, hr]
      rw [hnone] at hperm
      rw [List.nil_perm.mp hperm]
      exact (hms.assistant hr).answering

theorem Exchange.system {ms : List Chat.Message} (h : Exchange ms) (system : Option System) :
    Exchange (systemMessage system ++ ms) := by
  unfold systemMessage
  split
  · exact h
  · split
    · exact h
    · exact .single Chat.Role.noConfusion rfl h

/-- **Tool dialogues stay valid.** In what is sent for an answered conversation, behind every message
with calls stand as many results as it has calls, with their ids, and no result stands elsewhere. -/
theorem request_paired {r : Request} (h : Answered r.messages) (model : String) :
    Paired (request r model).messages := by
  have hms : Exchange (r.messages.flatMap messages) :=
    (answering_of_continues (answered_iff.mp h)).exchange
  have hall : Exchange (request r model).messages := hms.system r.system
  exact hall.paired

def twoTools : Request where
  model := "model"
  maxTokens := none
  messages := [
    ⟨.user, .text "What is the weather?"⟩,
    ⟨.assistant, .blocks [.toolUse "a" "city" (.obj []), .thinking "Both." none,
      .toolUse "b" "weather" (.obj [])]⟩,
    ⟨.user, .blocks [.text "Here.", .toolResult "b" (.text "rain") none, .unsupported,
      .toolResult "a" .absent none]⟩,
    ⟨.assistant, .blocks []⟩,
    ⟨.assistant, .text "It rains."⟩]
  system := none
  stream := none
  temperature := none
  topP := none
  topK := none
  tools := none
  toolChoice := none
  metadata := none
  stopSequences := none
  thinking := none
  extra := []

theorem request_paired_twoTools :
    Answered twoTools.messages ∧ Paired (request twoTools "model").messages := by
  have h : Answered twoTools.messages := answered_iff.mpr (by decide)
  exact ⟨h, request_paired h "model"⟩

end ChatGateway.Outbound
