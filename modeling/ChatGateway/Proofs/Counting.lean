import ChatGateway.Proofs.Relaying

/-!
# What a stream counts

Only the counts that chunks bring change what a stream has counted. So what is logged of a relayed
stream depends on its items alone, whatever the reply is made of them.
-/

namespace ChatGateway

namespace Answer.Stream

open Messages

section
variable (c : Setting)

def counts (u : Usage) (k : Chat.Chunk) : Usage :=
  k.usage.elim u fun new =>
    ⟨new.promptTokens.getD u.inputTokens, new.completionTokens.getD u.outputTokens,
      new.cacheCreation.or u.cacheCreation, new.cachedTokens.or u.cacheRead⟩

theorem usage_chunk {s : State} (hf : s.finished = false) (k : Chat.Chunk) :
    (chunk c k s).2.usage = counts s.usage k := by
  have hchoice : ∀ s, (k.choices.head?.elim .nothing (choice c) s).2.usage = s.usage := by
    intro s
    cases k.choices.head? with
    | none => rfl
    | some x => exact (choice_counts c x s).1
  rw [chunk_of_open c hf, Emit.andThen, Emit.andThen, hchoice]
  simp only [Emit.change, start_snd, counts]
  cases k.usage <;> rfl

theorem usage_finish (s : State) : (finish c s).2.usage = s.usage := by
  cases hf : s.finished with
  | true => rw [finish_of_finished c hf]
  | false =>
    rw [finish_of_open c hf]
    exact (lastWords_counts c { s with finished := true }).1

/-- A stream that is open counts what its chunks bring, one after the other. -/
theorem usage_chunks (ks : List Chat.Chunk) {s : State} (hf : s.finished = false) :
    (run c (ks.map .chunk ++ [.finish]) s).2.usage = ks.foldl counts s.usage := by
  induction ks generalizing s with
  | nil => exact usage_finish c s
  | cons k ks ih =>
    rw [List.map_cons, List.cons_append, run_cons, Emit.andThen, accept]
    rw [ih (chunk_flags c k hf).2, usage_chunk c hf, List.foldl_cons]

end

end Answer.Stream

namespace Relay

def tally (items : List EventStream.Item) : Messages.Usage :=
  (chunks items).foldl Answer.Stream.counts ⟨0, 0, none, none⟩

theorem usage_given (c : Answer.Stream.Setting) (items : List EventStream.Item) :
    (Answer.Stream.run c (given items) Answer.Stream.initial).2.usage = tally items := by
  rw [given, Answer.Stream.run_cons, Answer.Stream.Emit.andThen, Answer.Stream.accept,
    Answer.Stream.start_snd]
  exact Answer.Stream.usage_chunks c _ rfl

/-- The log of a relayed stream, read off the items. -/
theorem entries_run (c : Answer.Stream.Setting) (log : Log) (items : List EventStream.Item) :
    (run c log items).entries = warnings log items ++ failures log items ++
      [log.completed 200 (tally items).inputTokens (tally items).outputTokens none] := by
  rw [run_eq, counted, usage_given]

end Relay

end ChatGateway
