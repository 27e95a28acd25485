import ChatGateway.Proofs.Emission
import ChatGateway.Proofs.Entries
import ChatGateway.Relay
import Mathlib.Data.List.Forall2

/-!
# What is relayed

The items of a provider's stream count up to the one that ends it, and among them those that are
chunks. `run_relayed` says that the reply is that of the chunks alone, and what the log says of the
rest.
-/

namespace ChatGateway.Relay

open Answer Messages EventStream

/-! ## Items -/

/-- Nothing behind such an item counts. -/
def ends : Item → Bool
  | .data text => Text.trim text = "[DONE]".toList
  | .failure _ => true
  | .malformed => false

def chunk? : Item → Option Chat.Chunk
  | .data text => (Decode.ofText Chat.Chunk.decode (Text.trim text)).toOption
  | _ => none

/-- The text of an item that is neither blank nor a chunk, and why it is none. -/
def unread? : Item → Option (List Char × Decode.Error)
  | .data text =>
    if Text.trim text = [] then none
    else
      match Decode.ofText Chat.Chunk.decode (Text.trim text) with
      | .ok _ => none
      | .error e => some (Text.trim text, e)
  | _ => none

def failure? : Item → Option String
  | .failure message => some message
  | _ => none

/-- The items in front of the one that ends the stream. -/
def heard (items : List Item) : List Item := items.takeWhile fun i => !ends i

def chunks (items : List Item) : List Chat.Chunk := (heard items).filterMap chunk?

def warnings (log : Log) (items : List Item) : List Log.Entry :=
  ((heard items).filterMap unread?).map fun (text, e) => skipped log text e

/-- The failure of the wire, if that is what ended the stream. -/
def failures (log : Log) (items : List Item) : List Log.Entry :=
  ((items.find? ends).bind failure?).toList.map fun message =>
    log.error "stream" 502 ("Upstream stream error: " ++ message)

section
variable {i : Item} (items : List Item)

theorem heard_of_ends (h : ends i = true) : heard (i :: items) = [] := by
  simp [heard, h]

theorem heard_of_other (h : ends i = false) : heard (i :: items) = i :: heard items := by
  simp [heard, h]

theorem chunks_of_ends (h : ends i = true) : chunks (i :: items) = [] := by
  rw [chunks, heard_of_ends items h]
  rfl

theorem chunks_of_other (h : ends i = false) :
    chunks (i :: items) = (chunk? i).toList ++ chunks items := by
  rw [chunks, heard_of_other items h, List.filterMap_cons]
  cases chunk? i <;> rfl

theorem warnings_of_ends (log : Log) (h : ends i = true) : warnings log (i :: items) = [] := by
  rw [warnings, heard_of_ends items h]
  rfl

theorem warnings_of_other (log : Log) (h : ends i = false) :
    warnings log (i :: items) =
      (unread? i).toList.map (fun (text, e) => skipped log text e) ++ warnings log items := by
  rw [warnings, heard_of_other items h, List.filterMap_cons]
  cases unread? i <;> rfl

theorem failures_of_ends (log : Log) (h : ends i = true) :
    failures log (i :: items) = (failure? i).toList.map fun message =>
      log.error "stream" 502 ("Upstream stream error: " ++ message) := by
  simp [failures, h]

theorem failures_of_other (log : Log) (h : ends i = false) :
    failures log (i :: items) = failures log items := by
  simp [failures, h]

end

theorem blank_unreadable : Decode.ofText Chat.Chunk.decode [] = .error .malformed := by
  have hd : Json.Document.ofText [] = (.broken, false) := by
    rw [Json.Document.ofText, Json.tokens]
    rfl
  rw [Decode.ofText, hd]
  rfl

theorem step_data {text : List Char} (hblank : Text.trim text ≠ [])
    (hdone : Text.trim text ≠ "[DONE]".toList) :
    step (.data text) =
      match Decode.ofText Chat.Chunk.decode (Text.trim text) with
      | .ok k => .chunk k
      | .error e => .unreadable (Text.trim text) e := by
  have hfull : ¬(Text.trim text).isEmpty = true := by simpa using hblank
  exact (if_neg hfull).trans (if_neg hdone)

/-- What an item is to the answer, read off the item. -/
theorem step_cases (i : Item) :
    (step i = .pass ∧ ends i = false ∧ chunk? i = none ∧ unread? i = none) ∨
      (step i = .done ∧ ends i = true ∧ failure? i = none) ∨
      (∃ k, step i = .chunk k ∧ ends i = false ∧ chunk? i = some k ∧ unread? i = none) ∨
      (∃ text e, step i = .unreadable text e ∧ ends i = false ∧ chunk? i = none ∧
        unread? i = some (text, e)) ∨
      ∃ message, step i = .broken message ∧ ends i = true ∧ failure? i = some message := by
  cases i with
  | malformed => exact .inl ⟨rfl, rfl, rfl, rfl⟩
  | failure message => exact .inr (.inr (.inr (.inr ⟨message, rfl, rfl, rfl⟩)))
  | data text =>
    by_cases hblank : Text.trim text = []
    · exact .inl ⟨by simp [step, hblank], by simp [ends, hblank],
        by rw [chunk?, hblank, blank_unreadable]; rfl, if_pos hblank⟩
    by_cases hdone : Text.trim text = "[DONE]".toList
    · exact .inr (.inl ⟨by simp [step, hdone], by simp [ends, hdone], rfl⟩)
    have hends : ends (.data text) = false := decide_eq_false hdone
    have hstep := step_data hblank hdone
    cases hk : Decode.ofText Chat.Chunk.decode (Text.trim text) with
    | ok k =>
      refine .inr (.inr (.inl ⟨k, by rw [hstep, hk], hends, by rw [chunk?, hk]; rfl, ?_⟩))
      rw [unread?, if_neg hblank, hk]
    | error e =>
      refine .inr (.inr (.inr (.inl
        ⟨Text.trim text, e, by rw [hstep, hk], hends, by rw [chunk?, hk]; rfl, ?_⟩)))
      rw [unread?, if_neg hblank, hk]

/-! ## From item to item -/

section
variable (c : Stream.Setting) (log : Log)

def replay (ks : List Chat.Chunk) : Stream.Emit := Stream.run c (ks.map .chunk ++ [.finish])

def counted (s : Stream.State) : Log.Entry :=
  log.completed 200 s.usage.inputTokens s.usage.outputTokens none

theorem close_eq (s : Stream.State) :
    follow.close c log s = ⟨(replay c [] s).1, [counted log (replay c [] s).2]⟩ := by
  have hfinish : replay c [] = Stream.finish c := Stream.Emit.andThen_nothing _
  rw [hfinish]
  rfl

theorem follow_eq (items : List Item) (s : Stream.State) :
    follow c log s items =
      ⟨(replay c (chunks items) s).1,
        warnings log items ++ failures log items ++
          [counted log (replay c (chunks items) s).2]⟩ := by
  induction items generalizing s with
  | nil => exact close_eq c log s
  | cons i items ih =>
    rw [follow]
    -- an item that ends the stream closes the answer as having no items does
    rcases step_cases i with ⟨hs, he, hk, hu⟩ | ⟨hs, he, hf⟩ | ⟨k, hs, he, hk, hu⟩ |
      ⟨text, e, hs, he, hk, hu⟩ | ⟨message, hs, he, hf⟩
    · rw [hs, chunks_of_other items he, warnings_of_other items log he,
        failures_of_other items log he, hk, hu]
      exact ih s
    · rw [hs, chunks_of_ends items he, warnings_of_ends items log he,
        failures_of_ends items log he, hf]
      exact close_eq c log s
    · rw [hs, chunks_of_other items he, warnings_of_other items log he,
        failures_of_other items log he, hk, hu]
      simp only [ih]
      rfl
    · rw [hs, chunks_of_other items he, warnings_of_other items log he,
        failures_of_other items log he, hk, hu]
      simp only [ih]
      rfl
    · rw [hs, chunks_of_ends items he, warnings_of_ends items log he,
        failures_of_ends items log he, hf]
      simp only [close_eq]
      rfl

def given (items : List Item) : List Stream.Input :=
  .start :: ((chunks items).map .chunk ++ [.finish])

theorem run_eq (items : List Item) :
    run c log items =
      ⟨(Stream.run c (given items) Stream.initial).1,
        warnings log items ++ failures log items ++
          [counted log (Stream.run c (given items) Stream.initial).2]⟩ := by
  rw [run]
  simp only [follow_eq]
  rfl

theorem finish_closes {is : List Stream.Input} (h : .finish ∉ is) :
    ∃ front, (Stream.run c (is ++ [.finish]) Stream.initial).1 =
      front ++ Stream.closing (Stream.run c (is ++ [.finish]) Stream.initial).2 := by
  have hopen : (Stream.run c is Stream.initial).2.finished = false := by
    have hfin := Stream.finished_run c is Stream.initial
    simpa [Stream.initial, h] using hfin
  rw [Stream.run_concat, Stream.Emit.andThen, Stream.accept, Stream.finish_of_open c hopen]
  exact ⟨_, (List.append_assoc _ _ _).symm⟩

theorem heard_append_of_ends {i : Item} (h : ends i = true) (before after : List Item) :
    heard (before ++ i :: after) = heard (before ++ [i]) := by
  induction before with
  | nil => rw [List.nil_append, List.nil_append, heard_of_ends after h, heard_of_ends [] h]
  | cons j before ih =>
    rw [List.cons_append, List.cons_append]
    cases hj : ends j with
    | true => rw [heard_of_ends _ hj, heard_of_ends _ hj]
    | false => rw [heard_of_other _ hj, heard_of_other _ hj, ih]

theorem find?_append_of_ends {i : Item} (h : ends i = true) (before after : List Item) :
    (before ++ i :: after).find? ends = (before ++ [i]).find? ends := by
  simp [List.find?_append, h]

theorem chunks_append_of_idle {i : Item} (h : ends i = false) (hk : chunk? i = none)
    (before after : List Item) : chunks (before ++ i :: after) = chunks (before ++ after) := by
  induction before with
  | nil => rw [List.nil_append, List.nil_append, chunks_of_other after h, hk]; rfl
  | cons j before ih =>
    rw [List.cons_append, List.cons_append]
    cases hj : ends j with
    | true => rw [chunks_of_ends _ hj, chunks_of_ends _ hj]
    | false => rw [chunks_of_other _ hj, chunks_of_other _ hj, ih]

/-! ## What the log has -/

/-- A warning of a text that is no chunk, and of what is wrong with it. -/
def Warns (e : Log.Entry) (log : Log) (unread : List Char × Decode.Error) : Prop :=
  e.Says log .warn "stream" "Skipped unparseable chunk"
    [("error", .str unread.2.message), ("data", .str (String.ofList (Text.fit 200 unread.1)))]

/-- The entries are a warning for each item that could not be read, an error for a failure of the
wire that ended the stream, and at the end one of completion. -/
def Recorded (log : Log) (items : List Item) (input output : Nat) (es : List Log.Entry) : Prop :=
  ∃ skipped broken last, es = skipped ++ broken ++ [last] ∧
    List.Forall₂ (Warns · log ·) skipped ((heard items).filterMap unread?) ∧
    List.Forall₂ (fun e message => e.Fails log "stream" 502 ("Upstream stream error: " ++ message))
      broken ((items.find? ends).bind failure?).toList ∧
    last.Completes log 200 input output none

theorem warnings_warn (items : List Item) :
    List.Forall₂ (Warns · log ·) (warnings log items) ((heard items).filterMap unread?) :=
  List.forall₂_map_left_iff.mpr (List.forall₂_same.mpr fun _ _ => ⟨rfl, rfl, rfl, rfl, rfl⟩)

theorem failures_fail (items : List Item) :
    List.Forall₂ (fun e message => e.Fails log "stream" 502 ("Upstream stream error: " ++ message))
      (failures log items) ((items.find? ends).bind failure?).toList :=
  List.forall₂_map_left_iff.mpr (List.forall₂_same.mpr fun _ _ => log.error_fails _ _ _)

theorem recorded (items : List Item) (input output : Nat) :
    Recorded log items input output (warnings log items ++ failures log items ++
      [log.completed 200 input output none]) :=
  ⟨_, _, _, rfl, warnings_warn log items, failures_fail log items, log.completed_completes _ _ _ _⟩

/-- **A relayed stream.** The events are those of the chunks in front of the end, from the start of
the message to its end. The log has a warning for each item that could not be read, an error for a
failure of the wire that ended the stream, and at the end what the message counts. Items that are no
chunk change no event, and nothing behind the end changes anything. -/
theorem run_relayed (items : List Item) :
    ((run c log items).events =
        (Stream.run c (.start :: ((chunks items).map .chunk ++ [.finish])) Stream.initial).1) ∧
      (∃ front ending output input created read,
        (run c log items).events =
          front ++ [.messageDelta ending ⟨output, some input, created, read⟩, .messageStop] ∧
        Recorded log items input output (run c log items).entries) ∧
      (∀ before i after, items = before ++ i :: after → ends i = false → chunk? i = none →
        (run c log (before ++ after)).events = (run c log items).events) ∧
      ∀ before i after, items = before ++ i :: after → ends i = true →
        run c log (before ++ [i]) = run c log items := by
  refine ⟨by rw [run_eq, given], ?_, ?_, ?_⟩
  · have hmem : .finish ∉ Stream.Input.start :: (chunks items).map .chunk := by simp
    obtain ⟨front, hfront⟩ := finish_closes c hmem
    rw [List.cons_append] at hfront
    rw [run_eq, given, hfront]
    exact ⟨front, _, _, _, _, _, rfl, recorded log items _ _⟩
  · rintro before i after rfl he hk
    rw [run_eq, run_eq, given, given, chunks_append_of_idle he hk]
  · rintro before i after rfl he
    simp only [run_eq, given, chunks, warnings, failures, heard_append_of_ends he before after,
      find?_append_of_ends he before after]

end

end ChatGateway.Relay
