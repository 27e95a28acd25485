import ChatGateway.Proofs.Counting
import ChatGateway.Proofs.Lifecycle
import ChatGateway.Proofs.Resolving

/-!
# What the log keeps to itself

Where no bodies are logged, the log tells of a request its model, whether it streams, how many
messages it has and about how many tokens, and of the rest only what the provider answers.
`messages_discreet` says so of two requests that agree in this, whatever else they hold.
-/

namespace ChatGateway

/-! ## Entries -/

namespace Log

/-- An entry without the request that it was written for. -/
def Entry.unsigned (e : Entry) : Entry := { e with requestId := none }

def Same (es es' : List Entry) : Prop := es.map Entry.unsigned = es'.map Entry.unsigned

namespace Same

variable {es es' fs fs' : List Entry}

theorem single {e e' : Entry} (h : e.unsigned = e'.unsigned) : Same [e] [e'] :=
  congrArg (· :: []) h

theorem append (h : Same es es') (hf : Same fs fs') : Same (es ++ fs) (es' ++ fs') := by
  unfold Same
  rw [List.map_append, List.map_append, h, hf]

theorem map {α : Type} {f g : α → Entry} (h : ∀ a, (f a).unsigned = (g a).unsigned)
    (as : List α) : Same (as.map f) (as.map g) := by
  simp [Same, h]

end Same

section
variable {l l' : Log} (h : l.bodies = false) (h' : l'.bodies = false)
include h h'

theorem unsigned_received (model : String) (stream : Bool) (n : Nat) (body body' : Json.Value) :
    (l.received model stream n body).unsigned = (l'.received model stream n body').unsigned := by
  simp [received, entry, body?, Entry.unsigned, h, h']

theorem unsigned_built (url : String) (body body' : Json.Value) :
    (l.built url body).unsigned = (l'.built url body').unsigned := by
  simp [built, entry, body?, Entry.unsigned, h, h']

theorem unsigned_completed (status input output : Nat) (body body' : Option Json.Value) :
    (l.completed status input output body).unsigned =
      (l'.completed status input output body').unsigned := by
  simp [completed, entry, body?, Entry.unsigned, h, h']

end

end Log

/-! ## Two courses -/

namespace Server

open Json Provider

namespace Course

/-- What the providers answered on the way to the outcome. -/
def heard (t : Transport) : Course → List Delivery
  | .done _ => []
  | .ask e url payload next => t e url payload :: (next (t e url payload)).heard t

/-- The courses ask at the same places, whatever they say there, and go on alike whenever they hear
the same. -/
inductive Alike : Course → Course → Prop where
  | done {o o' : Outcome} (h : Log.Same o.2 o'.2) : Alike (.done o) (.done o')
  | ask (e : Endpoint) (url : Url) {p p' : Value} {next next' : Delivery → Course}
    (h : ∀ d, Alike (next d) (next' d)) : Alike (.ask e url p next) (.ask e url p' next')

namespace Alike

variable {c c' : Course} {t t' : Transport}

theorem after {es es' : List Log.Entry} (hs : Log.Same es es') (h : Alike c c') :
    Alike (c.after es) (c'.after es') := by
  induction h with
  | done h => exact .done (hs.append h)
  | ask e url _ ih => exact .ask e url ih

theorem run (h : Alike c c') (ht : c.heard t = c'.heard t') :
    Log.Same (c.run t).2 (c'.run t').2 := by
  induction h with
  | done h => exact h
  | @ask e url p p' next next' _ ih =>
    simp only [heard, List.cons.injEq] at ht
    obtain ⟨hd, hrest⟩ := ht
    unfold Course.run
    rw [← hd] at hrest ⊢
    exact ih _ hrest

theorem heard_eq (h : Alike c c') (ht : ∀ e url p p', t e url p = t' e url p') :
    c.heard t = c'.heard t' := by
  induction h with
  | done _ => rfl
  | @ask e url p p' next next' _ ih =>
    unfold heard
    rw [← ht e url p p', ih]

end Alike

end Course

/-! ## Two requests -/

/-- The requests are the same as far as the log may tell. -/
structure Agree (r r' : Messages.Request) : Prop where
  model : r.model = r'.model
  stream : r.isStreaming = r'.isStreaming
  thinking : r.thinkingRequested = r'.thinkingRequested
  messages : r.messages.length = r'.messages.length
  tokens : Routing.estimate r = Routing.estimate r'

variable {v : Server} {s s' : Session} {l l' : Log} {r r' : Messages.Request}

theorem Agree.resolve_eq (h : Agree r r') (c : Config) :
    Routing.resolve c r = Routing.resolve c r' := by
  have hp : Routing.provider c r = Routing.provider c r' := by
    unfold Routing.provider
    rw [h.model, h.thinking, h.tokens]
  unfold Routing.resolve
  rw [hp, h.model]

theorem same_failed (l l' : Log) (component : String) (p : Problem) :
    Log.Same (failed l component p).2 (failed l' component p).2 := .single rfl

theorem same_refused (l l' : Log) (status : Nat) (text : List Char) :
    Log.Same (refusedByProvider l status text).2 (refusedByProvider l' status text).2 := .single rfl

section
variable (hl : l.bodies = false) (hl' : l'.bodies = false)
include hl hl'

theorem same_answerWhole (s s' : Session) (r r' : Messages.Request) (status : Nat)
    (reading : List UInt8 → List Char) (body : List EventStream.Arrival) :
    Log.Same (answerWhole s l r status reading body).2
      (answerWhole s' l' r' status reading body).2 := by
  unfold answerWhole
  cases bodyText body with
  | error message => exact same_failed ..
  | ok bytes =>
    dsimp only
    by_cases hs : 400 ≤ status
    · rw [if_pos hs, if_pos hs]
      exact same_refused ..
    · rw [if_neg hs, if_neg hs]
      cases Decode.ofText Chat.Reply.decode (reading bytes) with
      | error e => exact same_failed ..
      | ok reply => exact .single (Log.unsigned_completed hl hl' ..)

theorem same_answerStream (s s' : Session) (r r' : Messages.Request) (status : Nat)
    (reading : List UInt8 → List Char) (body : List EventStream.Arrival) :
    Log.Same (answerStream s l r status reading body).2
      (answerStream s' l' r' status reading body).2 := by
  unfold answerStream
  by_cases hs : 400 ≤ status
  · rw [if_pos hs, if_pos hs]
    exact same_refused ..
  · rw [if_neg hs, if_neg hs]
    dsimp only
    -- the entries are those of the items, and what the message is made of does not show in them
    rw [Relay.entries_run, Relay.entries_run]
    refine .append (.append (.map ?_ _) (.map ?_ _)) (.single (Log.unsigned_completed hl hl' ..))
    · rintro ⟨text, e⟩
      rfl
    · intro message
      rfl

theorem same_answer (h : Agree r r') (s s' : Session) (key : String) (d : Delivery) :
    Log.Same (answer s l r key d).2 (answer s' l' r' key d).2 := by
  cases d with
  | refused message => exact same_failed ..
  | answered status reading body =>
    unfold answer
    dsimp only
    rw [← h.stream]
    by_cases hr : r.isStreaming = true
    · rw [if_pos hr, if_pos hr]
      exact same_answerStream hl hl' ..
    · rw [if_neg hr, if_neg hr]
      exact same_answerWhole hl hl' ..

theorem alike_forward (h : Agree r r') (model : String) (p : Config.Provider) (e : Endpoint) :
    (forward s l r model p e).Alike (forward s' l' r' model p e) := by
  unfold forward
  cases e.keyProblem with
  | some message => exact .done (same_failed ..)
  | none =>
    refine .after (.single (Log.unsigned_built hl hl' ..)) ?_
    cases Endpoint.destination e.url with
    | error message => exact .done (same_failed ..)
    | ok url => exact .ask e url fun d => .done (same_answer hl hl' h s s' p.key d)

theorem alike_converse (h : Agree r r') :
    (converse v s l r).Alike (converse v s' l' r') := by
  unfold converse
  rw [← h.resolve_eq]
  cases Routing.resolve v.config r with
  | error p => exact .done (same_failed ..)
  | ok route =>
    dsimp only
    rw [← h.tokens]
    refine .after (.single rfl) ?_
    split
    · exact alike_forward hl hl' h ..
    · exact .done (same_failed ..)

end

/-! ## Two bodies -/

/-- The body is text in JSON of a request. -/
def Carries (body : List UInt8) (r : Messages.Request) : Prop :=
  ∃ raw, (Text.decodeAll? body).bind Json.read = some raw ∧
    Messages.Request.decode .tree (Document.ofValue raw) = .ok r

variable {body body' : List UInt8}

theorem course_of_carries (h : Carries body r) (v : Server) (s : Session) :
    ∃ raw, course v s body = .after
      [(log v s).received r.model r.isStreaming r.messages.length raw]
      (converse v s (log v s) r) := by
  obtain ⟨raw, hraw, hr⟩ := h
  refine ⟨raw, ?_⟩
  unfold course
  rw [hraw]
  dsimp only
  rw [hr]
  rfl

theorem alike_course (hv : v.config.logging.bodies = false) (hb : Carries body r)
    (hb' : Carries body' r') (h : Agree r r') :
    (course v s body).Alike (course v s' body') := by
  obtain ⟨raw, hc⟩ := course_of_carries hb v s
  obtain ⟨raw', hc'⟩ := course_of_carries hb' v s'
  rw [hc, hc', ← h.model, ← h.stream, ← h.messages]
  exact .after (.single (Log.unsigned_received hv hv ..)) (alike_converse hv hv h)

/-- **The log is discreet.** Where no bodies are logged, two bodies of requests that agree in what
the log may tell leave the same entries, each with its own request, if the providers answer the
same. -/
theorem messages_discreet (hv : v.config.logging.bodies = false) (hb : Carries body r)
    (hb' : Carries body' r') (h : Agree r r')
    (heard : (course v s body).heard s.transport = (course v s' body').heard s'.transport) :
    (messages v s body).2.map Log.Entry.unsigned = (messages v s' body').2.map Log.Entry.unsigned :=
  (alike_course hv hb hb' h).run heard

def posted (said more : String) : List UInt8 :=
  Text.encode ("\x7b\x22messages\x22:[[\x22user\x22,\x22" ++ said ++
    "\x22]],\x22model\x22:\x22opus\x22,\x22stream\x22:true" ++ more ++ "\x7d").toList

/-- A session whose provider answers with an event that is no chunk. -/
def chatty (id : String) : Session :=
  ⟨id, id, fun n => id ++ toString n,
    fun _ _ _ => .answered 200 Text.decodeLossy [.bytes (Text.encode "data: hm\n\n".toList)]⟩

theorem messages_discreet_words :
    ∃ v, ofConfig [] Routing.tiers = .ok v ∧
      Carries (posted "Why?" "") { Routing.question "opus" "Why?" none with stream := some true } ∧
      Carries (posted "Who?" ",\x22tools\x22:[]")
        { Routing.question "opus" "Who?" none with stream := some true, tools := some [] } ∧
      (messages v (chatty "a") (posted "Why?" "")).2.map Log.Entry.unsigned =
        (messages v (chatty "b") (posted "Who?" ",\x22tools\x22:[]")).2.map
          Log.Entry.unsigned := by
  have hb : Carries (posted "Why?" "")
      { Routing.question "opus" "Why?" none with stream := some true } := by
    refine ⟨.obj [("messages", .arr [.arr [.str "user", .str "Why?"]]), ("model", .str "opus"),
      ("stream", .bool true)], ?_, rfl⟩
    rw [posted, Text.decodeAll?_encode]
    decide +kernel
  have hb' : Carries (posted "Who?" ",\x22tools\x22:[]")
      { Routing.question "opus" "Who?" none with stream := some true, tools := some [] } := by
    refine ⟨.obj [("messages", .arr [.arr [.str "user", .str "Who?"]]), ("model", .str "opus"),
      ("stream", .bool true), ("tools", .arr [])], ?_, rfl⟩
    rw [posted, Text.decodeAll?_encode]
    decide +kernel
  have hagree : Agree { Routing.question "opus" "Why?" none with stream := some true }
      { Routing.question "opus" "Who?" none with stream := some true, tools := some [] } :=
    ⟨rfl, rfl, rfl, rfl, by decide⟩
  obtain ⟨v, hv⟩ : ∃ v, ofConfig [] Routing.tiers = .ok v := ⟨_, rfl⟩
  have hquiet : v.config.logging.bodies = false := by
    rw [(ofConfig_eq_ok_iff.mp hv).1]
    rfl
  exact ⟨v, hv, hb, hb', messages_discreet hquiet hb hb' hagree
    ((alike_course hquiet hb hb' hagree).heard_eq fun _ _ _ _ => rfl)⟩

end Server

end ChatGateway
