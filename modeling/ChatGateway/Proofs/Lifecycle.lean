import ChatGateway.Proofs.Relaying
import ChatGateway.Proofs.Routes
import ChatGateway.Server

/-!
# The life of a request

What the log says of a request for a message, how often a provider is asked on its way and how the
answer fits what was logged. `Lived` is the grammar of the entries; `messages_lived` says that every
request keeps to it, whatever comes of asking the provider.
-/

namespace ChatGateway.Server

open Json Provider

/-! ## Courses -/

structure Question where
  endpoint : Endpoint
  url : Url
  payload : Value

namespace Course

/-- The questions to providers on the way to the outcome. -/
def asked (t : Transport) : Course → List Question
  | .done _ => []
  | .ask e url payload next => ⟨e, url, payload⟩ :: (next (t e url payload)).asked t

theorem run_after (t : Transport) (es : List Log.Entry) (c : Course) :
    (c.after es).run t = Server.after es (c.run t) := by
  induction c with
  | done o => rfl
  | ask e url payload next ih => exact ih (t e url payload)

theorem asked_after (t : Transport) (es : List Log.Entry) (c : Course) :
    (c.after es).asked t = c.asked t := by
  induction c with
  | done o => rfl
  | ask e url payload next ih => exact congrArg (_ :: ·) (ih (t e url payload))

end Course

/-! ## What is logged -/

/-- How a request came out: with a status and what the log says of it where it failed. -/
inductive Verdict where
  | completed
  | failed (status : Nat) (message : String)

section
variable (l : Log)

/-- Entries behind that of a request that is ready to be sent. -/
inductive Sent (stream : Bool) : Verdict → List Log.Entry → Prop where
  | failed {e : Log.Entry} {status : Nat} {message : String} (h : e.Fails l "proxy" status message) :
    Sent stream (.failed status message) [e]
  | whole (hs : stream = false) {e : Log.Entry} {status input output : Nat} {body : Option Value}
    (hlt : status < 400) (h : e.Completes l status input output body) : Sent stream .completed [e]
  | streamed (hs : stream = true) {warnings broken : List Log.Entry} {e : Log.Entry}
    {input output : Nat}
    (hw : ∀ w ∈ warnings, ∃ message members, w.Says l .warn "stream" message members)
    (hb : broken = [] ∨ ∃ b message, broken = [b] ∧ b.Fails l "stream" 502 message)
    (h : e.Completes l 200 input output none) : Sent stream .completed (warnings ++ broken ++ [e])

/-- Entries behind that of a request that has a route. -/
inductive Routed (stream : Bool) : Verdict → List Log.Entry → Prop where
  | failed {e : Log.Entry} {component : String} {status : Nat} {message : String}
    (h : e.Fails l component status message) : Routed stream (.failed status message) [e]
  | built {b : Log.Entry} {url : String} {payload : Value} {v : Verdict} {es : List Log.Entry}
    (hb : b.Builds l url payload) (h : Sent l stream v es) : Routed stream v (b :: es)

/-- Entries behind that of a request that could be read. -/
inductive Received (stream : Bool) : Verdict → List Log.Entry → Prop where
  | failed {e : Log.Entry} {status : Nat} {message : String}
    (h : e.Fails l "router" status message) : Received stream (.failed status message) [e]
  | routed {e : Log.Entry} {provider model : String} {tokens : Nat} {v : Verdict}
    {es : List Log.Entry} (he : e.Routes l provider model tokens) (h : Routed l stream v es) :
    Received stream v (e :: es)

inductive Lived : Verdict → List Log.Entry → Prop where
  | rejected {e : Log.Entry} {message : String} (h : e.Fails l "server" 400 message) :
    Lived (.failed 400 message) [e]
  | received {e : Log.Entry} {model : String} {stream : Bool} {messages : Nat} {body : Value}
    {v : Verdict} {es : List Log.Entry} (he : e.Receives l model stream messages body)
    (h : Received l stream v es) : Lived v (e :: es)

end

def isCompletion (e : Log.Entry) : Bool := e.level = .info && e.message = "Request completed"

def isError (e : Log.Entry) : Bool := e.level = .error

/-- The entries tell the verdict: just the completed requests have an entry of completion, and the
others have one error. -/
def Settles (l : Log) (v : Verdict) (es : List Log.Entry) : Prop :=
  match v with
  | .completed => es.any isCompletion = true
  | .failed status message => es.any isCompletion = false ∧
    ∃ e component, es.filter isError = [e] ∧ e.Fails l component status message

section
variable {l : Log} {v : Verdict} {es : List Log.Entry}

theorem isCompletion_eq {e : Log.Entry} {severity : Log.Level} {who what : String}
    {members : List (String × Value)} (h : e.Says l severity who what members) :
    isCompletion e = (severity = .info && what = "Request completed") := by
  rw [isCompletion, h.level, h.message]

theorem isError_eq {e : Log.Entry} {severity : Log.Level} {who what : String}
    {members : List (String × Value)} (h : e.Says l severity who what members) :
    isError e = decide (severity = .error) := by
  rw [isError, h.level]

theorem settles_failed {e : Log.Entry} {component : String} {status : Nat} {message : String}
    (h : e.Fails l component status message) : Settles l (.failed status message) [e] := by
  have hc : isCompletion e = false := isCompletion_eq h
  have he : isError e = true := isError_eq h
  exact ⟨by simp [hc], e, component, by simp [he], h⟩

theorem Settles.cons {e : Log.Entry} (h : Settles l v es) (hc : isCompletion e = false)
    (he : isError e = false) : Settles l v (e :: es) := by
  cases v with
  | completed => simpa [Settles, hc] using h
  | failed status message =>
    obtain ⟨hnone, e', component, hone, hfails⟩ := h
    exact ⟨by simpa [hc] using hnone, e', component, by simpa [he] using hone, hfails⟩

theorem settles_completed (front : List Log.Entry) {e : Log.Entry} {status input output : Nat}
    {body : Option Value} (h : e.Completes l status input output body) :
    Settles l .completed (front ++ [e]) := by
  have hc : isCompletion e = true := isCompletion_eq h
  simp [Settles, hc]

theorem Sent.settles {stream : Bool} (h : Sent l stream v es) : Settles l v es := by
  cases h with
  | failed h => exact settles_failed h
  | whole hs hlt h => exact settles_completed [] h
  | streamed hs hw hb h => exact settles_completed _ h

theorem Routed.settles {stream : Bool} (h : Routed l stream v es) : Settles l v es := by
  cases h with
  | failed h => exact settles_failed h
  | built hb h => exact h.settles.cons (isCompletion_eq hb) (isError_eq hb)

theorem Received.settles {stream : Bool} (h : Received l stream v es) : Settles l v es := by
  cases h with
  | failed h => exact settles_failed h
  | routed he h => exact h.settles.cons (isCompletion_eq he) (isError_eq he)

theorem Lived.settles (h : Lived l v es) : Settles l v es := by
  cases h with
  | rejected h => exact settles_failed h
  | received he h => exact h.settles.cons (isCompletion_eq he) (isError_eq he)

end

/-! ## What the client is told -/

/-- What the client is told of a failure that the log has with this status and message. -/
inductive Tells : Nat → String → Messages.Failure → Prop where
  | unread (message : String) : Tells 400 message ⟨"error", ⟨"invalid_request_error", message⟩⟩
  | unrouted (message : String) : Tells 404 message ⟨"error", ⟨"not_found_error", message⟩⟩
  | unready (message : String) : Tells 500 message ⟨"error", ⟨"api_error", message⟩⟩
  | unmet (message : String) :
    Tells 502 message ⟨"error", ⟨"api_error", "Proxy error: " ++ message⟩⟩
  | passed {status : Nat} (hs : 400 ≤ status) (text : List Char) :
    Tells status (String.ofList (Text.fit 500 text)) (providerFailure status text)

theorem Tells.le {status : Nat} {message : String} {f : Messages.Failure}
    (h : Tells status message f) : 400 ≤ status := by
  cases h with
  | passed hs text => exact hs
  | _ => omega

theorem kind_providerFailure (status : Nat) (text : List Char) :
    (providerFailure status text).kind = "error" := by
  unfold providerFailure
  split <;> rfl

theorem Tells.kind {status : Nat} {message : String} {f : Messages.Failure}
    (h : Tells status message f) : f.kind = "error" := by
  cases h with
  | passed hs text => exact kind_providerFailure status text
  | _ => rfl

inductive Told : Verdict → Reply → Prop where
  | completed (body : Body) : Told .completed ⟨200, body⟩
  | failed {status : Nat} {message : String} {f : Messages.Failure} (h : Tells status message f) :
    Told (.failed status message) (failure status f)

theorem told_ofProblem (p : Problem) :
    Told (.failed (ofProblem p).status p.message) (ofProblem p) := by
  cases p with
  | routing model => exact .failed (.unrouted _)
  | modelMapping model key => exact .failed (.unread _)
  | config message => exact .failed (.unready _)
  | _ => exact .failed (.unmet _)

/-- The entries are of some kind, and the reply fits them. -/
def Fits (kind : Verdict → List Log.Entry → Prop) (o : Outcome) : Prop :=
  ∃ v, kind v o.2 ∧ Told v o.1

section
variable {l : Log} {o : Outcome}

theorem status_eq_iff (h : Fits (Lived l) o) :
    o.1.status = 200 ↔ ∃ e ∈ o.2, isCompletion e := by
  obtain ⟨reply, entries⟩ := o
  obtain ⟨w, hw, htold⟩ := h
  have hsettles := hw.settles
  rw [← List.any_eq_true]
  cases htold with
  | completed body => exact iff_of_true rfl hsettles
  | @failed status message f ht =>
    have hle := ht.le
    exact iff_of_false (show status ≠ 200 by omega) (by simp [hsettles.1])

theorem told_of_failed (h : Fits (Lived l) o) (hs : o.1.status ≠ 200) :
    ∃ e component message f, o.2.filter isError = [e] ∧ e.Fails l component o.1.status message ∧
      Tells o.1.status message f ∧ f.kind = "error" ∧ o.1 = failure o.1.status f := by
  obtain ⟨reply, entries⟩ := o
  obtain ⟨w, hw, htold⟩ := h
  have hsettles := hw.settles
  cases htold with
  | completed body => exact absurd rfl hs
  | @failed status message f ht =>
    obtain ⟨-, e, component, hone, hfails⟩ := hsettles
    exact ⟨e, component, message, f, hone, hfails, ht, ht.kind, rfl⟩

end

/-! ## The answer of a provider -/

section
variable (s : Session) (l : Log) (r : Messages.Request)

theorem fits_refused {status : Nat} (hs : 400 ≤ status) (text : List Char) (stream : Bool) :
    Fits (Sent l stream) (refusedByProvider l status text) :=
  ⟨_, .failed (l.error_fails _ _ _), .failed (.passed hs text)⟩

theorem fits_failed (p : Problem) (stream : Bool) :
    Fits (Sent l stream) (failed l "proxy" p) :=
  ⟨_, .failed (l.error_fails _ _ _), told_ofProblem p⟩

theorem fits_answerWhole (hr : r.isStreaming = false) (status : Nat)
    (reading : List UInt8 → List Char) (body : List EventStream.Arrival) :
    Fits (Sent l r.isStreaming) (answerWhole s l r status reading body) := by
  unfold answerWhole
  cases bodyText body with
  | error message => exact fits_failed l _ _
  | ok bytes =>
    dsimp only
    by_cases hs : 400 ≤ status
    · rw [if_pos hs]
      exact fits_refused l hs _ _
    · rw [if_neg hs]
      cases Decode.ofText Chat.Reply.decode (reading bytes) with
      | error e => exact fits_failed l _ _
      | ok reply =>
        exact ⟨.completed, .whole hr (by omega) (l.completed_completes _ _ _ _), .completed _⟩

theorem warnings_say {items : List EventStream.Item} :
    ∀ w ∈ Relay.warnings l items, ∃ message members, w.Says l .warn "stream" message members := by
  intro w hw
  obtain ⟨⟨text, error⟩, -, rfl⟩ := List.mem_map.mp hw
  exact ⟨_, _, rfl, rfl, rfl, rfl, rfl⟩

theorem failures_cases (items : List EventStream.Item) :
    Relay.failures l items = [] ∨
      ∃ b message, Relay.failures l items = [b] ∧ b.Fails l "stream" 502 message := by
  unfold Relay.failures
  cases (items.find? Relay.ends).bind Relay.failure? with
  | none => exact .inl rfl
  | some message => exact .inr ⟨_, _, rfl, l.error_fails _ _ _⟩

theorem fits_answerStream (hr : r.isStreaming = true) (status : Nat)
    (reading : List UInt8 → List Char) (body : List EventStream.Arrival) :
    Fits (Sent l r.isStreaming) (answerStream s l r status reading body) := by
  unfold answerStream
  by_cases hs : 400 ≤ status
  · rw [if_pos hs]
    exact fits_refused l hs _ _
  · rw [if_neg hs]
    refine ⟨.completed, ?_, .completed _⟩
    -- a relayed stream is completed with 200 whatever broke off on its way
    rw [Relay.run_eq]
    exact .streamed hr (warnings_say l) (failures_cases l _) (l.completed_completes _ _ _ _)

theorem fits_answer (key : String) (d : Delivery) :
    Fits (Sent l r.isStreaming) (answer s l r key d) := by
  cases d with
  | refused message => exact fits_failed l _ _
  | answered status reading body =>
    by_cases hr : r.isStreaming = true
    · rw [answer, if_pos hr]
      exact fits_answerStream s l r hr status reading body
    · rw [answer, if_neg hr]
      exact fits_answerWhole s l r (by simpa using hr) status reading body

/-- The text of an answer, none of it where the answer broke off. -/
def heardText (reading : List UInt8 → List Char) (body : List EventStream.Arrival) : List Char :=
  ((bodyText body).toOption.map reading).getD []

def brokenOff (message : String) : Messages.Failure :=
  ⟨"error", ⟨"api_error", "Proxy error: " ++
    ("Provider error: " ++ ("Failed to read response body: " ++ message))⟩⟩

theorem answer_mirrors (key : String) {status : Nat} (hs : 400 ≤ status)
    (reading : List UInt8 → List Char) (body : List EventStream.Arrival) :
    (answer s l r key (.answered status reading body)).1 =
        failure status (providerFailure status (heardText reading body)) ∨
      r.isStreaming = false ∧ ∃ message, bodyText body = .error message ∧
        (answer s l r key (.answered status reading body)).1 = failure 502 (brokenOff message) := by
  by_cases hr : r.isStreaming = true
  · left
    rw [answer, if_pos hr, answerStream, if_pos hs]
    rfl
  · rw [answer, if_neg hr, answerWhole]
    cases hb : bodyText body with
    | error message =>
      -- the status is looked at only once the text is there
      exact .inr ⟨by simpa using hr, message, rfl, rfl⟩
    | ok bytes =>
      left
      dsimp only
      rw [if_pos hs, heardText, hb]
      rfl

end

/-! ## From the answer to the request -/

section
variable (v : Server) (s : Session) (l : Log) (r : Messages.Request)

theorem Fits.after (kind : Verdict → List Log.Entry → Prop)
    {kind' : Verdict → List Log.Entry → Prop} {o : Outcome} {es : List Log.Entry}
    (h : Fits kind o) (hk : ∀ w es', kind w es' → kind' w (es ++ es')) :
    Fits kind' (Server.after es o) := by
  obtain ⟨w, hw, htold⟩ := h
  exact ⟨w, hk w _ hw, htold⟩

theorem fits_forward (model : String) (p : Config.Provider) (e : Endpoint) :
    Fits (Routed l r.isStreaming) ((forward s l r model p e).run s.transport) := by
  unfold forward
  cases e.keyProblem with
  | some message => exact ⟨_, .failed (l.error_fails _ _ _), told_ofProblem (.config message)⟩
  | none =>
    dsimp only
    rw [Course.run_after]
    refine Fits.after (Sent l r.isStreaming) ?_ fun w es h =>
      .built (l.built_builds _ _) h
    cases Endpoint.destination e.url with
    | error message => exact fits_failed l _ _
    | ok url => exact fits_answer s l r p.key _

theorem fits_converse :
    Fits (Received l r.isStreaming) ((converse v s l r).run s.transport) := by
  unfold converse
  cases Routing.resolve v.config r with
  | error p => exact ⟨_, .failed (l.error_fails _ _ _), told_ofProblem p⟩
  | ok route =>
    dsimp only
    rw [Course.run_after]
    refine Fits.after (Routed l r.isStreaming) ?_ fun w es h =>
      .routed (l.routed_routes _ _ _) h
    split
    · exact fits_forward s l r _ _ _
    · exact ⟨_, .failed (l.error_fails _ _ _), told_ofProblem (unready route.key)⟩

def log : Log := ⟨s.requestId, v.config.logging.bodies⟩

theorem course_cases (body : List UInt8) :
    (∃ e, course v s body = .done (rejected (log v s) e)) ∨
      ∃ r raw, course v s body = Course.after
        [(log v s).received r.model r.isStreaming r.messages.length raw]
        (converse v s (log v s) r) := by
  unfold course
  cases (Text.decodeAll? body).bind Json.read with
  | none => exact .inl ⟨_, rfl⟩
  | some raw =>
    dsimp only
    cases Messages.Request.decode .tree (Json.Document.ofValue raw) with
    | error e => exact .inl ⟨_, rfl⟩
    | ok r => exact .inr ⟨r, raw, rfl⟩

theorem fits_messages (body : List UInt8) : Fits (Lived (log v s)) (messages v s body) := by
  unfold messages
  obtain ⟨e, he⟩ | ⟨r, raw, hr⟩ := course_cases v s body
  · rw [he]
    exact ⟨_, .rejected ((log v s).error_fails _ _ _), .failed (.unread _)⟩
  · rw [hr, Course.run_after]
    exact Fits.after _ (fits_converse v s (log v s) r) fun w es h =>
      .received ((log v s).received_receives _ _ _ _) h

/-! ## Questions -/

/-- Nobody is asked, or one provider is, once this was logged, and its answer makes the outcome. -/
def Asks (c : Course) : Prop :=
  c.asked s.transport = [] ∨ ∃ q key front,
    c.asked s.transport = [q] ∧ l.built q.endpoint.url q.payload ∈ front ∧
    c.run s.transport =
      Server.after front (answer s l r key (s.transport q.endpoint q.url q.payload))

theorem Asks.after {c : Course} (es : List Log.Entry) (h : Asks s l r c) :
    Asks s l r (c.after es) := by
  rw [Asks, Course.asked_after, Course.run_after]
  obtain hnone | ⟨q, key, front, hone, hbuilt, hrun⟩ := h
  · exact .inl hnone
  · refine .inr ⟨q, key, es ++ front, hone, List.mem_append_right es hbuilt, ?_⟩
    rw [hrun, Server.after, Server.after, Server.after, List.append_assoc]

theorem asks_forward (model : String) (p : Config.Provider) (e : Endpoint) :
    Asks s l r (forward s l r model p e) := by
  unfold forward
  cases e.keyProblem with
  | some message => exact .inl rfl
  | none =>
    dsimp only
    cases Endpoint.destination e.url with
    | error message => exact .inl rfl
    | ok url => exact .inr ⟨⟨e, url, _⟩, p.key, [_], rfl, List.mem_singleton_self _, rfl⟩

theorem asks_converse : Asks s l r (converse v s l r) := by
  unfold converse
  cases Routing.resolve v.config r with
  | error p => exact .inl rfl
  | ok route =>
    refine Asks.after s l r _ ?_
    split
    · exact asks_forward s l r _ _ _
    · exact .inl rfl

theorem asks_course (body : List UInt8) :
    (course v s body).asked s.transport = [] ∨ ∃ r raw q key front,
      (log v s).received r.model r.isStreaming r.messages.length raw ∈ front ∧
      (course v s body).asked s.transport = [q] ∧
      (log v s).built q.endpoint.url q.payload ∈ front ∧
      messages v s body =
        Server.after front (answer s (log v s) r key (s.transport q.endpoint q.url q.payload)) := by
  obtain ⟨e, he⟩ | ⟨r, raw, hr⟩ := course_cases v s body
  · exact .inl (by rw [he]; rfl)
  · rw [messages, hr, Course.asked_after, Course.run_after]
    obtain hnone | ⟨q, key, front, hone, hbuilt, hrun⟩ := asks_converse v s (log v s) r
    · exact .inl hnone
    · refine .inr ⟨r, raw, q, key, _ :: front, List.mem_cons_self, hone,
        List.mem_cons_of_mem _ hbuilt, ?_⟩
      rw [hrun]
      rfl

/-! ## The whole life -/

/-- What the log, the questions to providers and the outcome of a request have to do with each
other. -/
structure Life (t : Transport) (asked : List Question) (o : Outcome) : Prop where
  entries : ∃ verdict, Lived l verdict o.2
  once : asked.length ≤ 1
  /-- Nobody is asked before the request to the provider is logged. -/
  built : ∀ q ∈ asked, ∃ e ∈ o.2, e.Builds l q.endpoint.url q.payload
  completed : o.1.status = 200 ↔ ∃ e ∈ o.2, isCompletion e
  /-- There is one error then, and the reply tells of it. -/
  failed : o.1.status ≠ 200 → ∃ e component message f,
    o.2.filter isError = [e] ∧ e.Fails l component o.1.status message ∧
    Tells o.1.status message f ∧ f.kind = "error" ∧ o.1 = failure o.1.status f
  /-- A provider's error status is mirrored. An answer that breaks off while it is awaited as a
  whole is none, but a connection that failed. -/
  mirrored : ∀ q ∈ asked, ∀ status reading body,
    t q.endpoint q.url q.payload = .answered status reading body → 400 ≤ status →
    o.1 = failure status (providerFailure status (heardText reading body)) ∨
      (∃ e ∈ o.2, ∃ model count raw, e.Receives l model false count raw) ∧
      ∃ message, bodyText body = .error message ∧ o.1 = failure 502 (brokenOff message)

/-- **The life of a request.** Whatever is sent and whatever comes of asking the provider, the
entries are those of the grammar, at most one provider is asked, and the reply fits both. -/
theorem messages_lived (body : List UInt8) :
    Life (log v s) s.transport ((course v s body).asked s.transport) (messages v s body) := by
  have hfits : Fits (Lived (log v s)) (messages v s body) := fits_messages v s body
  have hlived : ∃ verdict, Lived (log v s) verdict (messages v s body).2 :=
    hfits.imp fun _ h => h.1
  obtain hnone | ⟨r, raw, q, key, front, hreceived, hone, hbuilt, hrun⟩ := asks_course v s body
  · rw [hnone]
    exact ⟨hlived, Nat.zero_le 1, by simp, status_eq_iff hfits, told_of_failed hfits, by simp⟩
  · rw [hone]
    refine ⟨hlived, Nat.le_refl 1, ?_, status_eq_iff hfits, told_of_failed hfits, ?_⟩
    · intro q' hq
      obtain rfl := List.mem_singleton.mp hq
      rw [hrun]
      exact ⟨_, List.mem_append_left _ hbuilt, (log v s).built_builds _ _⟩
    · intro q' hq status reading body hd hs
      obtain rfl := List.mem_singleton.mp hq
      rw [hd] at hrun
      rw [hrun]
      obtain hmirrored | ⟨hr, hlost⟩ := answer_mirrors s (log v s) r key hs reading body
      · exact .inl hmirrored
      · rw [hr] at hreceived
        exact .inr ⟨⟨_, List.mem_append_left _ hreceived, _, _, _,
          (log v s).received_receives _ _ _ _⟩, hlost⟩

end

/-! ## An answer that breaks off -/

/-- A session whose provider is overloaded and does not get to the end of saying so. -/
def cutShort : Session :=
  ⟨"request", "message", fun n => "call_" ++ toString n,
    fun _ _ _ => .answered 503 Text.decodeLossy [.bytes [0x62, 0x75], .failure "connection reset"]⟩

def brief (stream : String) : List UInt8 :=
  Text.encode ("\x7b\"messages\":[],\"model\":\"opus\",\"stream\":" ++ stream ++ "\x7d").toList

/-- The error status of a provider whose answer breaks off is mirrored only where the reply streams. -/
theorem messages_unmirrored :
    ∃ v, ofConfig [] Routing.tiers = .ok v ∧
      (∃ q, (course v cutShort (brief "false")).asked cutShort.transport = [q] ∧
        cutShort.transport q.endpoint q.url q.payload =
          .answered 503 Text.decodeLossy [.bytes [0x62, 0x75], .failure "connection reset"]) ∧
      (messages v cutShort (brief "false")).1.status = 502 ∧
      (messages v cutShort (brief "true")).1.status = 503 := by
  refine ⟨_, rfl, ?_, by decide +kernel, by decide +kernel⟩
  refine (List.length_eq_one_iff.mp ?_).imp fun q hq => ⟨hq, rfl⟩
  decide +kernel

end ChatGateway.Server
