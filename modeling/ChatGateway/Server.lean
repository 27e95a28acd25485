import ChatGateway.Answer.Failure
import ChatGateway.Answer.Whole
import ChatGateway.Outbound
import ChatGateway.Provider.Endpoint
import ChatGateway.Relay
import ChatGateway.Routing

/-!
# The server

What each request over HTTP is answered and what is logged of it. The transport to the providers is
a function from an endpoint, the address to ask and a body to what came of asking; the course of a
request says where it is used.
-/

namespace ChatGateway

open Json Provider

structure Server where
  config : Config
  endpoints : Table Endpoint

namespace Server

def ofConfig (env : Table String) (c : Config) : Except Problem Server :=
  (Endpoint.all env c).map fun endpoints => ⟨c, endpoints⟩

/-- What came of asking a provider. -/
inductive Delivery where
  | refused (message : String)
  /-- The header of an answer settles in which way the bytes of its body are text. -/
  | answered (status : Nat) (reading : List UInt8 → List Char) (body : List EventStream.Arrival)

abbrev Transport := Endpoint → Url → Value → Delivery

/-- What is different for each request. -/
structure Session where
  requestId : String
  messageId : String
  supply : Markup.Supply
  transport : Transport

structure Request where
  method : String
  /-- A path with a query, or a whole address. -/
  target : List Char
  body : List Char

inductive Body where
  /-- Nothing, which may still have a type. -/
  | empty (type : Option String)
  | json (v : Value)
  | events (es : List Messages.Event)

structure Reply where
  status : Nat
  body : Body

def Body.contentType : Body → Option String
  | .empty type => type
  | .json _ => some "application/json"
  | .events _ => some "text/event-stream"

def eventText (e : Messages.Event) : String :=
  "event: " ++ e.name ++ "\ndata: " ++ e.encode.text ++ "\n\n"

def Body.text : Body → String
  | .empty _ => ""
  | .json v => v.text
  | .events es => String.join (es.map eventText)

abbrev Outcome := Reply × List Log.Entry

def failure (status : Nat) (f : Messages.Failure) : Reply := ⟨status, .json f.encode⟩

def ofProblem (p : Problem) : Reply :=
  match p with
  | .routing _ => failure 404 (.notFound p.message)
  | .modelMapping _ _ => failure 400 (.invalidRequest p.message)
  | _ =>
    if p.isPreflight then failure 500 (.apiError p.message)
    else failure 502 (.apiError ("Proxy error: " ++ p.message))

def failed (log : Log) (component : String) (p : Problem) : Outcome :=
  let r := ofProblem p
  (r, [log.error component r.status p.message])

def invalidBody (e : Decode.Error) : String := "Invalid request body: " ++ e.message

def rejected (log : Log) (e : Decode.Error) : Outcome :=
  (failure 400 (.invalidRequest (invalidBody e)), [log.error "server" 400 (invalidBody e)])

def after (entries : List Log.Entry) (o : Outcome) : Outcome := (o.1, entries ++ o.2)

/-- What is done about a request: it comes to an outcome, or a provider is asked first. -/
inductive Course where
  | done (o : Outcome)
  | ask (e : Endpoint) (url : Url) (payload : Value) (next : Delivery → Course)

namespace Course

/-- The course behind some entries of the log. -/
def after (entries : List Log.Entry) : Course → Course
  | .done o => .done (Server.after entries o)
  | .ask e url payload next => .ask e url payload fun d => (next d).after entries

def run (t : Transport) : Course → Outcome
  | .done o => o
  | .ask e url payload next => (next (t e url payload)).run t

end Course

def bodyText : List EventStream.Arrival → Except String (List UInt8)
  | [] => .ok []
  | .failure message :: _ => .error message
  | .bytes bytes :: more => (bodyText more).map (bytes ++ ·)

/-- What a provider's answer with an error status is to the client. -/
def providerFailure (status : Nat) (text : List Char) : Messages.Failure :=
  match Decode.ofText Chat.Failure.decode text with
  | .ok f => Answer.ofChatFailure f
  | .error _ =>
    .of (Answer.failureKindOfStatus status)
      ("Provider returned status " ++ toString status ++ ": " ++
        String.ofList (Text.fit 500 text))

def refusedByProvider (log : Log) (status : Nat) (text : List Char) : Outcome :=
  (failure status (providerFailure status text),
    [log.error "proxy" status (String.ofList (Text.fit 500 text))])

def answerWhole (s : Session) (log : Log) (r : Messages.Request) (status : Nat)
    (reading : List UInt8 → List Char) (body : List EventStream.Arrival) : Outcome :=
  match bodyText body with
  | .error message =>
    failed log "proxy" (.provider ("Failed to read response body: " ++ message))
  | .ok bytes =>
    let text := reading bytes
    if 400 ≤ status then refusedByProvider log status text
    else
      match Decode.ofText Chat.Reply.decode text with
      | .error e =>
        failed log "proxy" (.reply ("Failed to parse provider response: " ++ e.message ++
          ". Body: " ++ String.ofList (Text.fit 300 text)))
      | .ok reply =>
        let m := Answer.whole s.supply r.toolList r.model reply
        (⟨200, .json m.encode⟩,
          [log.completed status m.usage.inputTokens m.usage.outputTokens (some m.encode)])

def answerStream (s : Session) (log : Log) (r : Messages.Request) (status : Nat)
    (reading : List UInt8 → List Char) (body : List EventStream.Arrival) : Outcome :=
  if 400 ≤ status then
    refusedByProvider log status (((bodyText body).toOption.map reading).getD [])
  else
    let out := Relay.run ⟨s.messageId, r.model, r.toolList, s.supply⟩ log (EventStream.items body)
    (⟨200, .events out.events⟩, out.entries)

def unreached (log : Log) (key message : String) : Outcome :=
  failed log "proxy" (.provider ("Request to '" ++ key ++ "' failed: " ++ message))

def answer (s : Session) (log : Log) (r : Messages.Request) (key : String) : Delivery → Outcome
  | .refused message => unreached log key message
  | .answered status reading body =>
    if r.isStreaming then answerStream s log r status reading body
    else answerWhole s log r status reading body

/-- Asks the endpoint of a route and answers with what comes. -/
def forward (s : Session) (log : Log) (r : Messages.Request) (model : String)
    (p : Config.Provider) (e : Endpoint) : Course :=
  match e.keyProblem with
  | some message => .done (failed log "proxy" (.config message))
  | none =>
    let payload := (Outbound.build r model p).payload
    Course.after [log.built e.url payload]
      (match Endpoint.destination e.url with
      | .error message => .done (unreached log p.key message)
      | .ok url => .ask e url payload fun d => .done (answer s log r p.key d))

def unready (key : String) : Problem := .config ("Provider '" ++ key ++ "' is not initialized")

def converse (v : Server) (s : Session) (log : Log) (r : Messages.Request) : Course :=
  match Routing.resolve v.config r with
  | .error p => .done (failed log "router" p)
  | .ok route =>
    Course.after [log.routed route.key route.model (Routing.estimate r)]
      (match v.config.provider? route.key, v.endpoints.get? route.key with
      | some p, some e => forward s log r route.model p e
      | _, _ => .done (failed log "server" (unready route.key)))

def course (v : Server) (s : Session) (body : List UInt8) : Course :=
  let log : Log := ⟨s.requestId, v.config.logging.bodies⟩
  match (Text.decodeAll? body).bind Json.read with
  | none => .done (rejected log .malformed)
  | some raw =>
    match Messages.Request.decode .tree (Document.ofValue raw) with
    | .error e => .done (rejected log e)
    | .ok r =>
      Course.after [log.received r.model r.isStreaming r.messages.length raw] (converse v s log r)

def messages (v : Server) (s : Session) (body : List UInt8) : Outcome :=
  (course v s body).run s.transport

def countTokens (body : List Char) : Reply :=
  match Decode.ofText Messages.Request.decode body with
  | .ok r => ⟨200, .json (Messages.TokenCount.encode ⟨Routing.estimate r⟩)⟩
  | .error e => failure 400 (.invalidRequest (invalidBody e))

def health : Reply :=
  ⟨200, .json (.record [("status", some (.str "ok")), ("version", some (.str "0.1.0"))])⟩

def models (c : Config) : Reply :=
  let model (id : String) : Value :=
    .record [("id", some (.str id)), ("type", some (.str "model")), ("object", some (.str "model")),
      ("owned_by",
        some (.str ((c.routing.modelProviders.get? id).getD c.routing.defaultProvider)))]
  ⟨200, .json (.record [("data", some (.arr (c.knownModels.map model))),
    ("object", some (.str "list"))])⟩

def methodOf (path : String) : Option String :=
  match path with
  | "/v1/messages" | "/v1/messages/count_tokens" => some "POST"
  | "/health" | "/v1/models" => some "GET"
  | _ => none

def Request.path (q : Request) : String :=
  let behindHost :=
    if q.target.head? = some '/' then q.target
    else (Text.cut? "://".toList q.target).elim q.target fun (_, rest) =>
      rest.dropWhile (!Url.endsHost false ·)
  let path := behindHost.takeWhile fun c => c ≠ '?' ∧ c ≠ '#'
  if path.isEmpty then "/" else String.ofList path

def bare (status : Nat) : Outcome := (⟨status, .empty none⟩, [])

def withoutBody (r : Reply) : Reply := ⟨r.status, .empty r.body.contentType⟩

def get (v : Server) (path : String) : Reply :=
  if path = "/health" then health else models v.config

def post (v : Server) (s : Session) (path : String) (body : List Char) : Outcome :=
  if path = "/v1/messages" then messages v s (Text.encode body) else (countTokens body, [])

/-- Answers a request. `OPTIONS` is answered on every path, and `HEAD` as `GET` without the body. -/
def handle (v : Server) (s : Session) (q : Request) : Outcome :=
  if q.method = "OPTIONS" then bare 200
  else
    match methodOf q.path with
    | none => bare 404
    | some "GET" =>
      if q.method = "GET" then (get v q.path, [])
      else if q.method = "HEAD" then (withoutBody (get v q.path), [])
      else bare 405
    | some _ => if q.method = "POST" then post v s q.path q.body else bare 405

end Server

end ChatGateway
