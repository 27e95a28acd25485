import ChatGateway.Answer.Stream
import ChatGateway.EventStream
import ChatGateway.Log
import ChatGateway.Text.Blank
import ChatGateway.Text.Utf8

/-!
# Relaying a stream

The events of a provider's stream go through the answer one by one. What is no chunk is passed over,
and a failure of the wire ends the stream; the reply is closed either way.
-/

namespace ChatGateway.Relay

open Answer Messages Json

inductive Step where
  | pass
  | done
  | chunk (k : Chat.Chunk)
  | unreadable (data : List Char) (error : Decode.Error)
  | broken (message : String)

def step : EventStream.Item → Step
  | .malformed => .pass
  | .failure message => .broken message
  | .data text =>
    let data := Text.trim text
    if data.isEmpty then .pass
    else if data = "[DONE]".toList then .done
    else
      match Decode.ofText Chat.Chunk.decode data with
      | .ok k => .chunk k
      | .error e => .unreadable data e

def skipped (log : Log) (data : List Char) (e : Decode.Error) : Log.Entry :=
  log.warn "stream" "Skipped unparseable chunk"
    (.record [("error", some (.str e.message)),
      ("data", some (.str (String.ofList (Text.fit 200 data))))])

structure Output where
  events : List Event
  entries : List Log.Entry

namespace Output

def append (a b : Output) : Output := ⟨a.events ++ b.events, a.entries ++ b.entries⟩

instance : Append Output := ⟨append⟩

end Output

/-- Takes the items in turn, up to the end of the stream, and closes the reply. -/
def follow (c : Stream.Setting) (log : Log) : Stream.State → List EventStream.Item → Output
  | s, [] => close s
  | s, i :: is =>
    match step i with
    | .pass => follow c log s is
    | .done => close s
    | .chunk k =>
      let (events, s) := Stream.chunk c k s
      ⟨events, []⟩ ++ follow c log s is
    | .unreadable data e => ⟨[], [skipped log data e]⟩ ++ follow c log s is
    | .broken message =>
      ⟨[], [log.error "stream" 502 ("Upstream stream error: " ++ message)]⟩ ++ close s
where
  close (s : Stream.State) : Output :=
    let (events, s) := Stream.finish c s
    ⟨events, [log.completed 200 s.usage.inputTokens s.usage.outputTokens none]⟩

def run (c : Stream.Setting) (log : Log) (items : List EventStream.Item) : Output :=
  let (events, s) := Stream.start c Stream.initial
  ⟨events, []⟩ ++ follow c log s items

end ChatGateway.Relay
