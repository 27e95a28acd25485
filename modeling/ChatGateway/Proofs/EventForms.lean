import ChatGateway.Messages.Event
import ChatGateway.Proofs.Records

/-!
# Events that are read back

Numbers of a reply count what 64 bits can count, and the inputs of its calls are canonical. Every
document that says such an event, in whatever order its members stand, is decoded to it.
-/

namespace ChatGateway.Messages

open Json Decode

/-! ## Well-formed events -/

structure Usage.WellFormed (u : Usage) : Prop where
  input : u.inputTokens < UInt64.size
  output : u.outputTokens < UInt64.size
  creation : ∀ n ∈ u.cacheCreation, n < UInt64.size
  read : ∀ n ∈ u.cacheRead, n < UInt64.size

structure Tally.WellFormed (t : Tally) : Prop where
  output : t.outputTokens < UInt64.size
  input : ∀ n ∈ t.inputTokens, n < UInt64.size
  creation : ∀ n ∈ t.cacheCreation, n < UInt64.size
  read : ∀ n ∈ t.cacheRead, n < UInt64.size

def ReplyBlock.WellFormed : ReplyBlock → Prop
  | .toolUse _ _ input => input.Canonical
  | .text _ | .thinking _ _ => True

structure Reply.WellFormed (r : Reply) : Prop where
  content : ∀ b ∈ r.content, b.WellFormed
  usage : r.usage.WellFormed

def Event.WellFormed : Event → Prop
  | .messageStart message => message.WellFormed
  | .blockStart index block => index < UInt64.size ∧ block.WellFormed
  | .blockDelta index _ | .blockStop index => index < UInt64.size
  | .messageDelta _ usage => usage.WellFormed
  | .messageStop => True

/-! ## Replies -/

theorem Usage.reads {u : Usage} (hu : u.WellFormed) : Reads decode u.encode u := by
  refine (takes_record fun h => ?_).reads (by simp [Table.keys])
  have hcreation := fun n hn => reads_u64 (hu.creation n hn)
  have hread := fun n hn => reads_u64 (hu.read n hn)
  exact Fields.gets_of h Usage.mk
    |>.required "input_tokens" (reads_u64 hu.input) rfl
    |>.required "output_tokens" (reads_u64 hu.output) rfl
    |>.optional "cache_creation_input_tokens" u.cacheCreation hcreation (by simp [Value.ofNat]) rfl
    |>.optional "cache_read_input_tokens" u.cacheRead hread (by simp [Value.ofNat]) rfl

theorem Usage.tidy (u : Usage) : (Document.ofValue u.encode).Tidy :=
  tidy_record (by simp [Table.keys]) (by simp [Value.ofNat])

theorem ReplyBlock.takes_text (t : String) :
    Takes decodeText [("text", some (.str t))] (.text t) :=
  takes_record fun h => Fields.gets_of h ReplyBlock.text |>.required "text" (reads_string t) rfl

theorem ReplyBlock.takes_toolUse (id name : String) {input : Value} (hi : input.Canonical) :
    Takes decodeToolUse [("id", some (.str id)), ("name", some (.str name)),
      ("input", some input)] (.toolUse id name input) :=
  takes_record fun h => Fields.gets_of h ReplyBlock.toolUse
    |>.required "id" (reads_string id) rfl
    |>.required "name" (reads_string name) rfl
    |>.required "input" (reads_value hi) rfl

theorem ReplyBlock.takes_thinking (t : String) (signature : Option String) :
    Takes decodeThinking [("thinking", some (.str t)), ("signature", signature.map .str)]
      (.thinking t signature) :=
  takes_record fun h => Fields.gets_of h ReplyBlock.thinking
    |>.required "thinking" (reads_string t) rfl
    |>.optional "signature" signature (fun s _ => reads_string s) (by simp) rfl

theorem ReplyBlock.reads {b : ReplyBlock} (hb : b.WellFormed) : Reads decode b.encode b := by
  cases b with
  | text t =>
    exact (takes_text t).variant (by simp [Table.keys]) (fun _ _ => rfl) rfl fun _ => rfl
  | toolUse id name input =>
    exact (takes_toolUse id name hb).variant (by simp [Table.keys]) (fun _ _ => rfl) rfl
      fun _ => rfl
  | thinking t signature =>
    exact (takes_thinking t signature).variant (by simp [Table.keys]) (fun _ _ => rfl) rfl
      fun _ => rfl

theorem ReplyBlock.tidy {b : ReplyBlock} (hb : b.WellFormed) :
    (Document.ofValue b.encode).Tidy := by
  cases b with
  | text t => exact tidy_record (by simp [Table.keys]) (by simp)
  | toolUse id name input =>
    exact tidy_record (by simp [Table.keys]) (by simp [Document.tidy_of_canonical input hb])
  | thinking t signature => exact tidy_record (by simp [Table.keys]) (by simp)

theorem reads_textOrNull (s : Option String) : Reads (option string) (s.elim .null .str) s := by
  cases s with
  | none => exact reads_null string
  | some s => exact (reads_string s).option (by simp)

theorem tidy_textOrNull {s : Option String} {v : Value} (h : textOrNull s = some v) :
    (Document.ofValue v).Tidy := by
  obtain rfl := Option.some.inj h
  cases s <;> simp

theorem Reply.reads {r : Reply} (hr : r.WellFormed) : Reads decode r.encode r := by
  refine (takes_record fun h => ?_).reads (by simp [Table.keys])
  have hcontent := reads_list fun b hb => ReplyBlock.reads (hr.content b hb)
  exact Fields.gets_of h Reply.mk
    |>.required "id" (reads_string r.id) rfl
    |>.required "type" (reads_string r.kind) rfl
    |>.required "role" (reads_string r.role) rfl
    |>.required "content" hcontent rfl
    |>.required "model" (reads_string r.model) rfl
    |>.optional_given "stop_reason" (reads_textOrNull r.stopReason) rfl
    |>.optional_given "stop_sequence" (reads_textOrNull r.stopSequence) rfl
    |>.required "usage" (Usage.reads hr.usage) rfl

theorem Reply.tidy {r : Reply} (hr : r.WellFormed) : (Document.ofValue r.encode).Tidy := by
  have hcontent : (Document.ofValue (.arr (r.content.map ReplyBlock.encode))).Tidy := by
    refine Document.tidy_arr_iff.mpr (List.forall_mem_map.mpr fun b hb => ?_)
    exact ReplyBlock.tidy (hr.content b hb)
  refine tidy_record (by simp [Table.keys]) ?_
  simpa [hcontent, Usage.tidy] using ⟨fun _ => tidy_textOrNull, fun _ => tidy_textOrNull⟩

/-! ## Events -/

theorem Delta.takes_one (variant field : String) (make : String → Delta) (t : String) :
    Takes (decodeOne variant field make) [(field, some (.str t))] (make t) :=
  takes_record fun h =>
    Fields.gets_of h make |>.required field (reads_string t) (by simp [Table.get?])

theorem Delta.reads (delta : Delta) : Reads decode delta.encode delta := by
  cases delta with
  | text t =>
    exact (takes_one "TextDelta" "text" .text t).variant (by simp [Table.keys]) (fun _ _ => rfl)
      rfl fun _ => rfl
  | inputJson t =>
    exact (takes_one "InputJsonDelta" "partial_json" .inputJson t).variant (by simp [Table.keys])
      (fun _ _ => rfl) rfl fun _ => rfl
  | thinking t =>
    exact (takes_one "ThinkingDelta" "thinking" .thinking t).variant (by simp [Table.keys])
      (fun _ _ => rfl) rfl fun _ => rfl
  | signature t =>
    exact (takes_one "SignatureDelta" "signature" .signature t).variant (by simp [Table.keys])
      (fun _ _ => rfl) rfl fun _ => rfl

theorem Delta.tidy (delta : Delta) : (Document.ofValue delta.encode).Tidy := by
  cases delta <;> exact tidy_record (by simp [Table.keys]) (by simp)

theorem Ending.reads (e : Ending) : Reads Ending.decode e.encode e := by
  refine (takes_record fun h => ?_).reads (by simp [Table.keys])
  exact Fields.gets_of h Ending.mk
    |>.optional "stop_reason" e.stopReason (fun s _ => reads_string s) (by simp) rfl
    |>.optional "stop_sequence" e.stopSequence (fun s _ => reads_string s) (by simp) rfl

theorem Tally.reads {t : Tally} (ht : t.WellFormed) : Reads Tally.decode t.encode t := by
  refine (takes_record fun h => ?_).reads (by simp [Table.keys])
  have hinput := fun n hn => reads_u64 (ht.input n hn)
  have hcreation := fun n hn => reads_u64 (ht.creation n hn)
  have hread := fun n hn => reads_u64 (ht.read n hn)
  exact Fields.gets_of h Tally.mk
    |>.required "output_tokens" (reads_u64 ht.output) rfl
    |>.orElse_none "input_tokens" t.inputTokens hinput (by simp [Value.ofNat]) rfl
    |>.orElse_none "cache_creation_input_tokens" t.cacheCreation hcreation
      (by simp [Value.ofNat]) rfl
    |>.orElse_none "cache_read_input_tokens" t.cacheRead hread (by simp [Value.ofNat]) rfl

theorem Ending.tidy (e : Ending) : (Document.ofValue e.encode).Tidy :=
  tidy_record (by simp [Table.keys]) (by simp)

theorem Tally.tidy (t : Tally) : (Document.ofValue t.encode).Tidy :=
  tidy_record (by simp [Table.keys]) (by simp [Value.ofNat])

namespace Event

theorem takes_messageStart {message : Reply} (h : message.WellFormed) :
    Takes decodeMessageStart [("message", some message.encode)] (.messageStart message) :=
  takes_record fun hmembers =>
    Fields.gets_of hmembers Event.messageStart |>.required "message" (Reply.reads h) rfl

theorem takes_blockStart {index : Nat} {block : ReplyBlock} (hi : index < UInt64.size)
    (hb : block.WellFormed) :
    Takes decodeBlockStart [("index", some (.ofNat index)), ("content_block", some block.encode)]
      (.blockStart index block) :=
  takes_record fun h => Fields.gets_of h Event.blockStart
    |>.required "index" (reads_usize hi) rfl
    |>.required "content_block" (ReplyBlock.reads hb) rfl

theorem takes_blockDelta {index : Nat} (hi : index < UInt64.size) (delta : Delta) :
    Takes decodeBlockDelta [("index", some (.ofNat index)), ("delta", some delta.encode)]
      (.blockDelta index delta) :=
  takes_record fun h => Fields.gets_of h Event.blockDelta
    |>.required "index" (reads_usize hi) rfl
    |>.required "delta" (Delta.reads delta) rfl

theorem takes_blockStop {index : Nat} (hi : index < UInt64.size) :
    Takes decodeBlockStop [("index", some (.ofNat index))] (.blockStop index) :=
  takes_record fun h => Fields.gets_of h Event.blockStop |>.required "index" (reads_usize hi) rfl

theorem takes_messageDelta (ending : Ending) {usage : Tally} (h : usage.WellFormed) :
    Takes decodeMessageDelta [("delta", some ending.encode), ("usage", some usage.encode)]
      (.messageDelta ending usage) :=
  takes_record fun hmembers => Fields.gets_of hmembers Event.messageDelta
    |>.required "delta" (Ending.reads ending) rfl
    |>.required "usage" (Tally.reads h) rfl

/-- Every event is read back from every document that says it. -/
theorem reads {e : Event} (he : e.WellFormed) : Reads decode e.encode e := by
  cases e with
  | messageStart message =>
    exact (takes_messageStart he).variant (by simp [Table.keys]) (fun _ _ => rfl) rfl fun _ => rfl
  | blockStart index block =>
    exact (takes_blockStart he.1 he.2).variant (by simp [Table.keys]) (fun _ _ => rfl) rfl
      fun _ => rfl
  | blockDelta index delta =>
    exact (takes_blockDelta he delta).variant (by simp [Table.keys]) (fun _ _ => rfl) rfl
      fun _ => rfl
  | blockStop index =>
    exact (takes_blockStop he).variant (by simp [Table.keys]) (fun _ _ => rfl) rfl fun _ => rfl
  | messageDelta ending usage =>
    exact (takes_messageDelta ending he).variant (by simp [Table.keys]) (fun _ _ => rfl) rfl
      fun _ => rfl
  | messageStop =>
    exact (takes_nothing messageStop).variant (by simp [Table.keys]) (fun _ _ => rfl) rfl
      fun _ => rfl

theorem tidy {e : Event} (he : e.WellFormed) : (Document.ofValue e.encode).Tidy := by
  cases e with
  | messageStart message => exact tidy_record (by simp [Table.keys]) (by simp [Reply.tidy he])
  | blockStart index block =>
    exact tidy_record (by simp [Table.keys]) (by simp [Value.ofNat, ReplyBlock.tidy he.2])
  | blockDelta index delta =>
    exact tidy_record (by simp [Table.keys]) (by simp [Value.ofNat, Delta.tidy])
  | blockStop index => exact tidy_record (by simp [Table.keys]) (by simp [Value.ofNat])
  | messageDelta ending usage =>
    exact tidy_record (by simp [Table.keys]) (by simp [Ending.tidy, Tally.tidy])
  | messageStop => exact tidy_record (by simp [Table.keys]) (by simp)

end Event

end ChatGateway.Messages
