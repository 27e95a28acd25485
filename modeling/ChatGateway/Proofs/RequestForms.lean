import ChatGateway.Messages.Request
import ChatGateway.Proofs.Records

/-!
# Requests that are read back

What a decoder makes of a document is well formed: its numbers fit 64 bits, its JSON values are
canonical, and what it keeps beside its fields is a table of members that are not fields. What is
well formed is read back from every document that says it.
-/

namespace ChatGateway.Messages

open Json Decode

/-! ## Well-formed requests -/

mutual

def Block.WellFormed : Block → Prop
  | .toolUse _ _ input => input.Canonical
  | .toolResult _ content _ => ResultContent.WellFormed content
  | .text _ | .image _ | .thinking _ _ | .unsupported => True

def ResultContent.WellFormed : ResultContent → Prop
  | .blocks bs => Block.AllWellFormed bs
  | .absent | .text _ => True

def Block.AllWellFormed : List Block → Prop
  | [] => True
  | b :: bs => Block.WellFormed b ∧ Block.AllWellFormed bs

end

def Content.WellFormed : Content → Prop
  | .text _ => True
  | .blocks bs => Block.AllWellFormed bs

def Thinking.WellFormed : Thinking → Prop
  | .enabled budget => ∀ n ∈ budget, n < UInt64.size
  | .disabled => True

def Metadata.WellFormed (m : Metadata) : Prop := Kept ["user_id"] m.extra

def Request.fields : List String :=
  ["model", "max_tokens", "messages", "system", "stream", "temperature", "top_p", "top_k", "tools",
    "tool_choice", "metadata", "stop_sequences", "thinking"]

structure Request.WellFormed (r : Request) : Prop where
  maxTokens : ∀ n ∈ r.maxTokens, n < UInt64.size
  messages : ∀ m ∈ r.messages, m.content.WellFormed
  topK : ∀ n ∈ r.topK, n < UInt64.size
  tools : ∀ ts ∈ r.tools, ∀ t ∈ ts, t.inputSchema.Canonical
  metadata : ∀ m ∈ r.metadata, m.WellFormed
  thinking : ∀ t ∈ r.thinking, t.WellFormed
  extra : Kept fields r.extra

/-! ## Blocks -/

theorem ImageSource.reads (s : ImageSource) : Reads decode s.encode s := by
  refine (takes_record fun h => ?_).reads (by simp [Table.keys])
  exact Fields.gets_of h ImageSource.mk
    |>.required "type" (reads_string s.kind) rfl
    |>.required "media_type" (reads_string s.mediaType) rfl
    |>.required "data" (reads_string s.data) rfl

theorem ImageSource.tidy (s : ImageSource) : (Document.ofValue s.encode).Tidy :=
  tidy_record (by simp [Table.keys]) (by simp)

namespace Block

theorem takes_text (t : String) : Takes decodeText [("text", some (.str t))] (.text t) :=
  takes_record fun h => Fields.gets_of h Block.text |>.required "text" (reads_string t) rfl

theorem takes_image (s : ImageSource) :
    Takes decodeImage [("source", some s.encode)] (.image s) :=
  takes_record fun h => Fields.gets_of h Block.image |>.required "source" (ImageSource.reads s) rfl

theorem takes_toolUse (id name : String) {input : Value} (hi : input.Canonical) :
    Takes decodeToolUse [("id", some (.str id)), ("name", some (.str name)),
      ("input", some input)] (.toolUse id name input) :=
  takes_record fun h => Fields.gets_of h Block.toolUse
    |>.required "id" (reads_string id) rfl
    |>.required "name" (reads_string name) rfl
    |>.required "input" (reads_value hi) rfl

theorem takes_thinking (t : String) (signature : Option String) :
    Takes decodeThinking [("thinking", some (.str t)), ("signature", signature.map .str)]
      (.thinking t signature) :=
  takes_record fun h => Fields.gets_of h Block.thinking
    |>.required "thinking" (reads_string t) rfl
    |>.optional "signature" signature (fun s _ => reads_string s) (by simp) rfl

theorem reads_resultText (nested : Option (List Block)) (t : String) :
    Reads (decodeResultContent nested) (.str t) (.text t) := by
  intro m d h
  rw [h.str]
  rfl

theorem reads_resultBlocks (bs : List Block) (vs : List Value) :
    Reads (decodeResultContent (some bs)) (.arr vs) (.blocks bs) := by
  intro m d h
  have hv := h.value
  obtain ⟨ds, rfl, -⟩ := h.arr
  simp [decodeResultContent, hv]

/-- `nested` are the blocks of the content, if it has any. -/
theorem takes_toolResult (useId : String) (content : ResultContent) (isError : Option Bool)
    {nested : Option (List Block)} (hn : ∀ bs, content = .blocks bs → nested = some bs) :
    Takes (decodeToolResult nested) [("tool_use_id", some (.str useId)),
      ("content", encodeResult content), ("is_error", isError.map .bool)]
      (.toolResult useId content isError) := by
  refine takes_record fun {m _} h => ?_
  have hid := Fields.gets_of (m := m) h
      (fun id (c : Option ResultContent) e => Block.toolResult id (c.getD .absent) e)
    |>.required "tool_use_id" (reads_string useId) rfl
  have herror : ∀ b ∈ isError, Reads boolean (.bool b) b := fun b _ => reads_boolean b
  cases content with
  | absent =>
    exact hid.optional_absent "content" (decodeResultContent nested) rfl
      |>.optional "is_error" isError herror (by simp) rfl
  | text t =>
    exact hid.optional_given "content" ((reads_resultText nested t).option (by simp)) rfl
      |>.optional "is_error" isError herror (by simp) rfl
  | blocks bs =>
    obtain rfl := hn bs rfl
    have hblocks := reads_resultBlocks bs (encodeList bs)
    exact hid.optional_given "content" (hblocks.option (by simp)) rfl
      |>.optional "is_error" isError herror (by simp) rfl

def nested? : Block → Option (List Block)
  | .toolResult _ (.blocks bs) _ => some bs
  | _ => none

theorem reads_with {b : Block} (hb : b.WellFormed) {nested : Option (List Block)}
    (hn : ∀ bs, b.nested? = some bs → nested = some bs) :
    Reads (decodeWith nested) b.encode b := by
  cases b with
  | text t =>
    exact (takes_text t).variant (by simp [Table.keys]) (fun _ _ => rfl) rfl fun _ => rfl
  | image s =>
    exact (takes_image s).variant (by simp [Table.keys]) (fun _ _ => rfl) rfl fun _ => rfl
  | toolUse id name input =>
    exact (takes_toolUse id name hb).variant (by simp [Table.keys]) (fun _ _ => rfl) rfl
      fun _ => rfl
  | toolResult useId content isError =>
    have hcontent : ∀ bs, content = .blocks bs → nested = some bs := by
      rintro bs rfl
      exact hn bs rfl
    exact (takes_toolResult useId content isError hcontent).variant (by simp [Table.keys])
      (fun _ _ => rfl) rfl fun _ => rfl
  | thinking t signature =>
    exact (takes_thinking t signature).variant (by simp [Table.keys]) (fun _ _ => rfl) rfl
      fun _ => rfl
  | unsupported =>
    exact (takes_nothing unsupported).variant (by simp [Table.keys]) (fun _ _ => rfl) rfl
      fun _ => rfl

/-- The blocks of a result stand where its content does. -/
theorem inMember_eq {d : Document} (members : List (Option String × Document))
    (h : first? members "content" = some d) : inMember members = listOfDocument d := by
  induction members with
  | nil => exact absurd h (by simp [first?])
  | cons p members ih =>
    obtain ⟨key, d'⟩ := p
    rw [first?_cons] at h
    rw [inMember]
    split
    · next hk =>
      rw [if_pos hk] at h
      exact congrArg listOfDocument (Option.some.inj h)
    · next hk =>
      rw [if_neg hk] at h
      exact ih h

theorem ofDocument_of_flat {b : Block} (hb : b.WellFormed) (hn : b.nested? = none) {d : Document}
    (hd : d.Says b.encode) : ofDocument d = .ok b := by
  obtain ⟨fields, hfields, hkeys⟩ : ∃ fields, b.encode = .record fields ∧
      (Table.keys fields).Nodup := by
    cases b <;> exact ⟨_, rfl, by simp [Table.keys]⟩
  obtain ⟨members, rfl, -⟩ := exists_shown (hfields ▸ hd) hkeys
  exact reads_with hb (by simp [hn]) .copy _ hd

mutual

theorem ofDocument_eq : (b : Block) → b.WellFormed → {d : Document} → d.Says b.encode →
    ofDocument d = .ok b
  | .toolResult useId (.blocks bs) isError, hb, d, hd => by
    obtain ⟨members, rfl, hm⟩ := exists_shown hd (by simp [Table.keys])
    obtain ⟨c, hc, hmeans⟩ := hm.present (k := "content") (v := .arr (encodeList bs))
      (by simp [Table.get?, encodeResult])
    obtain ⟨ds, rfl, hds⟩ := hmeans.arr
    have hnested : inMember members = some bs := by
      rw [inMember_eq members hc, listOfDocument, ofItems_eq bs hb hds]
    rw [ofDocument, hnested]
    exact reads_with hb (fun _ h => h) .copy _ hd
  -- the other blocks are decoded alike, whatever is found in the place of a result's blocks
  | .text _, hb, _, hd | .image _, hb, _, hd | .toolUse _ _ _, hb, _, hd
  | .toolResult _ .absent _, hb, _, hd | .toolResult _ (.text _) _, hb, _, hd
  | .thinking _ _, hb, _, hd | .unsupported, hb, _, hd => ofDocument_of_flat hb rfl hd

theorem ofItems_eq : (bs : List Block) → AllWellFormed bs → {ds : List Document} →
    List.Forall₂ Document.Says ds (encodeList bs) → ofItems ds = some bs
  | [], _, _, h => by
    rw [encodeList, List.forall₂_nil_right_iff] at h
    rw [h, ofItems]
  | b :: bs, hbs, _, h => by
    rw [encodeList, List.forall₂_cons_right_iff] at h
    obtain ⟨d, ds, hd, hds, rfl⟩ := h
    rw [ofItems, ofDocument_eq b hbs.1 hd, ofItems_eq bs hbs.2 hds]

end

mutual

theorem tidy : (b : Block) → b.WellFormed → (Document.ofValue b.encode).Tidy
  | .text _, _ | .unsupported, _ => tidy_record (by simp [Table.keys]) (by simp)
  | .image s, _ => tidy_record (by simp [Table.keys]) (by simp [ImageSource.tidy])
  | .toolUse _ _ input, h =>
    tidy_record (by simp [Table.keys]) (by simp [Document.tidy_of_canonical input h])
  | .thinking _ _, _ => tidy_record (by simp [Table.keys]) (by simp)
  | .toolResult _ .absent isError, _ | .toolResult _ (.text _) isError, _ =>
    tidy_record (by simp [Table.keys]) (by cases isError <;> simp [encodeResult])
  | .toolResult _ (.blocks bs) isError, h => by
    have hbs : (Document.ofValue (.arr (encodeList bs))).Tidy :=
      Document.tidy_arr_iff.mpr (tidyList bs h)
    exact tidy_record (by simp [Table.keys]) (by cases isError <;> simp [encodeResult, hbs])

theorem tidyList : (bs : List Block) → AllWellFormed bs →
    ∀ v ∈ encodeList bs, (Document.ofValue v).Tidy
  | [], _ => by simp [encodeList]
  | b :: bs, h => by
    rw [encodeList]
    exact List.forall_mem_cons.mpr ⟨tidy b h.1, tidyList bs h.2⟩

end

end Block

/-! ## Parts of a request -/

theorem refuses_string (vs : List Value) (f : String → β) :
    Refuses (fun m d => (string m d).map f) (.arr vs) := by
  intro m d hd
  obtain ⟨ds, rfl, -⟩ := hd.arr
  exact ⟨_, rfl⟩

theorem Content.reads {c : Content} (hc : c.WellFormed) : Reads decode c.encode c := by
  cases c with
  | text t => exact ((reads_string t).map Content.text).untagged _ _
  | blocks bs =>
    refine Reads.untagged_next (refuses_string _ _) (Reads.untagged ?_ _ _)
    intro m d hd
    obtain ⟨ds, rfl, hds⟩ := hd.arr
    simp [Block.listOfDocument, Block.ofItems_eq bs hc hds]

theorem Content.tidy {c : Content} (hc : c.WellFormed) : (Document.ofValue c.encode).Tidy := by
  cases c with
  | text t => exact Document.tidy_str t
  | blocks bs => exact Document.tidy_arr_iff.mpr (Block.tidyList bs hc)

theorem SystemBlock.reads (b : SystemBlock) : Reads decode b.encode b := by
  refine (takes_record fun h => ?_).reads (by simp [Table.keys])
  exact Fields.gets_of h SystemBlock.mk
    |>.orElse "type" "text" (reads_string b.kind) rfl
    |>.orElse "text" "" (reads_string b.text) rfl

theorem SystemBlock.tidy (b : SystemBlock) : (Document.ofValue b.encode).Tidy :=
  tidy_record (by simp [Table.keys]) (by simp)

theorem System.reads (s : System) : Reads decode s.encode s := by
  cases s with
  | text t => exact ((reads_string t).map System.text).untagged _ _
  | blocks bs =>
    refine Reads.untagged_next (refuses_string _ _) (Reads.untagged ?_ _ _)
    exact (reads_list fun b _ => SystemBlock.reads b).map System.blocks

theorem System.tidy (s : System) : (Document.ofValue s.encode).Tidy := by
  cases s with
  | text t => exact Document.tidy_str t
  | blocks bs =>
    exact Document.tidy_arr_iff.mpr (List.forall_mem_map.mpr fun b _ => SystemBlock.tidy b)

theorem Role.reads (role : Role) : Reads decode (.str role.word) role := by
  intro m d h
  rw [h.str]
  cases role <;> rfl

theorem Message.reads {x : Message} (hx : x.content.WellFormed) : Reads decode x.encode x := by
  refine (takes_record fun h => ?_).reads (by simp [Table.keys])
  exact Fields.gets_of h Message.mk
    |>.required "role" (Role.reads x.role) rfl
    |>.required "content" (Content.reads hx) rfl

theorem Message.tidy {x : Message} (hx : x.content.WellFormed) :
    (Document.ofValue x.encode).Tidy :=
  tidy_record (by simp [Table.keys]) (by simp [Content.tidy hx])

theorem Thinking.takes_enabled {budget : Option Nat} (hb : ∀ n ∈ budget, n < UInt64.size) :
    Takes decodeEnabled [("budget_tokens", budget.map .ofNat)] (.enabled budget) := by
  have hbudget := fun n hn => reads_u64 (hb n hn)
  exact takes_record fun h => Fields.gets_of h Thinking.enabled
    |>.orElse_none "budget_tokens" budget hbudget (by simp [Value.ofNat]) rfl

theorem Thinking.reads {t : Thinking} (ht : t.WellFormed) : Reads decode t.encode t := by
  cases t with
  | enabled budget =>
    exact (takes_enabled ht).variant (by simp [Table.keys]) (fun _ _ => rfl) rfl fun _ => rfl
  | disabled =>
    exact (takes_nothing disabled).variant (by simp [Table.keys]) (fun _ _ => rfl) rfl fun _ => rfl

theorem Thinking.tidy (t : Thinking) : (Document.ofValue t.encode).Tidy := by
  cases t <;> exact tidy_record (by simp [Table.keys]) (by simp [Value.ofNat])

theorem Tool.reads {t : Tool} (ht : t.inputSchema.Canonical) : Reads decode t.encode t := by
  refine (takes_record fun h => ?_).reads (by simp [Table.keys])
  exact Fields.gets_of h Tool.mk
    |>.required "name" (reads_string t.name) rfl
    |>.optional "description" t.description (fun s _ => reads_string s) (by simp) rfl
    |>.required "input_schema" (reads_value ht) rfl

theorem Tool.tidy {t : Tool} (ht : t.inputSchema.Canonical) :
    (Document.ofValue t.encode).Tidy :=
  tidy_record (by simp [Table.keys]) (by simp [Document.tidy_of_canonical _ ht])

theorem ToolChoice.takes_specific (kind name : String) :
    Takes decodeSpecific [("type", some (.str kind)), ("name", some (.str name))]
      (.specific kind name) :=
  takes_record fun h => Fields.gets_of h ToolChoice.specific
    |>.required "type" (reads_string kind) rfl
    |>.required "name" (reads_string name) rfl

theorem ToolChoice.takes_general (kind : String) :
    Takes decodeGeneral [("type", some (.str kind))] (.general kind) :=
  takes_record fun h =>
    Fields.gets_of h ToolChoice.general |>.required "type" (reads_string kind) rfl

/-- A choice that is a word does not name a tool. -/
theorem ToolChoice.refuses_specific (kind : String) :
    Refuses decodeSpecific (.record [("type", some (.str kind))]) := by
  intro m d hd
  obtain ⟨members, rfl, h⟩ := exists_shown hd (by simp [Table.keys])
  have hkind := h.part "type" (reads_string kind) m 0 rfl
  have hname := h.part_absent "name" string m 1 rfl
  refine ⟨.missingField "name", ?_⟩
  simp [decodeSpecific, record, Fields.required, Fields.field, Fields.of, hkind, hname, h.check]

theorem ToolChoice.reads (c : ToolChoice) : Reads decode c.encode c := by
  cases c with
  | specific kind name =>
    exact ((takes_specific kind name).reads (by simp [Table.keys])).untagged _ _
  | general kind =>
    refine Reads.untagged_next (refuses_specific kind) (Reads.untagged ?_ _ _)
    exact (takes_general kind).reads (by simp [Table.keys])

theorem ToolChoice.tidy (c : ToolChoice) : (Document.ofValue c.encode).Tidy := by
  cases c <;> exact tidy_record (by simp [Table.keys]) (by simp)

theorem Metadata.takes {x : Metadata} (hx : x.WellFormed) :
    Takes decode ([("user_id", x.userId.map Value.str)] ++ x.extra.map fun (k, v) => (k, some v))
      x :=
  takes_openRecord hx rfl (fun h => Fields.gets_of h Metadata.mk
    |>.optional "user_id" x.userId (fun s _ => reads_string s) (by simp) rfl) rfl

theorem Metadata.reads {x : Metadata} (hx : x.WellFormed) : Reads decode x.encode x :=
  (takes hx).reads (Kept.nodup hx rfl (by simp))

theorem Metadata.tidy {x : Metadata} (hx : x.WellFormed) : (Document.ofValue x.encode).Tidy := by
  have hn : (Table.keys ([("user_id", x.userId.map Value.str)] ++
      x.extra.map fun (k, v) => (k, some v))).Nodup := Kept.nodup hx rfl (by simp)
  exact tidy_record hn (List.forall_mem_cons.mpr ⟨by simp, Kept.tidy hx⟩)

/-! ## Requests -/

theorem Request.reads {r : Request} (hr : r.WellFormed) : Reads decode r.encode r := by
  refine Takes.reads ?_ (hr.extra.nodup rfl (by simp [fields]))
  have hmax := fun n hn => reads_u64 (hr.maxTokens n hn)
  have hmessages := reads_list fun x hx => Message.reads (hr.messages x hx)
  have hsystem : ∀ s : System, s.encode ≠ .null := fun s => by cases s <;> simp [System.encode]
  have htopK := fun n hn => reads_u64 (hr.topK n hn)
  have htools := fun ts hts => reads_list fun t ht => Tool.reads (hr.tools ts hts t ht)
  have hchoice : ∀ c : ToolChoice, c.encode ≠ .null :=
    fun c => by cases c <;> simp [ToolChoice.encode, Value.record]
  have hmetadata := fun x hx => Metadata.reads (hr.metadata x hx)
  have hstop := fun (ss : List String) (_ : ss ∈ r.stopSequences) =>
    reads_list fun s (_ : s ∈ ss) => reads_string s
  have hthinking : ∀ t : Thinking, t.encode ≠ .null :=
    fun t => by cases t <;> simp [Thinking.encode, Value.record]
  exact takes_openRecord hr.extra rfl (fun h => Fields.gets_of h Request.mk
    |>.required "model" (reads_string r.model) rfl
    |>.optional "max_tokens" r.maxTokens hmax (by simp [Value.ofNat]) rfl
    |>.required "messages" hmessages rfl
    |>.optional "system" r.system (fun s _ => System.reads s) hsystem rfl
    |>.optional "stream" r.stream (fun b _ => reads_boolean b) (by simp) rfl
    |>.optional "temperature" r.temperature (fun x _ => reads_binary64 x)
      (by simp [Value.ofBinary64]) rfl
    |>.optional "top_p" r.topP (fun x _ => reads_binary64 x) (by simp [Value.ofBinary64]) rfl
    |>.optional "top_k" r.topK htopK (by simp [Value.ofNat]) rfl
    |>.optional "tools" r.tools htools (by simp) rfl
    |>.optional "tool_choice" r.toolChoice (fun c _ => ToolChoice.reads c) hchoice rfl
    |>.optional "metadata" r.metadata hmetadata (by simp [Metadata.encode, Value.record]) rfl
    |>.optional "stop_sequences" r.stopSequences hstop (by simp) rfl
    |>.optional "thinking" r.thinking (fun t ht => Thinking.reads (hr.thinking t ht)) hthinking rfl)
    rfl

theorem Request.tidy {r : Request} (hr : r.WellFormed) : (Document.ofValue r.encode).Tidy := by
  have hmessages : (Document.ofValue (.arr (r.messages.map Message.encode))).Tidy :=
    Document.tidy_arr_iff.mpr (List.forall_mem_map.mpr fun x hx => Message.tidy (hr.messages x hx))
  have htools : ∀ ts ∈ r.tools, (Document.ofValue (.arr (ts.map Tool.encode))).Tidy :=
    fun ts hts => Document.tidy_arr_iff.mpr
      (List.forall_mem_map.mpr fun t ht => Tool.tidy (hr.tools ts hts t ht))
  have hmetadata : ∀ x ∈ r.metadata, (Document.ofValue x.encode).Tidy :=
    fun x hx => Metadata.tidy (hr.metadata x hx)
  have hstop : ∀ ss : List String, (Document.ofValue (.arr (ss.map .str))).Tidy :=
    fun ss => Document.tidy_arr_iff.mpr (List.forall_mem_map.mpr fun s _ => Document.tidy_str s)
  refine tidy_record (hr.extra.nodup rfl (by simp [fields]))
    (List.forall_mem_append.mpr ⟨?_, hr.extra.tidy⟩)
  simpa [Value.ofNat, Value.ofBinary64, hmessages, System.tidy, ToolChoice.tidy, hstop,
    Thinking.tidy, -Bool.forall_bool, -Bool.exists_bool] using ⟨htools, hmetadata⟩

end ChatGateway.Messages
