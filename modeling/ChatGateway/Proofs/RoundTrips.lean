import ChatGateway.Proofs.EventForms
import ChatGateway.Proofs.Printing
import ChatGateway.Proofs.RequestForms

/-!
# Events and requests on the wire

An event is read back from what it is written as. A request that has been read from a document, in
whichever of its forms, is written in one form, and reading that gives the request again.
-/

namespace ChatGateway.Messages

open Json Decode

/-! ## Requests that have been read -/

namespace Block

theorem yields_text : Yields decodeText WellFormed :=
  yields_record <| .required (yields_any _) <| .of fun _ _ => trivial

theorem yields_image : Yields decodeImage WellFormed :=
  yields_record <| .required (yields_any _) <| .of fun _ _ => trivial

theorem yields_toolUse : Yields decodeToolUse WellFormed :=
  yields_record <| .required yields_value <| .required (yields_any _) <| .required (yields_any _) <|
    .of fun _ _ _ _ _ hinput => hinput

theorem yields_thinking : Yields decodeThinking WellFormed :=
  yields_record <| .optional (yields_any _) <| .required (yields_any _) <|
    .of fun _ _ _ _ => trivial

theorem yields_resultContent {nested : Option (List Block)}
    (hn : ∀ bs ∈ nested, AllWellFormed bs) :
    Yields (decodeResultContent nested) ResultContent.WellFormed := by
  intro m d c h
  unfold decodeResultContent at h
  split at h
  · obtain rfl := Except.ok.inj h
    trivial
  · split at h
    · cases h
    · obtain rfl := Except.ok.inj h
      exact hn _ rfl
    · cases h

theorem yields_toolResult {nested : Option (List Block)}
    (hn : ∀ bs ∈ nested, AllWellFormed bs) : Yields (decodeToolResult nested) WellFormed := by
  refine yields_record <| .optional (yields_any _) <| .optional (yields_resultContent hn) <|
    .required (yields_any _) <| .of fun _ _ c hc _ _ => ?_
  cases c with
  | none => trivial
  | some c => exact hc c rfl

theorem yields_with {nested : Option (List Block)} (hn : ∀ bs ∈ nested, AllWellFormed bs) :
    Yields (decodeWith nested) WellFormed := by
  intro m d b h
  simp only [decodeWith, bind_eq_ok] at h
  obtain ⟨⟨i, rest⟩, -, h⟩ := h
  split at h
  · exact yields_text _ _ _ h
  · exact yields_image _ _ _ h
  · exact yields_toolUse _ _ _ h
  · exact yields_toolResult hn _ _ _ h
  · exact yields_thinking _ _ _ h
  · simp only [bind_eq_ok] at h
    obtain ⟨-, -, h⟩ := h
    obtain rfl := Except.ok.inj h
    trivial

mutual

theorem wellFormed_ofDocument : (d : Document) → {b : Block} → ofDocument d = .ok b → b.WellFormed
  | .obj members, _, h => yields_with (fun _ => wellFormed_inMember members) _ _ _ h
  | .arr items, _, h => yields_with (fun _ => wellFormed_inItem items) _ _ _ h
  | .null, _, h | .bool _, _, h | .num _, _, h | .str _, _, h | .void, _, h | .broken, _, h =>
    yields_with (by simp) _ _ _ h

theorem wellFormed_listOfDocument : (d : Document) → {bs : List Block} →
    listOfDocument d = some bs → AllWellFormed bs
  | .arr items, _, h => wellFormed_ofItems items h
  | .obj _, _, h | .null, _, h | .bool _, _, h | .num _, _, h | .str _, _, h | .void, _, h
  | .broken, _, h => nomatch h

theorem wellFormed_ofItems : (ds : List Document) → {bs : List Block} → ofItems ds = some bs →
    AllWellFormed bs
  | [], _, h => by
    obtain rfl := Option.some.inj h
    trivial
  | d :: ds, _, h => by
    rw [ofItems] at h
    split at h
    · next hb hbs =>
      obtain rfl := Option.some.inj h
      exact ⟨wellFormed_ofDocument d hb, wellFormed_ofItems ds hbs⟩
    · cases h

theorem wellFormed_inMember : (members : List (Option String × Document)) → {bs : List Block} →
    inMember members = some bs → AllWellFormed bs
  | [], _, h => nomatch h
  | (k, d) :: members, _, h => by
    rw [inMember] at h
    split at h
    · exact wellFormed_listOfDocument d h
    · exact wellFormed_inMember members h

theorem wellFormed_inItem : (ds : List Document) → {bs : List Block} → inItem ds = some bs →
    AllWellFormed bs
  | _ :: _ :: d :: _, _, h => wellFormed_listOfDocument d h
  | [], _, h | [_], _, h | [_, _], _, h => nomatch h

end

end Block

theorem Content.yields : Yields decode WellFormed := by
  refine yields_untagged (List.forall_mem_cons.mpr ⟨?_, List.forall_mem_singleton.mpr ?_⟩)
  · exact Yields.map fun _ _ _ _ => trivial
  · intro m d c h
    dsimp only at h
    split at h
    · next hbs =>
      obtain rfl := Except.ok.inj h
      exact Block.wellFormed_listOfDocument d hbs
    · cases h

theorem Message.yields : Yields decode fun x => x.content.WellFormed :=
  yields_record <| .required Content.yields <| .required (yields_any _) <|
    .of fun _ _ _ hcontent => hcontent

theorem Thinking.yields_enabled : Yields decodeEnabled WellFormed :=
  yields_record <| .orElse (yields_natural 64 "u64").option (by simp) <|
    .of fun _ hbudget => hbudget

theorem Thinking.yields : Yields decode WellFormed := by
  intro m d t h
  simp only [decode, bind_eq_ok] at h
  obtain ⟨⟨i, rest⟩, -, h⟩ := h
  split at h
  · exact yields_enabled _ _ _ h
  · simp only [bind_eq_ok] at h
    obtain ⟨-, -, h⟩ := h
    obtain rfl := Except.ok.inj h
    trivial

theorem Tool.yields : Yields decode fun t => t.inputSchema.Canonical :=
  yields_record <| .required yields_value <| .optional (yields_any _) <| .required (yields_any _) <|
    .of fun _ _ _ _ _ hschema => hschema

theorem Metadata.yields : Yields decode WellFormed :=
  yields_openRecord <| .optional (yields_any _) <| .of fun _ _ _ hextra => hextra

theorem Request.yields : Yields decode WellFormed := by
  have hu64 := yields_natural 64 "u64"
  -- from the last field to the first
  refine yields_openRecord <| .optional Thinking.yields <| .optional (yields_any _) <|
    .optional Metadata.yields <| .optional (yields_any _) <| .optional Tool.yields.list <|
    .optional hu64 <| .optional (yields_any _) <| .optional (yields_any _) <|
    .optional (yields_any _) <| .optional (yields_any _) <| .required Message.yields.list <|
    .optional hu64 <| .required (yields_any _) <| .of ?_
  intro model _ maxTokens hmax messages hmessages system _ stream _ temperature _ topP _ topK htopK
    tools htools choice _ metadata hmetadata stop _ thinking hthinking extra hextra
  exact
    { maxTokens := hmax
      messages := hmessages
      topK := htopK
      tools := htools
      metadata := hmetadata
      thinking := hthinking
      extra := hextra }

/-! ## Forms -/

theorem ofText_of_reads {α : Type} {dec : Decoder α} {v : Value} {a : α} (h : Reads dec v a)
    (ht : (Document.ofValue v).Tidy) (hv : v.Legible maxDepth) : ofText dec v.render = .ok a := by
  unfold ofText
  rw [Document.ofText_render hv]
  simp [h .text _ (Document.says_ofValue ht)]

/-- **Events and requests on the wire.** The member `type` of an event is its name, and every
document that says the event is decoded to it. A request that any document was decoded to is decoded
from every document that says it. Two of these documents are written: the one with the members in
the order of the fields, which is what the text reads as, and the one with the members by key. -/
theorem forms_read_back :
    (∀ e : Event, e.WellFormed → e.encode.get? "type" = some (.str e.name) ∧
      Reads Event.decode e.encode e ∧ (Document.ofValue e.encode).Says e.encode ∧
      (Document.ofValue e.encode.canonical).Says e.encode ∧
      (e.encode.Legible maxDepth → ofText Event.decode e.encode.render = .ok e)) ∧
    ∀ m d r, Request.decode m d = .ok r →
      Reads Request.decode r.encode r ∧ (Document.ofValue r.encode).Says r.encode ∧
      (Document.ofValue r.encode.canonical).Says r.encode ∧
      (r.encode.Legible maxDepth → ofText Request.decode r.encode.render = .ok r) := by
  constructor
  · intro e he
    have hreads := Event.reads he
    have htidy := Event.tidy he
    refine ⟨?_, hreads, Document.says_ofValue htidy, Document.says_canonical _,
      ofText_of_reads hreads htidy⟩
    cases e <;> rfl
  · intro m d r h
    have hr := Request.yields m d r h
    have hreads := Request.reads hr
    have htidy := Request.tidy hr
    exact ⟨hreads, Document.says_ofValue htidy, Document.says_canonical _,
      ofText_of_reads hreads htidy⟩

def callStarts : Event :=
  .blockStart 1 (.toolUse "id" "find" (.obj [("at", .arr [.null, .obj [("x", .num (.int (-5)))]]),
    ("by", .str "\"")]))

/-- A question in which a message, the result of a tool and the choice of tools are arrays, a block
is of no known kind, and a member is not known. -/
def loosely : Document :=
  .obj [(some "seed", .num (.int 7)), (some "messages", .arr [.arr [.str "user", .arr [
      .arr [.str "tool_result", .str "id", .arr [.obj [(some "type", .str "video"),
        (some "frames", .null)]], .bool true]]]]),
    (some "tool_choice", .arr [.str "auto"]), (some "model", .str "opus")]

def strictly : Request where
  model := "opus"
  maxTokens := none
  messages := [⟨.user, .blocks [.toolResult "id" (.blocks [.unsupported]) (some true)]⟩]
  system := none
  stream := none
  temperature := none
  topP := none
  topK := none
  tools := none
  toolChoice := some (.general "auto")
  metadata := none
  stopSequences := none
  thinking := none
  extra := [("seed", .num (.int 7))]

theorem forms_read_back_nested :
    callStarts.WellFormed ∧ callStarts.encode.Legible maxDepth ∧
      ofText Event.decode callStarts.encode.render = .ok callStarts ∧
      Request.decode .tree loosely = .ok strictly ∧ strictly.encode.Legible maxDepth ∧
      ofText Request.decode strictly.encode.render = .ok strictly := by
  have he : callStarts.WellFormed := ⟨by decide, rfl⟩
  have hel : callStarts.encode.Legible maxDepth := by
    have hone : (Number.int 1).Legible := legible_int (by decide) (by decide)
    have hfive : (Number.int (-5)).Legible := legible_int (by decide) (by decide)
    simp [callStarts, Event.encode, ReplyBlock.encode, Value.record, Value.ofNat, Value.Legible,
      Value.MembersLegible, Value.ItemsLegible, maxDepth, hone, hfive]
  have hr : Request.decode .tree loosely = .ok strictly := rfl
  have hrl : strictly.encode.Legible maxDepth := by
    have hseven : (Number.int 7).Legible := legible_int (by decide) (by decide)
    simp [strictly, Request.encode, Message.encode, Content.encode, Block.encode,
      Block.encodeList, Block.encodeResult, ToolChoice.encode, Value.record, Value.Legible,
      Value.MembersLegible, Value.ItemsLegible, maxDepth, hseven]
  exact ⟨he, hel, (forms_read_back.1 _ he).2.2.2.2 hel, hr, hrl,
    (forms_read_back.2 _ _ _ hr).2.2.2 hrl⟩

def callAt (x : Number.Binary64) : Event :=
  .blockStart 0 (.toolUse "id" "find" (.obj [("at", .ofBinary64 x)]))

def nested : Nat → Value
  | 0 => .null
  | n + 1 => .arr [nested n]

theorem nested_canonical (n : Nat) : (nested n).Canonical := by
  induction n with
  | zero => rfl
  | succ n ih => exact Value.canonical_arr_iff.mpr (by simpa using ih)

/-- Text is not always read back: 1.0000270136109795 is read as the number behind it, and what lies
too deep is not read. -/
theorem forms_misread :
    (callAt ⟨false, 4503721285858837, 1022⟩).WellFormed ∧
      ofText Event.decode (callAt ⟨false, 4503721285858837, 1022⟩).encode.render =
        .ok (callAt ⟨false, 4503721285858838, 1022⟩) ∧
      callAt ⟨false, 4503721285858838, 1022⟩ ≠ callAt ⟨false, 4503721285858837, 1022⟩ ∧
      (Event.blockStart 0 (.toolUse "id" "find" (nested 126))).WellFormed ∧
      ofText Event.decode (Event.blockStart 0 (.toolUse "id" "find" (nested 126))).encode.render =
        .error .malformed :=
  ⟨⟨by decide, rfl⟩, by decide +kernel, by decide, ⟨by decide, nested_canonical 126⟩,
    by decide +kernel⟩

end ChatGateway.Messages
