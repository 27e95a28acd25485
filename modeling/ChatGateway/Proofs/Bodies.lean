import ChatGateway.Proofs.Discretion
import ChatGateway.Proofs.Fields
import ChatGateway.Proofs.RequestForms

/-!
# Two readings of a body

A body is read as text where tokens are counted, and as a value, whose members are in order, where a
message is asked for. What is read of a request is kept when its document is tidied
(`Request.tidied`), so that the two part only where a body gives a key twice or has no value
(`bodies_read_alike`, `bodies_read_unlike`).
-/

namespace ChatGateway.Messages

open Json Document Decode

/-! ## Blocks -/

theorem ImageSource.keeps : Keeps decode :=
  keeps_record (by decide) fun hm hpp => .required keeps_string <| .required keeps_string <|
    .required keeps_string <| .of hm hpp fun _ _ _ => rfl

namespace Block

theorem keeps_text : Keeps decodeText :=
  keeps_record (by decide) fun hm hpp => .required keeps_string <| .of hm hpp fun _ => rfl

theorem keeps_image : Keeps decodeImage :=
  keeps_record (by decide) fun hm hpp => .required ImageSource.keeps <| .of hm hpp fun _ => rfl

theorem keeps_toolUse : Keeps decodeToolUse :=
  keeps_record (by decide) fun hm hpp => .required keeps_value <| .required keeps_string <|
    .required keeps_string <| .of hm hpp fun _ _ _ => rfl

theorem keeps_thinking : Keeps decodeThinking :=
  keeps_record (by decide) fun hm hpp => .optional keeps_string <| .required keeps_string <|
    .of hm hpp fun _ _ => rfl

theorem follows_resultContent {nested nested' : Option (List Block)} {d : Document}
    (hs : nested = listOfDocument d) (hn : ∀ bs, nested = some bs → nested' = some bs)
    (m m' : Medium) :
    FollowsAt (decodeResultContent nested m) (decodeResultContent nested' m') d := by
  intro d' c hd h
  obtain ⟨v, hv, hv'⟩ := hd.value
  cases d with
  | str t =>
    rw [hd.str]
    exact h
  | arr ds =>
    obtain ⟨ds', rfl, -⟩ := hd.arr
    cases nested with
    | none => simp [decodeResultContent, hv] at h
    | some bs => simpa [decodeResultContent, hv, hv', hn bs rfl] using h
  | _ =>
    obtain rfl : nested = none := hs
    simp [decodeResultContent, hv] at h

theorem follows_toolResult {nested nested' : Option (List Block)} {d : Document}
    (hn : ∀ p, parts ⟨"struct variant ContentBlock::ToolResult", 3⟩ d = .ok p → p.Once "content" →
      ∀ e ∈ p.lookup 1 "content",
        nested = listOfDocument e ∧ ∀ bs, nested = some bs → nested' = some bs)
    {m m' : Medium} (hm : m.Near m') :
    FollowsAt (decodeToolResult nested m) (decodeToolResult nested' m') d := by
  have hnames : ["tool_use_id", "content", "is_error"].Nodup := by decide
  refine follows_record hnames fun p p' hp hpp => .optional keeps_boolean <|
    .optional_at (fun e he hk => ?_) <| .required keeps_string <| .of hm hpp fun _ _ _ => rfl
  obtain ⟨hs, hn⟩ := hn p hp hk e he
  exact follows_resultContent hs hn m m'

theorem follows_with {nested nested' : Option (List Block)} {d : Document}
    (hn : ∀ i rest p, tagged "ContentBlock" variants (some 5) .copy d = .ok (i, rest) →
      parts ⟨"struct variant ContentBlock::ToolResult", 3⟩ rest = .ok p → p.Once "content" →
      ∀ e ∈ p.lookup 1 "content",
        nested = listOfDocument e ∧ ∀ bs, nested = some bs → nested' = some bs) :
    FollowsAt (decodeWith nested .copy) (decodeWith nested' .copy) d := by
  intro d' b hd h
  simp only [decodeWith, bind_eq_ok] at h ⊢
  obtain ⟨⟨i, rest⟩, htag, h⟩ := h
  obtain ⟨rest', htag', hrest⟩ := tagged_tidied Medium.near_copy hd htag
  refine ⟨(i, rest'), htag', ?_⟩
  have hresult := follows_toolResult (fun p => hn i rest p htag) Medium.near_copy
  rcases i with _ | _ | _ | _ | _ | i
  · exact keeps_text Medium.near_copy _ hrest h
  · exact keeps_image Medium.near_copy _ hrest h
  · exact keeps_toolUse Medium.near_copy _ hrest h
  · exact hresult hrest h
  · exact keeps_thinking Medium.near_copy _ hrest h
  · simp only [bind_eq_ok] at h ⊢
    obtain ⟨_, hnone, h⟩ := h
    exact ⟨(), noContents_tidied hrest hnone, h⟩

theorem inItem_eq {d : Document} {items : List Document} (h : items[2]? = some d) :
    inItem items = listOfDocument d := by
  cases items with
  | nil => cases h
  | cons a items =>
    cases items with
    | nil => cases h
    | cons b items =>
      cases items with
      | nil => cases h
      | cons c items => rw [← Option.some.inj h, inItem]

mutual

theorem follows_ofDocument : (d : Document) → FollowsAt ofDocument ofDocument d
  | .obj ms => by
    intro d' b hd h
    obtain ⟨ms', rfl, hms⟩ := hd.obj
    refine follows_with (fun i rest p htag hp hk e he => ?_) hd h
    rcases tagged_cases htag with ⟨ns, t, heq, rfl, -⟩ | ⟨t, ds, heq, -⟩
    · obtain rfl := Except.ok.inj hp
      rw [← Document.obj.inj heq] at hk he
      have hfirst : first? ms "content" = some e := (first?_others ms "content").symm.trans he
      obtain ⟨e', he', htidied⟩ := exists_tidied hms (once_of_others (by simp) hk) hfirst
      rw [inMember_eq ms hfirst, inMember_eq ms' he']
      exact ⟨rfl, fun bs => follows_inMember ms hfirst htidied⟩
    · cases heq
  | .arr ds => by
    intro d' b hd h
    obtain ⟨ds', rfl, hds⟩ := hd.arr
    refine follows_with (fun i rest p htag hp hk e he => ?_) hd h
    rcases tagged_cases htag with ⟨_, t, heq, -⟩ | ⟨t, rest, heq, rfl, -⟩
    · cases heq
    · obtain rfl := Except.ok.inj hp
      have hitem : ds[2]? = some e := by
        rw [Document.arr.inj heq]
        exact he
      obtain ⟨e', he', htidied⟩ := exists_of_rel (rel_getElem? hds 2) hitem
      rw [inItem_eq hitem, inItem_eq he']
      exact ⟨rfl, fun bs => follows_inItem ds hitem htidied⟩
  | .null | .bool _ | .num _ | .str _ | .void | .broken => by
    intro d' b hd h
    cases h

theorem follows_listOfDocument : (d : Document) → ∀ {d' bs}, d.Tidied d' →
    listOfDocument d = some bs → listOfDocument d' = some bs
  | .arr ds, _, _, hd, h => by
    obtain ⟨ds', rfl, hds⟩ := hd.arr
    exact follows_ofItems ds hds h
  | .obj _, _, _, _, h | .null, _, _, _, h | .bool _, _, _, _, h | .num _, _, _, _, h
  | .str _, _, _, _, h | .void, _, _, _, h | .broken, _, _, _, h => nomatch h

theorem follows_ofItems : (ds : List Document) → ∀ {ds' bs}, List.Forall₂ Tidied ds ds' →
    ofItems ds = some bs → ofItems ds' = some bs
  | [], _, _, hds, h => by
    cases hds
    exact h
  | d :: ds, _, _, hds, h => by
    cases hds with
    | cons hd hds =>
      rw [ofItems] at h ⊢
      split at h
      · next hb hbs =>
        rw [follows_ofDocument d hd hb, follows_ofItems ds hds hbs]
        exact h
      · cases h

theorem follows_inMember : (ms : List (Option String × Document)) → ∀ {d d' bs},
    first? ms "content" = some d → d.Tidied d' → listOfDocument d = some bs →
      listOfDocument d' = some bs
  | [], _, _, _, hf, _, _ => nomatch hf
  | (k, d) :: ms, _, _, _, hf, hd, h => by
    rw [first?_cons] at hf
    split at hf
    · obtain rfl := Option.some.inj hf
      exact follows_listOfDocument d hd h
    · exact follows_inMember ms hf hd h

theorem follows_inItem : (ds : List Document) → ∀ {d d' bs}, ds[2]? = some d → d.Tidied d' →
    listOfDocument d = some bs → listOfDocument d' = some bs
  | _ :: _ :: d :: _, _, _, _, hf, hd, h => by
    obtain rfl := Option.some.inj hf
    exact follows_listOfDocument d hd h
  | [], _, _, _, hf, _, _ | [_], _, _, _, hf, _, _ | [_, _], _, _, _, hf, _, _ => nomatch hf

end

end Block

/-! ## Requests -/

theorem Content.keeps : Keeps decode := by
  refine keeps_stringOr ?_ (fun s a h => ?_) "MessageContent"
  · intro m m' _ d d' c hd h
    dsimp only at h ⊢
    split at h
    · next hbs =>
      rw [Block.follows_listOfDocument d hd hbs]
      exact h
    · cases h
  · cases h

theorem SystemBlock.keeps : Keeps decode :=
  keeps_record (by decide) fun hm hpp => .orElse keeps_string <| .orElse keeps_string <|
    .of hm hpp fun _ _ => rfl

theorem System.keeps : Keeps decode :=
  keeps_stringOr (SystemBlock.keeps.list.map System.blocks) (fun _ _ h => nomatch h) "SystemContent"

theorem Role.keeps : Keeps decode := by
  intro m m' hm d d' role hd h
  simp only [decode, bind_eq_ok] at h ⊢
  obtain ⟨i, hi, h⟩ := h
  exact ⟨i, keeps_unitVariant _ hm d hd hi, h⟩

theorem Message.keeps : Keeps decode :=
  keeps_record (by decide) fun hm hpp => .required Content.keeps <| .required Role.keeps <|
    .of hm hpp fun _ _ => rfl

theorem Thinking.keeps_enabled : Keeps decodeEnabled :=
  keeps_record (by decide) fun hm hpp => .orElse (keeps_natural 64 "u64").option <|
    .of hm hpp fun _ => rfl

theorem Thinking.keeps : Keeps decode := by
  intro m m' hm d d' t hd h
  simp only [decode, bind_eq_ok] at h ⊢
  obtain ⟨⟨i, rest⟩, htag, h⟩ := h
  obtain ⟨rest', htag', hrest⟩ := tagged_tidied hm hd htag
  refine ⟨(i, rest'), htag', ?_⟩
  cases i with
  | zero => exact Thinking.keeps_enabled Medium.near_copy _ hrest h
  | succ i =>
    simp only [bind_eq_ok] at h ⊢
    obtain ⟨_, hnone, h⟩ := h
    exact ⟨(), noContents_tidied hrest hnone, h⟩

theorem Tool.keeps : Keeps decode :=
  keeps_record (by decide) fun hm hpp => .required keeps_value <| .optional keeps_string <|
    .required keeps_string <| .of hm hpp fun _ _ _ => rfl

theorem ToolChoice.keeps_specific : Keeps decodeSpecific :=
  keeps_record (by decide) fun hm hpp => .required keeps_string <| .required keeps_string <|
    .of hm hpp fun _ _ => rfl

theorem ToolChoice.keeps_general : Keeps decodeGeneral :=
  keeps_record (by decide) fun hm hpp => .required keeps_string <| .of hm hpp fun _ => rfl

/-- A choice that repeats its name is read as one without a name before it is tidied. -/
theorem ToolChoice.admits (m m' : Medium) (d : Document) : AdmitsAt (decode m) (decode m') d :=
  admits_untagged (List.forall_mem_cons.mpr
    ⟨keeps_specific, List.forall_mem_singleton.mpr keeps_general⟩) d

theorem Metadata.keeps : Keeps decode := by
  intro m m' hm d d' x hd h
  obtain ⟨x', hx', rfl⟩ := openRecord_tidied (R := Eq) (by decide)
    (fun hpp => .optional keeps_string <| .of hm hpp fun _ _ => rfl) hd h
  exact hx'

theorem Request.tidied {m m' : Medium} (hm : m.Near m') {d d' : Document} {r : Request}
    (hd : d.Tidied d') (h : decode m d = .ok r) :
    ∃ choice, decode m' d' = .ok { r with toolChoice := choice } := by
  have hu64 : Keeps u64 := keeps_natural 64 "u64"
  -- from the last field to the first
  obtain ⟨r', hr', choice, rfl⟩ := openRecord_tidied
    (R := fun r r' => ∃ choice, r' = { r with toolChoice := choice }) (by decide)
    (fun hpp => .optional Thinking.keeps <| .optional keeps_string.list <|
      .optional Metadata.keeps <| .admitted (ToolChoice.admits m m') <|
      .optional Tool.keeps.list <| .optional hu64 <| .optional keeps_binary64 <|
      .optional keeps_binary64 <| .optional keeps_boolean <| .optional System.keeps <|
      .required Message.keeps.list <| .optional hu64 <| .required keeps_string <|
      .of hm hpp fun _ _ _ _ _ _ _ _ _ _ choice _ _ _ _ => ⟨choice, rfl⟩) hd h
  exact ⟨choice, hr'⟩

end ChatGateway.Messages

/-! ## Bodies -/

namespace ChatGateway.Server

open Json Document Messages

/-- What is answered where tokens are counted. -/
def counted (tokens : Nat) : Reply := ⟨200, .json (TokenCount.encode ⟨tokens⟩)⟩

/-- The body is answered as one that is not a request. -/
def Rejected (v : Server) (s : Session) (body : List Char) : Prop :=
  ∃ e, messages v s (Text.encode body) = rejected (log v s) e

section

variable {body : List Char} {r : Messages.Request}

theorem ofText_eq_ok_iff {α : Type} {dec : Decode.Decoder α} {a : α} :
    Decode.ofText dec body = .ok a ↔
      dec .text (Document.ofText body).1 = .ok a ∧ (Document.ofText body).2 = true := by
  simp only [Decode.ofText, Decode.bind_eq_ok]
  constructor
  · rintro ⟨b, hb, h⟩
    split at h
    · next hended => exact ⟨Except.ok.inj h ▸ hb, hended⟩
    · cases h
  · rintro ⟨ha, hended⟩
    exact ⟨a, ha, if_pos hended⟩

theorem read_eq_some_iff {raw : Value} : Json.read body = some raw ↔
    (Document.ofText body).1.value? = some raw ∧ (Document.ofText body).2 = true := by
  simp only [Json.read]
  split
  · next h => simp [h]
  · next h => simp [h]

theorem countTokens_of_ok (h : Decode.ofText Messages.Request.decode body = .ok r) :
    countTokens body = counted (Routing.estimate r) := by
  rw [countTokens, h]
  rfl

theorem exists_of_counted (h : (countTokens body).status = 200) :
    ∃ r, Decode.ofText Messages.Request.decode body = .ok r := by
  unfold countTokens at h
  split at h
  · next r hr => exact ⟨r, hr⟩
  · cases h

theorem carries_iff : Carries (Text.encode body) r ↔ ∃ raw,
    Json.read body = some raw ∧ Messages.Request.decode .tree (Document.ofValue raw) = .ok r := by
  unfold Carries
  rw [Text.decodeAll?_encode]
  rfl

theorem not_rejected_of_carries (h : Carries (Text.encode body) r) (v : Server) (s : Session) :
    ¬ Rejected v s body := by
  rintro ⟨e, he⟩
  obtain ⟨raw, hc⟩ := course_of_carries h v s
  rw [messages, hc, Course.run_after] at he
  have hlog := congrArg (fun o : Outcome => o.2.head?.map (·.level)) he
  cases hlog

theorem rejected_of_read (h : Json.read body = none) (v : Server) (s : Session) :
    Rejected v s body := by
  refine ⟨.malformed, ?_⟩
  unfold messages course
  rw [Text.decodeAll?_encode, Option.bind_some, h]
  rfl

theorem exists_of_not_rejected {v : Server} {s : Session} (h : ¬ Rejected v s body) :
    ∃ r, Carries (Text.encode body) r := by
  simp only [carries_iff]
  cases hraw : Json.read body with
  | none => exact absurd (rejected_of_read hraw v s) h
  | some raw =>
    unfold Rejected messages course at h
    rw [Text.decodeAll?_encode, Option.bind_some, hraw] at h
    dsimp only at h
    cases hr : Messages.Request.decode .tree (Document.ofValue raw) with
    | error e =>
      rw [hr] at h
      exact absurd ⟨_, rfl⟩ h
    | ok r => exact ⟨r, raw, rfl, hr⟩

theorem Medium.near_text_tree : Decode.Medium.text.Near .tree := by simp [Decode.Medium.Near]

theorem Medium.near_tree_text : Decode.Medium.tree.Near .text := by simp [Decode.Medium.Near]

/-- What is counted is heard as well, if the body has a value, and as the same request but for the
choice of tools. -/
theorem carries_of_ofText (hread : (Json.read body).isSome)
    (h : Decode.ofText Messages.Request.decode body = .ok r) :
    ∃ choice, Carries (Text.encode body) { r with toolChoice := choice } := by
  obtain ⟨raw, hraw⟩ := Option.isSome_iff_exists.mp hread
  obtain ⟨hv, -⟩ := read_eq_some_iff.mp hraw
  obtain ⟨hdec, -⟩ := ofText_eq_ok_iff.mp h
  obtain ⟨choice, hr⟩ := Request.tidied Medium.near_text_tree (Tidied.of_value? hv) hdec
  exact ⟨choice, carries_iff.mpr ⟨raw, hraw, hr⟩⟩

theorem ofText_of_carries (ht : (Document.ofText body).1.Tidy)
    (h : Carries (Text.encode body) r) :
    ∃ choice, Decode.ofText Messages.Request.decode body = .ok { r with toolChoice := choice } := by
  obtain ⟨raw, hraw, hr⟩ := carries_iff.mp h
  obtain ⟨hv, hended⟩ := read_eq_some_iff.mp hraw
  have htidied : (Document.ofValue raw).Tidied (Document.ofText body).1 := by
    refine ⟨ht, raw, ?_, hv⟩
    rw [value?_ofValue, canonical_of_value? _ hv]
  obtain ⟨choice, hdec⟩ := Request.tidied Medium.near_tree_text htidied hr
  exact ⟨choice, ofText_eq_ok_iff.mpr ⟨hdec, hended⟩⟩

theorem counted_of_carries (h : Carries (Text.encode body) r) (hs : (countTokens body).status = 200) :
    countTokens body = counted (Routing.estimate r) := by
  obtain ⟨q, hq⟩ := exists_of_counted hs
  obtain ⟨raw, hraw, hr⟩ := carries_iff.mp h
  obtain ⟨choice, hc⟩ := carries_of_ofText (Option.isSome_iff_exists.mpr ⟨raw, hraw⟩) hq
  obtain ⟨raw', hraw', hr'⟩ := carries_iff.mp hc
  obtain rfl := Option.some.inj (hraw'.symm.trans hraw)
  rw [countTokens_of_ok hq, Except.ok.inj (hr.symm.trans hr')]
  rfl

/-- **Two readings of a body.** A body that has a value and whose tokens are counted is taken for a
message; one that is taken for a message and gives no key twice has its tokens counted. Where both
take it, what is counted is the estimate that the request is routed by. -/
theorem bodies_read_alike (v : Server) (s : Session) (body : List Char) :
    ((Json.read body).isSome → (countTokens body).status = 200 → ¬ Rejected v s body) ∧
      ((Document.ofText body).1.Tidy → ¬ Rejected v s body → (countTokens body).status = 200) ∧
      (¬ Rejected v s body → ∃ r,
        (∀ w t, ∃ raw, course w t (Text.encode body) = .after
          [(log w t).received r.model r.isStreaming r.messages.length raw]
          (converse w t (log w t) r)) ∧
        ((countTokens body).status = 200 → countTokens body = counted (Routing.estimate r))) := by
  refine ⟨fun hread hs => ?_, fun ht hr => ?_, fun hr => ?_⟩
  · obtain ⟨q, hq⟩ := exists_of_counted hs
    obtain ⟨choice, hc⟩ := carries_of_ofText hread hq
    exact not_rejected_of_carries hc v s
  · obtain ⟨q, hq⟩ := exists_of_not_rejected hr
    obtain ⟨choice, hc⟩ := ofText_of_carries ht hq
    rw [countTokens_of_ok hc]
    rfl
  · obtain ⟨q, hq⟩ := exists_of_not_rejected hr
    exact ⟨q, course_of_carries hq, counted_of_carries hq⟩

end

def tiered : Server := ⟨Routing.tiers, []⟩

def asking (members : String) : List Char :=
  ("\x7b\x22model\x22:\x22opus\x22," ++ members ++ "\x7d").toList

def plainly : List Char := asking "\x22messages\x22:[[\x22user\x22,\x22Why?\x22]]"

theorem bodies_read_alike_plainly :
    (Json.read plainly).isSome ∧ (Document.ofText plainly).1.Tidy ∧
      (countTokens plainly).status = 200 ∧ ¬ Rejected tiered (chatty "a") plainly ∧
      ∃ r, countTokens plainly = counted (Routing.estimate r) := by
  have hread : (Json.read plainly).isSome := by decide +kernel
  have htidy : (Document.ofText plainly).1.Tidy := by decide +kernel
  have hs : (countTokens plainly).status = 200 := by decide +kernel
  obtain ⟨hheard, hcounted, hrouted⟩ := bodies_read_alike tiered (chatty "a") plainly
  have hr : ¬ Rejected tiered (chatty "a") plainly := hheard hread hs
  obtain ⟨r, -, hr'⟩ := hrouted hr
  exact ⟨hread, htidy, hcounted htidy hr, hr, r, hr' hs⟩

def twice : List Char := asking "\x22model\x22:\x22opus\x22,\x22messages\x22:[]"

def boundless : List Char :=
  asking ("\x22messages\x22:[\x7b\x22role\x22:\x22user\x22,\x22content\x22:\x22Why?\x22," ++
    "\x22at\x22:1e999\x7d]")

/-- The tokens of a body that gives its model twice are not counted, though it is taken for a
message. Those of a body are counted that is not taken for one, as a member that is passed over is a
number out of range. -/
theorem bodies_read_unlike :
    ((countTokens twice).status = 400 ∧ ¬ Rejected tiered (chatty "a") twice) ∧
      (countTokens boundless).status = 200 ∧ Rejected tiered (chatty "a") boundless := by
  have hread : Json.read twice = some (.obj [("messages", .arr []), ("model", .str "opus")]) := by
    decide +kernel
  have hnone : Json.read boundless = none := by decide +kernel
  refine ⟨⟨by decide +kernel, ?_⟩, by decide +kernel, rejected_of_read hnone tiered (chatty "a")⟩
  exact not_rejected_of_carries (carries_iff.mpr ⟨_, hread, rfl⟩) tiered (chatty "a")

end ChatGateway.Server
