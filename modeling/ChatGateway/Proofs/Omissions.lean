import ChatGateway.Outbound
import ChatGateway.Proofs.Routes
import Mathlib.Logic.Relation

/-!
# What no provider is told

Some parts of a conversation are for this side alone: thinking, blocks of unknown kinds, blocks in
messages of the other role, marks of errors, members that chat completions do not have. Edits that
touch only these, at any place and in any number, leave what is sent as it is (`payload_of_edits`).
-/

namespace ChatGateway.Outbound

open Messages

/-! ## Edits -/

/-- Blocks that messages of a role may hold and that say nothing there. -/
inductive Idle : Role → Block → Prop where
  | thinking (role : Role) (t : String) (signature : Option String) :
    Idle role (.thinking t signature)
  | unsupported (role : Role) : Idle role .unsupported
  | toolUse (id name : String) (input : Json.Value) : Idle .user (.toolUse id name input)
  | image (source : ImageSource) : Idle .assistant (.image source)
  | toolResult (useId : String) (content : ResultContent) (isError : Option Bool) :
    Idle .assistant (.toolResult useId content isError)

/-- Of the result of a tool only the texts are told. -/
inductive ResultEdit : ResultContent → ResultContent → Prop where
  | insert (front back : List Block) {b : Block} (h : b.text? = none) :
    ResultEdit (.blocks (front ++ back)) (.blocks (front ++ b :: back))
  | plain (t : String) : ResultEdit (.blocks [.text t]) (.text t)

/-- An idle block changes, its signature for one, when it is taken out and another is inserted. -/
inductive ContentEdit (role : Role) : Content → Content → Prop where
  | insert (front back : List Block) {b : Block} (h : Idle role b) :
    ContentEdit role (.blocks (front ++ back)) (.blocks (front ++ b :: back))
  | isError (front back : List Block) (useId : String) (c : ResultContent) (e e' : Option Bool) :
    ContentEdit role (.blocks (front ++ .toolResult useId c e :: back))
      (.blocks (front ++ .toolResult useId c e' :: back))
  | result (front back : List Block) (useId : String) {c c' : ResultContent} (h : ResultEdit c c')
    (e : Option Bool) :
    ContentEdit role (.blocks (front ++ .toolResult useId c e :: back))
      (.blocks (front ++ .toolResult useId c' e :: back))
  | plain (t : String) : ContentEdit role (.blocks [.text t]) (.text t)

inductive SystemEdit : System → System → Prop where
  | insert (front back : List SystemBlock) {b : SystemBlock} (h : b.kind ≠ "text") :
    SystemEdit (.blocks (front ++ back)) (.blocks (front ++ b :: back))
  | plain (t : String) : SystemEdit (.blocks [⟨"text", t⟩]) (.text t)

/-- An edit of something that is not for providers. -/
inductive Edit : Request → Request → Prop where
  | content (r : Request) (before after : List Message) (role : Role) {c c' : Content}
    (h : ContentEdit role c c') :
    Edit { r with messages := before ++ ⟨role, c⟩ :: after }
      { r with messages := before ++ ⟨role, c'⟩ :: after }
  | system (r : Request) {s s' : System} (h : SystemEdit s s') :
    Edit { r with system := some s } { r with system := some s' }
  | topK (r : Request) (n : Option Nat) : Edit r { r with topK := n }
  | extra (r : Request) (members : Table Json.Value) : Edit r { r with extra := members }
  | metadata (r : Request) (m : Option Metadata)
    (h : m.bind (·.userId) = r.metadata.bind (·.userId)) : Edit r { r with metadata := m }

/-! ## What an edit leaves -/

theorem filterMap_insert {α : Type} {f : Block → Option α} {b : Block} (h : f b = none)
    (front back : List Block) :
    (front ++ b :: back).filterMap f = (front ++ back).filterMap f := by
  simp [h]

theorem filterMap_replace {α : Type} {f : Block → Option α} {b b' : Block} (h : f b = f b')
    (front back : List Block) :
    (front ++ b :: back).filterMap f = (front ++ b' :: back).filterMap f := by
  rw [List.filterMap_append, List.filterMap_append, List.filterMap_cons, List.filterMap_cons, h]

theorem userMessages_insert {b : Block} (h : Idle .user b) (front back : List Block) :
    userMessages (front ++ b :: back) = userMessages (front ++ back) := by
  have htext : b.text? = none := by cases h <;> rfl
  have himage : imagePart? b = none := by cases h <;> rfl
  have hresult : toolMessage? b = none := by cases h <;> rfl
  unfold userMessages userSays texts
  rw [filterMap_insert htext, filterMap_insert himage, filterMap_insert hresult]

theorem assistantMessage_insert {b : Block} (h : Idle .assistant b) (front back : List Block) :
    assistantMessage (front ++ b :: back) = assistantMessage (front ++ back) := by
  have htext : b.text? = none := by cases h <;> rfl
  have hcall : toolCall? b = none := by cases h <;> rfl
  unfold assistantMessage texts
  rw [filterMap_insert htext, filterMap_insert hcall]

theorem ResultEdit.plain_eq {c c' : ResultContent} (h : ResultEdit c c') : c.plain = c'.plain := by
  cases h with
  | insert front back h =>
    unfold ResultContent.plain
    dsimp only
    rw [filterMap_insert h]
  | plain t => simp [ResultContent.plain, Block.text?]

theorem SystemEdit.plain_eq {s s' : System} (h : SystemEdit s s') : s.plain = s'.plain := by
  cases h with
  | insert front back h => simp [System.plain, h]
  | plain t => simp [System.plain]

theorem messages_result {c c' : ResultContent} (h : c.plain = c'.plain) (role : Role)
    (front back : List Block) (useId : String) (e e' : Option Bool) :
    messages ⟨role, .blocks (front ++ .toolResult useId c e :: back)⟩ =
      messages ⟨role, .blocks (front ++ .toolResult useId c' e' :: back)⟩ := by
  have hresult : toolMessage? (.toolResult useId c e) = toolMessage? (.toolResult useId c' e') := by
    simp [toolMessage?, h]
  cases role with
  | user =>
    show userMessages (front ++ .toolResult useId c e :: back) =
      userMessages (front ++ .toolResult useId c' e' :: back)
    unfold userMessages userSays texts
    rw [filterMap_replace hresult, filterMap_insert (f := imagePart?) rfl,
      filterMap_insert (f := imagePart?) rfl, filterMap_insert (f := Block.text?) rfl,
      filterMap_insert (f := Block.text?) rfl]
  | assistant =>
    show (assistantMessage (front ++ .toolResult useId c e :: back)).toList =
      (assistantMessage (front ++ .toolResult useId c' e' :: back)).toList
    rw [assistantMessage_insert (.toolResult useId c e),
      assistantMessage_insert (.toolResult useId c' e')]

theorem ContentEdit.messages_eq {role : Role} {c c' : Content} (h : ContentEdit role c c') :
    messages ⟨role, c⟩ = messages ⟨role, c'⟩ := by
  cases h with
  | insert front back h =>
    cases role with
    | user => exact (userMessages_insert h front back).symm
    | assistant => exact (congrArg Option.toList (assistantMessage_insert h front back)).symm
  | isError front back useId c e e' => exact messages_result rfl role front back useId e e'
  | result front back useId h e => exact messages_result h.plain_eq role front back useId e e
  | plain t => cases role <;> rfl

theorem Edit.request_eq {r r' : Request} (h : Edit r r') (model : String) :
    request r model = request r' model := by
  cases h with
  | content r before after role h =>
    simp only [request, List.flatMap_append, List.flatMap_cons, h.messages_eq]
    rfl
  | system r h =>
    simp only [request, systemMessage, h.plain_eq]
    rfl
  | topK r n => rfl
  | extra r members => rfl
  | metadata r m h =>
    simp only [request, h]
    rfl

theorem Edit.reasoningMembers_eq {r r' : Request} (h : Edit r r') (p : Config.Provider) :
    reasoningMembers r p = reasoningMembers r' p := by
  cases h <;> rfl

theorem Edit.build_eq {r r' : Request} (h : Edit r r') (model : String) (p : Config.Provider) :
    build r model p = build r' model p := by
  unfold build
  rw [h.request_eq, h.reasoningMembers_eq]

/-- **What no provider is told.** Requests that edits lead from one to the other, whichever way each
edit is made, are sent to every provider in the same words. -/
theorem payload_of_edits {r r' : Request} (h : Relation.EqvGen Edit r r') (model : String)
    (p : Config.Provider) : (build r model p).payload = (build r' model p).payload := by
  induction h with
  | rel _ _ h => rw [h.build_eq]
  | refl _ => rfl
  | symm _ _ _ ih => exact ih.symm
  | trans _ _ _ _ _ ih₁ ih₂ => exact ih₁.trans ih₂

def reply (c : Content) (topK : Option Nat) : Request :=
  { Routing.question "opus" "Well?" none with
    messages := [⟨.user, .text "Well?"⟩, ⟨.assistant, c⟩], topK }

theorem payload_of_edits_thought :
    Relation.EqvGen Edit (reply (.blocks [.thinking "Hm." none, .text "Yes."]) none)
        (reply (.text "Yes.") (some 5)) ∧
      (build (reply (.blocks [.thinking "Hm." none, .text "Yes."]) none) "large"
          (Routing.localProvider "first" "opus" none)).payload =
        (build (reply (.text "Yes.") (some 5)) "large"
          (Routing.localProvider "first" "opus" none)).payload := by
  have hthought : Edit (reply (.blocks [.text "Yes."]) none)
      (reply (.blocks [.thinking "Hm." none, .text "Yes."]) none) :=
    .content (Routing.question "opus" "Well?" none) [⟨.user, .text "Well?"⟩] [] .assistant
      (.insert [] [.text "Yes."] (.thinking .assistant "Hm." none))
  have hplain : Edit (reply (.blocks [.text "Yes."]) none) (reply (.text "Yes.") none) :=
    .content (Routing.question "opus" "Well?" none) [⟨.user, .text "Well?"⟩] [] .assistant
      (.plain "Yes.")
  have htop : Edit (reply (.text "Yes.") none) (reply (.text "Yes.") (some 5)) := .topK _ (some 5)
  have h := ((Relation.EqvGen.rel _ _ hthought).symm.trans _ _ _ (.rel _ _ hplain)).trans _ _ _
    (.rel _ _ htop)
  exact ⟨h, payload_of_edits h "large" _⟩

end ChatGateway.Outbound
