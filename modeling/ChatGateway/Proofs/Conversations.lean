import ChatGateway.Proofs.Dialogue
import Mathlib.Data.List.Forall2

/-!
# Conversations are kept

`Sends` says what is sent for one message: the results of tools one by one and then what the user
says and shows, or what the assistant says together with its calls. All that is sent for a request
is sent for one of its messages, in their order, so that no result, no call and no image is lost or
sent twice.
-/

namespace ChatGateway.Outbound

open Messages

/-! ## What messages hold -/

/-- The texts among some blocks, one on a line. -/
def linesOf (bs : List Block) : String := String.intercalate "\n" (bs.filterMap Block.text?)

def resultText : ResultContent → String
  | .absent => ""
  | .text t => t
  | .blocks bs => linesOf bs

/-- The id of a call and the text of its result. -/
def result? : Block → Option (String × String)
  | .toolResult id c _ => some (id, resultText c)
  | _ => none

/-- The id of a call, the name of its tool and its input. -/
def use? : Block → Option (String × String × Json.Value)
  | .toolUse id name input => some (id, name, input)
  | _ => none

def image? : Block → Option ImageSource
  | .image s => some s
  | _ => none

def blocksOf (role : Role) (m : Message) : List Block :=
  if m.role = role then m.content.toBlocks else []

/-- What the blocks of all messages of a role hold, in order. -/
def held {α : Type} (f : Block → Option α) (role : Role) (ms : List Message) : List α :=
  ms.flatMap fun m => (blocksOf role m).filterMap f

def said (c : Content) : String := linesOf c.toBlocks

def shown (c : Content) : List ImageSource := c.toBlocks.filterMap image?

def used (c : Content) : List (String × String × Json.Value) := c.toBlocks.filterMap use?

/-! ## What is sent for a message -/

def resultMessage (r : String × String) : Chat.Message :=
  ⟨.tool, some (.text r.2), none, some r.1, none⟩

def imageUrl (s : ImageSource) : Chat.ImageUrl :=
  ⟨"data:" ++ s.mediaType ++ ";base64," ++ s.data, none⟩

def call (u : String × String × Json.Value) : Chat.ToolCall := ⟨u.1, "function", u.2.1, u.2.2.text⟩

def results (c : Content) : List Chat.Message := (c.toBlocks.filterMap result?).map resultMessage

/-- A text alone, or as a part in front of images unless it is empty. -/
def contentOf (text : String) (images : List ImageSource) : Chat.Content :=
  if images = [] then .text text
  else .parts ((if text = "" then [] else [.text text]) ++
    images.map fun s => .image (imageUrl s))

inductive Sends : Message → List Chat.Message → Prop where
  /-- The user says nothing, or nothing beside the results of tools. -/
  | results (c : Content) (ht : said c = "") (hi : shown c = []) :
    Sends ⟨.user, c⟩ (Outbound.results c)
  | user (c : Content) (h : said c ≠ "" ∨ shown c ≠ []) :
    Sends ⟨.user, c⟩
      (Outbound.results c ++ [⟨.user, some (contentOf (said c) (shown c)), none, none, none⟩])
  | silent (c : Content) (ht : said c = "") (hu : used c = []) : Sends ⟨.assistant, c⟩ []
  | assistant (c : Content) (h : said c ≠ "" ∨ used c ≠ []) :
    Sends ⟨.assistant, c⟩ [⟨.assistant, if said c = "" then none else some (.text (said c)),
      if used c = [] then none else some ((used c).map call), none, none⟩]

/-- Only the blocks of type `text` count. -/
def systemText : System → String
  | .text t => t
  | .blocks bs => String.intercalate "\n" ((bs.filter (·.kind = "text")).map (·.text))

/-- A message with instructions is sent only for a text that is not blank. -/
inductive Instructs : Option System → List Chat.Message → Prop where
  | absent : Instructs none []
  | blank (s : System) (h : Text.blank (systemText s).toList = true) : Instructs (some s) []
  | given (s : System) (h : Text.blank (systemText s).toList = false) :
    Instructs (some s) [⟨.system, some (.text (systemText s)), none, none, none⟩]

theorem plain_eq (s : System) : s.plain = systemText s := by
  cases s with
  | text t => rfl
  | blocks bs =>
    have htexts : (bs.filterMap fun b => if b.kind = "text" then some b.text else none) =
        (bs.filter (·.kind = "text")).map (·.text) := by
      induction bs with
      | nil => rfl
      | cons b bs ih => by_cases hb : b.kind = "text" <;> simp [hb, ih]
    exact congrArg (String.intercalate "\n") htexts

theorem instructs (system : Option System) : Instructs system (systemMessage system) := by
  cases system with
  | none => exact .absent
  | some s =>
    unfold systemMessage
    dsimp only
    rw [plain_eq]
    split
    · next h => exact .blank s h
    · next h => exact .given s (Bool.eq_false_iff.mpr h)

theorem toolMessage?_eq (b : Block) : toolMessage? b = (result? b).map resultMessage := by
  cases b with
  | toolResult id c isError => cases c <;> rfl
  | _ => rfl

theorem toolCall?_eq (b : Block) : toolCall? b = (use? b).map call := by
  cases b <;> rfl

theorem imagePart?_eq (b : Block) :
    imagePart? b = (image? b).map fun s => .image (imageUrl s) := by
  cases b <;> rfl

theorem filterMap_of_eq {α β : Type} {f : Block → Option β} {g : Block → Option α} {h : α → β}
    (he : ∀ b, f b = (g b).map h) (bs : List Block) :
    bs.filterMap f = (bs.filterMap g).map h := by
  rw [List.map_filterMap]
  exact congrArg (List.filterMap · bs) (funext he)

theorem userMessages_eq (c : Content) :
    userMessages c.toBlocks = results c ++
      if said c = "" ∧ shown c = [] then []
      else [⟨.user, some (contentOf (said c) (shown c)), none, none, none⟩] := by
  have hresults := filterMap_of_eq toolMessage?_eq c.toBlocks
  have himages := filterMap_of_eq imagePart?_eq c.toBlocks
  rw [userMessages, hresults, userSays, himages]
  refine congrArg (results c ++ ·) ?_
  have hsaid : joinLines (texts c.toBlocks) = said c := rfl
  unfold shown contentOf
  rw [hsaid]
  generalize said c = text
  generalize c.toBlocks.filterMap image? = images
  cases images with
  | nil => by_cases ht : text = "" <;> simp [ht, Chat.Message.ofText]
  | cons s images => simp

theorem assistantMessage_eq (c : Content) :
    assistantMessage c.toBlocks =
      if said c = "" ∧ used c = [] then none
      else some ⟨.assistant, if said c = "" then none else some (.text (said c)),
        if used c = [] then none else some ((used c).map call), none, none⟩ := by
  have hcalls := filterMap_of_eq toolCall?_eq c.toBlocks
  have hsaid : joinLines (texts c.toBlocks) = said c := rfl
  rw [assistantMessage, hcalls, hsaid]
  unfold used
  generalize said c = text
  generalize c.toBlocks.filterMap use? = uses
  by_cases ht : text = "" <;> by_cases hu : uses = [] <;> simp [ht, hu]

theorem sends (m : Message) : Sends m (messages m) := by
  obtain ⟨role, c⟩ := m
  cases role with
  | user =>
    have hmessages : messages ⟨.user, c⟩ = userMessages c.toBlocks := rfl
    rw [hmessages, userMessages_eq]
    by_cases h : said c = "" ∧ shown c = []
    · rw [if_pos h, List.append_nil]
      exact .results c h.1 h.2
    · rw [if_neg h]
      exact .user c (Decidable.not_and_iff_not_or_not.mp h)
  | assistant =>
    have hmessages : messages ⟨.assistant, c⟩ = (assistantMessage c.toBlocks).toList := rfl
    rw [hmessages, assistantMessage_eq]
    by_cases h : said c = "" ∧ used c = []
    · rw [if_pos h]
      exact .silent c h.1 h.2
    · rw [if_neg h]
      exact .assistant c (Decidable.not_and_iff_not_or_not.mp h)

/-! ## Nothing is lost -/

def resultOf? (m : Chat.Message) : Option (String × String) :=
  match m.role, m.toolCallId, m.content with
  | .tool, some id, some (.text t) => some (id, t)
  | _, _, _ => none

def callsOf (m : Chat.Message) : List Chat.ToolCall := m.toolCalls.getD []

def pictureOf? : Chat.ContentPart → Option Chat.ImageUrl
  | .image i => some i
  | .text _ => none

def picturesOf (m : Chat.Message) : List Chat.ImageUrl :=
  match m.content with
  | some (.parts ps) => ps.filterMap pictureOf?
  | _ => []

/-- The messages that are sent give the results and the images of users and make the calls of the
assistant, each once and in order. -/
structure Conserves (ms : List Message) (sent : List Chat.Message) : Prop where
  results : sent.filterMap resultOf? = held result? .user ms
  calls : sent.flatMap callsOf = (held use? .assistant ms).map call
  images : sent.flatMap picturesOf = (held image? .user ms).map imageUrl

theorem conserves_nil : Conserves [] [] := ⟨rfl, rfl, rfl⟩

theorem Conserves.append {ms ms' : List Message} {sent sent' : List Chat.Message}
    (h : Conserves ms sent) (h' : Conserves ms' sent') :
    Conserves (ms ++ ms') (sent ++ sent') where
  results := by
    rw [List.filterMap_append, h.results, h'.results]
    exact List.flatMap_append.symm
  calls := by rw [List.flatMap_append, h.calls, h'.calls, ← List.map_append]; simp [held]
  images := by rw [List.flatMap_append, h.images, h'.images, ← List.map_append]; simp [held]

theorem conserves_results (c : Content) :
    (results c).filterMap resultOf? = c.toBlocks.filterMap result? ∧
      (results c).flatMap callsOf = [] ∧ (results c).flatMap picturesOf = [] := by
  unfold results
  induction c.toBlocks.filterMap result? with
  | nil => exact ⟨rfl, rfl, rfl⟩
  | cons r rs ih => exact ⟨congrArg (r :: ·) ih.1, ih.2⟩

theorem held_own {α : Type} (f : Block → Option α) (role : Role) (c : Content) :
    held f role [⟨role, c⟩] = c.toBlocks.filterMap f := by
  simp [held, blocksOf]

theorem held_other {α : Type} (f : Block → Option α) {role role' : Role} (h : role' ≠ role)
    (c : Content) : held f role [⟨role', c⟩] = [] := by
  simp [held, blocksOf, h]

theorem picturesOf_contentOf (role : Chat.Role) (text : String) (images : List ImageSource) :
    picturesOf ⟨role, some (contentOf text images), none, none, none⟩ = images.map imageUrl := by
  have himages : (images.map fun s => Chat.ContentPart.image (imageUrl s)).filterMap pictureOf? =
      images.map imageUrl := by
    rw [List.filterMap_map]
    exact congrFun (List.filterMap_eq_map (f := imageUrl)) images
  by_cases hi : images = []
  · simp [contentOf, picturesOf, hi]
  · by_cases ht : text = ""
    · simp [contentOf, picturesOf, hi, ht, himages]
    · simp [contentOf, picturesOf, List.filterMap_cons, pictureOf?, hi, ht, himages]

theorem Sends.conserves {m : Message} {sent : List Chat.Message} (h : Sends m sent) :
    Conserves [m] sent := by
  have huser : Role.user ≠ .assistant := by decide
  have hassistant : Role.assistant ≠ .user := by decide
  cases h with
  | results c ht hi =>
    obtain ⟨hresults, hcalls, hpictures⟩ := conserves_results c
    constructor
    · rw [hresults, held_own]
    · rw [hcalls, held_other use? huser]
      rfl
    · have hnone : c.toBlocks.filterMap image? = [] := hi
      rw [hpictures, held_own, hnone]
      rfl
  | user c h =>
    obtain ⟨hresults, hcalls, hpictures⟩ := conserves_results c
    constructor
    · rw [List.filterMap_append, hresults, held_own]
      exact List.append_nil _
    · rw [List.flatMap_append, hcalls, held_other use? huser]
      rfl
    · rw [List.flatMap_append, hpictures, List.flatMap_singleton, picturesOf_contentOf, held_own]
      rfl
  | silent c ht hu =>
    have hnone : c.toBlocks.filterMap use? = [] := hu
    constructor
    · rw [held_other result? hassistant]
      rfl
    · rw [held_own, hnone]
      rfl
    · rw [held_other image? hassistant]
      rfl
  | assistant c h =>
    constructor
    · rw [held_other result? hassistant]
      rfl
    · rw [List.flatMap_singleton, held_own]
      show (if used c = [] then none else some ((used c).map call)).getD [] = (used c).map call
      split
      · next hu => rw [hu]; rfl
      · rfl
    · rw [held_other image? hassistant, List.flatMap_singleton]
      by_cases ht : said c = "" <;> simp [picturesOf, ht]

theorem Instructs.conserves {system : Option System} {sent : List Chat.Message}
    (h : Instructs system sent) : Conserves [] sent := by
  cases h with
  | absent => exact conserves_nil
  | blank s h => exact conserves_nil
  | given s h => exact ⟨rfl, rfl, rfl⟩

theorem conserves_flatten {ms : List Message} {parts : List (List Chat.Message)}
    (h : List.Forall₂ Sends ms parts) : Conserves ms parts.flatten := by
  induction h with
  | nil => exact conserves_nil
  | cons hm _ ih => exact hm.conserves.append ih

/-! ## No message is empty -/

/-- The message has a text, parts or calls. -/
def Speaks (m : Chat.Message) : Prop :=
  (∃ t, m.content = some (.text t) ∧ t ≠ "") ∨ (∃ ps, m.content = some (.parts ps) ∧ ps ≠ []) ∨
    ∃ calls, m.toolCalls = some calls ∧ calls ≠ []

theorem Sends.speaks {m : Message} {sent : List Chat.Message} (h : Sends m sent) :
    ∀ s ∈ sent, s.role = .tool ∨ Speaks s := by
  have hresults : ∀ c, ∀ s ∈ Outbound.results c, s.role = .tool ∨ Speaks s := by
    intro c s hs
    obtain ⟨r, -, rfl⟩ := List.mem_map.mp hs
    exact .inl rfl
  cases h with
  | results c ht hi => exact hresults c
  | user c h =>
    refine List.forall_mem_append.mpr ⟨hresults c, List.forall_mem_singleton.mpr (.inr ?_)⟩
    by_cases hi : shown c = []
    · refine .inl ⟨said c, ?_, h.resolve_right (not_not.mpr hi)⟩
      rw [contentOf, if_pos hi]
    · refine .inr (.inl ⟨_, congrArg some (if_neg hi), by simp [hi]⟩)
  | silent c ht hu => simp
  | assistant c h =>
    refine List.forall_mem_singleton.mpr (.inr ?_)
    by_cases ht : said c = ""
    · have hu : used c ≠ [] := h.resolve_left (not_not.mpr ht)
      exact .inr (.inr ⟨_, if_neg hu, by simpa using hu⟩)
    · exact .inl ⟨_, if_neg ht, ht⟩

theorem Instructs.speaks {system : Option System} {sent : List Chat.Message}
    (h : Instructs system sent) : ∀ s ∈ sent, Speaks s := by
  cases h with
  | absent => simp
  | blank s h => simp
  | given s h =>
    refine List.forall_mem_singleton.mpr (.inl ⟨_, rfl, fun he => ?_⟩)
    rw [he] at h
    exact absurd h (by decide)

/-! ## The request -/

structure Declares (t : Messages.Tool) (u : Chat.Tool) : Prop where
  kind : u.kind = "function"
  name : u.name = t.name
  description : u.description = t.description
  parameters : u.parameters = t.inputSchema

/-- A call with what a reader makes of the text of its arguments. -/
def readCall (read : String → Option Json.Value) (c : Chat.ToolCall) :
    String × String × Option Json.Value := (c.id, c.name, read c.arguments)

/-- **Conversations are kept.** The messages of a request are sent one behind the other, each as
`Sends` says, behind the instructions if they are not blank. No result, call or image is lost or
sent twice, the texts of arguments read back as inputs where printed JSON reads back, no message but
the results of tools is empty, and the tools are declared one by one. -/
theorem request_conserves (r : Request) (model : String) :
    (∃ front parts, (request r model).messages = front ++ parts.flatten ∧
      Instructs r.system front ∧ List.Forall₂ Sends r.messages parts) ∧
    Conserves r.messages (request r model).messages ∧
    (∀ read : String → Option Json.Value,
      (∀ u ∈ held use? .assistant r.messages, read u.2.2.text = some u.2.2) →
      ((request r model).messages.flatMap callsOf).map (readCall read) =
        (held use? .assistant r.messages).map fun u => (u.1, u.2.1, some u.2.2)) ∧
    (∀ m ∈ (request r model).messages, m.role = .tool ∨ Speaks m) ∧
    Option.Rel (List.Forall₂ Declares) r.tools (request r model).tools := by
  have hfront := instructs r.system
  have hparts : List.Forall₂ Sends r.messages (r.messages.map messages) :=
    List.forall₂_map_right_iff.mpr (List.forall₂_same.mpr fun m _ => sends m)
  have hmessages : (request r model).messages =
      systemMessage r.system ++ (r.messages.map messages).flatten := rfl
  have hconserves : Conserves r.messages (request r model).messages := by
    rw [hmessages]
    exact hfront.conserves.append (conserves_flatten hparts)
  refine ⟨⟨_, _, hmessages, hfront, hparts⟩, hconserves, fun read hread => ?_, ?_, ?_⟩
  · rw [hconserves.calls, List.map_map]
    refine List.map_congr_left fun u hu => ?_
    show (u.1, u.2.1, read u.2.2.text) = _
    rw [hread u hu]
  · rw [hmessages, List.forall_mem_append]
    refine ⟨fun m hm => .inr (hfront.speaks m hm), fun s hs => ?_⟩
    obtain ⟨m, -, hs⟩ := List.mem_flatMap.mp hs
    exact (sends m).speaks s hs
  · show Option.Rel _ r.tools (r.tools.map fun ts => ts.map tool)
    cases r.tools with
    | none => exact .none
    | some ts =>
      exact .some (List.forall₂_map_right_iff.mpr
        (List.forall₂_same.mpr fun t _ => ⟨rfl, rfl, rfl, rfl⟩))

/-- Instructions, a picture and a call whose result comes back before a text. -/
def postcard : Request :=
  { twoTools with
    messages := [
      ⟨.user, .blocks [.image ⟨"base64", "image/png", "iVBOR"⟩, .text "Where is", .text "this?"]⟩,
      ⟨.assistant, .blocks [.text "Let me", .toolUse "a" "place" (.obj [("zoom", .bool true)]),
        .text "look."]⟩,
      ⟨.user, .blocks [.text "", .toolResult "a" (.blocks [.text "Delft", .text "NL"]) none]⟩]
    system := some (.blocks [⟨"text", "Be brief."⟩, ⟨"note", "Skip."⟩, ⟨"text", "Be kind."⟩])
    tools := some [⟨"place", none, .obj []⟩] }

theorem request_conserves_postcard :
    let sent := request postcard "model"
    sent.messages = [
      ⟨.system, some (.text "Be brief.\nBe kind."), none, none, none⟩,
      ⟨.user, some (.parts [.text "Where is\nthis?", .image ⟨"data:image/png;base64,iVBOR", none⟩]),
        none, none, none⟩,
      ⟨.assistant, some (.text "Let me\nlook."),
        some [⟨"a", "function", "place", "\x7b\"zoom\":true\x7d"⟩], none, none⟩,
      ⟨.tool, some (.text "Delft\nNL"), none, some "a", none⟩] ∧
    Conserves postcard.messages sent.messages ∧
    sent.messages.filterMap resultOf? = [("a", "Delft\nNL")] ∧
    sent.messages.flatMap picturesOf = [⟨"data:image/png;base64,iVBOR", none⟩] ∧
    (sent.messages.flatMap callsOf).map (readCall fun t => Json.read t.toList) =
      [("a", "place", some (.obj [("zoom", .bool true)]))] ∧
    Option.Rel (List.Forall₂ Declares) postcard.tools sent.tools := by
  intro sent
  obtain ⟨-, hconserves, hread, -, htools⟩ := request_conserves postcard "model"
  refine ⟨by decide +kernel, hconserves, hconserves.results.trans (by decide +kernel),
    hconserves.images.trans (by decide +kernel), ?_, htools⟩
  have hinput : ∀ u ∈ held use? .assistant postcard.messages,
      Json.read u.2.2.text.toList = some u.2.2 := by
    decide +kernel
  exact (hread (fun t => Json.read t.toList) hinput).trans (by decide +kernel)

end ChatGateway.Outbound
