import ChatGateway.Proofs.Assembly

/-!
# One call, answered in two ways

A call whose arguments are streamed and the same call in a whole reply get the same input, but for a
quoted text behind white space and for a tool that declares members of the error object.
-/

namespace ChatGateway.Answer.Stream

open Markup Messages

section
variable (c : Setting)

theorem whole_of_calls {r : Chat.Reply} {y : Chat.Choice} {before after : List Chat.ToolCall}
    {x : Chat.ToolCall} (hr : r.choices.head? = some y)
    (h : y.message.toolCalls = some (before ++ x :: after)) :
    ∃ front, (whole c.supply c.tools c.model r).content =
      front ++ nativeBlock c.tools x :: after.map (nativeBlock c.tools) := by
  have hblocks : messageBlocks c.supply c.tools y.message =
      (reasoningBlocks y.message.reasoning ++
          contentBlocks c.supply c.tools (y.message.content.getD "").toList ++
          before.map (nativeBlock c.tools)) ++
        nativeBlock c.tools x :: after.map (nativeBlock c.tools) := by
    rw [messageBlocks, h, Option.getD_some, List.map_append, List.map_cons, ← List.append_assoc]
  have hsome : (messageBlocks c.supply c.tools y.message).isEmpty = false := by
    rw [hblocks]
    simp
  have hcontent : (whole c.supply c.tools c.model r).content =
      messageBlocks c.supply c.tools y.message := by
    rw [whole, hr]
    simp [hsome]
  exact ⟨_, hcontent.trans hblocks⟩

/-- **Inputs of native calls.** The input of a streamed call is that of the same call in a whole
reply, where white space does not hide the quote of its text and where no schema changes the error
object. -/
theorem run_inputs_agree (is : List Input) :
    ∃ L, Assembled c is L ∧ ∀ i n, .native i n ∈ L → ∀ (r : Chat.Reply) y before x after,
      r.choices.head? = some y → y.message.toolCalls = some (before ++ x :: after) →
      x.name = n.name → x.arguments.toList = n.text →
      ∃ front input, (whole c.supply c.tools c.model r).content =
          front ++ .toolUse x.id x.name input :: after.map (nativeBlock c.tools) ∧
        (¬ Spaced n.text →
          (Text.blank n.text = false → Json.read (Text.trim n.text) = none →
            Undeclared c.tools n.name) →
          inputsAt i (run c is initial).1 = [input.text]) := by
  obtain ⟨L, hL⟩ := assembled_run c is
  refine ⟨L, hL, fun i n hn r y before x after hr hy hname htext => ?_⟩
  obtain ⟨front, hfront⟩ := whole_of_calls c hr hy
  refine ⟨front, _, hfront, fun hs hu => ?_⟩
  rw [hL.inputsAt hn]
  rw [← htext] at hs hu ⊢
  rw [streamedArguments_eq_whole hs hu, hname]

end

def oneCall (said : String) : Chat.Reply :=
  ⟨"x", "chat.completion", 0, "m",
    [⟨0, ⟨none, none, none, some [⟨"t", "function", "f", said⟩]⟩, none⟩], none⟩

theorem run_inputs_agree_quoted :
    ∃ input, (whole bare.supply bare.tools bare.model (oneCall "\"[7]\"")).content =
        [.toolUse "t" "f" input] ∧
      ∃ i, inputsAt i
        (run bare (calling [firstSlot "\"[7", firstSlot "]\""] ++ [.finish]) initial).1 =
          [input.text] := by
  obtain ⟨L, hL, hinputs⟩ :=
    run_inputs_agree bare (calling [firstSlot "\"[7", firstSlot "]\""] ++ [.finish])
  have hcall : ⟨0, "t", "f", "\"[7]\"".toList⟩ ∈
      (calls (arrivals (calling [firstSlot "\"[7", firstSlot "]\""] ++ [.finish]))).1 := by
    decide +kernel
  obtain ⟨i, hi⟩ := hL.exists_native hcall
  obtain ⟨front, input, hcontent, hinput⟩ := hinputs i _ hi (oneCall "\"[7]\"") _ [] _ [] rfl rfl
    rfl rfl
  have hquote : ¬ Spaced "\"[7]\"".toList := fun h => h.1 (by decide +kernel)
  have hread : (Json.read (Text.trim "\"[7]\"".toList)).isSome = true := by decide +kernel
  have hinput' := hinput hquote fun _ h => by rw [h] at hread; exact absurd hread (by simp)
  have hlen : (whole bare.supply bare.tools bare.model (oneCall "\"[7]\"")).content.length = 1 := by
    decide +kernel
  have hfront : front = [] := by
    rw [hcontent] at hlen
    simpa using hlen
  rw [hfront] at hcontent
  exact ⟨input, hcontent, i, hinput'⟩

def Differs (tools : List Tool) (said : String) : Prop :=
  ∃ input, (whole bare.supply tools bare.model (oneCall said)).content = [.toolUse "t" "f" input] ∧
    inputsAt 0 (run { bare with tools } (calling [firstSlot said] ++ [.finish]) initial).1 ≠
      [input.text]

/-- White space in front of a JSON string keeps only the stream from unwrapping it, and a schema for
`raw` changes the error object in a whole reply only. -/
theorem inputs_differ :
    Differs [] " \"[7]\"" ∧
      Differs [⟨"f", none, .obj [("type", .str "object"),
        ("properties", .obj [("raw", .obj [("type", .str "boolean")])])]⟩] "oops" := by
  refine ⟨⟨.arr [.ofNat 7], ?_, ?_⟩, ⟨.obj [("error", .str "Failed to decode arguments"),
    ("raw", .bool false)], ?_, ?_⟩⟩
  all_goals decide +kernel

end ChatGateway.Answer.Stream
