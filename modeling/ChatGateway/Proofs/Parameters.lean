import ChatGateway.Proofs.Agreement
import ChatGateway.Proofs.FixedPoints
import ChatGateway.Proofs.Reports
import ChatGateway.Proofs.Tables
import Mathlib.Data.List.TakeWhile
import Mathlib.Data.Nat.Digits.Defs

/-!
# Values of parameters in markup

The text of a parameter becomes a value twice: when its function is read, by the name of the type
that the tool declares, and when the arguments are coerced. Both together give what coercion makes
of the text, but for whole numbers where a number may have a fraction, truth values behind white
space, and types with alternatives.
-/

namespace ChatGateway.Number

/-! ## Whole numbers as numbers -/

theorem readInt64_cases {s : List Char} {n : Int} (h : readInt64 s = some n) :
    (splitSign s).2 ≠ [] ∧ (∀ c ∈ (splitSign s).2, c.isDigit = true) ∧
      digitsValue (splitSign s).2 ≤ int64Bound := by
  unfold readInt64 at h
  generalize splitSign s = p at h ⊢
  obtain ⟨negative, ds⟩ := p
  dsimp only at h ⊢
  by_cases hds : (ds.isEmpty || !ds.all Char.isDigit) = true
  · rw [if_pos hds] at h
    cases h
  · rw [if_neg hds] at h
    obtain ⟨hrange, -⟩ := Option.ite_none_right_eq_some.mp h
    obtain ⟨hlow, hhigh⟩ := Bool.and_eq_true_iff.mp hrange
    have hlow := of_decide_eq_true hlow
    have hhigh := of_decide_eq_true hhigh
    simp only [Bool.or_eq_true, List.isEmpty_iff, Bool.not_eq_true', not_or, Bool.not_eq_false,
      List.all_eq_true] at hds
    refine ⟨hds.1, hds.2, ?_⟩
    cases negative with
    | true => rw [if_pos rfl] at hlow; omega
    | false => rw [if_neg Bool.false_ne_true] at hhigh; omega

theorem readDecimal_of_digits {s : List Char} (hne : (splitSign s).2 ≠ [])
    (hdigits : ∀ c ∈ (splitSign s).2, c.isDigit = true) :
    readDecimal s = some ⟨(splitSign s).1, digitsValue (splitSign s).2, 0⟩ := by
  unfold readDecimal
  generalize splitSign s = p at hne hdigits ⊢
  obtain ⟨negative, ds⟩ := p
  have htake : ds.takeWhile Char.isDigit = ds := List.takeWhile_eq_self_iff.mpr hdigits
  have hdrop : ds.dropWhile Char.isDigit = [] := List.dropWhile_eq_nil_iff.mpr hdigits
  simp [htake, hdrop, hne, readExponent]

theorem ofRatio_isSome (negative : Bool) {n : Nat} (h : n < 2 ^ 64) :
    (Binary64.ofRatio negative n 1).isSome = true := by
  have hlog : (n <<< Binary64.unitBits / 1).log2 < 64 + Binary64.unitBits := by
    rw [Nat.div_one, Nat.shiftLeft_eq]
    by_cases hn : n = 0
    · simp [hn]
    · rw [Nat.log2_lt (Nat.mul_ne_zero hn (by positivity)), Nat.pow_add]
      exact Nat.mul_lt_mul_of_pos_right h (by positivity)
  have hscale : (n <<< Binary64.unitBits / 1).log2 + 1 - Binary64.precision + 1 ≤
      Binary64.maxScale := by
    simp only [Binary64.unitBits, Binary64.precision, Binary64.maxScale] at hlog ⊢
    omega
  unfold Binary64.ofRatio
  dsimp only
  generalize (n <<< Binary64.unitBits / 1).log2 + 1 - Binary64.precision = scale at hscale
  generalize Binary64.divideToEven _ _ = m
  have hpair : ∀ p : Nat × Nat, p.2 ≤ Binary64.maxScale →
      (if p.1 == 0 then some (Binary64.zero negative)
        else if p.2 ≤ Binary64.maxScale then some ⟨negative, p.1, p.2⟩
        else none).isSome = true := by
    intro p hp
    rw [if_pos hp]
    split <;> rfl
  refine hpair (if m == Nat.pow 2 Binary64.precision then (m / 2, scale + 1) else (m, scale)) ?_
  split
  · exact hscale
  · exact Nat.le_of_succ_le hscale

theorem toBinary64_isSome (negative : Bool) {n : Nat} (h : n ≤ int64Bound) :
    (Decimal.toBinary64 ⟨negative, n, 0⟩).isSome = true := by
  have hn : n < 2 ^ 64 := Nat.lt_of_le_of_lt h (by decide)
  have hlength : (Nat.toDigits 10 n).length ≤ 20 :=
    Nat.toDigits_length 10 n 20 (by decide) (Nat.lt_trans hn (by decide))
  unfold Decimal.toBinary64
  dsimp only
  split
  · rfl
  · rw [if_neg (by omega), if_neg (by omega), if_pos (Int.le_refl 0)]
    exact ofRatio_isSome negative (by simpa using hn)

theorem readBinary64_of_readInt64 {s : List Char} {n : Int} (h : readInt64 s = some n) :
    ∃ x, readBinary64 s = some x := by
  obtain ⟨hne, hdigits, hbound⟩ := readInt64_cases h
  rw [readBinary64, readDecimal_of_digits hne hdigits]
  exact Option.isSome_iff_exists.mp (toBinary64_isSome _ hbound)

end ChatGateway.Number

namespace ChatGateway.Markup.Qwen

open Text Json Tool

/-! ## One text, two conversions -/

/-- Reading a parameter's text by the name of its type decides what coercion would not. -/
inductive Misread (s : Value) (t : List Char) : Prop where
  /-- A whole number gets a fraction. -/
  | number (h : s.get? "type" = some (.str "number"))
    (hr : (Number.readInt64 (trim t)).isSome = true)
  /-- White space counts. -/
  | boolean (h : s.get? "type" = some (.str "boolean"))
    (hr : sameIgnoringCase (trim t) "true".toList ≠ sameIgnoringCase t "true".toList)
  /-- The alternatives are not looked at. -/
  | divided {type : String} (h : s.get? "type" = some (.str type))
    (ht : type ∈ ["number", "integer", "boolean"]) (hs : ¬ Single s)
    (hr : (convertText type t).isSome = true)

section
variable {s : Value} {t : List Char}

theorem declared_of_named {type : String} (h : s.get? "type" = some (.str type)) :
    declared s = some type := by
  cases s with
  | obj ms => simp only [declared, Schema.typeName, Value.get?] at h ⊢; rw [h]
  | _ => cases h

/-- Texts of other types are strings until they are coerced. -/
theorem parameterValue_of_unnamed
    (h : ∀ type ∈ ["number", "integer", "boolean"], s.get? "type" ≠ some (.str type))
    (hn : sameIgnoringCase t "null".toList = false) :
    parameterValue (some s) t = .str (String.ofList t) := by
  have hd : ∀ type ∈ ["number", "integer", "boolean"], declaredType (some s) ≠ type := by
    intro type ht
    unfold declaredType
    rw [Option.bind_some]
    split
    · next w hw => exact fun he => h type ht (he ▸ hw)
    · rintro rfl
      simp at ht
  rw [parameterValue, if_neg (Bool.eq_false_iff.mp hn), convertText, if_neg (hd _ (by simp)),
    if_neg (hd _ (by simp)), if_neg (hd _ (by simp))]
  rfl

theorem parameterValue_of_named {type : String} (h : s.get? "type" = some (.str type))
    (hn : sameIgnoringCase t "null".toList = false) :
    parameterValue (some s) t = (convertText type t).getD (.str (String.ofList t)) := by
  have hd : declaredType (some s) = type := by
    unfold declaredType
    rw [Option.bind_some, h]
  rw [parameterValue, if_neg (Bool.eq_false_iff.mp hn), hd]

theorem coerceBy_parameterValue_of_null (hn : sameIgnoringCase t "null".toList = true) :
    coerceBy s (parameterValue (some s) t) = coerceBy s (.str (String.ofList t)) := by
  have hstring : meansNull (.str (String.ofList t)) = true := by
    simpa only [meansNull, String.toList_ofList] using hn
  have hdirect : coerceBy s (.str (String.ofList t)) = .null := coerce_eq_null_iff.mpr hstring
  rw [hdirect, parameterValue, if_pos hn]
  exact coerceBy_null s

theorem meansNull_text (hn : sameIgnoringCase t "null".toList = false) :
    meansNull (.str (String.ofList t)) = false := by
  simpa only [meansNull, String.toList_ofList] using hn

section
variable (hs : Single s) (hn : sameIgnoringCase t "null".toList = false)
include hs hn

theorem coerceBy_integerText (h : s.get? "type" = some (.str "integer")) :
    coerceBy s (parameterValue (some s) t) = coerceBy s (.str (String.ofList t)) := by
  have hdirect := coerceBy_integer hs (meansNull_text hn) (declared_of_named h)
  rw [asInteger, String.toList_ofList] at hdirect
  rw [parameterValue_of_named h hn, convertText, if_neg (by decide), if_pos rfl]
  cases hi : Number.readInt64 (trim t) with
  | none => rfl
  | some i =>
    rw [hi] at hdirect
    exact (coerceBy_int hs (declared_of_named h) i).trans hdirect.symm

theorem coerceBy_numberText (h : s.get? "type" = some (.str "number")) :
    coerceBy s (parameterValue (some s) t) = coerceBy s (.str (String.ofList t)) ↔
      Number.readInt64 (trim t) = none := by
  have hdirect := coerceBy_number hs (meansNull_text hn) (declared_of_named h)
  rw [asNumber, String.toList_ofList] at hdirect
  rw [parameterValue_of_named h hn, convertText, if_pos rfl]
  cases hi : Number.readInt64 (trim t) with
  | none =>
    refine iff_of_true ?_ rfl
    rw [hi] at hdirect
    cases hx : Number.readBinary64 (trim t) with
    | none => rfl
    | some x =>
      rw [hx] at hdirect
      exact (coerceBy_num hs (declared_of_named h) _).trans hdirect.symm
  | some i =>
    refine iff_of_false ?_ (by simp)
    obtain ⟨x, hx⟩ := Number.readBinary64_of_readInt64 hi
    have hfloat := coerceBy_num hs (declared_of_named h) (.float x)
    rw [hi] at hdirect
    rw [hx, hdirect, Option.map_some, Option.getD_some, hfloat]
    simp

theorem coerceBy_booleanText (h : s.get? "type" = some (.str "boolean")) :
    coerceBy s (parameterValue (some s) t) = coerceBy s (.str (String.ofList t)) ↔
      sameIgnoringCase (trim t) "true".toList = sameIgnoringCase t "true".toList := by
  have hdirect := coerceBy_boolean hs (meansNull_text hn) (declared_of_named h)
  rw [asBoolean, String.toList_ofList, Option.getD_some] at hdirect
  have hnamed := coerceBy_bool hs (declared_of_named h) (sameIgnoringCase t "true".toList)
  rw [parameterValue_of_named h hn, convertText, if_neg (by decide), if_neg (by decide), if_pos rfl,
    Option.getD_some, hnamed, hdirect, Value.bool.injEq]
  exact eq_comm

end

/-- **One text, two conversions.** A text that is not misread becomes what coercion makes of it. -/
theorem coerceBy_parameterValue (h : ¬ Misread s t) :
    coerceBy s (parameterValue (some s) t) = coerceBy s (.str (String.ofList t)) := by
  cases hn : sameIgnoringCase t "null".toList with
  | true => exact coerceBy_parameterValue_of_null hn
  | false =>
    by_cases hnamed : ∃ type ∈ ["number", "integer", "boolean"],
        s.get? "type" = some (.str type)
    · obtain ⟨type, ht, htype⟩ := hnamed
      by_cases hs : Single s
      · simp only [List.mem_cons, List.not_mem_nil, or_false] at ht
        rcases ht with rfl | rfl | rfl
        · refine (coerceBy_numberText hs hn htype).mpr (Option.eq_none_iff_forall_ne_some.mpr ?_)
          exact fun i hi => h (.number htype (by simp [hi]))
        · exact coerceBy_integerText hs hn htype
        · exact (coerceBy_booleanText hs hn htype).mpr
            (Classical.byContradiction fun hr => h (.boolean htype hr))
      · have hkept : convertText type t = none :=
          Option.not_isSome_iff_eq_none.mp fun hr => h (.divided htype ht hs hr)
        rw [parameterValue_of_named htype hn, hkept, Option.getD_none]
    · rw [parameterValue_of_unnamed (fun type ht he => hnamed ⟨type, ht, he⟩) hn]

/-- A text that is misread becomes something else, where there are no alternatives. -/
theorem Misread.ne (h : Misread s t) (hs : Single s)
    (hn : sameIgnoringCase t "null".toList = false) :
    coerceBy s (parameterValue (some s) t) ≠ coerceBy s (.str (String.ofList t)) := by
  cases h with
  | number h hr =>
    intro he
    rw [(coerceBy_numberText hs hn h).mp he] at hr
    cases hr
  | boolean h hr => exact fun he => hr ((coerceBy_booleanText hs hn h).mp he)
  | divided _ _ hd _ => exact absurd hs hd

end

/-! ## What a span says -/

/-- A function of a span as it is written: its name, and its parameters with all of their texts. -/
structure RawCall where
  name : String
  texts : List (String × List Char)
deriving DecidableEq, Repr

def rawTexts (params : List Char) : List (String × List Char) :=
  (openSpans parameterBegin parameterEnd params).filterMap fun body =>
    (cut? ['>'] body).map fun (name, text) => (String.ofList name, text)

def rawCalls (body : List Char) : List RawCall :=
  (functions body).filterMap fun f =>
    (cut? ['>'] f).map fun (name, params) => ⟨String.ofList (trim name), rawTexts params⟩

section
variable (tools : List Messages.Tool)

def RawCall.member (f : RawCall) (m : String × List Char) : String × Value :=
  (m.1, parameterValue (propertySchema tools f.name m.1) (trimNewlines m.2))

def RawCall.call (f : RawCall) : Call := ⟨none, f.name, .ofMembers (f.texts.map (f.member tools))⟩

theorem wrapperCalls_eq (body : List Char) :
    wrapperCalls tools body = (rawCalls body).map (RawCall.call tools) := by
  rw [wrapperCalls, rawCalls, List.map_filterMap]
  refine List.filterMap_congr fun f _ => ?_
  rw [callOf, Option.map_map]
  congr 1
  funext ⟨name, params⟩
  simp only [Function.comp_apply, RawCall.call, RawCall.member, rawTexts, parameters,
    List.map_filterMap, Option.map_map, Function.comp_def]

/-- A name and an input that a written function becomes: a declared property has the value of its
last text. -/
structure Takes (f : RawCall) (input : String × Value) : Prop where
  name : input.1 = f.name
  object : input.2.isObject = true
  value : ∀ schema p s front t back, findSchema tools f.name = some schema →
    property? schema p = some s → f.texts = front ++ (p, t) :: back → p ∉ Table.keys back →
    ∃ v, input.2.get? p = some v ∧
      (¬ Misread s (trimNewlines t) → v = coerceBy s (.str (String.ofList (trimNewlines t)))) ∧
      (Misread s (trimNewlines t) → Single s →
        sameIgnoringCase (trimNewlines t) "null".toList = false →
        v ≠ coerceBy s (.str (String.ofList (trimNewlines t))))

def inputOf (call : Call) : String × Value :=
  (call.name, coerceArguments tools call.name call.arguments)

theorem takes (f : RawCall) : Takes tools f (inputOf tools (f.call tools)) where
  name := rfl
  object := by
    rw [inputOf, RawCall.call, Value.ofMembers, coerceArguments_obj]
    rfl
  value schema p s front t back hschema hs htexts hback := by
    have hproperty : propertySchema tools f.name p = some s := by
      rw [propertySchema, hschema, Option.bind_some]
      exact hs
    have hmembers : (Table.ofEntries (f.texts.map (f.member tools))).get? p =
        some (parameterValue (some s) (trimNewlines t)) := by
      rw [htexts, List.map_append, List.map_cons, RawCall.member, hproperty]
      refine Table.get?_ofEntries_last _ (fun hp => hback ?_) _
      simpa [Table.keys, RawCall.member] using hp
    have hcoerced : coerceArgument tools f.name p (parameterValue (some s) (trimNewlines t)) =
        coerceBy s (parameterValue (some s) (trimNewlines t)) := by
      rw [coerceArgument, hschema, Option.elim_some, coerceProperty, hs, Option.elim_some]
    refine ⟨coerceBy s (parameterValue (some s) (trimNewlines t)), ?_, coerceBy_parameterValue,
      Misread.ne⟩
    rw [inputOf, RawCall.call, Value.ofMembers, coerceArguments_obj, Value.get?,
      Table.get?_mapKeys, hmembers, Option.map_some, hcoerced]

end

end ChatGateway.Markup.Qwen

namespace ChatGateway.Markup

open Text

/-! ## The spans of a content -/

/-- The complete spans of either markup, in order, each from the first opening marker behind the one
before it to the first closing marker. -/
def completeSpans (s : List Char) : List (Grammar × List Char) :=
  match _h : cutAny? openings s with
  | none => []
  | some (_, o, a) =>
    match _h' : cut? (grammarOf o).closing a with
    | none => []
    | some (body, rest) => (grammarOf o, body) :: completeSpans rest
termination_by s.length
decreasing_by exact Nat.lt_trans (length_cut? _h') (length_cutAny? _h)

/-- The cases without the evidence that what is left gets shorter. -/
theorem completeSpans_eq (s : List Char) :
    completeSpans s =
      match cutAny? openings s with
      | none => []
      | some (_, o, a) =>
        match cut? (grammarOf o).closing a with
        | none => []
        | some (body, rest) => (grammarOf o, body) :: completeSpans rest := by
  rw [completeSpans]
  split <;> rename_i h <;> rw [h]
  dsimp only
  split <;> rename_i h' <;> rw [h']

theorem completeSpans_of_none {s : List Char} (h : cutAny? openings s = none) :
    completeSpans s = [] := by
  rw [completeSpans_eq, h]

section
variable {s b o a : List Char} (h : cutAny? openings s = some (b, o, a))
include h

theorem completeSpans_of_open (hk : cut? (grammarOf o).closing a = none) :
    completeSpans s = [] := by
  rw [completeSpans_eq, h]
  dsimp only
  rw [hk]

theorem completeSpans_of_span {body rest : List Char}
    (hk : cut? (grammarOf o).closing a = some (body, rest)) :
    completeSpans s = (grammarOf o, body) :: completeSpans rest := by
  rw [completeSpans_eq, h]
  dsimp only
  rw [hk]

end

theorem completeSpans_of_isSpan {g : Grammar} {body : List Char} (h : IsSpan g body) :
    completeSpans (g.opening ++ body ++ g.closing) = [(g, body)] := by
  obtain ⟨hg, hfirst⟩ := h
  have hgrammar : grammarOf g.opening = g ∧ g.opening ∈ openings := by
    simp only [grammars, List.mem_cons, List.not_mem_nil, or_false] at hg
    rcases hg with rfl | rfl
    · exact ⟨if_pos rfl, by decide⟩
    · exact ⟨if_neg (by decide), by decide⟩
  have hcut : cutAny? openings (g.opening ++ body ++ g.closing) =
      some ([], g.opening, body ++ g.closing) :=
    openings_angled.cutAny?_eq_some_iff.mpr ⟨hgrammar.2, by simp, fun m _ => clear_nil m _⟩
  have hclosing : cut? (grammarOf g.opening).closing (body ++ g.closing) = some (body, []) := by
    rw [hgrammar.1]
    refine (cut?_eq_some_iff (hgrammar.1 ▸ closing_ne_nil g.opening)).mpr ⟨by simp, ?_⟩
    -- a closing marker that begins earlier ends earlier
    rintro b hb ⟨x, rfl⟩ ⟨y, hy⟩
    rw [List.append_nil] at hy
    have hnil := hfirst x y (by rw [List.append_assoc x, ← hy]; simp)
    have hlength := congrArg List.length hy
    simp only [hnil, List.append_nil, List.length_append] at hlength
    exact hb (List.length_eq_zero_iff.mp (by omega))
  rw [completeSpans_of_span hcut hclosing, hgrammar.1, completeSpans_of_none rfl]

def inputsIn (tools : List Messages.Tool) (span : Grammar × List Char) :
    List (String × Json.Value) :=
  (span.1.calls tools span.2).map (Qwen.inputOf tools)

/-- The names and inputs of the calls in the complete spans of a content. -/
def spanInputs (tools : List Messages.Tool) (s : List Char) : List (String × Json.Value) :=
  (completeSpans s).flatMap (inputsIn tools)

def segmentInputs (tools : List Messages.Tool) : Segment → List (String × Json.Value)
  | .text _ => []
  | .calls cs => cs.map (Qwen.inputOf tools)

theorem inputs_drain (tools : List Messages.Tool) (z : List Char) :
    (drain tools z).segments.flatMap (segmentInputs tools) = spanInputs tools z := by
  unfold spanInputs
  induction z using drain_induction with
  | plain z ha => rw [drain_of_none tools ha, completeSpans_of_none ha]; rfl
  | opened z b o a ha hk => rw [drain_of_open tools ha hk, completeSpans_of_open ha hk]; rfl
  | span z b o a body rest ha hk ih =>
    rw [drain_of_span tools ha hk, completeSpans_of_span ha hk, Drained.after, List.flatMap_append,
      List.flatMap_cons, ih]
    congr 1
    unfold spanSegments inputsIn
    split
    · next he => simp [segmentInputs, List.isEmpty_iff.mp he]
    · simp [segmentInputs]

end ChatGateway.Markup

namespace ChatGateway.Answer.Stream

open Markup Messages

/-! ## Both ways to answer -/

theorem replyCalls_append (as bs : List ReplyBlock) :
    replyCalls (as ++ bs) = replyCalls as ++ replyCalls bs := by
  induction as with
  | nil => rfl
  | cons a as ih =>
    cases a with
    | text t => exact ih
    | thinking t s => exact ih
    | toolUse id name input => exact congrArg ((name, input) :: ·) ih

section
variable (c : Setting)

theorem replyCalls_textBlocks (t : List Char) : replyCalls (textBlocks t) = [] := by
  unfold textBlocks
  dsimp only
  split <;> rfl

theorem replyCalls_callBlocks (n : Nat) (cs : List Call) :
    replyCalls ((issueAll c.supply n cs).map fun (id, call) => callBlock c.tools id call) =
      cs.map (Qwen.inputOf c.tools) := by
  induction cs generalizing n with
  | nil => rfl
  | cons call cs ih =>
    rw [issueAll, List.map_cons, List.map_cons, ← ih]
    rfl

theorem replyCalls_segmentBlocks (n : Nat) (ss : List Segment) :
    replyCalls (segmentBlocks c.supply c.tools n ss) = ss.flatMap (segmentInputs c.tools) := by
  induction ss generalizing n with
  | nil => rfl
  | cons g ss ih =>
    cases g with
    | text t => rw [segmentBlocks, replyCalls_append, replyCalls_textBlocks, ih]; rfl
    | calls cs => rw [segmentBlocks, replyCalls_append, replyCalls_callBlocks, ih]; rfl

theorem replyCalls_contentBlocks (z : List Char) :
    replyCalls (contentBlocks c.supply c.tools z) = spanInputs c.tools z := by
  rw [contentBlocks, replyCalls_segmentBlocks, List.flatMap_append, inputs_drain]
  simp [segmentInputs]

def nativeInput (n : Chat.ToolCall) : String × Json.Value :=
  (n.name, Tool.coerceArguments c.tools n.name (wholeArguments n.arguments))

theorem replyCalls_natives (ns : List Chat.ToolCall) :
    replyCalls (ns.map (nativeBlock c.tools)) = ns.map (nativeInput c) := by
  induction ns with
  | nil => rfl
  | cons n ns ih => rw [List.map_cons, List.map_cons, ← ih]; rfl

theorem replyCalls_whole {r : Chat.Reply} {x : Chat.Choice} (hr : r.choices.head? = some x) :
    replyCalls (whole c.supply c.tools c.model r).content =
      spanInputs c.tools (x.message.content.getD "").toList ++
        (x.message.toolCalls.getD []).map (nativeInput c) := by
  have hreasoning : replyCalls (reasoningBlocks x.message.reasoning) = [] := by
    unfold reasoningBlocks
    split
    · split <;> rfl
    · rfl
  have hmessage : replyCalls (messageBlocks c.supply c.tools x.message) =
      spanInputs c.tools (x.message.content.getD "").toList ++
        (x.message.toolCalls.getD []).map (nativeInput c) := by
    rw [messageBlocks, replyCalls_append, replyCalls_append, hreasoning, replyCalls_contentBlocks,
      replyCalls_natives, List.nil_append]
  rw [← hmessage, whole, hr, Option.elim_some]
  cases messageBlocks c.supply c.tools x.message with
  | nil => rfl
  | cons b bs => rfl

def Entry.span : Entry → List Char
  | .markup span _ _ => span
  | _ => []

def Entry.inputs : Entry → List (String × String)
  | .markup _ _ calls => calls.map fun p => (p.2.name, inputText c p.2)
  | _ => []

def printed (p : String × Json.Value) : String × String := (p.1, p.2.text)

theorem inputs_of_sound {e : Entry} (h : e.Sound c.tools) :
    e.inputs c = (spanInputs c.tools e.span).map printed := by
  have hnone : spanInputs c.tools [] = [] := by rw [spanInputs, completeSpans_of_none rfl]; rfl
  cases e with
  | markup span first calls =>
    obtain ⟨g, body, hspan, rfl, -, hcalls⟩ := h
    rw [Entry.span, spanInputs, completeSpans_of_isSpan hspan, List.flatMap_singleton, inputsIn,
      ← hcalls, List.map_map, List.map_map]
    rfl
  | text i t => exact (congrArg (List.map printed) hnone).symm
  | other e => exact (congrArg (List.map printed) hnone).symm

theorem callsOf_textual {is : List Input} (hi : Textual is) :
    callsOf (blocksOf (run c (is ++ [.finish]) initial).1) =
      (spanInputs c.tools (received is)).map printed := by
  have hr : Holds (textReply (String.ofList (received is))) (received is) none :=
    ⟨_, rfl, rfl, rfl, rfl, rfl⟩
  have hwhole := replyCalls_whole c (r := textReply (String.ofList (received is))) rfl
  rw [← markedCalls_marks, (streamed_marks c hi).1, ← (whole_of_holds hr c.model).1,
    markedCalls_marks, callsOf_ofReply, hwhole]
  simp [printed]

/-- **Values of parameters in markup.** A function in a span of Qwen markup becomes an input in
which a declared property has the value that coercion makes of its text, without one newline at
either end, as if a native call had passed it as a string; only texts that are misread get another.
These are the inputs of what a stream emits for a span, so with content alone for all complete spans
of it, and with those of native calls all inputs of a whole reply. -/
theorem parameters_typed :
    (∀ body, List.Forall₂ (Qwen.Takes c.tools) (Qwen.rawCalls body)
      (inputsIn c.tools (qwen, body))) ∧
    (∀ is, ∃ L, Account c is L ∧
      L.map (Entry.inputs c) = L.map fun e => (spanInputs c.tools e.span).map printed) ∧
    (∀ is, Textual is → callsOf (blocksOf (run c (is ++ [.finish]) initial).1) =
      (spanInputs c.tools (received is)).map printed) ∧
    ∀ (r : Chat.Reply) x, r.choices.head? = some x →
      replyCalls (whole c.supply c.tools c.model r).content =
        spanInputs c.tools (x.message.content.getD "").toList ++
          (x.message.toolCalls.getD []).map (nativeInput c) := by
  refine ⟨fun body => ?_, fun is => ?_, fun is hi => callsOf_textual c hi,
    fun r x => replyCalls_whole c⟩
  · have hspan : inputsIn c.tools (qwen, body) =
        (Qwen.wrapperCalls c.tools body).map (Qwen.inputOf c.tools) := rfl
    rw [hspan, Qwen.wrapperCalls_eq, List.map_map, List.forall₂_map_right_iff]
    exact List.forall₂_same.mpr fun f _ => Qwen.takes c.tools f
  · obtain ⟨L, hL⟩ := account_append c [] (account_nil c) is
    exact ⟨L, hL, List.map_congr_left fun e he => inputs_of_sound c (hL.sound e he)⟩

end

/-! ## One parameter -/

def typed (type : String) : List (String × Json.Value) := [("type", .str type)]

def oneProperty (s : Json.Value) : List Tool :=
  [⟨"f", none, .obj [("properties", .obj [("p", s)])]⟩]

def oneParameter (t : String) : String :=
  "<function=f><parameter=p>" ++ t ++ "</parameter></function>"

def inWrapper (t : String) : String := "<tool_call>" ++ oneParameter t ++ "</tool_call>"

def oneText (t : String) : List Input := [.start, .chunk (textChunk (inWrapper t))]

theorem not_misread_integer (t : List Char) :
    ¬ Qwen.Misread (.obj (typed "integer")) t := by
  rintro (⟨h, -⟩ | ⟨h, -⟩ | ⟨-, -, hs, -⟩)
  · exact absurd h (by decide)
  · exact absurd h (by decide)
  · exact hs (by simp [Tool.Single, typed, Json.Value.get?, Table.get?])

theorem parameters_typed_integer :
    let c := { bare with tools := oneProperty (.obj (typed "integer")) }
    ∃ input, inputsIn c.tools (qwen, (oneParameter "\n 3\n").toList) = [("f", input)] ∧
      input.get? "p" = some (.num (.int 3)) ∧
      Textual (oneText "\n 3\n") ∧
      callsOf (blocksOf (run c (oneText "\n 3\n" ++ [.finish]) initial).1) =
        [("f", input.text)] ∧
      replyCalls (whole c.supply c.tools c.model (textReply (inWrapper "\n 3\n"))).content =
        [("f", input)] := by
  intro c
  obtain ⟨htakes, -, hstream, hreply⟩ := parameters_typed c
  have hraw : Qwen.rawCalls (oneParameter "\n 3\n").toList = [⟨"f", [("p", "\n 3\n".toList)]⟩] := by
    decide +kernel
  have hspan := htakes (oneParameter "\n 3\n").toList
  rw [hraw] at hspan
  obtain ⟨⟨name, input⟩, l, htake, hl, hinputs⟩ := List.forall₂_cons_left_iff.mp hspan
  obtain rfl := List.forall₂_nil_left_iff.mp hl
  obtain rfl : name = "f" := htake.name
  obtain ⟨v, hv, hcoerced, -⟩ := htake.value _ "p" (.obj (typed "integer")) [] _ [] rfl rfl rfl
    (by simp [Table.keys])
  have hthree : v = .num (.int 3) := (hcoerced (not_misread_integer _)).trans (by decide +kernel)
  have hcut : Text.cutAny? openings (inWrapper "\n 3\n").toList =
      some ([], qwen.opening, (oneParameter "\n 3\n" ++ "</tool_call>").toList) := by
    decide +kernel
  have hclosing : Text.cut? (grammarOf qwen.opening).closing
      (oneParameter "\n 3\n" ++ "</tool_call>").toList =
        some ((oneParameter "\n 3\n").toList, []) := by
    decide +kernel
  have hspans : spanInputs c.tools (inWrapper "\n 3\n").toList = [("f", input)] := by
    rw [spanInputs, completeSpans_of_span hcut hclosing, completeSpans_of_none rfl,
      List.flatMap_singleton]
    exact hinputs
  have hi : Textual (oneText "\n 3\n") :=
    List.forall_mem_cons.mpr ⟨.inl rfl, List.forall_mem_singleton.mpr
      (.inr ⟨_, rfl, (contentOnly_textChunk _).plain⟩)⟩
  have hreceived : received (oneText "\n 3\n") = (inWrapper "\n 3\n").toList := by decide +kernel
  refine ⟨input, hinputs, hthree ▸ hv, hi, ?_, ?_⟩
  · rw [hstream _ hi, hreceived, hspans]
    rfl
  · rw [hreply _ _ rfl]
    simpa [textReply] using hspans

/-- A property that gets another value than coercion makes of the text, in a stream and in a whole
reply. -/
def Departs (s : Json.Value) (t : String) : Prop :=
  ∃ input v,
    replyCalls (whole bare.supply (oneProperty s) bare.model
      (textReply (inWrapper t))).content = [("f", input)] ∧
    callsOf (blocksOf (run { bare with tools := oneProperty s }
      (oneText t ++ [.finish]) initial).1) = [("f", input.text)] ∧
    input.get? "p" = some v ∧ v ≠ Tool.coerceBy s (.str t)

/-- A large whole number is rounded, white space makes a truth value false, and alternatives see a
number instead of the text. -/
theorem parameters_depart :
    Departs (.obj (typed "number")) "9007199254740993" ∧
      Departs (.obj (typed "boolean")) " true" ∧
      Departs (.obj (typed "number" ++ [("anyOf", .arr [.obj (typed "string")])])) "5" := by
  refine ⟨⟨.obj [("p", .num (.float ⟨false, 2 ^ 52, 1075⟩))], _, ?_, ?_, rfl, ?_⟩,
    ⟨.obj [("p", .bool false)], _, ?_, ?_, rfl, ?_⟩, ⟨.obj [("p", .str "5.0")], _, ?_, ?_, rfl, ?_⟩⟩
  all_goals decide +kernel

end ChatGateway.Answer.Stream
