import ChatGateway.Proofs.QwenSnapshots
import ChatGateway.Proofs.Spacing

/-!
# The format of Qwen markup

`spell` writes a text and calls in the format. What is written is read back, from the whole text and
from a text that grows. A value may hold what the format has around it, but for the four markers at
which it or a container of it would end.
-/

namespace ChatGateway.Json

/-! ## Objects of strings -/

def memberText (m : List Char × List Char) : List Char := quote m.1 ++ [':', ' '] ++ quote m.2

/-- The text of an object whose values are strings, with a space behind each colon and comma. -/
def objectText (ms : List (List Char × List Char)) : List Char :=
  '\x7b' :: (List.intercalate [',', ' '] (ms.map memberText) ++ ['\x7d'])

def stringMembers (ms : List (List Char × List Char)) : List (String × Value) :=
  ms.map fun (k, v) => (String.ofList k, .str (String.ofList v))

theorem tokens_memberText (m : List Char × List Char) (rest : List Char) :
    tokens (memberText m ++ rest) =
      .str (String.ofList m.1) :: .colon :: .str (String.ofList m.2) :: tokens rest := by
  have hkey := tokens_quote (String.ofList m.1) (':' :: ' ' :: (quote m.2 ++ rest))
  have hvalue := tokens_quote (String.ofList m.2) rest
  rw [String.toList_ofList] at hkey hvalue
  have htext : memberText m ++ rest = quote m.1 ++ ':' :: ' ' :: (quote m.2 ++ rest) := by
    simp [memberText]
  rw [htext, hkey, tokens_of_word? rfl rfl, tokens_of_isSpace rfl, hvalue]

theorem tokens_intercalate (ms : List (List Char × List Char)) (rest : List Char) :
    tokens (List.intercalate [',', ' '] (ms.map memberText) ++ '\x7d' :: rest) =
      Value.wordsMembers (stringMembers ms) ++ tokens rest := by
  induction ms with
  | nil => exact tokens_of_word? rfl rfl
  | cons m ms ih =>
    cases ms with
    | nil =>
      rw [List.map_singleton, List.intercalate_singleton, tokens_memberText,
        tokens_of_word? rfl rfl]
      rfl
    | cons m' ms =>
      simp only [List.map_cons] at ih ⊢
      rw [List.intercalate_cons_cons, List.append_assoc, List.append_assoc, tokens_memberText,
        List.cons_append, List.cons_append, List.nil_append, tokens_of_word? rfl rfl,
        tokens_of_isSpace rfl, ih]
      rfl

theorem legible_stringMembers (ms : List (List Char × List Char)) (n : Nat) :
    Value.MembersLegible n (stringMembers ms) := by
  induction ms with
  | nil => trivial
  | cons m ms ih => exact ⟨trivial, ih⟩

theorem canonical_stringMembers (ms : List (List Char × List Char)) :
    Value.canonicalMembers (stringMembers ms) = stringMembers ms := by
  rw [Value.canonicalMembers_eq_self_iff]
  rintro e he
  obtain ⟨m, -, rfl⟩ := List.mem_map.mp he
  rfl

theorem ofText_objectText (ms : List (List Char × List Char)) :
    Document.ofText (objectText ms) = (.ofValue (.obj (stringMembers ms)), true) := by
  have htokens : tokens (objectText ms) = (Value.obj (stringMembers ms)).words := by
    rw [objectText, tokens_of_word? rfl rfl, tokens_intercalate, tokens, List.append_nil]
    rfl
  have hlegible : (Value.obj (stringMembers ms)).Legible 1 := ⟨by simp, legible_stringMembers ms 0⟩
  have hfold := Document.foldl_words _ hlegible [] (by decide)
  rw [Document.ofText, htokens, hfold]
  rfl

theorem read_objectText (ms : List (List Char × List Char)) :
    read (objectText ms) = some (.ofMembers (stringMembers ms)) := by
  have hvalue := Document.value?_ofValue (.obj (stringMembers ms))
  rw [Value.canonical, canonical_stringMembers] at hvalue
  rw [read, ofText_objectText]
  exact hvalue

end ChatGateway.Json

namespace ChatGateway.Markup.Qwen

open Text Json

/-! ## What is written -/

/-- A name neither holds an angle nor has white space around it. -/
structure Plain (s : List Char) : Prop where
  opening : '<' ∉ s
  closing : '>' ∉ s
  trimmed : trim s = s

/-- The markers at which a value, or a container of it, ends. -/
def endMarkers : List (List Char) := [parameterEnd, parameterBegin, functionEnd, wrapperEnd]

structure Parameter where
  name : List Char
  value : List Char
  plain : Plain name
  free : ∀ m ∈ endMarkers, ¬ m <:+: value

/-- A call as it is written: a name and parameters of different names. -/
structure Written where
  name : List Char
  parameters : List Parameter
  plain : Plain name
  distinct : (parameters.map (·.name)).Nodup

namespace Parameter

variable (a : Parameter)

def inside : List Char := a.name ++ ['>', '\n'] ++ a.value ++ ['\n']

def text : List Char := parameterBegin ++ a.inside ++ parameterEnd ++ ['\n']

end Parameter

namespace Written

variable (w : Written)

def inside : List Char := w.name ++ ['>', '\n'] ++ w.parameters.flatMap Parameter.text

def wrapped : List Char := ['\n'] ++ functionBegin ++ w.inside ++ functionEnd ++ ['\n']

def text : List Char := wrapperBegin ++ w.wrapped ++ wrapperEnd

def fields : List (List Char × List Char) := w.parameters.map fun a => (a.name, a.value)

/-- The members of the call's arguments: the texts, and null for the word. -/
def members : List (String × Value) := w.fields.map fun (k, v) =>
  (String.ofList k,
    if sameIgnoringCase v "null".toList then .null else .str (String.ofList v))

def call : Call := ⟨none, String.ofList w.name, .ofMembers w.members⟩

end Written

def spell (p : List Char) (ws : List Written) : List Char := p ++ ws.flatMap Written.text

/-- The value is an object that has these members and no other. -/
def Maps (v : Value) (ms : List (String × Value)) : Prop :=
  v.isObject = true ∧ ∀ k x, v.get? k = some x ↔ (k, x) ∈ ms

theorem maps_ofMembers {ms : List (String × Value)} (h : (Table.keys ms).Nodup) :
    Maps (.ofMembers ms) ms := by
  refine ⟨rfl, fun k x => ?_⟩
  rw [Value.ofMembers, Value.get?, Table.get?_ofEntries h]
  exact ⟨Table.mem_of_get?, Table.get?_of_mem h⟩

theorem Written.nodup_keys (w : Written) (f : List Char × List Char → Value) :
    (Table.keys (w.fields.map fun m => (String.ofList m.1, f m))).Nodup := by
  have hkeys : Table.keys (w.fields.map fun m => (String.ofList m.1, f m)) =
      (w.parameters.map (·.name)).map String.ofList := by
    simp [Table.keys, fields, Function.comp_def]
  rw [hkeys]
  exact w.distinct.map fun s t h => String.ofList_inj.mp h

/-! ## Markers -/

def formatMarkers : List (List Char) :=
  [wrapperBegin, wrapperEnd, functionBegin, functionEnd, parameterBegin, parameterEnd]

theorem angled_formatMarkers : Angled formatMarkers := ⟨by decide, by decide, by decide⟩

theorem newline_not_mem {m : List Char} (h : m ∈ formatMarkers) : '\n' ∉ m := by
  have hall : ∀ m ∈ formatMarkers, '\n' ∉ m := by decide
  exact hall m h

theorem head_formatMarkers {m : List Char} (h : m ∈ formatMarkers) : m.head? = some '<' :=
  angled_formatMarkers.head m h

theorem mem_formatMarkers {m : List Char} (h : m ∈ endMarkers) : m ∈ formatMarkers := by
  have hall : ∀ m ∈ endMarkers, m ∈ formatMarkers := by decide
  exact hall m h

section
variable {m : List Char}

theorem clear_newline (hm : m ∈ formatMarkers) : ∀ u, Clear m ['\n'] u :=
  clear_of_free (head_formatMarkers hm) (by decide)

theorem Parameter.clear_value (a : Parameter) (hm : m ∈ endMarkers) (u : List Char) :
    Clear m (a.value ++ ['\n']) u := by
  have hf := mem_formatMarkers hm
  exact clear_append.mpr ⟨(whole_of_not_mem (newline_not_mem hf) _ _).clear (a.free m hm),
    clear_newline hf u⟩

theorem Parameter.clear_inside (a : Parameter) (hm : m ∈ endMarkers) (u : List Char) :
    Clear m a.inside u := by
  have hname : '<' ∉ a.name ++ ['>', '\n'] := by simp [a.plain.opening]
  rw [inside, List.append_assoc]
  exact clear_append.mpr ⟨clear_of_free (head_formatMarkers (mem_formatMarkers hm)) hname _,
    a.clear_value hm u⟩

theorem Parameter.clear_text (a : Parameter) (hm : m = functionEnd ∨ m = wrapperEnd)
    (u : List Char) : Clear m a.text u := by
  have he : m ∈ endMarkers := by rcases hm with rfl | rfl <;> simp [endMarkers]
  have hf := mem_formatMarkers he
  have hbegin : m ≠ parameterBegin := by rcases hm with rfl | rfl <;> decide
  have hend : m ≠ parameterEnd := by rcases hm with rfl | rfl <;> decide
  rw [text, clear_append, clear_append, clear_append]
  exact ⟨⟨⟨angled_formatMarkers.clear_other hf (by simp [formatMarkers]) hbegin _,
    a.clear_inside he _⟩, angled_formatMarkers.clear_other hf (by simp [formatMarkers]) hend _⟩,
    clear_newline hf u⟩

theorem Written.clear_inside (w : Written) (hm : m = functionEnd ∨ m = wrapperEnd)
    (u : List Char) : Clear m w.inside u := by
  have hhead : m.head? = some '<' := by rcases hm with rfl | rfl <;> rfl
  have hname : '<' ∉ w.name ++ ['>', '\n'] := by simp [w.plain.opening]
  rw [inside, clear_append]
  refine ⟨clear_of_free hhead hname _, ?_⟩
  induction w.parameters with
  | nil => exact clear_nil m u
  | cons a as ih =>
    rw [List.flatMap_cons]
    exact clear_append.mpr ⟨a.clear_text hm _, ih⟩

end

theorem Written.clear_wrapped (w : Written) (u : List Char) : Clear wrapperEnd w.wrapped u := by
  have hother : ∀ m ∈ [functionBegin, functionEnd], ∀ v, Clear wrapperEnd m v := by
    intro m hm v
    refine angled_formatMarkers.clear_other (by simp [formatMarkers]) ?_ ?_ v
    all_goals
      rcases List.mem_pair.mp hm with rfl | rfl <;> decide
  have hnewline := clear_newline (m := wrapperEnd) (by simp [formatMarkers])
  rw [wrapped, clear_append, clear_append, clear_append, clear_append]
  exact ⟨⟨⟨⟨hnewline _, hother _ (by simp) _⟩, w.clear_inside (.inr rfl) _⟩, hother _ (by simp) _⟩,
    hnewline u⟩

/-! ## Spans -/

theorem spans_of_none {opening closing s : List Char} (h : cut? opening s = none) :
    spans opening closing s = ([], none) := by
  rw [spans]
  split
  · rfl
  · next h' => rw [h] at h'; cases h'

theorem spans_of_some {opening closing s b i body a : List Char}
    (h : cut? opening s = some (b, i)) (h' : cut? closing i = some (body, a)) :
    spans opening closing s =
      (body :: (spans opening closing a).1, (spans opening closing a).2) := by
  rw [spans]
  split
  · next hn => rw [h] at hn; cases hn
  · next hs =>
    obtain ⟨rfl, rfl⟩ := Prod.mk.inj (Option.some.inj (h.symm.trans hs))
    split
    · next hn => rw [h'] at hn; cases hn
    · next hs' =>
      obtain ⟨rfl, rfl⟩ := Prod.mk.inj (Option.some.inj (h'.symm.trans hs'))
      rfl

theorem spans_closed {opening closing t body u : List Char} (ho : opening ≠ []) (hc : closing ≠ [])
    (ht : Clear opening t (opening ++ (body ++ (closing ++ u))))
    (hbody : Clear closing body (closing ++ u)) :
    spans opening closing (t ++ (opening ++ (body ++ (closing ++ u)))) =
      (body :: (spans opening closing u).1, (spans opening closing u).2) := by
  refine spans_of_some (b := t) (i := body ++ (closing ++ u)) ?_ ?_
  · exact (cut?_eq_some_iff ho).mpr ⟨by simp, ht⟩
  · exact (cut?_eq_some_iff hc).mpr ⟨by simp, hbody⟩

/-! ## The whole text -/

section
variable (a : Parameter)

theorem Parameter.cut?_inside :
    Text.cut? ['>'] a.inside = some (a.name, '\n' :: (a.value ++ ['\n'])) := by
  have htext : a.inside = a.name ++ '>' :: '\n' :: (a.value ++ ['\n']) := by
    simp [Parameter.inside]
  rw [htext]
  exact cut?_character a.plain.closing

theorem trimNewlines_value (v : List Char) : trimNewlines ('\n' :: (v ++ ['\n'])) = v := by
  simp [trimNewlines, dropNewline, dropLastNewline]

theorem spans_parameters (as : List Parameter) :
    spans parameterBegin parameterEnd (['\n'] ++ as.flatMap Parameter.text) =
      (as.map Parameter.inside, none) := by
  induction as with
  | nil => exact spans_of_none (by decide)
  | cons a as ih =>
    have hopening := clear_newline (m := parameterBegin) (by simp [formatMarkers])
    have hclosing := a.clear_inside (m := parameterEnd) (by simp [endMarkers])
    have hclosed := spans_closed (by decide) (by decide) (hopening _)
      (hclosing (parameterEnd ++ (['\n'] ++ as.flatMap Parameter.text)))
    have htext : ['\n'] ++ (a :: as).flatMap Parameter.text = ['\n'] ++ (parameterBegin ++
        (a.inside ++ (parameterEnd ++ (['\n'] ++ as.flatMap Parameter.text)))) := by
      simp [Parameter.text]
    rw [htext, hclosed, ih]
    rfl

theorem parameters_texts (as : List Parameter) :
    parameters (['\n'] ++ as.flatMap Parameter.text) = as.map fun a => (a.name, a.value) := by
  rw [parameters, openSpans, spans_parameters]
  simp [List.filterMap_map, Parameter.cut?_inside, trimNewlines_value]

end

section
variable (w : Written)

theorem functions_wrapped : functions w.wrapped = [w.inside] := by
  have hopening := clear_newline (m := functionBegin) (by simp [formatMarkers])
  have hclosing := w.clear_inside (m := functionEnd) (.inl rfl)
  have hclosed := spans_closed (by decide) (by decide) (hopening _)
    (hclosing (functionEnd ++ ['\n']))
  have hnone : spans functionBegin functionEnd ['\n'] = ([], none) := spans_of_none (by decide)
  have htext : w.wrapped =
      ['\n'] ++ (functionBegin ++ (w.inside ++ (functionEnd ++ ['\n']))) := by
    simp [Written.wrapped]
  have hblank : blank w.inside = false := by
    have hmark : isBlank '>' = false := rfl
    simp [blank, Written.inside, hmark]
  rw [functions, openSpans, htext, hclosed, hnone]
  simp [hblank]

theorem Written.cut?_inside : Text.cut? ['>'] w.inside =
    some (w.name, ['\n'] ++ w.parameters.flatMap Parameter.text) := by
  have htext : w.inside = w.name ++ '>' :: (['\n'] ++ w.parameters.flatMap Parameter.text) := by
    simp [inside]
  rw [htext]
  exact cut?_character w.plain.closing

theorem callOf_inside : callOf [] w.inside = some w.call := by
  rw [callOf, w.cut?_inside, Option.map_some]
  dsimp only
  rw [parameters_texts, w.plain.trimmed]
  rfl

theorem wrapperCalls_wrapped : wrapperCalls [] w.wrapped = [w.call] := by
  rw [wrapperCalls, functions_wrapped, List.filterMap_cons, callOf_inside]
  rfl

theorem text_append (u : List Char) :
    w.text ++ u = wrapperBegin ++ (w.wrapped ++ (wrapperEnd ++ u)) := by simp [Written.text]

theorem clear_front {t : List Char} (ht : ¬ wrapperBegin <:+: t) (u : List Char) :
    Clear wrapperBegin t (wrapperBegin ++ u) :=
  (angled_formatMarkers.whole_of_head (by simp [formatMarkers]) (.inr rfl) t).clear ht

theorem spans_wrapper {t : List Char} (ht : ¬ wrapperBegin <:+: t) (u : List Char) :
    spans wrapperBegin wrapperEnd (t ++ (w.text ++ u)) =
      (w.wrapped :: (spans wrapperBegin wrapperEnd u).1, (spans wrapperBegin wrapperEnd u).2) := by
  rw [text_append]
  exact spans_closed (by decide) (by decide) (clear_front ht _) (w.clear_wrapped _)

end

theorem spans_texts (ws : List Written) :
    spans wrapperBegin wrapperEnd (ws.flatMap Written.text) = (ws.map Written.wrapped, none) := by
  induction ws with
  | nil => exact spans_of_none rfl
  | cons w ws ih =>
    have hspan := spans_wrapper w (t := []) (by decide) (ws.flatMap Written.text)
    rw [List.nil_append, ih] at hspan
    exact hspan

theorem extract_spell {p : List Char} (hp : ¬ wrapperBegin <:+: p) {ws : List Written}
    (hws : ws ≠ []) : extract [] (String.ofList (spell p ws)) =
      ⟨if p.isEmpty then none else some (String.ofList p), ws.map Written.call⟩ := by
  obtain ⟨w, ws, rfl⟩ := List.exists_cons_of_ne_nil hws
  have hspans := spans_wrapper w hp (ws.flatMap Written.text)
  have hcalls : (wrappers (spell p (w :: ws))).flatMap (wrapperCalls []) =
      (w :: ws).map Written.call := by
    rw [wrappers, spell, List.flatMap_cons, hspans, spans_texts]
    simp [wrapperCalls_wrapped, List.flatMap_map, ← List.map_eq_flatMap]
  have hcut : cut? wrapperBegin (spell p (w :: ws)) =
      some (p, w.wrapped ++ (wrapperEnd ++ ws.flatMap Written.text)) := by
    rw [spell, List.flatMap_cons, text_append]
    exact (cut?_eq_some_iff (by decide)).mpr ⟨by simp, clear_front hp _⟩
  rw [extract, String.toList_ofList, hcalls, hcut]
  rfl

end ChatGateway.Markup.Qwen

namespace ChatGateway.Markup.QwenStream

open Text Qwen

/-! ## The places that a run comes to -/

theorem wrapperEnd_append_ne (a b : List Char) : wrapperEnd ++ a ≠ functionBegin ++ b := by
  intro h
  have hp : functionBegin <+: wrapperEnd ++ a := ⟨b, h.symm⟩
  exact absurd (angled_behind.eq_of_prefix (by simp) (by simp) (List.prefix_append _ a) hp)
    (by decide)

theorem Step.unique {p q q' : Progress} {s t t' : List Char} {ps ps' : List Piece}
    (h : Step p s ps q t) (h' : Step p s ps' q' t') : q = q' ∧ t = t' := by
  -- where two markers can be next, neither is the beginning of the other
  have hbegins : wrapperBegin ≠ functionBegin := by decide
  have hmarks : Qwen.functionEnd ≠ parameterBegin := by decide
  have hbehind := fun a b => (wrapperEnd_append_ne a b).symm
  cases h <;> cases h' <;>
    simp_all [hbegins.symm, hmarks.symm, wrapperEnd_append_ne]

theorem orderly_of_step {p q : Progress} {s t : List Char} {ps : List Piece} (h : Step p s ps q t)
    (hhere : p.mode = .wrapper → ¬ Overtaken s) (ho : Orderly q t) : Orderly p s := by
  intro r u hv hr
  cases hv with
  | here => exact hhere hr
  | there h' hv =>
    obtain ⟨rfl, rfl⟩ := h.unique h'
    exact ho r u hv hr

/-- Steps from a place in a text to a later place. -/
inductive Way : Progress → List Char → List Piece → Progress → List Char → Prop where
  | nil (p : Progress) (s : List Char) : Way p s [] p s
  | cons {p q r : Progress} {s t u : List Char} {ps qs : List Piece} (h : Step p s ps q t)
    (ho : p.mode = .wrapper → ¬ Overtaken s) (hw : Way q t qs r u) : Way p s (ps ++ qs) r u

theorem Way.trans {p q r : Progress} {s t u : List Char} {ps qs : List Piece}
    (h : Way p s ps q t) (h' : Way q t qs r u) : Way p s (ps ++ qs) r u := by
  induction h with
  | nil p s => exact h'
  | cons h ho _ ih =>
    rw [List.append_assoc]
    exact .cons h ho (ih h')

theorem Way.run_eq {p q : Progress} {s t : List Char} {ps : List Piece} (h : Way p s ps q t) :
    run p s = (ps ++ (run q t).1, (run q t).2) := by
  induction h with
  | nil p s => rfl
  | cons h _ _ ih => rw [run_of_step h, ih, List.append_assoc]

theorem Way.orderly {p q : Progress} {s t : List Char} {ps : List Piece} (h : Way p s ps q t)
    (ho : Orderly q t) : Orderly p s := by
  induction h with
  | nil p s => exact ho
  | cons h hhere _ ih => exact orderly_of_step h hhere (ih ho)

/-! ## Calls that are written -/

def parameterPieces (n k : Nat) (a : Parameter) : List Piece :=
  [.argument n (keyText k a.name), .argument n (Json.escapeText a.value ++ ['"'])]

section
variable (n k : Nat) (b : Bool)

theorem step_key (a : Parameter) (u : List Char) :
    Step ⟨.parameterName, n, k, b⟩ (a.inside ++ u) [.argument n (keyText k a.name)]
      ⟨.parameterValue false, n, k + 1, b⟩ ('\n' :: (a.value ++ ['\n'] ++ u)) :=
  .key (cut?_append_right (by simp) a.cut?_inside u)

theorem step_value (a : Parameter) (u : List Char) :
    Step ⟨.parameterValue false, n, k, b⟩ ('\n' :: (a.value ++ ['\n'] ++ (parameterEnd ++ u)))
      [.argument n (Json.escapeText a.value ++ ['"'])] ⟨.function, n, k, b⟩ u := by
  have hcut : cutAny? valueEnds
      (valueText false ('\n' :: (a.value ++ ['\n'] ++ (parameterEnd ++ u)))) =
        some (a.value ++ ['\n'], parameterEnd, u) := by
    have hends : ∀ m ∈ valueEnds, m ∈ endMarkers := by decide
    refine angled_valueEnds.cutAny?_eq_some_iff.mpr ⟨by simp [valueEnds], ?_, fun m hm => ?_⟩
    · simp [valueText, dropNewline]
    · exact a.clear_value (hends m hm) _
  have hvalue : dropLastNewline (a.value ++ ['\n']) = a.value := by simp [dropLastNewline]
  have hstep := Step.value (n := n) (k := k) (w := b) hcut
  rwa [hvalue, afterValue, if_pos rfl] at hstep

theorem way_parameter (a : Parameter) (u : List Char) :
    Way ⟨.function, n, k, b⟩ (['\n'] ++ (a.text ++ u)) (parameterPieces n k a)
      ⟨.function, n, k + 1, b⟩ (['\n'] ++ u) := by
  have hbegin : Step ⟨.function, n, k, b⟩ (['\n'] ++ (a.text ++ u)) [] ⟨.parameterName, n, k, b⟩
      (a.inside ++ (parameterEnd ++ (['\n'] ++ u))) := by
    refine .parameter (b := ['\n']) (angled_function.cutAny?_eq_some_iff.mpr ⟨by simp, ?_, ?_⟩)
    · simp [Parameter.text]
    · exact fun m hm => clear_of_free (angled_function.head m hm) (by decide) _
  exact .cons hbegin (by simp) (.cons (step_key n k b a _) (by simp)
    (.cons (step_value n (k + 1) b a _) (by simp) (.nil _ _)))

def parametersPieces (n : Nat) : Nat → List Parameter → List Piece
  | _, [] => []
  | k, a :: as => parameterPieces n k a ++ parametersPieces n (k + 1) as

theorem way_parameters (as : List Parameter) (u : List Char) :
    Way ⟨.function, n, k, b⟩ (['\n'] ++ (as.flatMap Parameter.text ++ u)) (parametersPieces n k as)
      ⟨.function, n, k + as.length, b⟩ (['\n'] ++ u) := by
  induction as generalizing k with
  | nil => exact .nil _ _
  | cons a as ih =>
    have hrest := (way_parameter n k b a (as.flatMap Parameter.text ++ u)).trans (ih (k + 1))
    rw [List.flatMap_cons, List.append_assoc, List.length_cons, Nat.add_comm as.length 1,
      ← Nat.add_assoc]
    exact hrest

def callPieces (n : Nat) (w : Written) : List Piece :=
  .header n none (String.ofList w.name) :: .argument n ['\x7b'] ::
    (parametersPieces n 0 w.parameters ++ [.argument n ['\x7d']])

theorem not_overtaken (s : List Char) : ¬ Overtaken (['\n'] ++ (functionBegin ++ s)) := by
  rintro ⟨c, a, he, hc, -⟩
  -- the function would begin behind the end of the wrapper, but only a newline stands in front
  have hclear : Clear functionBegin (c ++ wrapperEnd) a := clear_append.mpr
    ⟨(angled_behind.whole_of_head (by simp) (.inr rfl) c).clear hc,
      angled_behind.clear_other (by simp) (by simp) (by decide) a⟩
  rw [← List.append_assoc] at he
  have hlength := (hclear.prefix_of_occurrence he.symm).length_le
  rw [List.length_append, List.length_singleton] at hlength
  have : wrapperEnd.length = 12 := rfl
  omega

theorem way_call (w : Written) {p : List Char}
    (hp : ∀ m ∈ [wrapperBegin, functionBegin], ¬ m <:+: p) (u : List Char) :
    Way ⟨.content, n, k, b⟩ (p ++ (w.text ++ u)) (.text p :: callPieces n w)
      ⟨.content, n + 1, w.parameters.length, false⟩ u := by
  have hwrapper : Step ⟨.content, n, k, b⟩ (p ++ (w.text ++ u)) [.text p] ⟨.wrapper, n, k, true⟩
      (['\n'] ++ (functionBegin ++
        (w.inside ++ (Qwen.functionEnd ++ (['\n'] ++ (wrapperEnd ++ u)))))) := by
    refine .wrapper (angled_begins.cutAny?_eq_some_iff.mpr ⟨by simp, ?_, fun m hm => ?_⟩)
    · simp [Written.text, Written.wrapped]
    · exact (angled_begins.whole_of_head hm (.inr rfl) p).clear (hp m hm)
  have hfunction : Step ⟨.wrapper, n, k, true⟩ (['\n'] ++ (functionBegin ++
        (w.inside ++ (Qwen.functionEnd ++ (['\n'] ++ (wrapperEnd ++ u)))))) []
      ⟨.functionName, n, k, true⟩
      (w.inside ++ (Qwen.functionEnd ++ (['\n'] ++ (wrapperEnd ++ u)))) :=
    .wrappedFunction ((cut?_eq_some_iff (by decide)).mpr
      ⟨(List.append_assoc _ _ _).symm, clear_of_free rfl (by decide) _⟩)
  have hname : Step ⟨.functionName, n, k, true⟩
      (w.inside ++ (Qwen.functionEnd ++ (['\n'] ++ (wrapperEnd ++ u))))
      [.header n none (String.ofList w.name), .argument n ['\x7b']] ⟨.function, n, 0, true⟩
      (['\n'] ++ (w.parameters.flatMap Parameter.text ++
        (Qwen.functionEnd ++ (['\n'] ++ (wrapperEnd ++ u))))) := by
    have hcut := cut?_append_right (by simp) w.cut?_inside
      (Qwen.functionEnd ++ (['\n'] ++ (wrapperEnd ++ u)))
    have hstep := Step.name (n := n) (k := k) (w := true) hcut
    rwa [w.plain.trimmed, List.append_assoc] at hstep
  have hclose : Step ⟨.function, n, 0 + w.parameters.length, true⟩
      (['\n'] ++ (Qwen.functionEnd ++ (['\n'] ++ (wrapperEnd ++ u)))) [.argument n ['\x7d']]
      ⟨.functionEnd, n + 1, 0 + w.parameters.length, true⟩ (['\n'] ++ (wrapperEnd ++ u)) := by
    refine .close (b := ['\n']) (angled_function.cutAny?_eq_some_iff.mpr ⟨by simp, by simp, ?_⟩)
    exact fun m hm => clear_of_free (angled_function.head m hm) (by decide) _
  have hleave : Step ⟨.functionEnd, n + 1, 0 + w.parameters.length, true⟩
      (['\n'] ++ (wrapperEnd ++ u)) [] ⟨.content, n + 1, 0 + w.parameters.length, false⟩ u :=
    .leave rfl
  have hway := (Way.cons hwrapper (by simp) (.cons hfunction (fun _ => not_overtaken _)
    (.cons hname (by simp) (way_parameters n 0 true w.parameters _)))).trans
      (.cons hclose (by simp) (.cons hleave (by simp) (.nil _ _)))
  rw [Nat.zero_add] at hway
  simpa [callPieces] using hway

end

/-! ## The text of arguments -/

theorem keyText_plain {s : List Char} (h : Plain s) (k : Nat) (v : List Char) :
    keyText k s ++ (Json.escapeText v ++ ['"']) =
      (if 0 < k then [',', ' '] else []) ++ Json.memberText (s, v) := by
  simp [keyText, h.trimmed, Json.memberText, Json.quote]

theorem marks_parameterPieces (n k : Nat) (a : Parameter) :
    Piece.marks (parameterPieces n k a) =
      ((if 0 < k then [',', ' '] else []) ++ Json.memberText (a.name, a.value)).map
        (.argument n) := by
  rw [← keyText_plain a.plain]
  simp [parameterPieces, Piece.marks]

theorem marks_later (n k : Nat) (as : List Parameter) :
    Piece.marks (parametersPieces n (k + 1) as) =
      (as.flatMap fun a => [',', ' '] ++ Json.memberText (a.name, a.value)).map (.argument n) := by
  induction as generalizing k with
  | nil => rfl
  | cons a as ih =>
    rw [parametersPieces, Piece.marks_append, marks_parameterPieces, ih, if_pos (Nat.succ_pos k),
      List.flatMap_cons, ← List.map_append]

theorem intercalate_cons (sep s : List Char) (ss : List (List Char)) :
    sep.intercalate (s :: ss) = s ++ ss.flatMap (sep ++ ·) := by
  induction ss generalizing s with
  | nil => simp
  | cons t ss ih => rw [List.intercalate_cons_cons, ih, List.flatMap_cons]; simp

theorem marks_parametersPieces (n : Nat) (as : List Parameter) :
    Piece.marks (parametersPieces n 0 as) =
      (List.intercalate [',', ' '] (as.map fun a => Json.memberText (a.name, a.value))).map
        (.argument n) := by
  cases as with
  | nil => rfl
  | cons a as =>
    rw [parametersPieces, Piece.marks_append, marks_parameterPieces, marks_later,
      if_neg (Nat.lt_irrefl 0), List.nil_append, List.map_cons, intercalate_cons, List.flatMap_map,
      ← List.map_append]

theorem marks_callPieces (n : Nat) (w : Written) :
    Piece.marks (callPieces n w) = .header n none (String.ofList w.name) ::
      (Json.objectText w.fields).map (.argument n) := by
  have hfields : w.fields.map Json.memberText =
      w.parameters.map fun a => Json.memberText (a.name, a.value) := by
    simp [Written.fields]
  simp only [callPieces, Piece.marks, Piece.marks_append, marks_parametersPieces, ← hfields]
  simp [Json.objectText]

theorem content_parametersPieces (n k : Nat) (as : List Parameter) :
    Piece.content (parametersPieces n k as) = [] := by
  induction as generalizing k with
  | nil => rfl
  | cons a as ih => rw [parametersPieces, Piece.content_append, ih]; rfl

theorem content_callPieces (n : Nat) (w : Written) : Piece.content (callPieces n w) = [] := by
  simp [callPieces, Piece.content, Piece.content_append, content_parametersPieces]

/-! ## What is read back -/

def received (supply : Supply) (n : Nat) (w : Written) : Received :=
  ⟨n, some (supply n), String.ofList w.name, Json.objectText w.fields⟩

def callsMarks : Nat → List Written → List Mark
  | _, [] => []
  | n, w :: ws => Piece.marks (callPieces n w) ++ callsMarks (n + 1) ws

theorem calls_callsMarks (supply : Supply) (n : Nat) (ws : List Written) :
    Mark.calls supply n (callsMarks n ws) = ws.mapIdx fun i w => received supply (n + i) w := by
  have hmarks : callsMarks n ws = Mark.ofCalls (fun w => String.ofList w.name)
      (fun w => Json.objectText w.fields) n ws := by
    induction ws generalizing n with
    | nil => rfl
    | cons w ws ih =>
      rw [callsMarks, marks_callPieces, ih]
      rfl
  rw [hmarks, Mark.calls_ofCalls]
  rfl

section
variable (n k : Nat) (b : Bool)

theorem pause_end : Pause ⟨.content, n, k, b⟩ [] [.text []] ⟨.content, n, k, b⟩ [] := .content rfl

theorem run_call (w : Written) {p : List Char}
    (hp : ∀ m ∈ [wrapperBegin, functionBegin], ¬ m <:+: p) (u : List Char) :
    run ⟨.content, n, k, b⟩ (p ++ (w.text ++ u)) =
      (.text p :: (callPieces n w ++ (run ⟨.content, n + 1, w.parameters.length, false⟩ u).1),
        (run ⟨.content, n + 1, w.parameters.length, false⟩ u).2) :=
  (way_call n k b w hp u).run_eq

theorem absent_nil : ∀ m ∈ [wrapperBegin, functionBegin], ¬ m <:+: [] := by decide

theorem run_texts (ws : List Written) :
    marksFrom ⟨.content, n, k, b⟩ (ws.flatMap Written.text) = callsMarks n ws ∧
      Piece.content (run ⟨.content, n, k, b⟩ (ws.flatMap Written.text)).1 = [] ∧
      Orderly ⟨.content, n, k, b⟩ (ws.flatMap Written.text) := by
  induction ws generalizing n k b with
  | nil =>
    rw [List.flatMap_nil, marksFrom_of_pause (pause_end n k b), run_of_pause (pause_end n k b)]
    refine ⟨rfl, rfl, fun q t hv hq => ?_⟩
    cases hv with
    | here => exact absurd hq (by simp)
    | there h hv => cases h <;> simp_all [cutAny?]
  | cons w ws ih =>
    obtain ⟨hmarks, hcontent, horderly⟩ := ih (n + 1) w.parameters.length false
    have hrun := run_call n k b w absent_nil (ws.flatMap Written.text)
    have hway := way_call n k b w absent_nil (ws.flatMap Written.text)
    rw [List.nil_append] at hrun hway
    rw [List.flatMap_cons, marksFrom, hrun]
    refine ⟨?_, ?_, hway.orderly horderly⟩
    · rw [Piece.marks, Piece.marks_append, callsMarks, ← hmarks]
      rfl
    · rw [Piece.content, Piece.content_append, content_callPieces, hcontent]
      rfl

theorem run_spell {p : List Char} (hp : ∀ m ∈ [wrapperBegin, functionBegin], ¬ m <:+: p)
    {ws : List Written} (hws : ws ≠ []) :
    marksFrom ⟨.content, n, k, b⟩ (spell p ws) = callsMarks n ws ∧
      Piece.content (run ⟨.content, n, k, b⟩ (spell p ws)).1 = p ∧
      Orderly ⟨.content, n, k, b⟩ (spell p ws) := by
  obtain ⟨w, ws, rfl⟩ := List.exists_cons_of_ne_nil hws
  obtain ⟨hmarks, hcontent, horderly⟩ := run_texts (n + 1) w.parameters.length false ws
  rw [spell, List.flatMap_cons, marksFrom, run_call n k b w hp]
  refine ⟨?_, ?_, (way_call n k b w hp _).orderly horderly⟩
  · rw [Piece.marks, Piece.marks_append, callsMarks, ← hmarks]
    rfl
  · rw [Piece.content, Piece.content_append, content_callPieces, hcontent, List.append_nil,
      List.append_nil]

end

/-- **Qwen markup is read back.** A text in which no call begins and the calls that are written
behind it are extracted from the whole, each value as it is written or null for the word, and sent
on in whatever parts the whole is shown: the content is the text, and the calls are numbered in their
order, with the text of an object that maps each parameter to its value as a string. -/
theorem wrapped_calls_decoded (supply : Supply) (p : List Char) (ws : List Written)
    (hp : ∀ m ∈ [wrapperBegin, functionBegin], ¬ m <:+: p) (hws : ws ≠ []) :
    Qwen.extract [] (String.ofList (spell p ws)) =
        ⟨if p.isEmpty then none else some (String.ofList p), ws.map Written.call⟩ ∧
      (∀ w ∈ ws, Maps w.call.arguments w.members) ∧
      (∀ xs, String.join xs = String.ofList (spell p ws) →
        contentIn (parser.feed supply start "" xs) = p ∧
          Numbered 0 (fragmentsIn (parser.feed supply start "" xs)) ∧
          callsIn (fragmentsIn (parser.feed supply start "" xs)) = ws.mapIdx (received supply)) ∧
      ∀ w ∈ ws, ∃ v, Json.read (Json.objectText w.fields) = some v ∧
        Maps v (Json.stringMembers w.fields) := by
  refine ⟨extract_spell (hp _ (by simp)) hws, fun w _ => maps_ofMembers (w.nodup_keys _),
    fun xs hxs => ?_, fun w _ => ⟨_, Json.read_objectText _, maps_ofMembers (w.nodup_keys _)⟩⟩
  have htext : (String.join xs).toList = spell p ws := by rw [hxs, String.toList_ofList]
  obtain ⟨hmarks, hcontent, horderly⟩ := run_spell 0 0 false hp hws
  rw [← htext] at hmarks hcontent horderly
  refine ⟨(contentIn_shown supply horderly).trans hcontent, numbered_feed supply xs, ?_⟩
  have hcalls := calls_callsMarks supply 0 ws
  simp only [Nat.zero_add] at hcalls
  rw [callsIn_shown, ← hcalls, ← hmarks]
  rfl

/-- A call whose values hold a marker, a part of one, quotes, and nothing but a newline. -/
def search : Written where
  name := "search".toList
  parameters :=
    [⟨"query".toList, "say \"<tool_call>\" </param".toList, ⟨by decide, by decide, by decide⟩,
        by decide +kernel⟩,
      ⟨"since".toList, "Null".toList, ⟨by decide, by decide, by decide⟩, by decide +kernel⟩,
      ⟨"break".toList, "\n".toList, ⟨by decide, by decide, by decide⟩, by decide +kernel⟩]
  plain := ⟨by decide, by decide, by decide⟩
  distinct := by decide

theorem wrapped_calls_decoded_search :
    let xs := ["so <tool_", "call>\n<function=search>\n<parameter=query>\nsay \"<tool_call>\" </pa",
      "ram\n</parameter>\n<parameter=since>\nNull\n</parameter>\n<parameter=break>\n",
      "\n\n</param", "eter>\n</function>\n</tool_call>"]
    (∀ m ∈ [wrapperBegin, functionBegin], ¬ m <:+: "so ".toList) ∧ [search] ≠ [] ∧
      String.join xs = String.ofList (spell "so ".toList [search]) ∧
      Qwen.extract [] (String.join xs) = ⟨some "so ", [⟨none, "search", .obj [("break", .str "\n"),
        ("query", .str "say \"<tool_call>\" </param"), ("since", .null)]⟩]⟩ ∧
      contentIn (parser.feed (fun _ => "call") start "" xs) = "so ".toList ∧
      callsIn (fragmentsIn (parser.feed (fun _ => "call") start "" xs)) = [⟨0, some "call", "search",
        ("\x7b\"query\": \"say \\\"<tool_call>\\\" </param\", \"since\": \"Null\", " ++
          "\"break\": \"\\n\"\x7d").toList⟩] := by
  intro xs
  have hp : ∀ m ∈ [wrapperBegin, functionBegin], ¬ m <:+: "so ".toList := by decide +kernel
  have hws : [search] ≠ [] := by simp
  have hxs : String.join xs = String.ofList (spell "so ".toList [search]) := by decide +kernel
  obtain ⟨hwhole, -, hparts, -⟩ := wrapped_calls_decoded (fun _ => "call") _ [search] hp hws
  obtain ⟨hcontent, -, hcalls⟩ := hparts xs hxs
  refine ⟨hp, hws, hxs, ?_, hcontent, hcalls.trans (by decide +kernel)⟩
  rw [hxs, hwhole]
  decide +kernel

end ChatGateway.Markup.QwenStream
