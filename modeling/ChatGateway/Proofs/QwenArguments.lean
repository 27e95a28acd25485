import ChatGateway.Proofs.QwenFormat

/-!
# The arguments that a growing text spells

`scripts` reads the calls of a text: their names, the parameters that have ended, each with the
whole of its text, and how far a call goes that has not ended. What a parser sends on for a call is
the text of an object with these members, whole or broken off before its end.
-/

namespace ChatGateway.Markup.QwenStream

open Text Qwen

/-! ## Calls as a text spells them -/

abbrev Field := List Char × List Char

/-- How far the text of a call goes behind the parameters that have ended. -/
inductive Ending where
  /-- The function ends in front of a text. -/
  | closed (rest : List Char)
  /-- No further parameter has a name. -/
  | between
  /-- A parameter has a name, and a part of its value is certain. -/
  | inside (name part : List Char)
deriving DecidableEq, Repr

/-- What stands behind the name of a function. -/
def parametersOf (s : List Char) : List Field × Ending :=
  match _h : cutAny? [parameterBegin, Qwen.functionEnd] s with
  | none => ([], .between)
  | some (_, marker, a) =>
    if marker = Qwen.functionEnd then ([], .closed a)
    else
      match _h' : cut? ['>'] a with
      | none => ([], .between)
      | some (name, v) =>
        match _h'' : cutAny? valueEnds v with
        | none => ([], .inside (trim name) (certain (dropNewline v)))
        | some (raw, m, rest) =>
          let p := parametersOf (afterValue m rest)
          ((trim name, trimNewlines raw) :: p.1, p.2)
termination_by s.length
decreasing_by
  exact Nat.lt_of_le_of_lt (length_afterValue _h'')
    (Nat.lt_trans (length_cut? _h') (length_cutAny? _h))

/-- The cases without the evidence that what is left gets shorter. -/
theorem parametersOf_eq (s : List Char) :
    parametersOf s =
      match cutAny? [parameterBegin, Qwen.functionEnd] s with
      | none => ([], .between)
      | some (_, marker, a) =>
        if marker = Qwen.functionEnd then ([], .closed a)
        else
          match cut? ['>'] a with
          | none => ([], .between)
          | some (name, v) =>
            match cutAny? valueEnds v with
            | none => ([], .inside (trim name) (certain (dropNewline v)))
            | some (raw, m, rest) =>
              let p := parametersOf (afterValue m rest)
              ((trim name, trimNewlines raw) :: p.1, p.2) := by
  rw [parametersOf]
  split <;> rename_i h <;> rw [h]
  dsimp only
  split
  · rfl
  split <;> rename_i h' <;> rw [h']
  dsimp only
  split <;> rename_i h'' <;> rw [h'']

section
variable {s b a name v : List Char}

theorem parametersOf_of_none (h : cutAny? [parameterBegin, Qwen.functionEnd] s = none) :
    parametersOf s = ([], .between) := by
  rw [parametersOf_eq, h]

theorem parametersOf_of_end
    (h : cutAny? [parameterBegin, Qwen.functionEnd] s = some (b, Qwen.functionEnd, a)) :
    parametersOf s = ([], .closed a) := by
  rw [parametersOf_eq, h]
  exact if_pos rfl

section
variable (h : cutAny? [parameterBegin, Qwen.functionEnd] s = some (b, parameterBegin, a))
include h

theorem parametersOf_of_unnamed (hn : cut? ['>'] a = none) :
    parametersOf s = ([], .between) := by
  rw [parametersOf_eq, h]
  dsimp only
  rw [if_neg (by decide), hn]

theorem parametersOf_of_open (hn : cut? ['>'] a = some (name, v))
    (hv : cutAny? valueEnds v = none) :
    parametersOf s = ([], .inside (trim name) (certain (dropNewline v))) := by
  rw [parametersOf_eq, h]
  dsimp only
  rw [if_neg (by decide), hn]
  dsimp only
  rw [hv]

theorem parametersOf_of_value {raw m rest : List Char} (hn : cut? ['>'] a = some (name, v))
    (hv : cutAny? valueEnds v = some (raw, m, rest)) :
    parametersOf s = ((trim name, trimNewlines raw) :: (parametersOf (afterValue m rest)).1,
      (parametersOf (afterValue m rest)).2) := by
  rw [parametersOf_eq, h]
  dsimp only
  rw [if_neg (by decide), hn]
  dsimp only
  rw [hv]

end

end

theorem parameters_induction {P : List Char → Prop}
    (between : ∀ s, cutAny? [parameterBegin, Qwen.functionEnd] s = none → P s)
    (closed : ∀ s b a,
      cutAny? [parameterBegin, Qwen.functionEnd] s = some (b, Qwen.functionEnd, a) → P s)
    (unnamed : ∀ s b a,
      cutAny? [parameterBegin, Qwen.functionEnd] s = some (b, parameterBegin, a) →
      cut? ['>'] a = none → P s)
    (inside : ∀ s b a name v,
      cutAny? [parameterBegin, Qwen.functionEnd] s = some (b, parameterBegin, a) →
      cut? ['>'] a = some (name, v) → cutAny? valueEnds v = none → P s)
    (value : ∀ s b a name v raw m rest,
      cutAny? [parameterBegin, Qwen.functionEnd] s = some (b, parameterBegin, a) →
      cut? ['>'] a = some (name, v) → cutAny? valueEnds v = some (raw, m, rest) →
      P (afterValue m rest) → P s) (s : List Char) : P s := by
  induction h : s.length using Nat.strongRecOn generalizing s with
  | _ n ih =>
    cases hs : cutAny? [parameterBegin, Qwen.functionEnd] s with
    | none => exact between s hs
    | some p =>
      obtain ⟨b, marker, a⟩ := p
      have hmem := (angled_function.cutAny?_eq_some_iff.mp hs).1
      rcases List.mem_pair.mp hmem with rfl | rfl
      · cases hn : cut? ['>'] a with
        | none => exact unnamed s b a hs hn
        | some q =>
          obtain ⟨name, v⟩ := q
          cases hv : cutAny? valueEnds v with
          | none => exact inside s b a name v hs hn hv
          | some r =>
            obtain ⟨raw, m, rest⟩ := r
            have hlt := Nat.lt_of_le_of_lt (length_afterValue hv)
              (Nat.lt_trans (length_cut? hn) (length_cutAny? hs))
            exact value s b a name v raw m rest hs hn hv (ih _ (h ▸ hlt) _ rfl)
      · exact closed s b a hs

theorem length_of_closed {s rest : List Char} (h : (parametersOf s).2 = .closed rest) :
    rest.length < s.length := by
  induction s using parameters_induction with
  | between s hs => rw [parametersOf_of_none hs] at h; cases h
  | closed s b a hs =>
    rw [parametersOf_of_end hs] at h
    cases h
    exact length_cutAny? hs
  | unnamed s b a hs hn => rw [parametersOf_of_unnamed hs hn] at h; cases h
  | inside s b a name v hs hn hv => rw [parametersOf_of_open hs hn hv] at h; cases h
  | value s b a name v raw m rest' hs hn hv ih =>
    rw [parametersOf_of_value hs hn hv] at h
    exact Nat.lt_of_lt_of_le (ih h) (Nat.le_trans (length_afterValue hv)
      (Nat.le_trans (Nat.le_of_lt (length_cut? hn)) (Nat.le_of_lt (length_cutAny? hs))))

/-- A call as far as a text spells it. -/
structure Script where
  name : List Char
  fields : List Field
  ending : Ending
deriving DecidableEq, Repr

/-- The calls of a text. Behind one that has not ended there is no other. -/
def scripts (s : List Char) : List Script :=
  match _h : functionText s with
  | none => []
  | some a =>
    match _h' : cut? ['>'] a with
    | none => []
    | some (name, b) =>
      ⟨trim name, (parametersOf b).1, (parametersOf b).2⟩ ::
        match _h'' : (parametersOf b).2 with
        | .closed rest => scripts rest
        | _ => []
termination_by s.length
decreasing_by
  exact Nat.lt_trans (length_of_closed _h'')
    (Nat.lt_trans (length_cut? _h') (length_functionText _h))

theorem scripts_eq (s : List Char) :
    scripts s =
      match functionText s with
      | none => []
      | some a =>
        match cut? ['>'] a with
        | none => []
        | some (name, b) =>
          ⟨trim name, (parametersOf b).1, (parametersOf b).2⟩ ::
            match (parametersOf b).2 with
            | .closed rest => scripts rest
            | _ => [] := by
  rw [scripts]
  split <;> rename_i h <;> rw [h]
  dsimp only
  split <;> rename_i h' <;> rw [h']
  refine congrArg _ ?_
  split <;> simp_all

section
variable {s a name b : List Char}

theorem scripts_of_none (h : functionText s = none) : scripts s = [] := by
  rw [scripts_eq, h]

theorem scripts_of_unnamed (h : functionText s = some a) (hn : cut? ['>'] a = none) :
    scripts s = [] := by
  rw [scripts_eq, h]
  dsimp only
  rw [hn]

section
variable (h : functionText s = some a) (hn : cut? ['>'] a = some (name, b))
include h hn

theorem scripts_of_closed {rest : List Char} (hb : (parametersOf b).2 = .closed rest) :
    scripts s = ⟨trim name, (parametersOf b).1, .closed rest⟩ :: scripts rest := by
  rw [scripts_eq, h]
  dsimp only
  rw [hn]
  dsimp only
  rw [hb]

theorem scripts_of_open (hb : ∀ rest, (parametersOf b).2 ≠ .closed rest) :
    scripts s = [⟨trim name, (parametersOf b).1, (parametersOf b).2⟩] := by
  rw [scripts_eq, h]
  dsimp only
  rw [hn]
  dsimp only
  split
  · next rest hr => exact absurd hr (hb rest)
  · rfl

end

end

theorem scripts_induction {P : List Char → Prop} (none : ∀ s, functionText s = none → P s)
    (unnamed : ∀ s a, functionText s = some a → cut? ['>'] a = Option.none → P s)
    (closed : ∀ s a name b rest, functionText s = some a → cut? ['>'] a = some (name, b) →
      (parametersOf b).2 = .closed rest → P rest → P s)
    (opened : ∀ s a name b, functionText s = some a → cut? ['>'] a = some (name, b) →
      (∀ rest, (parametersOf b).2 ≠ .closed rest) → P s) (s : List Char) : P s := by
  induction h : s.length using Nat.strongRecOn generalizing s with
  | _ n ih =>
    cases hs : functionText s with
    | none => exact none s hs
    | some a =>
      cases hn : cut? ['>'] a with
      | none => exact unnamed s a hs hn
      | some q =>
        obtain ⟨name, b⟩ := q
        by_cases hb : ∃ rest, (parametersOf b).2 = .closed rest
        · obtain ⟨rest, hb⟩ := hb
          have hlt := Nat.lt_trans (length_of_closed hb)
            (Nat.lt_trans (length_cut? hn) (length_functionText hs))
          exact closed s a name b rest hs hn hb (ih _ (h ▸ hlt) _ rfl)
        · exact opened s a name b hs hn fun rest hr => hb ⟨rest, hr⟩

/-! ## The text of arguments -/

def separator (later : Bool) : List Char := if later then [',', ' '] else []

/-- The members of an object as far as they are spelled, with its end if it has ended. -/
def goesOn : Bool → List Field → Ending → List Char
  | _, [], .closed _ => ['\x7d']
  | _, [], .between => []
  | later, [], .inside name part =>
    separator later ++ Json.quote name ++ [':', ' ', '"'] ++ Json.escapeText part
  | later, f :: fs, e => separator later ++ Json.memberText f ++ goesOn true fs e

def Script.arguments (c : Script) : List Char := '\x7b' :: goesOn false c.fields c.ending

theorem goesOn_closed (fs : List Field) (rest : List Char) :
    goesOn true fs (.closed rest) =
      fs.flatMap (fun f => [',', ' '] ++ Json.memberText f) ++ ['\x7d'] := by
  induction fs with
  | nil => rfl
  | cons f fs ih =>
    rw [goesOn, ih, List.flatMap_cons, ← List.append_assoc]
    rfl

theorem arguments_of_closed {c : Script} {rest : List Char} (h : c.ending = .closed rest) :
    c.arguments = Json.objectText c.fields := by
  rw [Script.arguments, h, Json.objectText]
  cases c.fields with
  | nil => rfl
  | cons f fs =>
    rw [goesOn, goesOn_closed, List.map_cons, intercalate_cons, List.flatMap_map,
      List.append_assoc, List.append_assoc]
    rfl

theorem objectText_eq (ms : List Field) :
    Json.objectText ms = '\x7b' :: goesOn false ms (.closed []) :=
  (arguments_of_closed (c := ⟨[], ms, .closed []⟩) rfl).symm

/-- The parameters with which a call may go on. -/
def Ending.Continues : Ending → List Field → Prop
  | .closed _, more => more = []
  | .between, _ => True
  | .inside name part, more => ∃ v later, more = (name, part ++ v) :: later

theorem goesOn_append {e : Ending} (he : ∀ rest, e ≠ .closed rest) {more : List Field}
    (h : e.Continues more) (later : Bool) (fs : List Field) (end' : List Char) :
    ∃ t, t ≠ [] ∧ goesOn later (fs ++ more) (.closed end') = goesOn later fs e ++ t := by
  induction fs generalizing later with
  | nil =>
    cases e with
    | closed rest => exact absurd rfl (he rest)
    | between =>
      refine ⟨_, ?_, rfl⟩
      cases more <;> simp [goesOn, Json.memberText]
    | inside name part =>
      obtain ⟨v, fs, rfl⟩ := h
      refine ⟨Json.escapeText v ++ ['"'] ++ goesOn true fs (.closed end'), by simp, ?_⟩
      simp [goesOn, Json.memberText, Json.quote, escapeText_append]
  | cons f fs ih =>
    obtain ⟨t, ht, htext⟩ := ih true
    refine ⟨t, ht, ?_⟩
    rw [List.cons_append, goesOn, htext, goesOn, ← List.append_assoc]

theorem arguments_of_open {c : Script} (h : ∀ rest, c.ending ≠ .closed rest) {more : List Field}
    (hmore : c.ending.Continues more) :
    ∃ t, t ≠ [] ∧ Json.objectText (c.fields ++ more) = c.arguments ++ t := by
  obtain ⟨t, ht, htext⟩ := goesOn_append h hmore false c.fields []
  exact ⟨t, ht, by rw [objectText_eq, htext]; rfl⟩

/-! ## What a parser says of a text -/

theorem keyText_trim (k : Nat) (name : List Char) :
    keyText k name = separator (decide (0 < k)) ++ Json.quote (trim name) ++ [':', ' ', '"'] := by
  by_cases hk : 0 < k <;> simp [keyText, separator, hk]

theorem dropNewline_of_ne {t : List Char} (h : ∀ u, t ≠ '\n' :: u) : dropNewline t = t := by
  unfold dropNewline
  split
  · exact absurd rfl (h _)
  · rfl

theorem cutAny?_valueText (v : List Char) :
    cutAny? valueEnds (valueText false v) =
      (cutAny? valueEnds v).map fun (raw, m, rest) => (dropNewline raw, m, rest) := by
  rw [valueText, if_neg Bool.false_ne_true]
  by_cases hv : ∃ t, v = '\n' :: t
  · obtain ⟨t, rfl⟩ := hv
    rw [cutAny?_newline, Option.map_map]
    exact Option.map_id'.symm
  · rw [not_exists] at hv
    rw [dropNewline_of_ne hv]
    cases h : cutAny? valueEnds v with
    | none => rfl
    | some p =>
      obtain ⟨raw, m, rest⟩ := p
      have hraw : ∀ u, raw ≠ '\n' :: u := by
        rintro u rfl
        exact hv _ (cutAny?_append valueEnds_ne_nil h).2.symm
      simp only [Option.map_some, dropNewline_of_ne hraw]

theorem marksFrom_functionName (n k k' : Nat) (w : Bool) (s : List Char) :
    marksFrom ⟨.functionName, n, k, w⟩ s = marksFrom ⟨.functionName, n, k', w⟩ s := by
  cases h : cut? ['>'] s with
  | none => rw [marksFrom_of_pause (.name h), marksFrom_of_pause (.name h)]
  | some p => rw [marksFrom_of_step (.name h), marksFrom_of_step (.name h)]

theorem marksBehind_params (n k k' : Nat) (w : Bool) (s : List Char) :
    marksBehind n k w s = marksBehind n k' w s := by
  unfold marksBehind
  cases functionText s with
  | none => rfl
  | some a => exact marksFrom_functionName n k k' w a

def Ending.marks (n : Nat) (w : Bool) : Ending → List Mark
  | .closed rest => marksBehind n 0 w rest
  | _ => []

theorem marksFrom_function (n k : Nat) (w : Bool) (s : List Char) :
    marksFrom ⟨.function, n, k, w⟩ s =
      (goesOn (decide (0 < k)) (parametersOf s).1 (parametersOf s).2).map (.argument n) ++
        (parametersOf s).2.marks (n + 1) w := by
  induction s using parameters_induction generalizing k with
  | between s hs =>
    rw [parametersOf_of_none hs, marksFrom_of_pause (.function hs)]
    rfl
  | closed s b a hs =>
    rw [parametersOf_of_end hs, marksFrom_of_step (.close hs), marksFrom_eq_behind rfl w,
      marksBehind_params _ _ 0]
    rfl
  | unnamed s b a hs hn =>
    rw [parametersOf_of_unnamed hs hn, marksFrom_of_step (.parameter hs),
      marksFrom_of_pause (.key hn)]
    rfl
  | inside s b a name v hs hn hv =>
    have hcut := cutAny?_valueText v
    rw [hv] at hcut
    have hvalue : marksFrom ⟨.parameterValue false, n, k + 1, w⟩ v =
        (Json.escapeText (certain (dropNewline v))).map (.argument n) := by
      by_cases hnil : v = []
      · subst hnil
        rw [marksFrom_of_pause .unstarted]
        rfl
      · rw [marksFrom_of_pause (.value (fun _ => hnil) hcut),
          Piece.marks_argumentPieces]
        rfl
    rw [parametersOf_of_open hs hn hv, marksFrom_of_step (.parameter hs),
      marksFrom_of_step (.key hn), hvalue, keyText_trim]
    simp [Piece.marks, goesOn, Ending.marks]
  | value s b a name v raw m rest hs hn hv ih =>
    have hcut := cutAny?_valueText v
    rw [hv] at hcut
    rw [parametersOf_of_value hs hn hv, marksFrom_of_step (.parameter hs),
      marksFrom_of_step (.key hn), marksFrom_of_step (.value hcut), ih, keyText_trim]
    simp [Piece.marks, goesOn, trimNewlines, Json.memberText, Json.quote]

theorem marksBehind_scripts (n k : Nat) (w : Bool) (s : List Char) :
    marksBehind n k w s =
      Mark.ofCalls (fun c => String.ofList c.name) Script.arguments n (scripts s) := by
  induction s using scripts_induction generalizing n k with
  | none s hs => rw [scripts_of_none hs, marksBehind, hs]; rfl
  | unnamed s a hs hn =>
    rw [scripts_of_unnamed hs hn, marksBehind, hs, Option.elim_some, marksFrom_of_pause (.name hn)]
    rfl
  | closed s a name b rest hs hn hb ih =>
    rw [scripts_of_closed hs hn hb, marksBehind, hs, Option.elim_some, marksFrom_of_step (.name hn),
      marksFrom_function, hb, Ending.marks, ih]
    simp [Piece.marks, Mark.ofCalls, Script.arguments]
  | opened s a name b hs hn hb =>
    have hmarks : (parametersOf b).2.marks (n + 1) w = [] := by
      cases he : (parametersOf b).2 with
      | closed rest => exact absurd he (hb rest)
      | _ => rfl
    rw [scripts_of_open hs hn hb, marksBehind, hs, Option.elim_some, marksFrom_of_step (.name hn),
      marksFrom_function, hmarks]
    simp [Piece.marks, Mark.ofCalls, Script.arguments]

theorem calls_feed (supply : Supply) (xs : List String) :
    callsIn (fragmentsIn (parser.feed supply start "" xs)) =
      (scripts (String.join xs).toList).mapIdx fun i c =>
        ⟨i, some (supply i), String.ofList c.name, c.arguments⟩ := by
  have hmarks : marksFrom fresh (String.join xs).toList =
      Mark.ofCalls (fun c => String.ofList c.name) Script.arguments 0
        (scripts (String.join xs).toList) := by
    rw [marksFrom_eq_behind rfl false]
    exact marksBehind_scripts 0 0 false _
  have hcalls := Mark.calls_ofCalls (fun c => String.ofList c.name) Script.arguments supply 0
    (scripts (String.join xs).toList)
  simp only [Nat.zero_add] at hcalls
  rw [callsIn_shown, hmarks, hcalls]

/-! ## Well-formed arguments -/

theorem quote_append_inj {s s' x x' : List Char}
    (h : Json.quote s ++ x = Json.quote s' ++ x') : s = s' ∧ x = x' := by
  have hbody : Json.escapeText s ++ '"' :: x = Json.escapeText s' ++ '"' :: x' := by
    simpa [Json.quote] using h
  have hs := Json.stringBody?_escapeText s x
  rw [hbody, Json.stringBody?_escapeText] at hs
  simpa [eq_comm] using hs

theorem memberText_append_inj {f f' : Field} {x x' : List Char}
    (h : Json.memberText f ++ x = Json.memberText f' ++ x') : f = f' ∧ x = x' := by
  simp only [Json.memberText, List.append_assoc] at h
  obtain ⟨hkey, h⟩ := quote_append_inj h
  obtain ⟨hvalue, h⟩ := quote_append_inj (List.append_cancel_left h)
  exact ⟨Prod.ext hkey hvalue, h⟩

theorem goesOn_closed_append {later : Bool} {fs fs' : List Field} {r r' t : List Char}
    (h : goesOn later fs (.closed r) ++ t = goesOn later fs' (.closed r')) : t = [] := by
  induction fs generalizing later fs' with
  | nil =>
    cases fs' with
    | nil => simpa [goesOn] using h
    | cons f' fs' => cases later <;> simp [goesOn, separator, Json.memberText, Json.quote] at h
  | cons f fs ih =>
    cases fs' with
    | nil => cases later <;> simp [goesOn, separator, Json.memberText, Json.quote] at h
    | cons f' fs' =>
      simp only [goesOn, List.append_assoc] at h
      exact ih (memberText_append_inj (List.append_cancel_left h)).2

theorem exists_continues (e : Ending) : ∃ more, e.Continues more := by
  cases e with
  | closed rest => exact ⟨[], rfl⟩
  | between => exact ⟨[], trivial⟩
  | inside name part => exact ⟨_, [], [], rfl⟩

/-- An object of strings as it is read, with all of its members in their order. -/
def stringDocument (ms : List Field) : Json.Document :=
  .obj (ms.map fun (k, v) => (some (String.ofList k), .str (String.ofList v)))

theorem ofText_objectText (ms : List Field) :
    Json.Document.ofText (Json.objectText ms) = (stringDocument ms, true) := by
  have hmembers : Json.Document.ofMembers (Json.stringMembers ms) =
      ms.map fun (k, v) => (some (String.ofList k), .str (String.ofList v)) := by
    induction ms with
    | nil => rfl
    | cons m ms ih => rw [List.map_cons, ← ih]; rfl
  rw [Json.ofText_objectText, stringDocument, ← hmembers]
  rfl

/-- What is sent on for a call: once the function has ended the text of an object of its parameters,
and before a beginning, but not the whole, of every such text that goes on from them. -/
structure Script.Sends (c : Script) (said : List Char) : Prop where
  ended : (∃ rest, c.ending = .closed rest) ↔ ∃ ms, said = Json.objectText ms
  whole : ∀ rest, c.ending = .closed rest → said = Json.objectText c.fields ∧
    Json.Document.ofText said = (stringDocument c.fields, true)
  broken : (∀ rest, c.ending ≠ .closed rest) → ∀ more, c.ending.Continues more →
    ∃ t, t ≠ [] ∧ Json.objectText (c.fields ++ more) = said ++ t

theorem Script.sends (c : Script) : c.Sends c.arguments where
  ended := by
    refine ⟨fun ⟨rest, h⟩ => ⟨_, arguments_of_closed h⟩, fun ⟨ms, hms⟩ => ?_⟩
    by_contra hopen
    obtain ⟨more, hmore⟩ := exists_continues c.ending
    obtain ⟨t, ht, htext⟩ := arguments_of_open (fun rest h => hopen ⟨rest, h⟩) hmore
    rw [hms, objectText_eq, objectText_eq, List.cons_append] at htext
    exact ht (goesOn_closed_append (List.cons.inj htext).2.symm)
  whole rest h := by
    rw [arguments_of_closed h]
    exact ⟨rfl, ofText_objectText _⟩
  broken h _ hmore := arguments_of_open h hmore

theorem closed_of_mem_dropLast (s : List Char) :
    ∀ c ∈ (scripts s).dropLast, ∃ rest, c.ending = .closed rest := by
  induction s using scripts_induction with
  | none s hs => rw [scripts_of_none hs]; simp
  | unnamed s a hs hn => rw [scripts_of_unnamed hs hn]; simp
  | closed s a name b rest hs hn hb ih =>
    rw [scripts_of_closed hs hn hb]
    cases hrest : scripts rest with
    | nil => simp
    | cons c cs =>
      rw [hrest] at ih
      rw [List.dropLast_cons_of_ne_nil (List.cons_ne_nil c cs)]
      exact List.forall_mem_cons.mpr ⟨⟨rest, rfl⟩, ih⟩
  | opened s a name b hs hn hb => rw [scripts_of_open hs hn hb]; simp

/-- **Arguments of streamed calls.** However a text is cut, a parser sends on the calls that the
text spells, for each call that has ended the text of an object that maps the names of its
parameters, in their order, to the texts of their values, and for a call that has not ended a
beginning of such a text. Only the last call has not ended. -/
theorem streamed_arguments (supply : Supply) (xs : List String) :
    callsIn (fragmentsIn (parser.feed supply start "" xs)) =
        ((scripts (String.join xs).toList).mapIdx fun i c =>
          ⟨i, some (supply i), String.ofList c.name, c.arguments⟩) ∧
      (∀ c : Script, c.Sends c.arguments) ∧
      ∀ c ∈ (scripts (String.join xs).toList).dropLast, ∃ rest, c.ending = .closed rest :=
  ⟨calls_feed supply xs, Script.sends, closed_of_mem_dropLast _⟩

theorem streamed_arguments_twoCalls :
    let xs := ["<function=f>\n<parameter= a\"\\ >\n\n\t\"é\n</para", "meter><parameter=b>x",
      "<parameter=c></function><function=g><parameter=d>\ny\n"]
    let f : Script := ⟨['f'], [("a\"\\".toList, "\n\t\"é".toList), (['b'], ['x']), (['c'], [])],
      .closed "<function=g><parameter=d>\ny\n".toList⟩
    scripts (String.join xs).toList = [f, ⟨['g'], [], .inside ['d'] ['y']⟩] ∧
      callsIn (fragmentsIn (parser.feed (fun _ => "call") start "" xs)) =
        [⟨0, some "call", "f", ("\x7b\"a\\\"\\\\\": \"\\n\\t\\\"é\", \"b\": \"x\", " ++
            "\"c\": \"\"\x7d").toList⟩,
          ⟨1, some "call", "g", "\x7b\"d\": \"y".toList⟩] ∧
      (∃ rest, f.ending = .closed rest) ∧
      Json.Document.ofText f.arguments = (stringDocument f.fields, true) ∧
      ∃ t, t ≠ [] ∧ Json.objectText [(['d'], "yes".toList)] = "\x7b\"d\": \"y".toList ++ t := by
  intro xs f
  obtain ⟨hcalls, hsends, hlast⟩ := streamed_arguments (fun _ => "call") xs
  have hscripts : scripts (String.join xs).toList = [f, ⟨['g'], [], .inside ['d'] ['y']⟩] := by
    decide +kernel
  have hopen := (hsends ⟨['g'], [], .inside ['d'] ['y']⟩).broken (by simp) _ ⟨['e', 's'], [], rfl⟩
  rw [hscripts] at hcalls hlast
  exact ⟨hscripts, hcalls.trans (by decide +kernel), hlast f (by simp),
    ((hsends f).whole _ rfl).2, hopen⟩

end ChatGateway.Markup.QwenStream
