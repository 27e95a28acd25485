import ChatGateway.Json.Print
import ChatGateway.Markup.Piece
import ChatGateway.Markup.Qwen

/-!
# Qwen markup in a growing text

A parser is shown longer and longer beginnings of a text. The arguments of a call are put together
as the text of a JSON object whose values are all strings; a value ends at its end marker, or where
the next parameter begins or the function ends.
-/

namespace ChatGateway.Markup.QwenStream

open Text Qwen

inductive Mode where
  | content
  | wrapper
  | functionName
  | function
  | parameterName
  /-- A newline in front of the value is dropped before it has `started`. -/
  | parameterValue (started : Bool)
  | functionEnd
deriving DecidableEq, Repr

/-- Where a parser is: `slot` counts the calls before the one at hand, `params` its parameters. -/
structure Progress where
  mode : Mode
  slot : Nat
  params : Nat
  wrapped : Bool
deriving DecidableEq, Repr

/-- The state of a parser. `issued` counts the fresh ids, also those before a new start. -/
structure State where
  consumed : Nat
  progress : Progress
  issued : Nat
deriving DecidableEq, Repr

def fresh : Progress := ⟨.content, 0, 0, false⟩

def start : State := ⟨0, fresh, 0⟩

def State.place (st : State) : Progress × Nat := (st.progress, st.consumed)

def valueEnds : List (List Char) := [parameterEnd, parameterBegin, Qwen.functionEnd]

/-- The key of a parameter and the beginning of its value. -/
def keyText (params : Nat) (name : List Char) : List Char :=
  (if 0 < params then [',', ' '] else []) ++ Json.quote (trim name) ++ [':', ' ', '"']

/-- Modes that hand over to another without taking any text come later. -/
def Mode.rank : Mode → Nat
  | .parameterValue _ => 1
  | .functionEnd => 1
  | _ => 0

theorem valueEnds_ne_nil : ∀ m ∈ valueEnds, m ≠ [] := by decide

def valueText (started : Bool) (s : List Char) : List Char := if started then s else dropNewline s

theorem length_dropNewline_le (s : List Char) : (dropNewline s).length ≤ s.length := by
  unfold dropNewline
  split
  · simp
  · exact Nat.le_refl _

theorem length_valueText_le (started : Bool) (s : List Char) :
    (valueText started s).length ≤ s.length := by
  rw [valueText]
  split
  · exact Nat.le_refl _
  · exact length_dropNewline_le s

/-- Where a function goes on behind a value: only the value's own end marker belongs to it. -/
def afterValue (marker after : List Char) : List Char :=
  if marker = parameterEnd then after else marker ++ after

theorem length_afterValue {s before marker after : List Char}
    (h : cutAny? valueEnds s = some (before, marker, after)) :
    (afterValue marker after).length ≤ s.length := by
  rw [← (cutAny?_append valueEnds_ne_nil h).2, afterValue]
  split
  · simp only [List.length_append]; omega
  · simp only [List.length_append]; omega

theorem length_drop_trimStart_lt {m s : List Char} (hm : m ≠ [])
    (h : m.isPrefixOf (trimStart s) = true) : ((trimStart s).drop m.length).length < s.length := by
  have h1 := (List.isPrefixOf_iff_prefix.mp h).length_le
  have h2 := length_trimStart_le s
  have h3 := List.length_pos_iff.mpr hm
  simp only [List.length_drop]
  omega

/-- Goes on as far as it is certain, and returns what is left. -/
def run (p : Progress) (s : List Char) : List Piece × Progress × List Char :=
  match _hm : p.mode with
  | .content =>
    match _h : cutAny? [wrapperBegin, functionBegin] s with
    | some (before, marker, after) =>
      let q : Progress :=
        if marker = wrapperBegin then { p with mode := .wrapper, wrapped := true }
        else { p with mode := .functionName }
      let (ps, q, rest) := run q after
      (.text before :: ps, q, rest)
    | none =>
      let (safe, held) := splitHeld [wrapperBegin, functionBegin] s
      ([.text safe], p, held)
  | .wrapper =>
    match _h : cut? functionBegin s with
    | some (_, after) => run { p with mode := .functionName } after
    | none =>
      match _h' : cut? wrapperEnd s with
      | some (_, after) => run { p with mode := .content, wrapped := false } after
      | none => ([], p, s)
  | .functionName =>
    match _h : cut? ['>'] s with
    | some (name, after) =>
      let (ps, q, rest) := run { p with mode := .function, params := 0 } after
      (.header p.slot none (String.ofList (trim name)) :: .argument p.slot ['\x7b'] :: ps, q, rest)
    | none => ([], p, s)
  | .function =>
    match _h : cutAny? [parameterBegin, Qwen.functionEnd] s with
    | some (_, marker, after) =>
      if marker = parameterBegin then run { p with mode := .parameterName } after
      else
        let (ps, q, rest) := run { p with mode := .functionEnd, slot := p.slot + 1 } after
        (.argument p.slot ['\x7d'] :: ps, q, rest)
    | none => ([], p, s)
  | .parameterName =>
    match _h : cut? ['>'] s with
    | some (name, after) =>
      let (ps, q, rest) :=
        run { p with mode := .parameterValue false, params := p.params + 1 } after
      (.argument p.slot (keyText p.params name) :: ps, q, rest)
    | none => ([], p, s)
  | .parameterValue started =>
    if !started && s.isEmpty then ([], p, s)
    else
      let t := valueText started s
      match _h : cutAny? valueEnds t with
      | some (before, marker, after) =>
        let (ps, q, rest) := run { p with mode := .function } (afterValue marker after)
        (.argument p.slot (Json.escapeText (dropLastNewline before) ++ ['"']) :: ps, q, rest)
      | none =>
        let (safe, _) := splitHeld valueEnds t
        let said := dropLastNewline safe
        (argumentPieces p.slot (Json.escapeText said), { p with mode := .parameterValue true },
          t.drop said.length)
  | .functionEnd =>
    let t := trimStart s
    if p.wrapped && wrapperEnd.isPrefixOf t then
      run { p with mode := .content, wrapped := false } (t.drop wrapperEnd.length)
    else if p.wrapped && functionBegin.isPrefixOf t then
      run { p with mode := .functionName } (t.drop functionBegin.length)
    else if p.wrapped && (t.isPrefixOf wrapperEnd || t.isPrefixOf functionBegin) then ([], p, s)
    else run { p with mode := .content, wrapped := false } s
termination_by 2 * s.length + p.mode.rank
decreasing_by
  · have h := length_cutAny? _h
    have h' : (if marker = wrapperBegin then { p with mode := .wrapper, wrapped := true }
      else { p with mode := .functionName : Progress }).mode.rank = 0 := by split <;> rfl
    simp only [dite_eq_ite, h']
    omega
  · have h := length_cut? _h
    simp only [Mode.rank]
    omega
  · have h := length_cut? _h'
    simp only [Mode.rank]
    omega
  · have h := length_cut? _h
    simp only [Mode.rank]
    omega
  · have h := length_cutAny? _h
    simp only [Mode.rank]
    omega
  · have h := length_cutAny? _h
    simp only [Mode.rank]
    omega
  · have h := length_cut? _h
    simp only [Mode.rank]
    omega
  · have h := length_afterValue _h
    have h' := Nat.le_trans h (length_valueText_le started s)
    simp only [_hm, Mode.rank]
    omega
  · next h =>
    have h' := length_drop_trimStart_lt (by decide) (Bool.and_eq_true_iff.mp h).2
    simp only [Mode.rank]
    omega
  · next h =>
    have h' := length_drop_trimStart_lt (by decide) (Bool.and_eq_true_iff.mp h).2
    simp only [Mode.rank]
    omega
  · simp only [_hm, Mode.rank]
    omega

def advance (st : State) (previous current : String) : List Piece × State :=
  let (ps, p, consumed) := proceed run fresh st.place previous current
  (ps, ⟨consumed, p, st.issued + Piece.freshIds ps⟩)

end ChatGateway.Markup.QwenStream
