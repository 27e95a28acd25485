import ChatGateway.Json.Document
import ChatGateway.Markup.Call
import ChatGateway.Text.Blank
import ChatGateway.Text.Marker
import ChatGateway.Text.Word

/-!
# Kimi markup

Calls stand in a section. Each has a header, `functions.name:index`, and the text of its arguments,
and markers around both. What stands before the first point of the header is dropped; the index
makes the id.
-/

namespace ChatGateway.Markup.Kimi

open Text

def sectionBegin : List Char := "<|tool_calls_section_begin|>".toList

def sectionEnd : List Char := "<|tool_calls_section_end|>".toList

def callBegin : List Char := "<|tool_call_begin|>".toList

def argumentBegin : List Char := "<|tool_call_argument_begin|>".toList

def callEnd : List Char := "<|tool_call_end|>".toList

def cutLast? (c : Char) (s : List Char) : Option (List Char × List Char) :=
  (cut? [c] s.reverse).map fun (after, before) => (before.reverse, after.reverse)

def parseHeader (header : List Char) : List Char × List Char :=
  match cutLast? ':' header with
  | none => (header, header)
  | some (name, index) =>
    match cut? ['.'] name with
    | some (_, name) => (name, index)
    | none => (name, index)

def callId (index : List Char) : String := String.ofList ("call_".toList ++ index)

def isNameChar (c : Char) : Bool := isWord c || c == '.' || c == '-'

/-- A header at the beginning of a text, and the rest: a name, a colon and digits. -/
def takeHeader (s : List Char) : Option (List Char × List Char) :=
  let name := s.takeWhile isNameChar
  match s.dropWhile isNameChar with
  | ':' :: rest =>
    let index := rest.takeWhile isDigit
    if name.isEmpty || index.isEmpty then none
    else some (name ++ ':' :: index, rest.dropWhile isDigit)
  | _ => none

def takeArguments (s : List Char) : Option (List Char × List Char) :=
  if argumentBegin.isPrefixOf s then
    (cut? callEnd (s.drop argumentBegin.length)).map fun (arguments, rest) => (trim arguments, rest)
  else none

def takeCall (s : List Char) : Option (List Char × List Char × List Char) :=
  match takeHeader (trimStart s) with
  | none => none
  | some (header, s) =>
    (takeArguments (trimStart s)).map fun (arguments, rest) => (header, arguments, rest)

theorem length_takeHeader {s header rest : List Char} (h : takeHeader s = some (header, rest)) :
    rest.length ≤ s.length := by
  simp only [takeHeader] at h
  split at h
  · next rest' he =>
    have h1 := length_dropWhile_le isNameChar s
    rw [he, List.length_cons] at h1
    split at h
    · exact absurd h (by simp)
    · obtain ⟨-, rfl⟩ := Prod.mk.inj (Option.some.inj h)
      have h2 := length_dropWhile_le isDigit rest'
      omega
  · exact absurd h (by simp)

theorem length_takeArguments {s arguments rest : List Char}
    (h : takeArguments s = some (arguments, rest)) : rest.length < s.length := by
  rw [takeArguments] at h
  split at h
  · obtain ⟨⟨a, r⟩, hc, he⟩ := Option.map_eq_some_iff.mp h
    obtain ⟨-, rfl⟩ := Prod.mk.inj he
    have := length_cut? hc
    simp only [List.length_drop] at this
    omega
  · exact absurd h (by simp)

theorem length_takeCall {s header arguments rest : List Char}
    (h : takeCall s = some (header, arguments, rest)) : rest.length ≤ s.length := by
  rw [takeCall] at h
  split at h
  · exact absurd h (by simp)
  · next hd s' hh =>
    obtain ⟨⟨a, r⟩, ha, he⟩ := Option.map_eq_some_iff.mp h
    obtain ⟨-, -, rfl⟩ := by simpa using he
    have h1 := length_takeHeader hh
    have h2 := length_takeArguments ha
    have h3 := length_dropWhile_le isBlank s
    have h4 := length_dropWhile_le isBlank s'
    simp only [trimStart] at *
    omega

def rawCalls (s : List Char) : List (List Char × List Char) :=
  match _h : cut? callBegin s with
  | none => []
  | some (_, after) =>
    match _h' : takeCall after with
    | none => rawCalls after
    | some (header, arguments, rest) => (header, arguments) :: rawCalls rest
termination_by s.length
decreasing_by
  · exact length_cut? _h
  · exact Nat.lt_of_le_of_lt (length_takeCall _h') (length_cut? _h)

/-- A call; arguments that are not JSON are a string. -/
def callOf (header arguments : List Char) : Call :=
  let (name, index) := parseHeader header
  ⟨some (callId index), String.ofList name,
    (Json.read arguments).getD (.str (String.ofList arguments))⟩

def calls (s : List Char) : List Call := (rawCalls s).map fun (h, a) => callOf h a

def extract (text : String) : Extracted :=
  let s := text.toList
  match cut? sectionBegin s with
  | none => ⟨some text, []⟩
  | some (before, _) =>
    let cs := calls s
    if cs.isEmpty then ⟨some text, []⟩
    else
      let leading := trim before
      ⟨if leading.isEmpty then none else some (String.ofList leading), cs⟩

/-- The calls inside a section, none if the arguments of one are not an object. -/
def sectionCalls (body : List Char) : List Call :=
  let cs := calls body
  if cs.all fun c => c.arguments.isObject then cs else []

end ChatGateway.Markup.Kimi
