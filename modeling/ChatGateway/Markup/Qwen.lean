import ChatGateway.Markup.Call
import ChatGateway.Text.Blank
import ChatGateway.Text.Marker
import ChatGateway.Tool.Coercion

/-!
# Qwen markup

A wrapper holds functions, a function its name and its parameters, a parameter its name and the text
of its value. The tool's schema says what the value is to be.
-/

namespace ChatGateway.Markup.Qwen

open Text Json

def wrapperBegin : List Char := "<tool_call>".toList

def wrapperEnd : List Char := "</tool_call>".toList

def functionBegin : List Char := "<function=".toList

def functionEnd : List Char := "</function>".toList

def parameterBegin : List Char := "<parameter=".toList

def parameterEnd : List Char := "</parameter>".toList

def dropNewline : List Char → List Char
  | '\n' :: s => s
  | s => s

def dropLastNewline (s : List Char) : List Char := if s.getLast? = some '\n' then s.dropLast else s

def trimNewlines (s : List Char) : List Char := dropLastNewline (dropNewline s)

/-- The parts that markers enclose; the last need not be closed. -/
def openSpans (opening closing s : List Char) : List (List Char) :=
  let (bodies, rest) := spans opening closing s
  bodies ++ rest.toList

/-- The insides of the wrappers; a single wrapper need not be closed. -/
def wrappers (s : List Char) : List (List Char) :=
  match spans wrapperBegin wrapperEnd s with
  | ([], rest) => rest.toList
  | (bodies, _) => bodies

def functions (wrapper : List Char) : List (List Char) :=
  (openSpans functionBegin functionEnd wrapper).filter fun body => !blank body

def convertText (type : String) (s : List Char) : Option Value :=
  if type = "number" then (Number.readBinary64 (trim s)).map fun x => .num (.float x)
  else if type = "integer" then (Number.readInt64 (trim s)).map fun i => .num (.int i)
  else if type = "boolean" then some (.bool (sameIgnoringCase s "true".toList))
  else some (.str (String.ofList s))

def declaredType (schema : Option Value) : String :=
  match schema.bind (·.get? "type") with
  | some (.str t) => t
  | _ => "string"

/-- A parameter's value; a text that does not fit stays a string. -/
def parameterValue (schema : Option Value) (s : List Char) : Value :=
  if sameIgnoringCase s "null".toList then .null
  else (convertText (declaredType schema) s).getD (.str (String.ofList s))

def parameters (s : List Char) : List (List Char × List Char) :=
  (openSpans parameterBegin parameterEnd s).filterMap fun body =>
    (cut? ['>'] body).map fun (name, text) => (name, trimNewlines text)

def propertySchema (tools : List Messages.Tool) (name param : String) : Option Value :=
  (Tool.findSchema tools name).bind fun s => (s.get? "properties").bind (·.get? param)

/-- The call that a function spells; without the end of a name there is none. -/
def callOf (tools : List Messages.Tool) (body : List Char) : Option Call :=
  (cut? ['>'] body).map fun (name, params) =>
    let name := String.ofList (trim name)
    let members := (parameters params).map fun (param, text) =>
      let param := String.ofList param
      (param, parameterValue (propertySchema tools name param) text)
    ⟨none, name, .ofMembers members⟩

def wrapperCalls (tools : List Messages.Tool) (wrapper : List Char) : List Call :=
  (functions wrapper).filterMap (callOf tools)

def extract (tools : List Messages.Tool) (text : String) : Extracted :=
  let s := text.toList
  let cs := (wrappers s).flatMap (wrapperCalls tools)
  if cs.isEmpty then ⟨some text, []⟩
  else
    let leading :=
      match cut? wrapperBegin s, cut? functionBegin s with
      | some (before, _), _ => before
      | none, some (before, _) => before
      | none, none => []
    ⟨if leading.isEmpty then none else some (String.ofList leading), cs⟩

end ChatGateway.Markup.Qwen
