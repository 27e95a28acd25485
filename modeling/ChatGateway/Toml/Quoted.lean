import ChatGateway.Json.Token

/-!
# Quoted text in configuration files

Text stands between quotes, in which a backslash escapes, or between apostrophes, in which nothing
does. Between three quotes or apostrophes it may run over several lines; there, a line that ends in
a backslash is joined to the next text. Each function takes what follows the opening quotes and
gives the text and what follows the closing ones.
-/

namespace ChatGateway.Toml

def isPlain (c : Char) : Bool := c = '\t' || (0x20 ≤ c.toNat && c.toNat ≠ 0x7F)

def behind (cs : List Char) (r : Option (List Char × List Char)) : Option (List Char × List Char) :=
  r.map fun (text, rest) => (cs ++ text, rest)

def unescape? : Char → Option Char
  | '/' => none
  | c => Json.unescape? c

def ofHex? (ds : List Char) : Option Char :=
  (ds.mapM Json.hexValue?).bind fun ns =>
    let n := ns.foldl (fun n d => n * 16 + d) 0
    if n.isValidChar then some (Char.ofNat n) else none

def escape? : List Char → Option (Char × List Char)
  | 'u' :: s => if 4 ≤ s.length then (ofHex? (s.take 4)).map (·, s.drop 4) else none
  | 'U' :: s => if 8 ≤ s.length then (ofHex? (s.take 8)).map (·, s.drop 8) else none
  | c :: s => (unescape? c).map (·, s)
  | [] => none

theorem length_escape? {s rest : List Char} {c : Char} (h : escape? s = some (c, rest)) :
    rest.length < s.length := by
  unfold escape? at h
  split at h
  · split at h
    · obtain ⟨d, -, e⟩ := Option.map_eq_some_iff.mp h
      cases e
      simp only [List.length_drop, List.length_cons]
      omega
    · cases h
  · split at h
    · obtain ⟨d, -, e⟩ := Option.map_eq_some_iff.mp h
      cases e
      simp only [List.length_drop, List.length_cons]
      omega
    · cases h
  · obtain ⟨d, -, e⟩ := Option.map_eq_some_iff.mp h
    cases e
    simp
  · cases h

def literal : List Char → Option (List Char × List Char)
  | [] => none
  | c :: s =>
    if c = '\'' then some ([], s)
    else if isPlain c then behind [c] (literal s)
    else none

/-- Text between three apostrophes. Two more may stand in front of the closing ones. -/
def literalLines : List Char → Option (List Char × List Char)
  | '\'' :: '\'' :: '\'' :: '\'' :: '\'' :: s => some (['\'', '\''], s)
  | '\'' :: '\'' :: '\'' :: '\'' :: s => some (['\''], s)
  | '\'' :: '\'' :: '\'' :: s => some ([], s)
  | '\r' :: '\n' :: s => behind ['\n'] (literalLines s)
  | c :: s => if isPlain c || c = '\n' then behind [c] (literalLines s) else none
  | [] => none

def basic (s : List Char) : Option (List Char × List Char) :=
  match s with
  | [] => none
  | c :: t =>
    if c = '"' then some ([], t)
    else if c = '\\' then
      match _h : escape? t with
      | none => none
      | some (d, rest) => behind [d] (basic rest)
    else if isPlain c then behind [c] (basic t)
    else none
termination_by s.length
decreasing_by
  · have := length_escape? _h
    simp only [List.length_cons]
    omega
  · simp

def isBlank (c : Char) : Bool := c = ' ' || c = '\t'

def lineBreak? (s : List Char) : Option (List Char) :=
  match s.dropWhile isBlank with
  | '\n' :: t => some t
  | '\r' :: '\n' :: t => some t
  | _ => none

def dropLines : List Char → List Char
  | '\r' :: '\n' :: s => dropLines s
  | c :: s => if isBlank c || c = '\n' then dropLines s else c :: s
  | [] => []

theorem length_dropLines (s : List Char) : (dropLines s).length ≤ s.length := by
  fun_induction dropLines s with
  | case1 s ih => simp only [List.length_cons]; omega
  | case2 c s _ _ ih => simp only [List.length_cons]; omega
  | case3 => simp
  | case4 => simp

theorem length_lineBreak? {s rest : List Char} (h : lineBreak? s = some rest) :
    rest.length < s.length := by
  have hd := (List.dropWhile_suffix (l := s) isBlank).length_le
  unfold lineBreak? at h
  split at h
  · next e => cases h; rw [e] at hd; simp only [List.length_cons] at hd; omega
  · next e => cases h; rw [e] at hd; simp only [List.length_cons] at hd; omega
  · cases h

/-- Text between three quotes. Two more may stand in front of the closing ones. -/
def basicLines (s : List Char) : Option (List Char × List Char) :=
  match s with
  | '"' :: '"' :: '"' :: '"' :: '"' :: t => some (['"', '"'], t)
  | '"' :: '"' :: '"' :: '"' :: t => some (['"'], t)
  | '"' :: '"' :: '"' :: t => some ([], t)
  | '\r' :: '\n' :: t => behind ['\n'] (basicLines t)
  | '\\' :: t =>
    match _h : lineBreak? t with
    | some rest => basicLines (dropLines rest)
    | none =>
      match _g : escape? t with
      | none => none
      | some (d, rest) => behind [d] (basicLines rest)
  | c :: t => if isPlain c || c = '\n' then behind [c] (basicLines t) else none
  | [] => none
termination_by s.length
decreasing_by
  · simp only [List.length_cons]
    omega
  · have := length_lineBreak? _h
    have := length_dropLines rest
    simp only [List.length_cons]
    omega
  · have := length_escape? _g
    simp only [List.length_cons]
    omega
  · simp

/-- The line's end that may follow three opening quotes. -/
def dropFirstBreak : List Char → List Char
  | '\n' :: s => s
  | '\r' :: '\n' :: s => s
  | s => s

def quotedLine? : List Char → Option (List Char × List Char)
  | '"' :: s => basic s
  | '\'' :: s => literal s
  | _ => none

def quoted? : List Char → Option (List Char × List Char)
  | '"' :: '"' :: '"' :: s => basicLines (dropFirstBreak s)
  | '\'' :: '\'' :: '\'' :: s => literalLines (dropFirstBreak s)
  | s => quotedLine? s

end ChatGateway.Toml
