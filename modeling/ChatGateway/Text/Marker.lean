/-!
# Finding markers in text

A marker is a fixed text that separates one part of a message from the next. `cut?` splits at the
first occurrence of one marker, `cutAny?` at the first occurrence of any of several, and
`splitHeld` keeps back a tail that further text may still turn into a marker.
-/

namespace ChatGateway.Text

/-- What stands before and after the first occurrence of `m`. -/
def cut? (m : List Char) : List Char → Option (List Char × List Char)
  | [] => none
  | c :: s =>
    if m.isPrefixOf (c :: s) then some ([], s.drop (m.length - 1))
    else (cut? m s).map fun (before, after) => (c :: before, after)

/-- What stands before and after the first occurrence of one of `ms`, and which of them it is. -/
def cutAny? (ms : List (List Char)) : List Char → Option (List Char × List Char × List Char)
  | [] => none
  | c :: s =>
    match ms.find? (·.isPrefixOf (c :: s)) with
    | some m => some ([], m, s.drop (m.length - 1))
    | none => (cutAny? ms s).map fun (before, m, after) => (c :: before, m, after)

/-- Some marker of `ms` goes on beyond `s`. -/
def startsMarker (ms : List (List Char)) (s : List Char) : Bool :=
  ms.any fun m => s.isPrefixOf m && s.length < m.length

/-- The text that is settled, and the longest tail of it that is the beginning of a marker. -/
def splitHeld (ms : List (List Char)) : List Char → List Char × List Char
  | [] => ([], [])
  | c :: s =>
    if startsMarker ms (c :: s) then ([], c :: s)
    else
      let (settled, held) := splitHeld ms s
      (c :: settled, held)

theorem isPrefixOf_cons_eq {m s : List Char} {c : Char} (hm : m ≠ [])
    (h : m.isPrefixOf (c :: s) = true) : m ++ s.drop (m.length - 1) = c :: s := by
  obtain ⟨d, m, rfl⟩ := List.exists_cons_of_ne_nil hm
  simp only [List.isPrefixOf, Bool.and_eq_true, beq_iff_eq] at h
  obtain ⟨rfl, h⟩ := h
  simpa using (List.prefix_iff_eq_append.mp (List.isPrefixOf_iff_prefix.mp h))

theorem cut?_append {m s before after : List Char} (hm : m ≠ [])
    (h : cut? m s = some (before, after)) : before ++ m ++ after = s := by
  induction s generalizing before after with
  | nil => simp [cut?] at h
  | cons c s ih =>
    rw [cut?] at h
    split at h
    · next hp =>
      obtain ⟨rfl, rfl⟩ := Prod.mk.inj (Option.some.inj h)
      simpa using isPrefixOf_cons_eq hm hp
    · obtain ⟨⟨b, a⟩, hc, he⟩ := Option.map_eq_some_iff.mp h
      obtain ⟨rfl, rfl⟩ := Prod.mk.inj he
      rw [← ih hc]
      simp

theorem cutAny?_append {ms : List (List Char)} {s before m after : List Char}
    (hm : ∀ m ∈ ms, m ≠ []) (h : cutAny? ms s = some (before, m, after)) :
    m ∈ ms ∧ before ++ m ++ after = s := by
  induction s generalizing before m after with
  | nil => simp [cutAny?] at h
  | cons c s ih =>
    rw [cutAny?] at h
    split at h
    · next m' hf =>
      obtain ⟨rfl, rfl, rfl⟩ := by simpa using h
      have hmem := List.mem_of_find?_eq_some hf
      have hp : m'.isPrefixOf (c :: s) = true := by simpa using List.find?_some hf
      exact ⟨hmem, by simpa using isPrefixOf_cons_eq (hm _ hmem) hp⟩
    · obtain ⟨⟨b, m', a⟩, hc, he⟩ := Option.map_eq_some_iff.mp h
      obtain ⟨rfl, rfl, rfl⟩ := by simpa using he
      obtain ⟨h1, h2⟩ := ih hc
      exact ⟨h1, by rw [← h2]; simp⟩

theorem length_cut? {m s before after : List Char} (h : cut? m s = some (before, after)) :
    after.length < s.length := by
  induction s generalizing before after with
  | nil => simp [cut?] at h
  | cons c s ih =>
    rw [cut?] at h
    split at h
    · obtain ⟨-, rfl⟩ := Prod.mk.inj (Option.some.inj h)
      simp only [List.length_drop, List.length_cons]
      omega
    · obtain ⟨⟨b, a⟩, hc, he⟩ := Option.map_eq_some_iff.mp h
      obtain ⟨-, rfl⟩ := Prod.mk.inj he
      have := ih hc
      simp only [List.length_cons]
      omega

theorem length_cutAny? {ms : List (List Char)} {s before m after : List Char}
    (h : cutAny? ms s = some (before, m, after)) : after.length < s.length := by
  induction s generalizing before m after with
  | nil => simp [cutAny?] at h
  | cons c s ih =>
    rw [cutAny?] at h
    split at h
    · obtain ⟨-, -, rfl⟩ := by simpa using h
      simp only [List.length_drop, List.length_cons]
      omega
    · obtain ⟨⟨b, m', a⟩, hc, he⟩ := Option.map_eq_some_iff.mp h
      obtain ⟨-, -, rfl⟩ := by simpa using he
      have := ih hc
      simp only [List.length_cons]
      omega

theorem splitHeld_append (ms : List (List Char)) (s : List Char) :
    (splitHeld ms s).1 ++ (splitHeld ms s).2 = s := by
  induction s with
  | nil => rfl
  | cons c s ih =>
    rw [splitHeld]
    split
    · rfl
    · simpa using ih

/-- The text without any occurrence of `m`, occurrences taken from the left. -/
def remove (m : List Char) (s : List Char) : List Char :=
  match _h : cut? m s with
  | none => s
  | some (before, after) => before ++ remove m after
termination_by s.length
decreasing_by exact length_cut? _h

/-- The parts of a text that `opening` and `closing` enclose, and the part after the last
`opening` where that is never closed. -/
def spans (opening closing : List Char) (s : List Char) : List (List Char) × Option (List Char) :=
  match _h : cut? opening s with
  | none => ([], none)
  | some (_, inner) =>
    match _h' : cut? closing inner with
    | none => ([], some inner)
    | some (body, after) =>
      let (bodies, rest) := spans opening closing after
      (body :: bodies, rest)
termination_by s.length
decreasing_by exact Nat.lt_trans (length_cut? _h') (length_cut? _h)

end ChatGateway.Text
