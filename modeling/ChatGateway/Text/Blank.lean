/-!
# White space

The characters of Unicode's White_Space property, and trimming by them. Text is a list of
characters here, so that what is kept and what is dropped are lists again.
-/

namespace ChatGateway.Text

/-- The White_Space property: four ASCII separators beside the space and the vertical tab, the
next-line and no-break spaces, and the spaces and separators of the general punctuation block. -/
def isBlank (c : Char) : Bool :=
  let n := c.toNat
  (9 ≤ n && n ≤ 13) || n == 0x20 || n == 0x85 || n == 0xA0 || n == 0x1680 ||
    (0x2000 ≤ n && n ≤ 0x200A) || n == 0x2028 || n == 0x2029 || n == 0x202F || n == 0x205F ||
    n == 0x3000

def trimStart (s : List Char) : List Char := s.dropWhile isBlank

def trimEnd (s : List Char) : List Char := (s.reverse.dropWhile isBlank).reverse

def trim (s : List Char) : List Char := trimEnd (trimStart s)

def blank (s : List Char) : Bool := s.all isBlank

/-- Equality up to the case of ASCII letters. -/
def sameIgnoringCase (s t : List Char) : Bool := s.map Char.toLower == t.map Char.toLower

theorem length_dropWhile_le {α : Type} (p : α → Bool) (s : List α) :
    (s.dropWhile p).length ≤ s.length := (List.dropWhile_sublist p).length_le

theorem length_trimStart_le (s : List Char) : (trimStart s).length ≤ s.length :=
  length_dropWhile_le isBlank s

theorem trimEnd_append_blanks (s t : List Char) (h : t.all isBlank = true) :
    trimEnd (s ++ t) = trimEnd s := by
  have : ∀ x ∈ t.reverse, isBlank x = true := fun x hx =>
    List.all_eq_true.mp h x (List.mem_reverse.mp hx)
  simp only [trimEnd, List.reverse_append]
  rw [List.dropWhile_append_of_pos this]

theorem trimStart_suffix (s : List Char) : trimStart s <:+ s := List.dropWhile_suffix _

theorem trimStart_append {s : List Char} (h : trimStart s ≠ []) (t : List Char) :
    trimStart (s ++ t) = trimStart s ++ t := by
  unfold trimStart at h ⊢
  rw [List.dropWhile_append, if_neg (by simpa using h)]

theorem trimStart_append_blanks {s : List Char} (h : s.all isBlank = true) (t : List Char) :
    trimStart (s ++ t) = trimStart t :=
  List.dropWhile_append_of_pos (List.all_eq_true.mp h)

theorem trimEnd_cons (c : Char) (s : List Char) :
    trimEnd (c :: s) = if isBlank c = true ∧ trimEnd s = [] then [] else c :: trimEnd s := by
  unfold trimEnd
  rw [List.reverse_cons, List.dropWhile_append]
  by_cases hs : s.reverse.dropWhile isBlank = []
  · cases hc : isBlank c <;> simp [hs, hc]
  · simp [hs]

def trailing (s : List Char) : List Char := (s.reverse.takeWhile isBlank).reverse

theorem trimEnd_append_trailing (s : List Char) : trimEnd s ++ trailing s = s := by
  rw [trimEnd, trailing, ← List.reverse_append, List.takeWhile_append_dropWhile,
    List.reverse_reverse]

theorem trailing_blank (s : List Char) : (trailing s).all isBlank = true := by
  rw [trailing, List.all_reverse]
  exact List.all_takeWhile

theorem trim_eq_nil_iff {s : List Char} : trim s = [] ↔ blank s = true := by
  constructor
  · intro h
    have hend := trailing_blank (trimStart s)
    have hsplit := trimEnd_append_trailing (trimStart s)
    rw [trim] at h
    rw [h, List.nil_append] at hsplit
    rw [hsplit] at hend
    have hs : s.takeWhile isBlank ++ trimStart s = s := List.takeWhile_append_dropWhile
    rw [blank, ← hs, List.all_append, hend, List.all_takeWhile]
    rfl
  · intro h
    have hnil : trimStart (s ++ []) = [] := trimStart_append_blanks h []
    rw [List.append_nil] at hnil
    rw [trim, hnil]
    rfl

theorem trimEnd_trimEnd (s : List Char) : trimEnd (trimEnd s) = trimEnd s := by
  have h := trimEnd_append_blanks (trimEnd s) (trailing s) (trailing_blank s)
  rw [← h, trimEnd_append_trailing]

theorem trim_trimEnd (s : List Char) : trim (trimEnd s) = trim s := by
  induction s with
  | nil => rfl
  | cons c s ih =>
    rw [trimEnd_cons]
    split
    · next h =>
      rw [h.2] at ih
      rw [ih, trim, trim, trimStart, trimStart, List.dropWhile_cons_of_pos h.1]
    · cases hc : isBlank c with
      | true =>
        unfold trim trimStart at ih ⊢
        rw [List.dropWhile_cons_of_pos hc, List.dropWhile_cons_of_pos hc, ih]
      | false =>
        have hn : ¬ (isBlank c = true) := by simp [hc]
        unfold trim trimStart
        rw [List.dropWhile_cons_of_neg hn, List.dropWhile_cons_of_neg hn, trimEnd_cons,
          trimEnd_trimEnd, trimEnd_cons]

end ChatGateway.Text
