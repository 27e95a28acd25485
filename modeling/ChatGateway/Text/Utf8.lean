/-!
# Sizes in bytes

Lengths and positions that other programs see are counted in bytes of UTF-8. Inside the library
text is a list of characters; these functions convert at its edge.
-/

namespace ChatGateway.Text

def byteSize (s : List Char) : Nat := s.foldr (fun c n => c.utf8Size + n) 0

/-- The longest beginning of a text that takes at most `limit` bytes. -/
def fit (limit : Nat) : List Char → List Char
  | [] => []
  | c :: s => if c.utf8Size ≤ limit then c :: fit (limit - c.utf8Size) s else []

/-- What is left of a text after its first `n` bytes. -/
def dropBytes : Nat → List Char → List Char
  | 0, s => s
  | _ + 1, [] => []
  | n + 1, c :: s => dropBytes (n + 1 - c.utf8Size) s

theorem byteSize_append (s t : List Char) : byteSize (s ++ t) = byteSize s + byteSize t := by
  induction s with
  | nil => exact (Nat.zero_add _).symm
  | cons c s ih => exact (congrArg (c.utf8Size + ·) ih).trans (Nat.add_assoc _ _ _).symm

theorem dropBytes_append (s t : List Char) : dropBytes (byteSize s) (s ++ t) = t := by
  induction s with
  | nil => simp [byteSize, dropBytes]
  | cons c s ih =>
    have hc : 0 < c.utf8Size := Char.utf8Size_pos c
    have hs : byteSize (c :: s) = c.utf8Size + byteSize s := by simp [byteSize]
    obtain ⟨n, hn⟩ : ∃ n, byteSize (c :: s) = n + 1 := ⟨byteSize (c :: s) - 1, by omega⟩
    rw [hn, List.cons_append, dropBytes, ← hn, hs, Nat.add_sub_cancel_left, ih]

end ChatGateway.Text
