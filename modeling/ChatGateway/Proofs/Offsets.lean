import ChatGateway.Proofs.Reports

/-!
# Offsets in bytes

How a text is cut and searched where it is held in UTF-8. A cut fails within a character and behind
the end, and a difference fails that would be negative. How much of a text is held back is found by
trying one number of bytes after the other; it is the tail of `splitHeld`.
-/

namespace ChatGateway.Text

def cutAt? : Nat → List Char → Option (List Char × List Char)
  | 0, s => some ([], s)
  | _ + 1, [] => none
  | n + 1, c :: s =>
    if c.utf8Size ≤ n + 1 then
      (cutAt? (n + 1 - c.utf8Size) s).map fun (before, after) => (c :: before, after)
    else none

def lessen? (m n : Nat) : Option Nat := if n ≤ m then some (m - n) else none

def offset? (m s : List Char) : Option Nat := (cut? m s).map fun (before, _) => byteSize before

def offsetAny? (ms : List (List Char)) (s : List Char) : Option (Nat × List Char) :=
  (cutAny? ms s).map fun (before, m, _) => (byteSize before, m)

/-- The last `n` bytes of a text are the beginning of a marker and not all of it. -/
def mayHold (ms : List (List Char)) (s : List Char) (n : Nat) : Bool :=
  match cutAt? (byteSize s - n) s with
  | some (_, tail) => ms.any fun m => n < byteSize m && tail.isPrefixOf m
  | none => false

def greatestHeld (ms : List (List Char)) (s : List Char) : Nat → Nat
  | 0 => 0
  | n + 1 => if mayHold ms s (n + 1) then n + 1 else greatestHeld ms s n

/-- How many bytes of a text are held back: less than a whole marker has. -/
def heldSize (ms : List (List Char)) (s : List Char) : Nat :=
  greatestHeld ms s (min ((ms.map byteSize).max?.getD 0 - 1) (byteSize s))

/-! ## Cuts -/

theorem byteSize_cons (c : Char) (s : List Char) : byteSize (c :: s) = c.utf8Size + byteSize s :=
  rfl

theorem utf8ByteSize_ofList (s : List Char) : (String.ofList s).utf8ByteSize = byteSize s := by
  induction s with
  | nil => rfl
  | cons c s ih =>
    rw [String.ofList_cons, String.utf8ByteSize_append, String.utf8ByteSize_singleton, ih,
      byteSize_cons]

theorem byteSize_toList (s : String) : byteSize s.toList = s.utf8ByteSize := by
  rw [← utf8ByteSize_ofList, String.ofList_toList]

theorem length_le_byteSize (s : List Char) : s.length ≤ byteSize s := by
  induction s with
  | nil => exact Nat.le_refl _
  | cons c s ih =>
    have hpos := Char.utf8Size_pos c
    rw [List.length_cons, byteSize_cons]
    omega

theorem cutAt?_append (b a : List Char) : cutAt? (byteSize b) (b ++ a) = some (b, a) := by
  induction b with
  | nil => rw [List.nil_append, byteSize, List.foldr_nil, cutAt?]
  | cons c b ih =>
    have hpos := Char.utf8Size_pos c
    have hsize := byteSize_cons c b
    obtain ⟨n, hn⟩ : ∃ n, byteSize (c :: b) = n + 1 := ⟨byteSize (c :: b) - 1, by omega⟩
    have hle : c.utf8Size ≤ n + 1 := by omega
    have hrest : n + 1 - c.utf8Size = byteSize b := by omega
    rw [hn, List.cons_append, cutAt?, if_pos hle, hrest, ih, Option.map_some]

theorem cutAt?_eq_some_iff {n : Nat} {s b a : List Char} :
    cutAt? n s = some (b, a) ↔ s = b ++ a ∧ byteSize b = n := by
  constructor
  · intro h
    induction s generalizing n b with
    | nil =>
      cases n with
      | zero =>
        rw [cutAt?] at h
        obtain ⟨rfl, rfl⟩ := Prod.mk.inj (Option.some.inj h)
        exact ⟨rfl, rfl⟩
      | succ n => exact absurd h (by simp [cutAt?])
    | cons c s ih =>
      cases n with
      | zero =>
        rw [cutAt?] at h
        obtain ⟨rfl, rfl⟩ := Prod.mk.inj (Option.some.inj h)
        exact ⟨rfl, rfl⟩
      | succ n =>
        rw [cutAt?] at h
        split at h
        · next hle =>
          obtain ⟨⟨b', a'⟩, hcut, he⟩ := Option.map_eq_some_iff.mp h
          obtain ⟨rfl, rfl⟩ := Prod.mk.inj he
          obtain ⟨rfl, hsize⟩ := ih hcut
          refine ⟨rfl, ?_⟩
          rw [byteSize_cons, hsize]
          omega
        · exact absurd h (by simp)
  · rintro ⟨rfl, rfl⟩
    exact cutAt?_append b a

theorem boundary_append (b a : List Char) : Boundary (b ++ a) (byteSize b) :=
  ⟨b, List.prefix_append b a, rfl⟩

/-- The boundaries of a text are the positions that are valid in it as a string of bytes. -/
theorem boundary_iff_isValid {s : String} {n : Nat} :
    Boundary s.toList n ↔ String.Pos.Raw.IsValid s ⟨n⟩ := by
  rw [String.Pos.Raw.isValid_iff_exists_append]
  constructor
  · rintro ⟨b, ⟨a, ha⟩, rfl⟩
    refine ⟨String.ofList b, String.ofList a, ?_, ?_⟩
    · rw [← String.ofList_append, ha, String.ofList_toList]
    · exact congrArg String.Pos.Raw.mk (utf8ByteSize_ofList b).symm
  · rintro ⟨t, u, rfl, hn⟩
    refine ⟨t.toList, ⟨u.toList, String.toList_append.symm⟩, ?_⟩
    rw [byteSize_toList]
    exact (congrArg String.Pos.Raw.byteIdx hn).symm

theorem Boundary.le {s : List Char} {n : Nat} (h : Boundary s n) : n ≤ byteSize s := by
  obtain ⟨t, ht, rfl⟩ := h
  exact byteSize_le_of_prefix ht

theorem lessen?_append (b a : List Char) :
    lessen? (byteSize (b ++ a)) (byteSize a) = some (byteSize b) := by
  have hsize := byteSize_append b a
  rw [lessen?, if_pos (by omega), hsize, Nat.add_sub_cancel]

theorem lessen?_trimStart (s : List Char) :
    lessen? (byteSize s) (byteSize (trimStart s)) = some (byteSize (s.takeWhile isBlank)) := by
  have h := lessen?_append (s.takeWhile isBlank) (trimStart s)
  rwa [trimStart, List.takeWhile_append_dropWhile] at h

/-! ## Searches -/

section
variable {m s b a : List Char} (h : cut? m s = some (b, a))
include h

theorem offset?_of_some : offset? m s = some (byteSize b) := by rw [offset?, h, Option.map_some]

theorem cutAt?_of_cut? (hm : m ≠ []) : cutAt? (byteSize b) s = some (b, m ++ a) := by
  rw [← cut?_append hm h, List.append_assoc, cutAt?_append]

end

theorem offset?_of_none {m s : List Char} (h : cut? m s = none) : offset? m s = none := by
  rw [offset?, h, Option.map_none]

section
variable {ms : List (List Char)} {m s b a : List Char} (h : cutAny? ms s = some (b, m, a))
include h

theorem offsetAny?_of_some : offsetAny? ms s = some (byteSize b, m) := by
  rw [offsetAny?, h, Option.map_some]

theorem cutAt?_of_cutAny? (hms : ∀ m ∈ ms, m ≠ []) : cutAt? (byteSize b) s = some (b, m ++ a) := by
  rw [← (cutAny?_append hms h).2, List.append_assoc, cutAt?_append]

end

theorem offsetAny?_of_none {ms : List (List Char)} {s : List Char} (h : cutAny? ms s = none) :
    offsetAny? ms s = none := by
  rw [offsetAny?, h, Option.map_none]

/-! ## The tail that is held back -/

theorem byteSize_lt_iff {t m : List Char} (h : t <+: m) :
    byteSize t < byteSize m ↔ t.length < m.length := by
  obtain ⟨r, rfl⟩ := h
  rw [byteSize_append, List.length_append]
  by_cases hr : r = []
  · simp [hr, byteSize]
  · have hsize := byteSize_pos hr
    have hlength := List.length_pos_iff.mpr hr
    omega

theorem mayHold_append (ms : List (List Char)) (b a : List Char) :
    mayHold ms (b ++ a) (byteSize a) = startsMarker ms a := by
  have hcut : cutAt? (byteSize (b ++ a) - byteSize a) (b ++ a) = some (b, a) := by
    rw [byteSize_append, Nat.add_sub_cancel, cutAt?_append]
  rw [mayHold, hcut, startsMarker]
  refine List.any_congr rfl fun m => ?_
  by_cases hp : a <+: m
  · rw [decide_eq_decide.mpr (byteSize_lt_iff hp), Bool.and_comm]
  · have hnot : a.isPrefixOf m = false :=
      Bool.eq_false_iff.mpr fun h => hp (List.isPrefixOf_iff_prefix.mp h)
    rw [hnot, Bool.and_false, Bool.false_and]

theorem mayHold_of_lt {ms : List (List Char)} {s : List Char} {n : Nat}
    (h : byteSize (splitHeld ms s).2 < n) (hn : n ≤ byteSize s) : mayHold ms s n = false := by
  cases hcut : cutAt? (byteSize s - n) s with
  | none => rw [mayHold, hcut]
  | some r =>
    obtain ⟨b, a⟩ := r
    obtain ⟨hs, hb⟩ := cutAt?_eq_some_iff.mp hcut
    have ha : byteSize a = n := by
      have hsize := congrArg byteSize hs
      rw [byteSize_append] at hsize
      omega
    have hhold : mayHold ms s n = startsMarker ms a := by
      rw [← ha, hs, mayHold_append]
    rw [hhold]
    have hsplit := (splitHeld_append ms s).trans hs
    rcases List.append_eq_append_iff.mp hsplit with ⟨x, -, hx⟩ | ⟨x, hx, rfl⟩
    · -- the tail would be within what is held back
      have hsize := congrArg byteSize hx
      rw [byteSize_append] at hsize
      omega
    · refine splitHeld_fst ms s x ?_ (hx ▸ List.suffix_append b x)
      rintro rfl
      rw [List.nil_append] at ha
      omega

theorem greatestHeld_eq {ms : List (List Char)} {s : List Char} {k n : Nat} (hk : k ≤ n)
    (hhold : k ≠ 0 → mayHold ms s k = true) (hlt : ∀ i, k < i → i ≤ n → mayHold ms s i = false) :
    greatestHeld ms s n = k := by
  induction n with
  | zero => rw [greatestHeld, Nat.le_zero.mp hk]
  | succ n ih =>
    rw [greatestHeld]
    by_cases he : k = n + 1
    · rw [he] at hhold ⊢
      rw [if_pos (hhold (Nat.succ_ne_zero n))]
    · have hnot := hlt (n + 1) (by omega) (Nat.le_refl _)
      rw [if_neg (by simp [hnot])]
      exact ih (by omega) fun i hi hin => hlt i hi (by omega)

theorem heldSize_eq (ms : List (List Char)) (s : List Char) :
    heldSize ms s = byteSize (splitHeld ms s).2 := by
  have hs := splitHeld_append ms s
  have hle : byteSize (splitHeld ms s).2 ≤ byteSize s := by
    have hsize := congrArg byteSize hs
    rw [byteSize_append] at hsize
    omega
  have hhold : mayHold ms s (byteSize (splitHeld ms s).2) = startsMarker ms (splitHeld ms s).2 := by
    have happend := mayHold_append ms (splitHeld ms s).1 (splitHeld ms s).2
    rwa [hs] at happend
  refine greatestHeld_eq ?_ ?_ fun i hi hin => mayHold_of_lt hi (by omega)
  · rcases splitHeld_snd ms s with hnil | hstarts
    · rw [hnil]
      exact Nat.zero_le _
    · obtain ⟨m, hm, hp, hlt⟩ := startsMarker_iff.mp hstarts
      have hsize := (byteSize_lt_iff hp).mpr hlt
      have hmost : byteSize m ≤ (ms.map byteSize).max?.getD 0 :=
        List.le_max?_getD_of_mem (List.mem_map_of_mem hm)
      omega
  · intro hne
    rw [hhold]
    rcases splitHeld_snd ms s with hnil | hstarts
    · rw [hnil] at hne
      exact absurd rfl hne
    · exact hstarts

/-- What remains when that many bytes are taken off is cut where `splitHeld` does. -/
theorem lessen?_heldSize (ms : List (List Char)) (s : List Char) :
    lessen? (byteSize s) (heldSize ms s) = some (byteSize (splitHeld ms s).1) := by
  have h := lessen?_append (splitHeld ms s).1 (splitHeld ms s).2
  rwa [splitHeld_append, ← heldSize_eq] at h

theorem cutAt?_splitHeld (ms : List (List Char)) (s : List Char) :
    cutAt? (byteSize (splitHeld ms s).1) s = some (splitHeld ms s) := by
  have h := cutAt?_append (splitHeld ms s).1 (splitHeld ms s).2
  rwa [splitHeld_append] at h

end ChatGateway.Text
