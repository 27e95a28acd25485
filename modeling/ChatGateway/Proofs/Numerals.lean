import ChatGateway.Json.Print
import ChatGateway.Json.Token
import Mathlib.Data.List.TakeWhile

/-!
# Numerals that are read back

A numeral is read as far as it goes: what follows it does not matter if it does not continue it.
Whole numbers of 64 bits are read back from their digits.
-/

namespace ChatGateway.Json

/-! ## What follows a numeral -/

/-- A text that does not continue a numeral. -/
def Parted (rest : List Char) : Prop :=
  ∀ c ∈ rest.head?, c.isDigit = false ∧ c ≠ '.' ∧ c ≠ 'e' ∧ c ≠ 'E'

theorem parted_nil : Parted [] := by simp [Parted]

section Append

variable {s ds rest r : List Char}

theorem digits1?_append (h : digits1? s = some (ds, r)) (hp : Parted rest) :
    digits1? (s ++ rest) = some (ds, r ++ rest) := by
  have htake : rest.takeWhile Char.isDigit = [] := by
    cases rest with
    | nil => rfl
    | cons c rest => simp [(hp c rfl).1]
  have hdrop : rest.dropWhile Char.isDigit = rest := by
    cases rest with
    | nil => rfl
    | cons c rest => simp [(hp c rfl).1]
  have htake' : (s ++ rest).takeWhile Char.isDigit = s.takeWhile Char.isDigit := by
    rw [List.takeWhile_append, htake, List.append_nil]
    split
    · next hlen => exact (List.takeWhile_prefix _).eq_of_length hlen |>.symm
    · rfl
  have hdrop' : (s ++ rest).dropWhile Char.isDigit = s.dropWhile Char.isDigit ++ rest := by
    rw [List.dropWhile_append, hdrop]
    split
    · next he => rw [List.isEmpty_iff.mp he, List.nil_append]
    · rfl
  unfold digits1? at h ⊢
  rw [htake', hdrop']
  dsimp only at h ⊢
  split at h
  · cases h
  · next he =>
    obtain ⟨rfl, rfl⟩ := Prod.mk.inj (Option.some.inj h)
    rw [if_neg he]

theorem wholePart?_append (h : wholePart? s = some (ds, r)) (hp : Parted rest) :
    wholePart? (s ++ rest) = some (ds, r ++ rest) := by
  unfold wholePart? at h ⊢
  obtain ⟨⟨ds', r'⟩, hd, h⟩ := Option.bind_eq_some_iff.mp h
  rw [digits1?_append hd hp, Option.bind_some]
  dsimp only at h ⊢
  split at h
  · cases h
  · next hz =>
    obtain ⟨rfl, rfl⟩ := Prod.mk.inj (Option.some.inj h)
    rw [if_neg hz]

theorem fractionPart?_append (h : fractionPart? s = some (ds, r)) (hp : Parted rest) :
    fractionPart? (s ++ rest) = some (ds, r ++ rest) := by
  unfold fractionPart? at h
  split at h
  · exact digits1?_append h hp
  · next hs =>
    obtain ⟨rfl, rfl⟩ := Prod.mk.inj (Option.some.inj h)
    cases s with
    | nil =>
      cases rest with
      | nil => rfl
      | cons c rest =>
        have hdot : c ≠ '.' := (hp c rfl).2.1
        simp [fractionPart?, hdot]
    | cons c s =>
      have hdot : c ≠ '.' := fun hc => hs s (by rw [hc])
      simp [fractionPart?, hdot]

theorem splitSign_append (hs : s ≠ []) :
    Number.splitSign (s ++ rest) =
      ((Number.splitSign s).1, (Number.splitSign s).2 ++ rest) := by
  cases s with
  | nil => exact absurd rfl hs
  | cons c s =>
    by_cases hm : c = '-'
    · simp [Number.splitSign, hm]
    · by_cases hplus : c = '+'
      · simp [Number.splitSign, hplus]
      · simp [Number.splitSign, hm, hplus]

theorem exponentPart?_append {e : Option (Bool × List Char)} (h : exponentPart? s = some (e, r))
    (hp : Parted rest) : exponentPart? (s ++ rest) = some (e, r ++ rest) := by
  cases s with
  | nil =>
    obtain ⟨rfl, rfl⟩ := Prod.mk.inj (Option.some.inj h)
    cases rest with
    | nil => rfl
    | cons c rest =>
      obtain ⟨-, -, he, hE⟩ := hp c rfl
      simp [exponentPart?, he, hE]
  | cons c s =>
    unfold exponentPart? at h
    rw [List.cons_append, exponentPart?]
    dsimp only at h ⊢
    split at h
    · next hc =>
      rw [if_pos hc]
      obtain ⟨⟨ds', r'⟩, hd, he⟩ := Option.map_eq_some_iff.mp h
      obtain ⟨rfl, rfl⟩ := Prod.mk.inj he
      have hne : s ≠ [] := by
        rintro rfl
        cases hd
      rw [splitSign_append hne, digits1?_append hd hp]
      rfl
    · next hc =>
      rw [if_neg hc]
      obtain ⟨rfl, rfl⟩ := Prod.mk.inj (Option.some.inj h)
      rfl

def unsigned? (negative : Bool) (s : List Char) : Option (Numeral × List Char) := do
  let (whole, s) ← wholePart? s
  let (fraction, s) ← fractionPart? s
  let (exponent, s) ← exponentPart? s
  some (⟨negative, whole, fraction, exponent⟩, s)

theorem numeral?_negative (s : List Char) : numeral? ('-' :: s) = unsigned? true s := rfl

theorem numeral?_unsigned (hs : s.head? ≠ some '-') : numeral? s = unsigned? false s := by
  cases s with
  | nil => rfl
  | cons c s =>
    have hc : c ≠ '-' := fun hc => hs (by rw [hc]; rfl)
    simp [numeral?, hc, unsigned?]

theorem unsigned?_append {negative : Bool} {x : Numeral} (h : unsigned? negative s = some (x, r))
    (hp : Parted rest) : unsigned? negative (s ++ rest) = some (x, r ++ rest) := by
  simp only [unsigned?, Option.bind_eq_bind, Option.bind_eq_some_iff, Prod.exists] at h
  obtain ⟨ws, s1, hw, fs, s2, hf, e, s3, he, hr⟩ := h
  obtain ⟨rfl, rfl⟩ := Prod.mk.inj (Option.some.inj hr)
  simp [unsigned?, wholePart?_append hw hp, fractionPart?_append hf hp, exponentPart?_append he hp]

theorem numeral?_append {x : Numeral} (h : numeral? s = some (x, r)) (hp : Parted rest) :
    numeral? (s ++ rest) = some (x, r ++ rest) := by
  cases s with
  | nil => cases h
  | cons c s =>
    by_cases hm : c = '-'
    · subst hm
      exact unsigned?_append h hp
    · rw [numeral?_unsigned (by simpa using hm)] at h
      rw [List.cons_append, numeral?_unsigned (by simpa using hm)]
      exact unsigned?_append h hp

end Append

/-! ## Whole numbers -/

/-- The numeral of the number is read as the number. -/
def Number.Legible (n : Number) : Prop :=
  ∃ x, numeral? n.render = some (x, []) ∧ x.number? = some n

theorem head?_toDigits (n : Nat) (h : 0 < n) : (Nat.toDigits 10 n).head? ≠ some '0' := by
  induction n using Nat.strongRecOn with
  | _ n ih =>
    rw [Nat.toDigits_eq_if (by decide)]
    split
    · next hn =>
      have hall : ∀ d < 10, 0 < d → Nat.digitChar d ≠ '0' := by decide
      simpa using hall n hn h
    · next hn =>
      have hhead := ih (n / 10) (by omega) (by omega)
      obtain ⟨d, ds, hds⟩ := List.exists_cons_of_ne_nil (@Nat.toDigits_ne_nil (n / 10) 10)
      rw [hds] at hhead ⊢
      exact hhead

theorem digits1?_toDigits (n : Nat) :
    digits1? (Nat.toDigits 10 n) = some (Nat.toDigits 10 n, []) := by
  have hall : ∀ c ∈ Nat.toDigits 10 n, c.isDigit = true :=
    fun c hc => Nat.isDigit_of_mem_toDigits (by decide) (by decide) hc
  unfold digits1?
  dsimp only
  rw [List.takeWhile_eq_self_iff.mpr hall, List.dropWhile_eq_nil_iff.mpr hall]
  simp [Nat.toDigits_ne_nil]

theorem wholePart?_toDigits (n : Nat) :
    wholePart? (Nat.toDigits 10 n) = some (Nat.toDigits 10 n, []) := by
  unfold wholePart?
  rw [digits1?_toDigits, Option.bind_some]
  by_cases hn : n = 0
  · subst hn
    rfl
  · have := head?_toDigits n (by omega)
    simp [this]

theorem le_ofDigitChars (ds : List Char) (n : Nat) : n ≤ Nat.ofDigitChars 10 ds n := by
  induction ds generalizing n with
  | nil => exact Nat.le_refl n
  | cons d ds ih =>
    rw [Nat.ofDigitChars_cons]
    exact Nat.le_trans (by omega) (ih _)

theorem gather_eq {ds : List Char} {n : Nat} (h : Nat.ofDigitChars 10 ds n < UInt64.size) :
    gather n ds = (Nat.ofDigitChars 10 ds n, 0) := by
  induction ds generalizing n with
  | nil => rfl
  | cons d ds ih =>
    rw [Nat.ofDigitChars_cons] at h ⊢
    have hstep : n * 10 + (d.toNat - 48) = 10 * n + (d.toNat - '0'.toNat) := by
      rw [Nat.mul_comm]
      rfl
    have hlt := Nat.lt_of_le_of_lt (le_ofDigitChars ds _) h
    rw [gather, hstep, if_pos hlt, ih h]

theorem number?_whole {negative : Bool} {ds : List Char} {n : Nat} (hd : gather 0 ds = (n, 0))
    (hn : negative = true → 0 < n ∧ n ≤ Number.int64Bound) :
    Numeral.number? ⟨negative, ds, [], none⟩ =
      some (.int (if negative then -(n : Int) else n)) := by
  cases negative with
  | false => simp [Numeral.number?, hd]
  | true => simp [Numeral.number?, hd, hn rfl]

/-- Whole numbers of 64 bits, with or without a sign, are read back from their digits. -/
theorem legible_int {n : Int} (hlow : -(Number.int64Bound : Int) ≤ n)
    (hhigh : n < (UInt64.size : Int)) : (Number.int n).Legible := by
  have hread : ∀ negative, unsigned? negative (Nat.toDigits 10 n.natAbs) =
      some (⟨negative, Nat.toDigits 10 n.natAbs, [], none⟩, []) := by
    intro negative
    simp [unsigned?, wholePart?_toDigits, fractionPart?, exponentPart?]
  have hvalue : Nat.ofDigitChars 10 (Nat.toDigits 10 n.natAbs) 0 = n.natAbs :=
    Nat.ofDigitChars_ten_toDigits
  have hbound : n.natAbs < UInt64.size := by
    simp only [Number.int64Bound, UInt64.size] at hlow hhigh ⊢
    omega
  have hgather : gather 0 (Nat.toDigits 10 n.natAbs) = (n.natAbs, 0) := by
    rw [gather_eq (by rw [hvalue]; exact hbound), hvalue]
  by_cases hn : n < 0
  · refine ⟨⟨true, Nat.toDigits 10 n.natAbs, [], none⟩, ?_, ?_⟩
    · show numeral? (intText n) = _
      rw [intText, if_pos hn, numeral?_negative, hread]
    · have hpos : 0 < n.natAbs ∧ n.natAbs ≤ Number.int64Bound := by omega
      have habs : -(n.natAbs : Int) = n := by omega
      rw [number?_whole hgather fun _ => hpos, if_pos rfl, habs]
  · refine ⟨⟨false, Nat.toDigits 10 n.natAbs, [], none⟩, ?_, ?_⟩
    · show numeral? (intText n) = _
      have hdigit : (Nat.toDigits 10 n.natAbs).head? ≠ some '-' := by
        intro hhead
        have hd := Nat.isDigit_of_mem_toDigits (by decide) (by decide) (List.mem_of_head? hhead)
        exact absurd hd (by decide)
      rw [intText, if_neg hn, numeral?_unsigned hdigit, hread]
    · have habs : (n.natAbs : Int) = n := by omega
      rw [number?_whole hgather (by simp), if_neg Bool.false_ne_true, habs]

end ChatGateway.Json
