import ChatGateway.Proofs.Numerals
import ChatGateway.Proofs.Values

/-!
# Text that is read back

The text of a value is read as the value, its members in their order, where its numerals are read
back and arrays and objects are not nested deeper than a reader follows.
-/

namespace ChatGateway.Json

/-! ## Strings -/

theorem hexValue?_digitChar : ∀ n < 16, hexValue? n.digitChar = some n := by decide

theorem hex4?_low {n : Nat} (h : n < 32) :
    hex4? '0' '0' (n / 16).digitChar (n % 16).digitChar = some n := by
  have hzero : hexValue? '0' = some 0 := by decide
  simp only [hex4?, hzero, hexValue?_digitChar (n / 16) (by omega),
    hexValue?_digitChar (n % 16) (by omega)]
  simpa using Nat.div_add_mod' n 16

theorem stringBody?_unpaired {a b c d : Char} {n : Nat} (h : hex4? a b c d = some n)
    (hhigh : isHighSurrogate n = false) (s : List Char) :
    stringBody? ('\\' :: 'u' :: a :: b :: c :: d :: s) =
      (stringBody? s).map
        (prepend (if isLowSurrogate n then none else some (Char.ofNat n))) := by
  -- the recursive equation, as `simp` does not open the overlapping patterns of two escapes in a row
  rw [stringBody?.eq_def]
  split
  · next hs => cases hs
  · next hs => simp at hs
  · next hs =>
    simp only [List.cons.injEq, true_and] at hs
    obtain ⟨rfl, rfl, rfl, rfl, rfl⟩ := hs
    simp [h, hhigh]
  · next hs =>
    simp only [List.cons.injEq, true_and] at hs
    obtain ⟨rfl, rfl, rfl, rfl, rfl⟩ := hs
    simp [h, hhigh]
  · next hno hs =>
    simp only [List.cons.injEq, true_and] at hs
    obtain ⟨rfl, rfl⟩ := hs
    exact absurd rfl (hno _ _ _ _ _ rfl)
  · next hno hs =>
    obtain ⟨rfl, rfl⟩ := List.cons.inj hs
    exact (hno _ _ rfl rfl).elim

theorem stringBody?_unicode {a b c d : Char} {n : Nat} (h : hex4? a b c d = some n)
    (hn : n < 0xD800) (s : List Char) : stringBody? ('\\' :: 'u' :: a :: b :: c :: d :: s) =
      (stringBody? s).map (prepend (some (Char.ofNat n))) := by
  have hhigh : isHighSurrogate n = false := by grind [isHighSurrogate]
  have hlow : isLowSurrogate n = false := by grind [isLowSurrogate]
  rw [stringBody?_unpaired h hhigh, hlow]
  rfl

theorem stringBody?_short {e c : Char} (h : unescape? e = some c) (he : e ≠ 'u') (s : List Char) :
    stringBody? ('\\' :: e :: s) = (stringBody? s).map (prepend (some c)) := by
  rw [stringBody?]
  · simp [h]
  · simp [he]
  · simp [he]

theorem stringBody?_plain {c : Char} (hquote : c ≠ '"') (hslash : c ≠ '\\')
    (hlow : 0x20 ≤ c.toNat) (s : List Char) :
    stringBody? (c :: s) = (stringBody? s).map (prepend (some c)) := by
  have hnot : ¬ c.toNat < 0x20 := by omega
  rw [stringBody?]
  · simp [hslash, hnot]
  · exact hquote
  · simp [hslash]
  · simp [hslash]
  · simp [hslash]

theorem stringBody?_escape (c : Char) (s : List Char) :
    stringBody? (escape c ++ s) = (stringBody? s).map (prepend (some c)) := by
  unfold escape
  split
  · next h =>
    subst h
    exact stringBody?_short rfl (by decide) s
  split
  · next h =>
    subst h
    exact stringBody?_short rfl (by decide) s
  split
  · next hlow =>
    split
    · next h => exact h ▸ stringBody?_short rfl (by decide) s
    split
    · next h => exact h ▸ stringBody?_short rfl (by decide) s
    split
    · next h => exact h ▸ stringBody?_short rfl (by decide) s
    split
    · next h =>
      have hc : c = Char.ofNat 8 := by rw [← h, Char.ofNat_toNat]
      exact hc ▸ stringBody?_short rfl (by decide) s
    split
    · next h =>
      have hc : c = Char.ofNat 12 := by rw [← h, Char.ofNat_toNat]
      exact hc ▸ stringBody?_short rfl (by decide) s
    · have hread := stringBody?_unicode (hex4?_low hlow) (by omega) s
      rwa [Char.ofNat_toNat] at hread
  · next hquote hslash hlow => exact stringBody?_plain hquote hslash (by omega) s

theorem stringBody?_escapeText (cs rest : List Char) :
    stringBody? (escapeText cs ++ '"' :: rest) = some (some cs, rest) := by
  induction cs with
  | nil => rfl
  | cons c cs ih =>
    unfold escapeText at ih ⊢
    rw [List.flatMap_cons, List.append_assoc, stringBody?_escape, ih]
    rfl

/-! ## Words -/

theorem numeral?_head {c : Char} {s r : List Char} {x : Numeral}
    (h : numeral? (c :: s) = some (x, r)) : c = '-' ∨ c.isDigit = true := by
  by_cases hm : c = '-'
  · exact .inl hm
  · rw [numeral?_unsigned (by simpa using hm)] at h
    by_cases hd : c.isDigit = true
    · exact .inr hd
    · simp [unsigned?, wholePart?, digits1?, hd] at h

theorem isSpace_of_isDigit {c : Char} (h : c.isDigit = true) : isSpace c = false := by
  by_contra hs
  simp only [Bool.not_eq_false, isSpace, Bool.or_eq_true, beq_iff_eq] at hs
  rcases hs with ((rfl | rfl) | rfl) | rfl <;> exact absurd h (by decide)

theorem word?_numeral {c : Char} {s r : List Char} {x : Numeral}
    (h : numeral? (c :: s) = some (x, r)) :
    word? c s = some ((x.number?.map .num).getD .voidNum, r) := by
  have hc := numeral?_head h
  unfold word?
  split
  all_goals first
    | exact absurd hc (by decide)
    | rw [h, Option.map_some]

theorem tokens_of_word? {c : Char} {s rest : List Char} {t : Token} (hs : isSpace c = false)
    (h : word? c s = some (t, rest)) : tokens (c :: s) = t :: tokens rest := by
  rw [tokens, if_neg (by simp [hs])]
  split
  · next hn => exact absurd (h.symm.trans hn) (by simp)
  · next he =>
    obtain ⟨rfl, rfl⟩ := Prod.mk.inj (Option.some.inj (h.symm.trans he))
    rfl

theorem tokens_numeral {n : Number} (h : n.Legible) {rest : List Char} (hp : Parted rest) :
    tokens (n.render ++ rest) = .num n :: tokens rest := by
  obtain ⟨x, hx, hn⟩ := h
  have happ := numeral?_append hx hp
  cases hr : n.render with
  | nil =>
    rw [hr] at hx
    cases hx
  | cons c s =>
    rw [hr, List.cons_append] at happ
    have hspace : isSpace c = false := by
      rcases numeral?_head happ with rfl | hd
      · rfl
      · exact isSpace_of_isDigit hd
    rw [List.cons_append, tokens_of_word? hspace (word?_numeral happ), hn]
    rfl

theorem tokens_quote (s : String) (rest : List Char) :
    tokens (quote s.toList ++ rest) = .str s :: tokens rest := by
  have hw : word? '"' (escapeText s.toList ++ '"' :: rest) = some (.str s, rest) := by
    simp [word?, stringBody?_escapeText]
  rw [quote, List.cons_append, List.append_assoc]
  exact tokens_of_word? rfl hw

namespace Value

mutual

/-- The words of the text of a value. -/
def words : Value → List Token
  | .null => [.null]
  | .bool b => [.bool b]
  | .num n => [.num n]
  | .str s => [.str s]
  | .arr items => .openArray :: wordsItems items
  | .obj members => .openObject :: wordsMembers members

def wordsItems : List Value → List Token
  | [] => [.closeArray]
  | [v] => v.words ++ [.closeArray]
  | v :: w :: items => v.words ++ .comma :: wordsItems (w :: items)

def wordsMembers : List (String × Value) → List Token
  | [] => [.closeObject]
  | [(k, v)] => .str k :: .colon :: (v.words ++ [.closeObject])
  | (k, v) :: m :: members => .str k :: .colon :: (v.words ++ .comma :: wordsMembers (m :: members))

end

mutual

/-- The numerals are read back, and at most `n` arrays and objects stand one in the other. -/
def Legible (n : Nat) : Value → Prop
  | .num x => x.Legible
  | .arr items => 0 < n ∧ ItemsLegible (n - 1) items
  | .obj members => 0 < n ∧ MembersLegible (n - 1) members
  | .null | .bool _ | .str _ => True

def ItemsLegible (n : Nat) : List Value → Prop
  | [] => True
  | v :: vs => Legible n v ∧ ItemsLegible n vs

def MembersLegible (n : Nat) : List (String × Value) → Prop
  | [] => True
  | (_, v) :: ms => Legible n v ∧ MembersLegible n ms

end

theorem parted_mark {c : Char} {rest : List Char}
    (h : c.isDigit = false ∧ c ≠ '.' ∧ c ≠ 'e' ∧ c ≠ 'E') : Parted (c :: rest) := by
  rintro d ⟨⟩
  exact h

mutual

theorem tokens_render : (v : Value) → {n : Nat} → v.Legible n → {rest : List Char} → Parted rest →
    tokens (v.render ++ rest) = v.words ++ tokens rest
  | .null, _, _, _, _ => tokens_of_word? rfl rfl
  | .bool true, _, _, _, _ => tokens_of_word? rfl rfl
  | .bool false, _, _, _, _ => tokens_of_word? rfl rfl
  | .num x, _, h, _, hp => tokens_numeral h hp
  | .str s, _, _, rest, _ => tokens_quote s rest
  | .arr items, _, h, rest, _ => by
    rw [render, words, List.cons_append, List.cons_append, tokens_of_word? rfl rfl,
      tokens_renderItems items h.2 rest]
  | .obj members, _, h, rest, _ => by
    rw [render, words, List.cons_append, List.cons_append, tokens_of_word? rfl rfl,
      tokens_renderMembers members h.2 rest]

theorem tokens_renderItems : (vs : List Value) → {n : Nat} → ItemsLegible n vs →
    (rest : List Char) → tokens (renderItems vs ++ rest) = wordsItems vs ++ tokens rest
  | [], _, _, _ => tokens_of_word? rfl rfl
  | [v], _, h, rest => by
    rw [renderItems, wordsItems, List.append_assoc, List.append_assoc, List.singleton_append,
      List.singleton_append, tokens_render v h.1 (parted_mark (by decide)), tokens_of_word? rfl rfl]
  | v :: w :: items, _, h, rest => by
    rw [renderItems, wordsItems, List.append_assoc, List.append_assoc, List.cons_append,
      List.cons_append, tokens_render v h.1 (parted_mark (by decide)), tokens_of_word? rfl rfl,
      tokens_renderItems (w :: items) h.2 rest]

theorem tokens_renderMembers : (ms : List (String × Value)) → {n : Nat} → MembersLegible n ms →
    (rest : List Char) → tokens (renderMembers ms ++ rest) = wordsMembers ms ++ tokens rest
  | [], _, _, _ => tokens_of_word? rfl rfl
  | [(k, v)], _, h, rest => by
    rw [renderMembers, wordsMembers, List.append_assoc, tokens_quote, List.cons_append,
      tokens_of_word? rfl rfl, List.append_assoc, List.singleton_append,
      tokens_render v h.1 (parted_mark (by decide)), tokens_of_word? rfl rfl]
    simp
  | (k, v) :: m :: members, _, h, rest => by
    rw [renderMembers, wordsMembers, List.append_assoc, tokens_quote, List.cons_append,
      tokens_of_word? rfl rfl, List.append_assoc, List.cons_append,
      tokens_render v h.1 (parted_mark (by decide)), tokens_of_word? rfl rfl,
      tokens_renderMembers (m :: members) h.2 rest]
    simp

end

end Value

/-! ## Documents -/

namespace Document

open Value

theorem foldl_itemOrEnd (v : Value) (ts : List Token) (fs : List Frame) :
    (v.words ++ ts).foldl step (.itemOrEnd fs) = (v.words ++ ts).foldl step (.value fs) := by
  cases v <;> cases fs <;> simp [words, step]

theorem foldl_wordsItems_cons (v : Value) (vs : List Value) (fs : List Frame) :
    (wordsItems (v :: vs)).foldl step (.itemOrEnd fs) =
      (wordsItems (v :: vs)).foldl step (.value fs) := by
  cases vs <;> exact foldl_itemOrEnd v _ fs

theorem foldl_wordsMembers_cons (m : String × Value) (ms : List (String × Value))
    (before : List (Option String × Document)) (fs : List Frame) :
    (wordsMembers (m :: ms)).foldl step (.keyOrEnd (.object before :: fs)) =
      (wordsMembers (m :: ms)).foldl step (.key before fs) := by
  cases ms <;> simp [wordsMembers, step]

theorem closed_of_room {d : Document} {fs : List Frame} (h : fs.length < maxDepth) :
    closed d fs = d := if_pos h

mutual

theorem foldl_words : (v : Value) → {n : Nat} → v.Legible n → (fs : List Frame) →
    fs.length + n ≤ maxDepth → v.words.foldl step (.value fs) = place (ofValue v) fs
  | .null, _, _, _, _ | .bool _, _, _, _, _ | .num _, _, _, _, _ | .str _, _, _, _, _ => rfl
  | .arr vs, n, h, fs, hf => by
    have hitems := foldl_wordsItems vs h.2 fs (by have := h.1; omega) []
    rw [words, List.foldl_cons]
    exact hitems
  | .obj ms, n, h, fs, hf => by
    have hmembers := foldl_wordsMembers ms h.2 fs (by have := h.1; omega) []
    rw [words, List.foldl_cons]
    exact hmembers

theorem foldl_wordsItems : (vs : List Value) → {n : Nat} → ItemsLegible n vs →
    (fs : List Frame) → fs.length + 1 + n ≤ maxDepth → (before : List Document) →
    (wordsItems vs).foldl step (.itemOrEnd (.array before :: fs)) =
      place (.arr (before.reverse ++ ofItems vs)) fs
  | [], _, _, fs, hf, before => by
    show place (closed (.arr before.reverse) fs) fs = _
    rw [closed_of_room (by omega), ofItems, List.append_nil]
  | [v], _, h, fs, hf, before => by
    have hv := foldl_words v h.1 (.array before :: fs) (by simpa using hf)
    rw [wordsItems, foldl_itemOrEnd, List.foldl_append, hv]
    show place (closed (.arr (ofValue v :: before).reverse) fs) fs = _
    rw [closed_of_room (by omega), List.reverse_cons]
    rfl
  | v :: w :: vs, _, h, fs, hf, before => by
    have hv := foldl_words v h.1 (.array before :: fs) (by simpa using hf)
    have hrest := foldl_wordsItems (w :: vs) h.2 fs hf (ofValue v :: before)
    -- behind the comma the reader no longer takes an end for an item
    rw [foldl_wordsItems_cons] at hrest
    rw [wordsItems, foldl_itemOrEnd, List.foldl_append, hv, List.foldl_cons]
    show (wordsItems (w :: vs)).foldl step (.value (.array (ofValue v :: before) :: fs)) = _
    rw [hrest, List.reverse_cons, List.append_assoc]
    rfl

theorem foldl_wordsMembers : (ms : List (String × Value)) → {n : Nat} → MembersLegible n ms →
    (fs : List Frame) → fs.length + 1 + n ≤ maxDepth →
    (before : List (Option String × Document)) →
    (wordsMembers ms).foldl step (.keyOrEnd (.object before :: fs)) =
      place (.obj (before.reverse ++ Document.ofMembers ms)) fs
  | [], _, _, fs, hf, before => by
    show place (closed (.obj before.reverse) fs) fs = _
    rw [closed_of_room (by omega), Document.ofMembers, List.append_nil]
  | [(k, v)], _, h, fs, hf, before => by
    have hv := foldl_words v h.1 (.member before (some k) :: fs) (by simpa using hf)
    show (v.words ++ [Token.closeObject]).foldl step (.value (.member before (some k) :: fs)) = _
    rw [List.foldl_append, hv]
    show place (closed (.obj ((some k, ofValue v) :: before).reverse) fs) fs = _
    rw [closed_of_room (by omega), List.reverse_cons]
    rfl
  | (k, v) :: m :: ms, _, h, fs, hf, before => by
    have hv := foldl_words v h.1 (.member before (some k) :: fs) (by simpa using hf)
    have hrest := foldl_wordsMembers (m :: ms) h.2 fs hf ((some k, ofValue v) :: before)
    rw [foldl_wordsMembers_cons] at hrest
    show (v.words ++ Token.comma :: wordsMembers (m :: ms)).foldl step
      (.value (.member before (some k) :: fs)) = _
    rw [List.foldl_append, hv, List.foldl_cons]
    show (wordsMembers (m :: ms)).foldl step (.key ((some k, ofValue v) :: before) fs) = _
    rw [hrest, List.reverse_cons, List.append_assoc]
    rfl

end

/-- **Text that is read back.** A value whose numerals are read back and that is not nested deeper
than a reader follows is read from its text, its members in their order, and nothing is left. -/
theorem ofText_render {v : Value} (h : v.Legible maxDepth) :
    ofText v.render = (ofValue v, true) := by
  have ht : tokens v.render = v.words := by
    have := tokens_render v h parted_nil
    rwa [List.append_nil, tokens, List.append_nil] at this
  have hfold := foldl_words v h [] (by simp)
  rw [ofText, ht, hfold]
  rfl

end Document

end ChatGateway.Json
