import ChatGateway.Answer.Whole
import Mathlib.Tactic.ByContra

/-!
# What the text of arguments stands for

The arguments of a native call are collected as text when they are streamed, and come as one text in
a whole reply; each way has its own reader. `Spelled` is the rule that a stream follows. The readers
agree, but for a quoted text behind white space and for schemas that speak of the error object.
-/

namespace ChatGateway.Answer

open Json

/-! ## White space around a text -/

theorem read_blank {t : List Char} (h : Text.blank t = true) : read (Text.trim t) = none := by
  rw [Text.trim_eq_nil_iff.mpr h]
  decide +kernel

theorem not_blank_of_quote {t : List Char} (h : t.head? = some '"') : Text.blank t = false := by
  obtain ⟨s, rfl⟩ := List.head?_eq_some_iff.mp h
  rfl

/-! ## The rule of a stream -/

section
variable (tools : List Messages.Tool) (name : String)

/-- What the collected arguments of a call are sent as. A JSON string is unwrapped if the text begins
with its quote and it holds JSON; other JSON stands for itself. -/
inductive Spelled : List Char → String → Prop where
  | blank {t : List Char} (h : Text.blank t = true) : Spelled t "\x7b\x7d"
  | quoted {t : List Char} {inner : String} {v : Value} (hq : t.head? = some '"')
    (hs : read (Text.trim t) = some (.str inner)) (hv : read inner.toList = some v) :
    Spelled t (Tool.coerceArguments tools name v).text
  | plain {t : List Char} {v : Value} (hv : read (Text.trim t) = some v)
    (hn : ∀ inner, t.head? = some '"' → v = .str inner → read inner.toList = none) :
    Spelled t (Tool.coerceArguments tools name v).text
  | unreadable {t : List Char} (hn : Text.blank t = false) (hv : read (Text.trim t) = none) :
    Spelled t (unreadable (Text.trim t)).text

theorem readQuoted_of_read {s : List Char} {inner : String} (h : read s = some (.str inner)) :
    readQuoted s = read inner.toList := by
  rw [readQuoted, h]

theorem readQuoted_of_other {s : List Char} (h : ∀ inner, read s ≠ some (.str inner)) :
    readQuoted s = none := by
  unfold readQuoted
  split
  · next inner hs => exact absurd hs (h inner)
  · rfl

theorem readStreamed_of_unquoted {t : List Char} (h : t.head? ≠ some '"') :
    readStreamed t = read (Text.trim t) := by
  rw [readStreamed, if_neg h]
  -- what is no JSON is no JSON string either
  cases hv : read (Text.trim t) with
  | none => rw [readQuoted_of_other fun inner => by rw [hv]; simp]; rfl
  | some v => rfl

theorem readStreamed_of_quoted {t : List Char} (h : t.head? = some '"') :
    readStreamed t = (readQuoted (Text.trim t)).or (read (Text.trim t)) := if_pos h

theorem streamedArguments_of_blank {t : List Char} (h : Text.blank t = true) :
    streamedArguments tools name t = "\x7b\x7d" := by
  rw [streamedArguments, Text.trim_eq_nil_iff.mpr h]
  rfl

theorem streamedArguments_of_some {t : List Char} (hn : Text.blank t = false) {v : Value}
    (h : readStreamed t = some v) :
    streamedArguments tools name t = (Tool.coerceArguments tools name v).text := by
  have hne : (Text.trim t).isEmpty = false := by
    rw [List.isEmpty_eq_false_iff, ne_eq, Text.trim_eq_nil_iff, hn]
    simp
  rw [streamedArguments]
  simp only [hne, h]
  rfl

theorem streamedArguments_of_none {t : List Char} (hn : Text.blank t = false)
    (h : readStreamed t = none) :
    streamedArguments tools name t = (unreadable (Text.trim t)).text := by
  have hne : (Text.trim t).isEmpty = false := by
    rw [List.isEmpty_eq_false_iff, ne_eq, Text.trim_eq_nil_iff, hn]
    simp
  rw [streamedArguments]
  simp only [hne, h]
  rfl

variable {tools name} in
theorem Spelled.eq {t : List Char} {out : String} (h : Spelled tools name t out) :
    streamedArguments tools name t = out := by
  cases h with
  | blank h => exact streamedArguments_of_blank tools name h
  | @quoted inner v hq hs hv =>
    refine streamedArguments_of_some tools name (not_blank_of_quote hq) ?_
    rw [readStreamed_of_quoted hq, readQuoted_of_read hs, hv]
    rfl
  | @plain v hv hn =>
    have hblank : Text.blank t = false := by
      refine Bool.eq_false_iff.mpr fun h => ?_
      rw [read_blank h] at hv
      exact absurd hv (by simp)
    refine streamedArguments_of_some tools name hblank ?_
    by_cases hq : t.head? = some '"'
    · have hnone : readQuoted (Text.trim t) = none := by
        unfold readQuoted
        split
        · next inner hs => exact hn inner hq (by rw [hs] at hv; simpa using hv.symm)
        · rfl
      rw [readStreamed_of_quoted hq, hnone, hv]
      rfl
    · rw [readStreamed_of_unquoted hq, hv]
  | unreadable hn hv =>
    refine streamedArguments_of_none tools name hn ?_
    have hnone : readQuoted (Text.trim t) = none := readQuoted_of_other fun inner => by
      rw [hv]; simp
    rw [readStreamed, hnone, hv]
    simp

theorem spelled_streamedArguments (t : List Char) :
    Spelled tools name t (streamedArguments tools name t) := by
  by_cases hb : Text.blank t = true
  · rw [streamedArguments_of_blank tools name hb]
    exact .blank hb
  have hb : Text.blank t = false := by simpa using hb
  cases hv : read (Text.trim t) with
  | none =>
    rw [(Spelled.unreadable hb hv : Spelled tools name t _).eq]
    exact .unreadable hb hv
  | some v =>
    by_cases hq : ∃ inner w, t.head? = some '"' ∧ v = .str inner ∧ read inner.toList = some w
    · obtain ⟨inner, w, hq, rfl, hw⟩ := hq
      rw [(Spelled.quoted hq hv hw : Spelled tools name t _).eq]
      exact .quoted hq hv hw
    · have hn : ∀ inner, t.head? = some '"' → v = .str inner → read inner.toList = none := by
        intro inner h he
        cases hr : read inner.toList with
        | none => rfl
        | some w => exact absurd ⟨inner, w, h, he, hr⟩ hq
      rw [(Spelled.plain hv hn : Spelled tools name t _).eq]
      exact .plain hv hn

theorem spelled_iff {t : List Char} {out : String} :
    Spelled tools name t out ↔ streamedArguments tools name t = out :=
  ⟨fun h => h.eq, fun h => h ▸ spelled_streamedArguments tools name t⟩

/-! ## The rule of a whole reply -/

/-- White space stands in front of a JSON string that holds JSON. -/
def Spaced (t : List Char) : Prop :=
  t.head? ≠ some '"' ∧
    ∃ inner v, read (Text.trim t) = some (.str inner) ∧ read inner.toList = some v

/-- The tool says nothing about the members of the object for unreadable arguments. -/
def Undeclared : Prop :=
  ∀ schema, Tool.findSchema tools name = some schema →
    ∀ p ∈ Tool.Schema.properties schema, p.1 ≠ "error" ∧ p.1 ≠ "raw"

theorem wholeArguments_of_blank {text : String} (h : Text.blank text.toList = true) :
    wholeArguments text = .obj [] := by
  rw [wholeArguments, Text.trim_eq_nil_iff.mpr h]
  rfl

theorem wholeArguments_of_not_blank {text : String} (h : Text.blank text.toList = false) :
    wholeArguments text =
      match read (Text.trim text.toList) with
      | some (.str inner) => (read inner.toList).getD (.str inner)
      | some v => v
      | none => unreadable (Text.trim text.toList) := by
  have hne : (Text.trim text.toList).isEmpty = false := by
    rw [List.isEmpty_eq_false_iff, ne_eq, Text.trim_eq_nil_iff, h]
    simp
  rw [wholeArguments]
  simp only [hne]
  rfl

theorem coerceMember_of_absent {ps : List (String × Tool.Schema)} {key : String}
    (h : ∀ p ∈ ps, p.1 ≠ key) (v : Value) : Tool.coerceMember ps key v = v := by
  induction ps with
  | nil => rw [Tool.coerceMember]
  | cons p ps ih =>
    obtain ⟨hp, hps⟩ := List.forall_mem_cons.mp h
    rw [Tool.coerceMember, if_neg hp, ih hps]

theorem coerceArguments_obj (ms : List (String × Value)) :
    Tool.coerceArguments tools name (.obj ms) =
      (Tool.findSchema tools name).elim (.obj ms) fun schema =>
        .obj (ms.map fun (k, v) => (k, Tool.coerceMember (Tool.Schema.properties schema) k v)) := by
  unfold Tool.coerceArguments
  cases Tool.findSchema tools name <;> rfl

theorem coerceArguments_empty : Tool.coerceArguments tools name (.obj []) = .obj [] := by
  rw [coerceArguments_obj]
  cases Tool.findSchema tools name <;> rfl

variable {tools name}

theorem coerceArguments_unreadable (h : Undeclared tools name) (raw : List Char) :
    Tool.coerceArguments tools name (unreadable raw) = unreadable raw := by
  rw [unreadable, coerceArguments_obj]
  cases hs : Tool.findSchema tools name with
  | none => rfl
  | some schema =>
    have herror := coerceMember_of_absent fun p hp => (h schema hs p hp).1
    have hraw := coerceMember_of_absent fun p hp => (h schema hs p hp).2
    simp [herror, hraw]

/-- **Two readers of arguments.** They agree on plain JSON, on a JSON string that holds JSON if its
quote is the first character, on white space, and on a text that is no JSON if the tool says nothing
about the object that stands for it. -/
theorem streamedArguments_eq_whole {text : String} (hs : ¬ Spaced text.toList)
    (hu : Text.blank text.toList = false → read (Text.trim text.toList) = none →
      Undeclared tools name) :
    streamedArguments tools name text.toList =
      (Tool.coerceArguments tools name (wholeArguments text)).text := by
  refine Spelled.eq ?_
  by_cases hb : Text.blank text.toList = true
  · rw [wholeArguments_of_blank hb, coerceArguments_empty]
    exact .blank hb
  have hb : Text.blank text.toList = false := by simpa using hb
  rw [wholeArguments_of_not_blank hb]
  cases hv : read (Text.trim text.toList) with
  | none =>
    simp only [coerceArguments_unreadable (hu hb hv)]
    exact .unreadable hb hv
  | some v =>
    by_cases hq : ∃ inner, v = .str inner
    · obtain ⟨inner, rfl⟩ := hq
      simp only
      cases hw : read inner.toList with
      | none =>
        refine .plain hv fun inner' _ he => ?_
        obtain rfl := Value.str.inj he
        exact hw
      | some w =>
        have hquote : text.toList.head? = some '"' := by
          by_contra h
          exact hs ⟨h, inner, w, hv, hw⟩
        exact .quoted hquote hv hw
    · have hplain : Spelled tools name text.toList (Tool.coerceArguments tools name v).text :=
        .plain hv fun inner _ he => absurd ⟨inner, he⟩ hq
      cases v with
      | str inner => exact absurd ⟨inner, rfl⟩ hq
      | null => exact hplain
      | bool b => exact hplain
      | num n => exact hplain
      | arr items => exact hplain
      | obj members => exact hplain

end

end ChatGateway.Answer
