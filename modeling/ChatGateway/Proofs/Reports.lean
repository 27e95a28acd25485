import ChatGateway.Proofs.Scanning
import ChatGateway.Text.Utf8
import Mathlib.Data.List.Basic
import Mathlib.Order.Bounds.Defs

/-!
# What a scan reports

`report` gives what a scan finds by offsets in bytes, and `Means` says what a report tells about the
buffer and about every text that begins with it. The bound that is reported for plain text is the
greatest that holds whatever follows; a complete span is reported for good.
-/

namespace ChatGateway.Text

theorem byteSize_le_of_prefix {s t : List Char} (h : s <+: t) : byteSize s ≤ byteSize t := by
  obtain ⟨r, rfl⟩ := h
  rw [byteSize_append]
  omega

theorem byteSize_pos {s : List Char} (h : s ≠ []) : 0 < byteSize s := by
  obtain ⟨c, s, rfl⟩ := List.exists_cons_of_ne_nil h
  have := Char.utf8Size_pos c
  simp only [byteSize, List.foldr_cons]
  omega

/-- The first `n` bytes of a text are whole characters. -/
def Boundary (s : List Char) (n : Nat) : Prop := ∃ t, t <+: s ∧ byteSize t = n

end ChatGateway.Text

namespace ChatGateway.Markup

open Text

/-! ## Offsets -/

/-- What a scan finds, with offsets in bytes. -/
inductive Report where
  | plain (safe : Nat)
  | incomplete (leading : Nat)
  | found (leading consumed : Nat) (calls : List Call)
  | literal (consumed : Nat)
deriving DecidableEq, Repr

def Extraction.report (buffer : List Char) : Extraction → Report
  | .plain safe _ => .plain (byteSize safe)
  | .incomplete leading _ => .incomplete (byteSize leading)
  | .found leading cs rest => .found (byteSize leading) (byteSize buffer - byteSize rest) cs
  | .literal _ rest => .literal (byteSize buffer - byteSize rest)

def report (tools : List Messages.Tool) (buffer : List Char) : Report :=
  (scan tools buffer).report buffer

/-! ## What reports mean -/

/-- Whatever follows, no opening marker of either markup begins inside the first `n` bytes. -/
def Settles (b : List Char) (n : Nat) : Prop :=
  ∀ e, ∀ g ∈ grammars, ∀ x y, b ++ e = x ++ g.opening ++ y → n ≤ byteSize x

/-- The first opening marker of either markup is that of `g` behind `leading`. -/
structure Opens (b leading : List Char) (g : Grammar) (after : List Char) : Prop where
  mem : g ∈ grammars
  spells : b = leading ++ g.opening ++ after
  first : ∀ g' ∈ grammars, ∀ x y, b = x ++ g'.opening ++ y → leading <+: x

/-- Between two offsets stands a span: from the first opening marker of either markup to the first
closing marker of the same markup behind it. -/
def Spans (b : List Char) (l c : Nat) (g : Grammar) (body : List Char) : Prop :=
  ∃ leading rest, Opens b leading g (body ++ g.closing ++ rest) ∧ IsSpan g body ∧
    byteSize leading = l ∧ byteSize (leading ++ g.opening ++ body ++ g.closing) = c

/-- What a report tells about the buffer that was scanned, and about its continuations. -/
def Report.Means (tools : List Messages.Tool) (b : List Char) : Report → Prop
  | .plain n => Boundary b n ∧ (∀ g ∈ grammars, ¬ g.opening <:+: b) ∧ IsGreatest {n | Settles b n} n
  | .incomplete l => Boundary b l ∧ l < byteSize b ∧
      (∃ leading g after, Opens b leading g after ∧ byteSize leading = l ∧ ¬ g.closing <:+: after) ∧
      ∀ e, report tools (b ++ e) = .incomplete l ∨
        (∃ c cs, report tools (b ++ e) = .found l c cs) ∨
          ∃ c, report tools (b ++ e) = .literal c ∧ l < c
  | .found l c cs => Boundary b l ∧ Boundary b c ∧ l < c ∧ c ≤ byteSize b ∧
      cs ≠ [] ∧ (∀ call ∈ cs, call.arguments.isObject = true) ∧
      (∃ g body, Spans b l c g body ∧ g.calls tools body = cs) ∧
      ∀ e, report tools (b ++ e) = .found l c cs
  | .literal c => Boundary b c ∧ c ≤ byteSize b ∧
      (∃ l g body, l < c ∧ Spans b l c g body ∧ g.calls tools body = []) ∧
      ∀ e, report tools (b ++ e) = .literal c

theorem opening_mem {g : Grammar} (h : g ∈ grammars) : g.opening ∈ openings := by
  rcases List.mem_pair.mp h with rfl | rfl <;> simp [openings]

theorem opens_of_cutAny? {b l o a : List Char} (h : cutAny? openings b = some (l, o, a)) :
    Opens b l (grammarOf o) a := by
  obtain ⟨ho, hb, hc⟩ := openings_angled.cutAny?_eq_some_iff.mp h
  refine ⟨grammarOf_mem o, by rw [opening_grammarOf ho]; exact hb, fun g hg x y he => ?_⟩
  rw [List.append_assoc] at hb
  exact (hc _ (opening_mem hg)).prefix_of_occurrence (hb.symm.trans he)

theorem isObject_of_mem_calls {tools : List Messages.Tool} {g : Grammar} (hg : g ∈ grammars)
    {body : List Char} {call : Call} (h : call ∈ g.calls tools body) :
    call.arguments.isObject = true := by
  rcases List.mem_pair.mp hg with rfl | rfl
  · obtain ⟨f, -, hf⟩ := List.mem_filterMap.mp h
    obtain ⟨-, -, rfl⟩ := Option.map_eq_some_iff.mp hf
    rfl
  · simp only [kimi, Kimi.sectionCalls] at h
    split at h
    · next hall => exact List.all_eq_true.mp hall call h
    · exact absurd h List.not_mem_nil

/-! ## Reports, case by case -/

section
variable (tools : List Messages.Tool)

theorem report_of_open {b l o a : List Char} (h : cutAny? openings b = some (l, o, a))
    (hk : cut? (grammarOf o).closing a = none) : report tools b = .incomplete (byteSize l) := by
  rw [report, scan_of_open tools h hk]
  rfl

theorem report_of_span {b l o a body rest : List Char} (h : cutAny? openings b = some (l, o, a))
    (hk : cut? (grammarOf o).closing a = some (body, rest)) :
    report tools b =
      if ((grammarOf o).calls tools body).isEmpty then
        .literal (byteSize (l ++ o ++ body ++ (grammarOf o).closing))
      else .found (byteSize l) (byteSize (l ++ o ++ body ++ (grammarOf o).closing))
        ((grammarOf o).calls tools body) := by
  obtain ⟨-, hb⟩ := cutAny?_append (fun _ => openings_angled.ne_nil) h
  have ha := cut?_append (closing_ne_nil o) hk
  have hsize : byteSize b - byteSize rest = byteSize (l ++ o ++ body ++ (grammarOf o).closing) := by
    rw [← hb, ← ha]
    simp only [byteSize_append]
    omega
  rw [report, scan_of_span tools h hk]
  split <;> simp only [Extraction.report, hsize]

theorem settles_splitHeld {b : List Char} (h : cutAny? openings b = none) :
    Settles b (byteSize (splitHeld openings b).1) := by
  intro e g hg x y he
  have hclear := clear_splitHeld h e _ (opening_mem hg)
  rw [← splitHeld_append openings b, List.append_assoc] at he
  exact byteSize_le_of_prefix (hclear.prefix_of_occurrence he)

theorem le_splitHeld_of_settles {b : List Char} {n : Nat} (h : Settles b n) :
    n ≤ byteSize (splitHeld openings b).1 := by
  have hb := splitHeld_append openings b
  rcases splitHeld_snd openings b with hnil | hstarts
  · refine h qwen.opening qwen (by simp [grammars]) _ [] ?_
    rw [hnil, List.append_nil] at hb
    rw [hb, List.append_nil]
  · obtain ⟨m, hm, ⟨r, hr⟩, -⟩ := startsMarker_iff.mp hstarts
    refine h r (grammarOf m) (grammarOf_mem m) _ [] ?_
    rw [opening_grammarOf hm, ← hr, List.append_nil, ← List.append_assoc, hb]

theorem means_of_none {b : List Char} (h : cutAny? openings b = none) :
    (report tools b).Means tools b := by
  rw [report, scan_of_none tools h]
  refine ⟨⟨_, ⟨_, splitHeld_append openings b⟩, rfl⟩, fun g hg => ?_, settles_splitHeld h,
    fun n hn => le_splitHeld_of_settles hn⟩
  have hm := opening_mem hg
  exact (clear_iff_absent (openings_angled.ne_nil hm)).mp (cutAny?_eq_none_iff.mp h _ hm)

variable {b l o a : List Char} (h : cutAny? openings b = some (l, o, a))
include h

theorem boundary_of_cutAny? : Boundary b (byteSize l) ∧ byteSize l < byteSize b := by
  obtain ⟨ho, rfl, -⟩ := openings_angled.cutAny?_eq_some_iff.mp h
  have hpos := byteSize_pos (openings_angled.ne_nil ho)
  refine ⟨⟨l, ⟨o ++ a, by simp⟩, rfl⟩, ?_⟩
  simp only [byteSize_append]
  omega

theorem means_of_open (hk : cut? (grammarOf o).closing a = none) :
    (report tools b).Means tools b := by
  obtain ⟨hboundary, hlt⟩ := boundary_of_cutAny? h
  have habsent := (clear_iff_absent (closing_ne_nil o)).mp (cut?_eq_none_iff.mp hk)
  rw [report_of_open tools h hk]
  refine ⟨hboundary, hlt, ⟨l, _, a, opens_of_cutAny? h, rfl, habsent⟩, fun e => ?_⟩
  have he := openings_angled.cutAny?_append_right h e
  cases hke : cut? (grammarOf o).closing (a ++ e) with
  | none => exact .inl (report_of_open tools he hke)
  | some r =>
    obtain ⟨body, rest⟩ := r
    have hreport := report_of_span tools he hke
    split at hreport
    · refine .inr (.inr ⟨_, hreport, ?_⟩)
      have hpos := byteSize_pos (closing_ne_nil o)
      simp only [byteSize_append]
      omega
    · exact .inr (.inl ⟨_, _, hreport⟩)

theorem spans_of_cut? {body rest : List Char}
    (hk : cut? (grammarOf o).closing a = some (body, rest)) :
    Spans b (byteSize l) (byteSize (l ++ o ++ body ++ (grammarOf o).closing)) (grammarOf o)
      body := by
  have hopens := opens_of_cutAny? h
  rw [← cut?_append (closing_ne_nil o) hk] at hopens
  obtain ⟨ho, -, -⟩ := openings_angled.cutAny?_eq_some_iff.mp h
  exact ⟨l, rest, hopens, isSpan_of_cut? hk, rfl, by rw [opening_grammarOf ho]⟩

theorem means_of_span {body rest : List Char}
    (hk : cut? (grammarOf o).closing a = some (body, rest)) : (report tools b).Means tools b := by
  have hspans := spans_of_cut? h hk
  have hreport := report_of_span tools h hk
  have hagain : ∀ e, report tools (b ++ e) = report tools b := fun e => by
    rw [hreport]
    exact report_of_span tools (openings_angled.cutAny?_append_right h e)
      (cut?_append_right (closing_ne_nil o) hk e)
  have hend : l ++ o ++ body ++ (grammarOf o).closing <+: b := by
    obtain ⟨-, hb⟩ := cutAny?_append (fun _ => openings_angled.ne_nil) h
    exact ⟨rest, by rw [← hb, ← cut?_append (closing_ne_nil o) hk]; simp⟩
  have hlt : byteSize l < byteSize (l ++ o ++ body ++ (grammarOf o).closing) := by
    have hpos := byteSize_pos (closing_ne_nil o)
    simp only [byteSize_append]
    omega
  generalize l ++ o ++ body ++ (grammarOf o).closing = front at hspans hreport hend hlt
  split at hreport
  · next hnone =>
    rw [hreport] at hagain ⊢
    exact ⟨⟨front, hend, rfl⟩, byteSize_le_of_prefix hend,
      ⟨byteSize l, _, body, hlt, hspans, List.isEmpty_iff.mp hnone⟩, hagain⟩
  · next hsome =>
    rw [hreport] at hagain ⊢
    exact ⟨(boundary_of_cutAny? h).1, ⟨front, hend, rfl⟩, hlt, byteSize_le_of_prefix hend,
      fun hnil => hsome (List.isEmpty_iff.mpr hnil),
      fun call hc => isObject_of_mem_calls (grammarOf_mem o) hc, ⟨_, body, hspans, rfl⟩, hagain⟩

end

/-- **What a scan reports.** For plain text it is the greatest bound in front of which no span can
begin, whatever follows. A span that has begun keeps its place when more text follows, and the
report of a complete span stays as it is. Offsets lie between characters, the span is the first one
of either markup, and each call that is found in it has an object for its arguments. -/
theorem report_means (tools : List Messages.Tool) (b : List Char) :
    (report tools b).Means tools b := by
  cases h : cutAny? openings b with
  | none => exact means_of_none tools h
  | some r =>
    obtain ⟨l, o, a⟩ := r
    cases hk : cut? (grammarOf o).closing a with
    | none => exact means_of_open tools h hk
    | some q => exact means_of_span tools h hk

end ChatGateway.Markup
