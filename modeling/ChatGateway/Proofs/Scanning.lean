import ChatGateway.Markup.Scan
import ChatGateway.Proofs.Markers

/-!
# Scanning a text that grows

What a scan has settled stays settled when more text arrives: `drain_append` says that draining a
text in two parts, the second behind what the first left over, finds the same segments as draining
it at once. `Spells` relates segments to the text that they were read from, and `Waiting` says what
a text looks like that is left over.
-/

namespace ChatGateway.Markup

open Text

/-! ## The markers of both markups -/

theorem openings_angled : Angled openings where
  head := by decide
  tail := by decide
  free := by decide

def grammars : List Grammar := [qwen, kimi]

theorem grammarOf_mem (o : List Char) : grammarOf o ∈ grammars := by
  unfold grammarOf
  split <;> simp [grammars]

theorem closing_ne_nil (o : List Char) : (grammarOf o).closing ≠ [] := by
  unfold grammarOf
  split <;> decide

theorem opening_grammarOf {o : List Char} (h : o ∈ openings) : (grammarOf o).opening = o := by
  simp only [openings, List.mem_cons, List.not_mem_nil, or_false] at h
  rcases h with rfl | rfl
  · rfl
  · have : kimi.opening ≠ qwen.opening := by decide
    rw [grammarOf, if_neg this]

/-! ## One scan -/

section
variable (tools : List Messages.Tool)

theorem scan_of_none {s : List Char} (h : cutAny? openings s = none) :
    scan tools s = .plain (splitHeld openings s).1 (splitHeld openings s).2 := by
  rw [scan, h]

theorem scan_of_open {s b o a : List Char} (h : cutAny? openings s = some (b, o, a))
    (hk : cut? (grammarOf o).closing a = none) : scan tools s = .incomplete b (o ++ a) := by
  rw [scan, h]
  simp only [hk]

theorem scan_of_span {s b o a body rest : List Char} (h : cutAny? openings s = some (b, o, a))
    (hk : cut? (grammarOf o).closing a = some (body, rest)) :
    scan tools s =
      if ((grammarOf o).calls tools body).isEmpty then
        .literal (b ++ o ++ body ++ (grammarOf o).closing) rest
      else .found b ((grammarOf o).calls tools body) rest := by
  rw [scan, h]
  simp only [hk]

/-! ## Draining -/

def spanSegments (b o body : List Char) : List Segment :=
  if ((grammarOf o).calls tools body).isEmpty then
    [.text (b ++ o ++ body ++ (grammarOf o).closing)]
  else [.text b, .calls ((grammarOf o).calls tools body)]

theorem drain_of_none {s : List Char} (h : cutAny? openings s = none) :
    drain tools s = ⟨[], (splitHeld openings s).1, (splitHeld openings s).2⟩ := by
  have hs := scan_of_none tools h
  rw [drain]
  split <;> simp_all

theorem drain_of_open {s b o a : List Char} (h : cutAny? openings s = some (b, o, a))
    (hk : cut? (grammarOf o).closing a = none) : drain tools s = ⟨[], b, o ++ a⟩ := by
  have hs := scan_of_open tools h hk
  rw [drain]
  split <;> simp_all

theorem drain_of_span {s b o a body rest : List Char} (h : cutAny? openings s = some (b, o, a))
    (hk : cut? (grammarOf o).closing a = some (body, rest)) :
    drain tools s = (drain tools rest).after (spanSegments tools b o body) := by
  have hs := scan_of_span tools h hk
  rw [drain, spanSegments]
  by_cases he : ((grammarOf o).calls tools body).isEmpty = true
  · rw [if_pos he] at hs ⊢
    split <;> simp_all
  · rw [if_neg he] at hs ⊢
    split <;> simp_all

/-- A drain goes from one complete span to the next, up to a text without one. -/
theorem drain_induction {P : List Char → Prop}
    (plain : ∀ s, cutAny? openings s = none → P s)
    (opened : ∀ s b o a, cutAny? openings s = some (b, o, a) →
      cut? (grammarOf o).closing a = none → P s)
    (span : ∀ s b o a body rest, cutAny? openings s = some (b, o, a) →
      cut? (grammarOf o).closing a = some (body, rest) → P rest → P s) (s : List Char) : P s := by
  induction h : s.length using Nat.strongRecOn generalizing s with
  | _ n ih =>
    cases ha : cutAny? openings s with
    | none => exact plain s ha
    | some p =>
      obtain ⟨b, o, a⟩ := p
      cases hk : cut? (grammarOf o).closing a with
      | none => exact opened s b o a ha hk
      | some q =>
        obtain ⟨body, rest⟩ := q
        have hlt := Nat.lt_trans (length_cut? hk) (length_cutAny? ha)
        exact span s b o a body rest ha hk (ih rest.length (h ▸ hlt) rest rfl)

/-! ## Draining in two parts -/

def Drained.behind (t : List Char) (d : Drained) : Drained :=
  match d.segments with
  | [] => { d with settled := t ++ d.settled }
  | .text s :: ss => { d with segments := .text (t ++ s) :: ss }
  | .calls cs :: ss => { d with segments := .text t :: .calls cs :: ss }

theorem behind_spanSegments (t b o body : List Char) (d : Drained) :
    (d.after (spanSegments tools b o body)).behind t =
      d.after (spanSegments tools (t ++ b) o body) := by
  unfold spanSegments
  split <;> simp [Drained.after, Drained.behind]

theorem drain_behind {t u : List Char} (hc : ∀ m ∈ openings, Clear m t u)
    (hh : ∀ b, b ≠ [] → b <:+ t → startsMarker openings (b ++ u) = false) :
    drain tools (t ++ u) = (drain tools u).behind t := by
  have hcut := cutAny?_append_left hc
  cases ha : cutAny? openings u with
  | none =>
    rw [ha, Option.map_none] at hcut
    rw [drain_of_none tools hcut, drain_of_none tools ha, splitHeld_append_left hh]
    rfl
  | some p =>
    obtain ⟨b, o, a⟩ := p
    rw [ha, Option.map_some] at hcut
    cases hk : cut? (grammarOf o).closing a with
    | none => rw [drain_of_open tools hcut hk, drain_of_open tools ha hk]; rfl
    | some q => rw [drain_of_span tools hcut hk, drain_of_span tools ha hk, behind_spanSegments]

theorem drain_append_of_none {z : List Char} (ha : cutAny? openings z = none) (y : List Char) :
    drain tools (z ++ y) =
      (drain tools ((splitHeld openings z).2 ++ y)).behind (splitHeld openings z).1 := by
  conv => lhs; rw [← splitHeld_append openings z, List.append_assoc]
  refine drain_behind tools (clear_splitHeld ha y) fun b hb hs => ?_
  rw [← List.append_assoc]
  exact startsMarker_append (splitHeld_fst openings z b hb hs) y

theorem drain_append_of_open {z b o a : List Char} (ha : cutAny? openings z = some (b, o, a))
    (y : List Char) : drain tools (z ++ y) = (drain tools (o ++ a ++ y)).behind b := by
  obtain ⟨ho, rfl, hc⟩ := openings_angled.cutAny?_eq_some_iff.mp ha
  rw [List.append_assoc b, List.append_assoc b]
  refine drain_behind tools
    (fun m hm => openings_angled.clear_append_right hm ho (hc m hm) y) fun x hx hs => ?_
  -- a marker that begins in front of `o` would have to contain it
  refine Bool.eq_false_iff.mpr fun h => ?_
  obtain ⟨m, hm, hp, -⟩ := startsMarker_iff.mp h
  refine openings_angled.no_overlap hm ho hx (List.IsPrefix.trans ⟨a ++ y, ?_⟩ hp)
  simp

/-- **Draining in two parts.** The segments of the first part stay, what it settled goes in front of
what the second settles, and what it left over is drained again with the second. -/
theorem drain_append (z y : List Char) :
    drain tools (z ++ y) =
      ((drain tools ((drain tools z).held ++ y)).behind (drain tools z).settled).after
        (drain tools z).segments := by
  induction z using drain_induction with
  | plain z ha =>
    rw [drain_append_of_none tools ha, drain_of_none tools ha]
    rfl
  | opened z b o a ha hk =>
    rw [drain_append_of_open tools ha, drain_of_open tools ha hk]
    rfl
  | span z b o a body rest ha hk ih =>
    rw [drain_of_span tools ha hk, drain_of_span tools (openings_angled.cutAny?_append_right ha y)
      (cut?_append_right (closing_ne_nil o) hk y), ih]
    simp [Drained.after]

theorem drain_held (z : List Char) :
    drain tools (drain tools z).held = ⟨[], [], (drain tools z).held⟩ := by
  have h := drain_append tools z []
  rw [List.append_nil, List.append_nil] at h
  generalize drain tools z = d at h ⊢
  generalize drain tools d.held = e at h ⊢
  obtain ⟨segments, settled, held⟩ := d
  obtain ⟨segments', settled', held'⟩ := e
  simp only [Drained.behind, Drained.after] at h
  split at h <;> simp_all

/-! ## What is left over, and what was read -/

/-- A proper beginning of an opening marker, or an opening marker whose span is not closed. -/
def Waiting (s : List Char) : Prop :=
  (∃ g ∈ grammars, s <+: g.opening ∧ s ≠ g.opening) ∨
    ∃ g ∈ grammars, ∃ a, s = g.opening ++ a ∧ ¬ g.closing <:+: a

theorem waiting_nil : Waiting [] := .inl ⟨qwen, by simp [grammars], List.nil_prefix, by decide⟩

theorem waiting_of_startsMarker {s : List Char} (h : startsMarker openings s = true) :
    Waiting s := by
  obtain ⟨m, hm, hp, hl⟩ := startsMarker_iff.mp h
  refine .inl ⟨grammarOf m, grammarOf_mem m, ?_⟩
  rw [opening_grammarOf hm]
  exact ⟨hp, fun he => absurd hl (by rw [he]; exact Nat.lt_irrefl _)⟩

theorem waiting_held (z : List Char) : Waiting (drain tools z).held := by
  induction z using drain_induction with
  | plain z ha =>
    rw [drain_of_none tools ha]
    rcases splitHeld_snd openings z with h | h
    · simp only [h]
      exact waiting_nil
    · exact waiting_of_startsMarker h
  | opened z b o a ha hk =>
    obtain ⟨ho, -, -⟩ := openings_angled.cutAny?_eq_some_iff.mp ha
    rw [drain_of_open tools ha hk]
    refine .inr ⟨grammarOf o, grammarOf_mem o, a, by rw [opening_grammarOf ho], ?_⟩
    exact (clear_iff_absent (closing_ne_nil o)).mp (cut?_eq_none_iff.mp hk)
  | span z b o a body rest ha hk ih =>
    rw [drain_of_span tools ha hk]
    exact ih

/-- A span from an opening marker to the first closing marker of the same markup. -/
def IsSpan (g : Grammar) (body : List Char) : Prop :=
  g ∈ grammars ∧ ∀ x y, body ++ g.closing = x ++ g.closing ++ y → y = []

theorem isSpan_of_cut? {o a body rest : List Char}
    (h : cut? (grammarOf o).closing a = some (body, rest)) : IsSpan (grammarOf o) body := by
  obtain ⟨-, hc⟩ := (cut?_eq_some_iff (closing_ne_nil o)).mp h
  refine ⟨grammarOf_mem o, fun x y he => Classical.byContradiction fun hy => ?_⟩
  have hl : x.length + y.length = body.length := by
    have := congrArg List.length he
    simp only [List.length_append] at this
    omega
  obtain ⟨b, rfl⟩ : x <+: body :=
    List.prefix_of_prefix_length_le ⟨_, by rw [he, List.append_assoc]⟩ (List.prefix_append _ _)
      (by omega)
  -- `b` is not empty, and the marker begins where it begins
  rw [List.append_assoc, List.append_assoc] at he
  have hb : b ≠ [] := by
    rintro rfl
    exact hy (by simpa using hl)
  refine hc b hb (List.suffix_append x b) ⟨y ++ rest, ?_⟩
  rw [← List.append_assoc, ← List.append_assoc, ← List.append_cancel_left he]

/-- The text that segments were read from: text stands for itself, calls for a span. -/
inductive Spells : List Segment → List Char → Prop where
  | nil : Spells [] []
  | text (t : List Char) {ss : List Segment} {r : List Char} (h : Spells ss r) :
    Spells (.text t :: ss) (t ++ r)
  | calls {g : Grammar} {body : List Char} (hs : IsSpan g body) (hc : g.calls tools body ≠ [])
    {ss : List Segment} {r : List Char} (h : Spells ss r) :
    Spells (.calls (g.calls tools body) :: ss) (g.opening ++ body ++ g.closing ++ r)

theorem drain_spells (z : List Char) :
    ∃ r, Spells tools (drain tools z).segments r ∧
      z = r ++ (drain tools z).settled ++ (drain tools z).held := by
  induction z using drain_induction with
  | plain z ha =>
    rw [drain_of_none tools ha]
    exact ⟨[], .nil, (splitHeld_append openings z).symm⟩
  | opened z b o a ha hk =>
    obtain ⟨-, hz, -⟩ := openings_angled.cutAny?_eq_some_iff.mp ha
    rw [drain_of_open tools ha hk]
    exact ⟨[], .nil, by simp [hz]⟩
  | span z b o a body rest ha hk ih =>
    obtain ⟨ho, hz, -⟩ := openings_angled.cutAny?_eq_some_iff.mp ha
    obtain ⟨ha', -⟩ := (cut?_eq_some_iff (closing_ne_nil o)).mp hk
    obtain ⟨r, hr, he⟩ := ih
    rw [drain_of_span tools ha hk, spanSegments]
    split
    · refine ⟨_, .text _ hr, ?_⟩
      simp only [Drained.after]
      rw [hz, ha']
      simpa using he
    · next hne =>
      refine ⟨_, .text b (.calls (isSpan_of_cut? hk) (by simpa using hne) hr), ?_⟩
      simp only [Drained.after, opening_grammarOf ho]
      rw [hz, ha']
      simpa using he

end

end ChatGateway.Markup
