import ChatGateway.Proofs.Records
import Mathlib.Data.List.Count

/-!
# Documents that are tidied

A document with a value can be put in order, so that no object gives a key twice and the value is
kept. Decoders take no notice of that, unless they pass over repeated keys: what they take a document
to, they take the tidied document to as well (`Keeps`).
-/

namespace ChatGateway

/-! ## Tidied documents -/

namespace Json.Document

open Value

/-- Members that may repeat a key and members of the same values that do not. -/
structure TidiedMembers (ms ms' : List (Option String × Document)) : Prop where
  keys : (ms'.map (·.1)).Nodup
  tidy : ∀ p ∈ ms', p.2.Tidy
  entries : ∃ es es', members? ms = some es ∧ members? ms' = some es' ∧
    Table.ofEntries es = Table.ofEntries es'

/-- The other document gives no key twice and has the value of this one. -/
structure Tidied (d d' : Document) : Prop where
  tidy : d'.Tidy
  value : ∃ v, d.value? = some v ∧ d'.value? = some v

namespace Tidied

variable {d d' : Document}

theorem of_value? {v : Value} (h : d.value? = some v) : d.Tidied (ofValue v) := by
  have hv := canonical_of_value? d h
  refine ⟨tidy_of_canonical v hv, v, h, ?_⟩
  rw [value?_ofValue, hv]

theorem means (h : d.Tidied d') {v : Value} (hv : d.value? = some v) : d'.Says v := by
  obtain ⟨w, hw, hw'⟩ := h.value
  obtain rfl : w = v := Option.some.inj (hw.symm.trans hv)
  exact ⟨h.tidy, by rw [hw', canonical_of_value? d hv]⟩

theorem null (h : Tidied .null d') : d' = .null := (h.means rfl).null

theorem bool {b : Bool} (h : Tidied (.bool b) d') : d' = .bool b := (h.means rfl).bool

theorem num {n : Number} (h : Tidied (.num n) d') : d' = .num n := (h.means rfl).num

theorem str {s : String} (h : Tidied (.str s) d') : d' = .str s := (h.means rfl).str

theorem ne_void (h : Tidied .void d') : False := by
  obtain ⟨v, hv, -⟩ := h.value
  cases hv

theorem ne_broken (h : Tidied .broken d') : False := by
  obtain ⟨v, hv, -⟩ := h.value
  cases hv

theorem items {ds ds' : List Document} {vs : List Value}
    (hds : List.Forall₂ (fun d v => d.value? = some v) ds vs) (hc : ∀ v ∈ vs, v.Canonical)
    (hds' : List.Forall₂ Says ds' vs) : List.Forall₂ Tidied ds ds' := by
  induction hds generalizing ds' with
  | nil =>
    rw [List.forall₂_nil_right_iff] at hds'
    rw [hds']
    exact .nil
  | cons hd _ ih =>
    obtain ⟨d', rest, hd', hrest, rfl⟩ := List.forall₂_cons_right_iff.mp hds'
    obtain ⟨hv, hvs⟩ := List.forall_mem_cons.mp hc
    exact .cons ⟨hd'.tidy, _, hd, by rw [hd'.value, hv]⟩ (ih hvs hrest)

theorem arr {ds : List Document} (h : Tidied (.arr ds) d') :
    ∃ ds', d' = .arr ds' ∧ List.Forall₂ Tidied ds ds' := by
  obtain ⟨v, hv, -⟩ := h.value
  obtain ⟨vs, hvs, rfl⟩ := Option.map_eq_some_iff.mp hv
  obtain ⟨ds', rfl, hds'⟩ := (h.means hv).arr
  exact ⟨ds', rfl, items (items?_eq_some_iff.mp hvs) (canonical_of_items? ds hvs) hds'⟩

theorem obj {ms : List (Option String × Document)} (h : Tidied (.obj ms) d') :
    ∃ ms', d' = .obj ms' ∧ TidiedMembers ms ms' := by
  obtain ⟨ht, v, hv, hv'⟩ := h
  obtain ⟨es, hes, rfl⟩ := Option.map_eq_some_iff.mp hv
  cases d' with
  | obj ms' =>
    obtain ⟨es', hes', he⟩ := Option.map_eq_some_iff.mp hv'
    simp only [Value.ofMembers, Value.obj.injEq] at he
    exact ⟨ms', rfl, ht.1, tidyMembers_iff.mp ht.2, es, es', hes, hes', he.symm⟩
  | _ => simp_all [value?, Value.ofMembers]

end Tidied

theorem TidiedMembers.tidied {ms ms' : List (Option String × Document)}
    (h : TidiedMembers ms ms') : Tidied (.obj ms) (.obj ms') := by
  obtain ⟨es, es', hes, hes', he⟩ := h.entries
  refine ⟨⟨h.keys, tidyMembers_iff.mpr h.tidy⟩, .ofMembers es, by rw [value?, hes]; rfl, ?_⟩
  rw [value?, hes', Option.map_some, Value.ofMembers, Value.ofMembers, he]

theorem tidied_arr {ds ds' : List Document} (h : List.Forall₂ Tidied ds ds') :
    Tidied (.arr ds) (.arr ds') := by
  have hitems : (∀ d ∈ ds', d.Tidy) ∧ ∃ vs, items? ds = some vs ∧ items? ds' = some vs := by
    induction h with
    | nil => exact ⟨by simp, [], rfl, rfl⟩
    | cons hd _ ih =>
      obtain ⟨v, hv, hv'⟩ := hd.value
      obtain ⟨ht, vs, hvs, hvs'⟩ := ih
      refine ⟨List.forall_mem_cons.mpr ⟨hd.tidy, ht⟩, v :: vs, ?_, ?_⟩
      · rw [items?, hv, hvs]
        rfl
      · rw [items?, hv', hvs']
        rfl
  obtain ⟨ht, vs, hvs, hvs'⟩ := hitems
  refine ⟨tidyItems_iff.mpr ht, .arr vs, ?_, ?_⟩
  · rw [value?, hvs, Option.map_some]
  · rw [value?, hvs', Option.map_some]

end Json.Document

namespace Decode

open Json Document

variable {α β : Type}

/-! ## Members of a key -/

theorem exists_of_rel {r : α → β → Prop} {o : Option α} {o' : Option β} (h : Option.Rel r o o')
    {a : α} (ha : o = some a) : ∃ b, o' = some b ∧ r a b := by
  subst ha
  cases h with
  | some h => exact ⟨_, rfl, h⟩

theorem rel_getElem? {r : α → β → Prop} {as : List α} {bs : List β} (h : List.Forall₂ r as bs)
    (i : Nat) : Option.Rel r as[i]? bs[i]? := by
  induction h generalizing i with
  | nil => exact .none
  | cons hd _ ih =>
    cases i with
    | zero => exact .some hd
    | succ i => simpa using ih i

/-- The key is not given twice. -/
def Once (ms : List (Option String × Document)) (k : String) : Prop :=
  (ms.map (·.1)).count (some k) ≤ 1

section Members

variable {ms ms' : List (Option String × Document)} {k : String}

theorem first?_append (ms ns : List (Option String × Document)) (k : String) :
    first? (ms ++ ns) k = (first? ms k).or (first? ns k) := by
  induction ms with
  | nil => rfl
  | cons p ms ih =>
    rw [List.cons_append, first?_cons, first?_cons, ih]
    split <;> rfl

theorem first?_eq_none_iff : first? ms k = none ↔ some k ∉ ms.map (·.1) := by
  simp only [first?, Option.map_eq_none_iff, List.find?_eq_none, List.mem_map, not_exists, not_and,
    decide_eq_true_eq]

theorem once_cons_iff (p : Option String × Document) : Once (p :: ms) k ↔
    if p.1 = some k then some k ∉ ms.map (·.1) else Once ms k := by
  unfold Once
  rw [List.map_cons, List.count_cons]
  by_cases hp : p.1 = some k
  · simp only [hp, beq_self_eq_true, if_true]
    rw [← List.count_eq_zero]
    omega
  · simp [hp]

theorem Once.first?_reverse (h : Once ms k) : first? ms.reverse k = first? ms k := by
  induction ms with
  | nil => rfl
  | cons p ms ih =>
    rw [List.reverse_cons, first?_append, first?_cons]
    rw [once_cons_iff] at h
    split at h
    · next hp =>
      have hnew : first? ms.reverse k = none := by
        rwa [first?_eq_none_iff, List.map_reverse, List.mem_reverse]
      simp [hnew, first?_cons, hp]
    · next hp =>
      rw [ih h, first?_cons, if_neg hp, if_neg hp]
      simp [first?]

theorem valued_tidied (h : TidiedMembers ms ms') :
    ∀ p ∈ ms', (∃ k, p.1 = some k) ∧ ∃ v, p.2.value? = some v := by
  obtain ⟨-, es', -, hes', -⟩ := h.entries
  exact valued_of_members? (members?_eq_some_iff.mp hes')

theorem first?_tidied (h : TidiedMembers ms ms') (hk : Once ms k) :
    Option.Rel Tidied (first? ms k) (first? ms' k) := by
  obtain ⟨es, es', hes, hes', he⟩ := h.entries
  have hvalued := members?_eq_some_iff.mp hes
  have hvalued' := members?_eq_some_iff.mp hes'
  have hn : (Table.keys es').Nodup := .of_map some (keys_of_members hvalued' ▸ h.keys)
  have hget : Table.get? es' k = Table.get? es.reverse k := by
    rw [← Table.get?_ofEntries hn, ← he, Table.get?_ofEntries_reverse]
  have hfirst := first?_of_members? (List.forall₂_reverse_iff.mpr hvalued) k
  have hfirst' := first?_of_members? hvalued' k
  rw [hk.first?_reverse] at hfirst
  rw [hget] at hfirst'
  cases hv : Table.get? es.reverse k with
  | none =>
    rw [hv, Option.map_none, Option.map_eq_none_iff] at hfirst hfirst'
    rw [hfirst, hfirst']
    exact .none
  | some v =>
    rw [hv] at hfirst hfirst'
    obtain ⟨d, hd, hdv⟩ := Option.map_eq_some_iff.mp hfirst
    obtain ⟨d', hd', hdv'⟩ := Option.map_eq_some_iff.mp hfirst'
    rw [hd, hd']
    exact .some ⟨h.tidy _ (mem_of_first? hd'), v, hdv, hdv'⟩

theorem exists_tidied (h : TidiedMembers ms ms') (hk : Once ms k) {d : Document}
    (hd : first? ms k = some d) : ∃ d', first? ms' k = some d' ∧ d.Tidied d' :=
  exists_of_rel (first?_tidied h hk) hd

theorem members?_filter {es : List (String × Value)} (h : members? ms = some es)
    (q : Option String → Bool) :
    members? (ms.filter fun p => q p.1) = some (es.filter fun e => q (some e.1)) := by
  rw [members?_eq_some_iff] at h ⊢
  induction h with
  | nil => exact .nil
  | cons he _ ih =>
    obtain ⟨hkey, hv⟩ := he
    rw [List.filter_cons, List.filter_cons, hkey]
    split
    · exact .cons ⟨hkey, hv⟩ ih
    · exact ih

theorem tidied_filter (h : TidiedMembers ms ms') (q : Option String → Bool) :
    TidiedMembers (ms.filter fun p => q p.1) (ms'.filter fun p => q p.1) := by
  obtain ⟨es, es', hes, hes', he⟩ := h.entries
  refine ⟨h.keys.sublist (List.filter_sublist.map _),
    fun p hp => h.tidy p (List.mem_filter.mp hp).1, ?_⟩
  exact ⟨_, _, members?_filter hes q, members?_filter hes' q,
    Table.ofEntries_filter he fun k => q (some k)⟩

theorem filterMap_kept {es : List (String × Value)} (h : members? ms = some es)
    (names : List String) :
    ms.filterMap (kept names) = es.filter fun e => !names.contains e.1 := by
  rw [members?_eq_some_iff] at h
  induction h with
  | nil => rfl
  | @cons p e _ _ hp _ ih =>
    obtain ⟨hkey, hv⟩ := hp
    rw [List.filterMap_cons, List.filter_cons, ih]
    by_cases hk : e.1 ∈ names <;> simp [kept, hkey, hv, hk]

end Members

/-! ## Decoders that keep what they give -/

/-- Decoders tell the two ways of holding a document apart by the wording of refusals only. -/
def Medium.Near (m m' : Medium) : Prop := (m = .copy ↔ m' = .copy) ∧ m ≠ .file

theorem Medium.near_copy : Medium.copy.Near .copy := ⟨Iff.rfl, by simp⟩

/-- What `f` takes a document to, `g` takes it to when it is tidied. -/
def FollowsAt (f g : Document → Except Error α) (d : Document) : Prop :=
  ∀ ⦃d' a⦄, d.Tidied d' → f d = .ok a → g d' = .ok a

/-- A document that `f` takes is taken by `g` when it is tidied. -/
def AdmitsAt (f : Document → Except Error α) (g : Document → Except Error β) (d : Document) : Prop :=
  ∀ ⦃d' a⦄, d.Tidied d' → f d = .ok a → ∃ b, g d' = .ok b

def Keeps (dec : Decoder α) : Prop := ∀ ⦃m m'⦄, m.Near m' → ∀ d, FollowsAt (dec m) (dec m') d

theorem FollowsAt.admits {f g : Document → Except Error α} {d : Document} (h : FollowsAt f g d) :
    AdmitsAt f g d := fun _ _ hd hf => ⟨_, h hd hf⟩

theorem Keeps.on {dec : Decoder α} (h : Keeps dec) {m m' : Medium} (hm : m.Near m')
    {o : Option Document} : ∀ d ∈ o, FollowsAt (dec m) (dec m') d := fun d _ => h hm d

theorem keeps_string : Keeps string := by
  intro m m' _ d d' s hd h
  cases d with
  | str t =>
    rw [hd.str]
    exact h
  | _ => cases h

theorem keeps_boolean : Keeps boolean := by
  intro m m' _ d d' b hd h
  cases d with
  | bool c =>
    rw [hd.bool]
    exact h
  | _ => cases h

theorem keeps_natural (bits : Nat) (name : String) : Keeps (natural bits name) := by
  intro m m' _ d d' n hd h
  cases d with
  | num x =>
    rw [hd.num]
    cases x with
    | int i => exact h
    | float x => cases h
  | _ => cases h

theorem keeps_binary64 : Keeps binary64 := by
  intro m m' _ d d' x hd h
  cases d with
  | num y =>
    rw [hd.num]
    cases y <;> exact h
  | _ => cases h

theorem keeps_value : Keeps value := by
  intro m m' _ d d' v hd h
  obtain ⟨w, hw, hw'⟩ := hd.value
  simp only [value, hw] at h
  simp only [value, hw']
  exact h

theorem option_of_ne_null {dec : Decoder α} {d : Document} (h : d ≠ .null) (m : Medium) :
    option dec m d = (dec m d).map some := by
  cases d with
  | null => exact absurd rfl h
  | _ => rfl

theorem ne_null_tidied {d d' : Document} (h : d.Tidied d') (hd : d ≠ .null) : d' ≠ .null := by
  rintro rfl
  obtain ⟨v, hv, hv'⟩ := h.value
  obtain rfl : Value.null = v := Option.some.inj hv'
  cases d <;> simp_all [value?, Value.ofMembers]

theorem FollowsAt.map {f g : Document → Except Error α} {d : Document} (h : FollowsAt f g d)
    (q : α → β) : FollowsAt (fun d => (f d).map q) (fun d => (g d).map q) d := by
  intro d' b hd hb
  dsimp only at hb ⊢
  cases ha : f d with
  | error e =>
    rw [ha] at hb
    cases hb
  | ok a =>
    rw [ha] at hb
    rw [h hd ha]
    exact hb

theorem FollowsAt.option {dec dec' : Decoder α} {m m' : Medium} {d : Document}
    (h : FollowsAt (dec m) (dec' m') d) : FollowsAt (option dec m) (option dec' m') d := by
  intro d' a hd ha
  by_cases hn : d = .null
  · subst hn
    rw [hd.null]
    exact ha
  · rw [option_of_ne_null hn] at ha
    rw [option_of_ne_null (ne_null_tidied hd hn)]
    exact h.map some hd ha

theorem AdmitsAt.option {dec dec' : Decoder α} {m m' : Medium} {d : Document}
    (h : AdmitsAt (dec m) (dec' m') d) : AdmitsAt (option dec m) (option dec' m') d := by
  intro d' a hd ha
  by_cases hn : d = .null
  · subst hn
    rw [hd.null]
    exact ⟨none, rfl⟩
  · rw [option_of_ne_null hn] at ha
    rw [option_of_ne_null (ne_null_tidied hd hn)]
    cases hb : dec m d with
    | error e =>
      rw [hb] at ha
      cases ha
    | ok b =>
      obtain ⟨c, hc⟩ := h hd hb
      exact ⟨some c, by rw [hc]; rfl⟩

theorem Keeps.map {dec : Decoder α} (h : Keeps dec) (f : α → β) :
    Keeps fun m d => (dec m d).map f := fun _ _ hm d => (h hm d).map f

theorem Keeps.option {dec : Decoder α} (h : Keeps dec) : Keeps (option dec) :=
  fun _ _ hm d => (h hm d).option

theorem items_follow {dec : Decoder α} {m m' : Medium} {ds ds' : List Document} {as : List α}
    (h : ∀ d, FollowsAt (dec m) (dec m') d) (hds : List.Forall₂ Tidied ds ds')
    (ha : items dec m ds = .ok as) : items dec m' ds' = .ok as := by
  induction hds generalizing as with
  | nil => exact ha
  | cons hd _ ih =>
    simp only [items, bind_eq_ok] at ha ⊢
    obtain ⟨b, hb, bs, hbs, ha⟩ := ha
    exact ⟨b, h _ hd hb, bs, ih hbs, ha⟩

theorem Keeps.list {dec : Decoder α} (h : Keeps dec) : Keeps (list dec) := by
  intro m m' hm d d' as hd ha
  cases d with
  | arr ds =>
    obtain ⟨ds', rfl, hds⟩ := hd.arr
    exact items_follow (h hm) hds ha
  | _ => cases ha

/-! ## Choices -/

section Choices

variable {choices : List (Decoder α)} {union : String} {m m' : Medium} {d d' : Document} {a : α}

theorem untagged_of_chosen {v : Value} (hv : d.value? = some v) {dec : Decoder α}
    (hdec : dec ∈ choices) (h : dec .copy d = .ok a) : ∃ b, untagged union choices m d = .ok b := by
  simp only [untagged, hv, Option.isNone_some]
  cases hfound : choices.findSome? fun dec => (dec .copy d).toOption with
  | some b => exact ⟨b, rfl⟩
  | none =>
    have hnone := List.findSome?_eq_none_iff.mp hfound dec hdec
    simp [h, Except.toOption] at hnone

theorem admits_untagged (h : ∀ dec ∈ choices, Keeps dec) (d : Document) :
    AdmitsAt (untagged union choices m) (untagged union choices m') d := by
  intro d' a hd ha
  obtain ⟨dec, hdec, hchosen⟩ := chosen_of_untagged ha
  obtain ⟨v, -, hv⟩ := hd.value
  exact untagged_of_chosen hv hdec (h dec hdec Medium.near_copy d hd hchosen)

/-- Where the choices that take a document agree on it, the union keeps what they keep. -/
theorem keeps_untagged (h : ∀ dec ∈ choices, Keeps dec)
    (hx : ∀ d, ∀ dec ∈ choices, ∀ dec' ∈ choices, ∀ a b, dec .copy d = .ok a →
      dec' .copy d = .ok b → a = b) : Keeps (untagged union choices) := by
  intro m m' hm d d' a hd ha
  obtain ⟨b, hb⟩ := admits_untagged h d hd ha
  obtain ⟨dec, hdec, hchosen⟩ := chosen_of_untagged ha
  obtain ⟨dec', hdec', hchosen'⟩ := chosen_of_untagged hb
  have hkept := h dec hdec Medium.near_copy d hd hchosen
  rw [hb, hx d' dec hdec dec' hdec' a b hkept hchosen']

/-- A string, or something that is never a string. -/
theorem keeps_stringOr {f : String → α} {dec : Decoder α} (h : Keeps dec)
    (hs : ∀ s a, dec .copy (.str s) ≠ .ok a) (union : String) :
    Keeps (untagged union [fun m d => (string m d).map f, dec]) := by
  have hstring : ∀ d a b, (string .copy d).map f = .ok a → dec .copy d ≠ .ok b := by
    intro d a b ha
    cases d with
    | str s => exact hs s b
    | _ => cases ha
  refine keeps_untagged (List.forall_mem_cons.mpr
    ⟨keeps_string.map f, List.forall_mem_singleton.mpr h⟩) fun d dec₁ h₁ dec₂ h₂ a b ha hb => ?_
  rw [List.mem_pair] at h₁ h₂
  rcases h₁ with rfl | rfl <;> rcases h₂ with rfl | rfl
  · exact Except.ok.inj (ha.symm.trans hb)
  · exact absurd hb (hstring d a b ha)
  · exact absurd ha (hstring d b a hb)
  · exact Except.ok.inj (ha.symm.trans hb)

end Choices

/-! ## Variants -/

section Variants

variable {variants : List String} {other : Option Nat} {m m' : Medium}

theorem keeps_tag (variants : List String) (other : Option Nat) : Keeps (tag variants other) := by
  intro m m' hm d d' i hd h
  cases d with
  | str s =>
    rw [hd.str]
    simpa only [tag] using h
  | num n =>
    rw [hd.num]
    cases n with
    | float x => cases m <;> cases h
    | int n =>
      by_cases hc : m = .copy
      · rw [hc] at h
        rw [hm.1.mp hc]
        exact h
      · cases m <;> simp_all [tag, mismatch]
  | _ => cases m <;> cases h

theorem taggedMembers_behind {i : Nat} {ms others : List (Option String × Document)}
    {found : Option Nat} (h : taggedMembers variants other m (some i) ms = .ok (found, others)) :
    found = some i ∧ others = ms ∧ some "type" ∉ ms.map (·.1) := by
  induction ms generalizing others with
  | nil =>
    obtain ⟨rfl, rfl⟩ := Prod.mk.inj (Except.ok.inj h)
    exact ⟨rfl, rfl, List.not_mem_nil⟩
  | cons p ms ih =>
    obtain ⟨key, d⟩ := p
    cases key with
    | none => cases h
    | some k =>
      rw [taggedMembers] at h
      split at h
      · cases h
      · next hk =>
        simp only [bind_eq_ok] at h
        obtain ⟨-, -, ⟨found', others'⟩, hrest, h⟩ := h
        obtain ⟨rfl, rfl⟩ := Prod.mk.inj (Except.ok.inj h)
        obtain ⟨rfl, rfl, hnew⟩ := ih hrest
        refine ⟨rfl, rfl, ?_⟩
        rw [List.map_cons, List.mem_cons, not_or]
        exact ⟨fun he => hk (Option.some.inj he).symm, hnew⟩

theorem taggedMembers_tag {i : Nat} {ms others : List (Option String × Document)}
    (h : taggedMembers variants other m none ms = .ok (some i, others)) :
    Once ms "type" ∧ others = ms.filter (·.1 ≠ some "type") ∧
      ∃ d, first? ms "type" = some d ∧ tag variants other m d = .ok i := by
  induction ms generalizing others with
  | nil => cases h
  | cons p ms ih =>
    obtain ⟨key, d⟩ := p
    cases key with
    | none => cases h
    | some k =>
      rw [taggedMembers] at h
      rw [once_cons_iff, first?_cons]
      split at h
      · next hk =>
        subst hk
        simp only [bind_eq_ok] at h
        obtain ⟨j, hj, hrest⟩ := h
        obtain ⟨hi, rfl, hnew⟩ := taggedMembers_behind hrest
        obtain rfl := Option.some.inj hi
        have hall : others.filter (·.1 ≠ some "type") = others := by
          refine List.filter_eq_self.mpr fun p hp => ?_
          have hne : p.1 ≠ some "type" := fun he => hnew (List.mem_map.mpr ⟨p, hp, he⟩)
          simpa using hne
        rw [if_pos rfl, if_pos rfl, List.filter_cons_of_neg (by simp), hall]
        exact ⟨hnew, rfl, d, rfl, hj⟩
      · next hk =>
        simp only [bind_eq_ok] at h
        obtain ⟨-, -, ⟨found', others'⟩, hrest, h⟩ := h
        obtain ⟨rfl, rfl⟩ := Prod.mk.inj (Except.ok.inj h)
        obtain ⟨honce, rfl, hfound⟩ := ih hrest
        have hne : some k ≠ some "type" := fun he => hk (Option.some.inj he)
        rw [if_neg hne, if_neg hne, List.filter_cons_of_pos (by simpa using hk)]
        exact ⟨honce, rfl, hfound⟩

theorem once_of_others {ms : List (Option String × Document)} {k : String} (hk : k ≠ "type")
    (h : Once (ms.filter (·.1 ≠ some "type")) k) : Once ms k := by
  have hothers : (ms.filter (·.1 ≠ some "type")).map (·.1) =
      (ms.map (·.1)).filter (· ≠ some "type") := by
    rw [List.filter_map]
    rfl
  unfold Once at h ⊢
  rwa [hothers, List.count_filter (by simpa using hk)] at h

theorem tagged_cases {union : String} {d rest : Document} {i : Nat}
    (h : tagged union variants other m d = .ok (i, rest)) :
    (∃ ms t, d = .obj ms ∧ rest = .obj (ms.filter (·.1 ≠ some "type")) ∧ Once ms "type" ∧
        first? ms "type" = some t ∧ tag variants other m t = .ok i) ∨
      ∃ t ds, d = .arr (t :: ds) ∧ rest = .arr ds ∧ tag variants other m t = .ok i := by
  cases d with
  | obj ms =>
    simp only [tagged, bind_eq_ok] at h
    obtain ⟨⟨found, others⟩, hfound, h⟩ := h
    cases found with
    | none => cases h
    | some j =>
      obtain ⟨rfl, rfl⟩ := Prod.mk.inj (Except.ok.inj h)
      obtain ⟨honce, rfl, t, ht, hj⟩ := taggedMembers_tag hfound
      exact .inl ⟨ms, t, rfl, rfl, honce, ht, hj⟩
  | arr ds =>
    cases ds with
    | nil => cases h
    | cons t ds =>
      simp only [tagged, bind_eq_ok] at h
      obtain ⟨j, hj, h⟩ := h
      split at h
      · obtain ⟨rfl, rfl⟩ := Prod.mk.inj (Except.ok.inj h)
        exact .inr ⟨t, ds, rfl, rfl, hj⟩
      · cases h
  | _ => cases h

theorem tagged_tidied (hm : m.Near m') {union : String} {d d' rest : Document} {i : Nat}
    (hd : d.Tidied d') (h : tagged union variants other m d = .ok (i, rest)) :
    ∃ rest', tagged union variants other m' d' = .ok (i, rest') ∧ rest.Tidied rest' := by
  rcases tagged_cases h with ⟨ms, t, rfl, rfl, honce, ht, hi⟩ | ⟨t, ds, rfl, rfl, hi⟩
  · obtain ⟨ms', rfl, hms⟩ := hd.obj
    obtain ⟨t', ht', htt⟩ := exists_tidied hms honce ht
    refine ⟨.obj (ms'.filter (·.1 ≠ some "type")), ?_, ?_⟩
    · simp [tagged, taggedMembers_of_present hms.keys (valued_tidied hms) ht'
        (keeps_tag variants other hm t htt hi)]
    · exact (tidied_filter hms fun k => k ≠ some "type").tidied
  · obtain ⟨ds', rfl, hds⟩ := hd.arr
    cases hds with
    | cons ht hrest =>
      have hvalued := tidied_arr hrest
      obtain ⟨v, -, hv⟩ := hvalued.value
      obtain ⟨vs, hvs, -⟩ := Option.map_eq_some_iff.mp hv
      refine ⟨_, ?_, hvalued⟩
      simp [tagged, keeps_tag variants other hm t ht hi, hvs]

theorem noContents_tidied {d d' : Document} (hd : d.Tidied d') (h : noContents d = .ok ()) :
    noContents d' = .ok () := by
  cases d with
  | arr ds =>
    obtain ⟨ds', rfl, hds⟩ := hd.arr
    cases hds with
    | nil => rfl
    | cons => cases h
  | obj ms =>
    obtain ⟨ms', rfl, -⟩ := hd.obj
    rfl
  | null => rw [hd.null]; rfl
  | bool b => rw [hd.bool]; rfl
  | num n => rw [hd.num]; rfl
  | str s => rw [hd.str]; rfl
  | void => exact hd.ne_void.elim
  | broken => exact hd.ne_broken.elim

theorem unitVariant_cases {d : Document} {i : Nat} (h : unitVariant variants m d = .ok i) :
    ∃ k, variantIndex variants k = .ok i ∧ (d = .str k ∨ d = .obj [(some k, .null)]) := by
  unfold unitVariant at h
  split at h
  · exact ⟨_, h, .inl rfl⟩
  · simp only [bind_eq_ok] at h
    obtain ⟨j, hj, h⟩ := h
    split at h
    · split at h
      · next hms =>
        obtain rfl := Except.ok.inj h
        rw [List.isEmpty_iff.mp hms]
        exact ⟨_, hj, .inr rfl⟩
      · cases h
    · exact absurd h (mismatch_ne_ok _ _ _)
  · cases h
  · simp only [bind_eq_ok] at h
    obtain ⟨j, hj, h⟩ := h
    split at h
    · obtain rfl := Except.ok.inj h
      exact ⟨_, hj, .inr rfl⟩
    · exact absurd h (mismatch_ne_ok _ _ _)
  · cases h
  · exact absurd h (mismatch_ne_ok _ _ _)

theorem eq_of_tidied_single {k : String} {ms' : List (Option String × Document)}
    (h : TidiedMembers [(some k, .null)] ms') : ms' = [(some k, .null)] := by
  obtain ⟨es, es', hes, hes', he⟩ := h.entries
  obtain rfl : [(k, Value.null)] = es := Option.some.inj hes
  have hkeys : ∀ key ∈ ms'.map (·.1), key = some k := by
    rw [keys_of_members (members?_eq_some_iff.mp hes')]
    intro key hkey
    obtain ⟨k', hk', rfl⟩ := List.mem_map.mp hkey
    have hmem := (Table.mem_keys_ofEntries es' k').mpr hk'
    rw [← he] at hmem
    simpa [Table.ofEntries, Table.insert, Table.keys] using hmem
  have honce : Once [(some k, Document.null)] k := by simp [Once]
  have hnull : first? [(some k, Document.null)] k = some .null := by simp [first?_cons]
  obtain ⟨d, hd, htidied⟩ := exists_tidied h honce hnull
  obtain rfl := htidied.null
  have hmem := mem_of_first? hd
  have hn := h.keys
  cases ms' with
  | nil => cases hmem
  | cons p ms' =>
    cases ms' with
    | nil => rw [List.mem_singleton.mp hmem]
    | cons q ms' =>
      simp only [List.map_cons, List.forall_mem_cons] at hkeys
      simp [hkeys.1, hkeys.2.1] at hn

theorem keeps_unitVariant (variants : List String) : Keeps (unitVariant variants) := by
  intro m m' _ d d' i hd h
  obtain ⟨k, hk, rfl | rfl⟩ := unitVariant_cases h
  · rw [hd.str]
    exact hk
  · obtain ⟨ms', rfl, hms⟩ := hd.obj
    rw [eq_of_tidied_single hms]
    cases m' <;> simp [unitVariant, hk]

end Variants

end Decode

end ChatGateway
