import ChatGateway.Json.Canonical
import ChatGateway.Json.Document
import ChatGateway.Proofs.Tables
import Mathlib.Data.List.Forall2

/-!
# What documents say

A document says a value when it has that value up to the order of members and gives no key twice.
`ofValue` writes a document that says a value, in the order of the value's own members or, where
the value is made canonical first, by ascending key.
-/

namespace ChatGateway.Json

/-! ## Canonical values -/

namespace Value

/-- Reading gives such values only. -/
def Canonical (v : Value) : Prop := v.canonical = v

theorem canonicalItems_eq_self_iff {vs : List Value} :
    canonicalItems vs = vs ↔ ∀ v ∈ vs, v.Canonical := by
  induction vs with
  | nil => simp [canonicalItems]
  | cons v vs ih => simp [canonicalItems, ih, Canonical]

theorem canonicalMembers_eq_self_iff {ms : List (String × Value)} :
    canonicalMembers ms = ms ↔ ∀ e ∈ ms, e.2.Canonical := by
  induction ms with
  | nil => simp [canonicalMembers]
  | cons e ms ih =>
    obtain ⟨k, v⟩ := e
    rw [canonicalMembers, List.cons.injEq, ih, List.forall_mem_cons]
    simp [Canonical]

theorem keys_canonicalMembers (ms : List (String × Value)) :
    Table.keys (canonicalMembers ms) = Table.keys ms := by
  induction ms with
  | nil => rfl
  | cons e ms ih => simpa [canonicalMembers, Table.keys] using ih

theorem get?_canonicalMembers (ms : List (String × Value)) (k : String) :
    Table.get? (canonicalMembers ms) k = (Table.get? ms k).map canonical := by
  induction ms with
  | nil => rfl
  | cons e ms ih =>
    obtain ⟨k', v⟩ := e
    by_cases hk : k' = k <;> simp [canonicalMembers, Table.get?, hk, ih]

theorem canonical_arr_iff {vs : List Value} :
    (Value.arr vs).Canonical ↔ ∀ v ∈ vs, v.Canonical := by
  rw [← canonicalItems_eq_self_iff, Canonical, canonical, Value.arr.injEq]

theorem canonical_obj_iff {ms : List (String × Value)} :
    (Value.obj ms).Canonical ↔ Table.Sorted ms ∧ ∀ e ∈ ms, e.2.Canonical := by
  rw [← canonicalMembers_eq_self_iff, Canonical, canonical, Value.obj.injEq]
  constructor
  · intro h
    have hs : Table.Sorted ms := h ▸ Table.sorted_ofEntries _
    have hs' : Table.Sorted (canonicalMembers ms) := by
      have hk := List.pairwise_map.mpr hs
      rw [show ms.map (·.1) = (canonicalMembers ms).map (·.1) from
        (keys_canonicalMembers ms).symm] at hk
      exact List.pairwise_map.mp hk
    exact ⟨hs, hs'.ofEntries_eq ▸ h⟩
  · rintro ⟨hs, hc⟩
    rw [hc, hs.ofEntries_eq]

end Value

namespace Document

open Value

theorem items?_eq_some_iff {ds : List Document} {vs : List Value} :
    items? ds = some vs ↔ List.Forall₂ (fun d v => d.value? = some v) ds vs := by
  induction ds generalizing vs with
  | nil => simp [items?, eq_comm]
  | cons d ds ih =>
    simp only [items?, Option.bind_eq_some_iff, Option.map_eq_some_iff, ih,
      List.forall₂_cons_left_iff]
    constructor
    · rintro ⟨v, hv, vs', hvs, rfl⟩
      exact ⟨v, vs', hv, hvs, rfl⟩
    · rintro ⟨v, vs', hv, hvs, rfl⟩
      exact ⟨v, hv, vs', hvs, rfl⟩

theorem members?_eq_some_iff {ms : List (Option String × Document)}
    {es : List (String × Value)} : members? ms = some es ↔
      List.Forall₂ (fun p e => p.1 = some e.1 ∧ p.2.value? = some e.2) ms es := by
  induction ms generalizing es with
  | nil => simp [members?, eq_comm]
  | cons p ms ih =>
    simp only [members?, Option.bind_eq_some_iff, Option.map_eq_some_iff, ih,
      List.forall₂_cons_left_iff]
    constructor
    · rintro ⟨k, hk, v, hv, es', hes, rfl⟩
      exact ⟨(k, v), es', ⟨hk, hv⟩, hes, rfl⟩
    · rintro ⟨⟨k, v⟩, es', ⟨hk, hv⟩, hes, rfl⟩
      exact ⟨k, hk, v, hv, es', hes, rfl⟩

theorem keys_of_members {ms : List (Option String × Document)} {es : List (String × Value)}
    (h : List.Forall₂ (fun p e => p.1 = some e.1 ∧ p.2.value? = some e.2) ms es) :
    ms.map (·.1) = (Table.keys es).map some := by
  induction h with
  | nil => rfl
  | cons h _ ih => simpa [Table.keys, h.1] using ih

mutual

theorem canonical_of_value? : (d : Document) → {v : Value} → d.value? = some v → v.Canonical
  | .null, _, h | .bool _, _, h | .num _, _, h | .str _, _, h => by
    rw [← Option.some.inj h]
    rfl
  | .void, _, h | .broken, _, h => nomatch h
  | .arr ds, _, h => by
    obtain ⟨vs, hvs, rfl⟩ := Option.map_eq_some_iff.mp h
    exact canonical_arr_iff.mpr (canonical_of_items? ds hvs)
  | .obj ms, _, h => by
    obtain ⟨es, hes, rfl⟩ := Option.map_eq_some_iff.mp h
    refine canonical_obj_iff.mpr ⟨Table.sorted_ofEntries es, fun e he => ?_⟩
    exact canonical_of_members? ms hes e (Table.mem_of_mem_ofEntries he)

theorem canonical_of_items? : (ds : List Document) → {vs : List Value} → items? ds = some vs →
    ∀ v ∈ vs, v.Canonical
  | [], _, h => by simp [← Option.some.inj h]
  | d :: ds, _, h => by
    simp only [items?, Option.bind_eq_some_iff, Option.map_eq_some_iff] at h
    obtain ⟨v, hv, vs, hvs, rfl⟩ := h
    exact List.forall_mem_cons.mpr ⟨canonical_of_value? d hv, canonical_of_items? ds hvs⟩

theorem canonical_of_members? : (ms : List (Option String × Document)) →
    {es : List (String × Value)} → members? ms = some es → ∀ e ∈ es, e.2.Canonical
  | [], _, h => by simp [← Option.some.inj h]
  | (key, d) :: ms, _, h => by
    simp only [members?, Option.bind_eq_some_iff, Option.map_eq_some_iff] at h
    obtain ⟨k, rfl, v, hv, es, hes, rfl⟩ := h
    exact List.forall_mem_cons.mpr ⟨canonical_of_value? d hv, canonical_of_members? ms hes⟩

end

mutual

theorem whole_of_value? : (d : Document) → {v : Value} → d.value? = some v → d.whole = true
  | .null, _, _ | .bool _, _, _ | .num _, _, _ | .str _, _, _ => rfl
  | .void, _, h | .broken, _, h => nomatch h
  | .arr ds, _, h => by
    obtain ⟨vs, hvs, -⟩ := Option.map_eq_some_iff.mp h
    exact whole_of_items? ds hvs
  | .obj ms, _, h => by
    obtain ⟨es, hes, -⟩ := Option.map_eq_some_iff.mp h
    exact whole_of_members? ms hes

theorem whole_of_items? : (ds : List Document) → {vs : List Value} → items? ds = some vs →
    wholeItems ds = true
  | [], _, _ => rfl
  | d :: ds, _, h => by
    simp only [items?, Option.bind_eq_some_iff, Option.map_eq_some_iff] at h
    obtain ⟨v, hv, vs, hvs, -⟩ := h
    rw [wholeItems, whole_of_value? d hv, whole_of_items? ds hvs]
    rfl

theorem whole_of_members? : (ms : List (Option String × Document)) →
    {es : List (String × Value)} → members? ms = some es → wholeMembers ms = true
  | [], _, _ => rfl
  | (key, d) :: ms, _, h => by
    simp only [members?, Option.bind_eq_some_iff, Option.map_eq_some_iff] at h
    obtain ⟨k, -, v, hv, es, hes, -⟩ := h
    rw [wholeMembers, whole_of_value? d hv, whole_of_members? ms hes]
    rfl

end

mutual

theorem value?_ofValue : (v : Value) → (ofValue v).value? = some v.canonical
  | .null | .bool _ | .num _ | .str _ => rfl
  | .arr vs => by rw [ofValue, value?, items?_ofItems vs, canonical, Option.map_some]
  | .obj ms => by
    rw [ofValue, value?, members?_ofMembers ms, canonical, Option.map_some, Value.ofMembers]

theorem items?_ofItems : (vs : List Value) → items? (ofItems vs) = some (canonicalItems vs)
  | [] => rfl
  | v :: vs => by simp [ofItems, items?, canonicalItems, value?_ofValue v, items?_ofItems vs]

theorem members?_ofMembers : (ms : List (String × Value)) →
    members? (Document.ofMembers ms) = some (canonicalMembers ms)
  | [] => rfl
  | (k, v) :: ms => by
    simp [Document.ofMembers, members?, canonicalMembers, value?_ofValue v, members?_ofMembers ms]

end

theorem canonical_canonical (v : Value) : v.canonical.Canonical :=
  canonical_of_value? _ (value?_ofValue v)

/-! ## Documents without repeated keys -/

mutual

/-- No object has two members of one key. -/
def Tidy : Document → Prop
  | .arr items => TidyItems items
  | .obj members => (members.map (·.1)).Nodup ∧ TidyMembers members
  | _ => True

def TidyItems : List Document → Prop
  | [] => True
  | d :: ds => Tidy d ∧ TidyItems ds

def TidyMembers : List (Option String × Document) → Prop
  | [] => True
  | (_, d) :: ms => Tidy d ∧ TidyMembers ms

end

mutual

def decTidy : (d : Document) → Decidable d.Tidy
  | .arr items => decTidyItems items
  | .obj members => haveI := decTidyMembers members; inferInstanceAs (Decidable (_ ∧ _))
  | .null | .bool _ | .num _ | .str _ | .void | .broken => isTrue trivial

def decTidyItems : (ds : List Document) → Decidable (TidyItems ds)
  | [] => isTrue trivial
  | d :: ds =>
    haveI := decTidy d; haveI := decTidyItems ds; inferInstanceAs (Decidable (_ ∧ _))

def decTidyMembers : (ms : List (Option String × Document)) → Decidable (TidyMembers ms)
  | [] => isTrue trivial
  | (_, d) :: ms =>
    haveI := decTidy d; haveI := decTidyMembers ms; inferInstanceAs (Decidable (_ ∧ _))

end

instance : DecidablePred Tidy := decTidy

theorem tidyItems_iff {ds : List Document} : TidyItems ds ↔ ∀ d ∈ ds, d.Tidy := by
  induction ds with
  | nil => simp [TidyItems]
  | cons d ds ih => simp [TidyItems, ih]

theorem tidyMembers_iff {ms : List (Option String × Document)} :
    TidyMembers ms ↔ ∀ p ∈ ms, p.2.Tidy := by
  induction ms with
  | nil => simp [TidyMembers]
  | cons p ms ih => rw [TidyMembers, ih, List.forall_mem_cons]

theorem ofItems_eq (vs : List Value) : ofItems vs = vs.map ofValue := by
  induction vs with
  | nil => rfl
  | cons v vs ih => rw [ofItems, ih, List.map_cons]

theorem ofMembers_eq (ms : List (String × Value)) :
    Document.ofMembers ms = ms.map fun e => (some e.1, ofValue e.2) := by
  induction ms with
  | nil => rfl
  | cons e ms ih => rw [Document.ofMembers, ih, List.map_cons]

@[simp]
theorem tidy_null : (ofValue .null).Tidy := trivial

@[simp]
theorem tidy_bool (b : Bool) : (ofValue (.bool b)).Tidy := trivial

@[simp]
theorem tidy_num (n : Number) : (ofValue (.num n)).Tidy := trivial

@[simp]
theorem tidy_str (s : String) : (ofValue (.str s)).Tidy := trivial

theorem tidy_arr_iff {vs : List Value} :
    (ofValue (.arr vs)).Tidy ↔ ∀ v ∈ vs, (ofValue v).Tidy := by
  rw [ofValue, Tidy, tidyItems_iff, ofItems_eq]
  simp

theorem tidy_obj_iff {ms : List (String × Value)} : (ofValue (.obj ms)).Tidy ↔
    (Table.keys ms).Nodup ∧ ∀ e ∈ ms, (ofValue e.2).Tidy := by
  have hkeys : (Document.ofMembers ms).map (·.1) = (Table.keys ms).map some := by
    simp [ofMembers_eq, Table.keys]
  have hinj : Function.Injective (some : String → Option String) := fun _ _ => Option.some.inj
  rw [ofValue, Tidy, tidyMembers_iff, hkeys, List.nodup_map_iff hinj, ofMembers_eq,
    List.forall_mem_map]

mutual

theorem tidy_of_canonical : (v : Value) → v.Canonical → (ofValue v).Tidy
  | .null, _ | .bool _, _ | .num _, _ | .str _, _ => trivial
  | .arr vs, h => tidy_arr_iff.mpr (tidyItems_of_canonical vs (canonical_arr_iff.mp h))
  | .obj ms, h => by
    obtain ⟨hs, hc⟩ := canonical_obj_iff.mp h
    exact tidy_obj_iff.mpr ⟨hs.nodup, tidyMembers_of_canonical ms hc⟩

theorem tidyItems_of_canonical : (vs : List Value) → (∀ v ∈ vs, v.Canonical) →
    ∀ v ∈ vs, (ofValue v).Tidy
  | [], _ => by simp
  | v :: vs, h => by
    obtain ⟨hv, hvs⟩ := List.forall_mem_cons.mp h
    exact List.forall_mem_cons.mpr ⟨tidy_of_canonical v hv, tidyItems_of_canonical vs hvs⟩

theorem tidyMembers_of_canonical : (ms : List (String × Value)) → (∀ e ∈ ms, e.2.Canonical) →
    ∀ e ∈ ms, (ofValue e.2).Tidy
  | [], _ => by simp
  | e :: ms, h => by
    obtain ⟨he, hms⟩ := List.forall_mem_cons.mp h
    exact List.forall_mem_cons.mpr ⟨tidy_of_canonical e.2 he, tidyMembers_of_canonical ms hms⟩

end

/-! ## Documents that say a value -/

/-- The document has the value, its members in any order. -/
structure Says (d : Document) (v : Value) : Prop where
  tidy : d.Tidy
  value : d.value? = some v.canonical

theorem says_ofValue {v : Value} (h : (ofValue v).Tidy) : (ofValue v).Says v :=
  ⟨h, value?_ofValue v⟩

theorem says_canonical (v : Value) : (ofValue v.canonical).Says v := by
  refine ⟨tidy_of_canonical _ (canonical_canonical v), ?_⟩
  rw [value?_ofValue, canonical_canonical v]

namespace Says

theorem items {ds : List Document} {vs : List Value} (ht : ∀ d ∈ ds, d.Tidy)
    (h : items? ds = some (canonicalItems vs)) : List.Forall₂ Says ds vs := by
  induction vs generalizing ds with
  | nil =>
    rw [items?_eq_some_iff, canonicalItems, List.forall₂_nil_right_iff] at h
    exact h ▸ .nil
  | cons v vs ih =>
    rw [items?_eq_some_iff, canonicalItems, List.forall₂_cons_right_iff] at h
    obtain ⟨d, ds, hv, hvs, rfl⟩ := h
    obtain ⟨htd, ht⟩ := List.forall_mem_cons.mp ht
    exact .cons ⟨htd, hv⟩ (ih ht (items?_eq_some_iff.mpr hvs))

variable {d : Document}

theorem str {s : String} (h : d.Says (.str s)) : d = .str s := by
  have hv := h.value
  cases d <;> simp_all [value?, canonical, Value.ofMembers]

theorem num {n : Number} (h : d.Says (.num n)) : d = .num n := by
  have hv := h.value
  cases d <;> simp_all [value?, canonical, Value.ofMembers]

theorem bool {b : Bool} (h : d.Says (.bool b)) : d = .bool b := by
  have hv := h.value
  cases d <;> simp_all [value?, canonical, Value.ofMembers]

theorem null (h : d.Says .null) : d = .null := by
  have hv := h.value
  cases d <;> simp_all [value?, canonical, Value.ofMembers]

theorem arr {vs : List Value} (h : d.Says (.arr vs)) :
    ∃ ds, d = .arr ds ∧ List.Forall₂ Says ds vs := by
  obtain ⟨ht, hv⟩ := h
  cases d with
  | arr ds =>
    simp only [value?, canonical, Option.map_eq_some_iff, Value.arr.injEq] at hv
    obtain ⟨_, hitems, rfl⟩ := hv
    exact ⟨ds, rfl, items (tidyItems_iff.mp ht) hitems⟩
  | _ => simp_all [value?, canonical, Value.ofMembers]

theorem obj {es : List (String × Value)} (h : d.Says (.obj es)) (hn : (Table.keys es).Nodup) :
    ∃ ms es', d = .obj ms ∧ (ms.map (·.1)).Nodup ∧ (∀ p ∈ ms, p.2.Tidy) ∧
      List.Forall₂ (fun p e => p.1 = some e.1 ∧ p.2.value? = some e.2) ms es' ∧
      ∀ k, Table.get? es' k = (Table.get? es k).map canonical := by
  obtain ⟨ht, hv⟩ := h
  cases d with
  | obj ms =>
    simp only [value?, canonical, Option.map_eq_some_iff, Value.ofMembers, Value.obj.injEq] at hv
    obtain ⟨es', hes', hsame⟩ := hv
    obtain ⟨hkeys, hms⟩ := ht
    have hvalued := members?_eq_some_iff.mp hes'
    have hn' : (Table.keys es').Nodup := .of_map some (keys_of_members hvalued ▸ hkeys)
    refine ⟨ms, es', rfl, hkeys, tidyMembers_iff.mp hms, hvalued, fun k => ?_⟩
    have hcn : (Table.keys (canonicalMembers es)).Nodup := (keys_canonicalMembers es).symm ▸ hn
    rw [← get?_canonicalMembers, ← Table.get?_ofEntries hn', hsame, Table.get?_ofEntries hcn]
  | _ => simp_all [value?, canonical]

theorem ne_null {v : Value} (h : d.Says v) (hv : v ≠ .null) : d ≠ .null := by
  rintro rfl
  have hn := h.value
  cases v <;> simp_all [value?, canonical]

end Says

end Document

end ChatGateway.Json
