import ChatGateway.Table
import Mathlib.Data.List.Nodup

/-!
# Tables and their keys

What a table answers for a key, which keys it has, and that tables with ascending keys are equal as
soon as they answer alike. Building a table from entries sorts them and changes nothing else where
no key is given twice.
-/

namespace ChatGateway.Table

variable {α β : Type}

/-! ## Keys -/

theorem mem_keys_insert (t : Table α) (key k : String) (a : α) :
    k ∈ (t.insert key a).keys ↔ k = key ∨ k ∈ t.keys := by
  induction t with
  | nil => simp [insert, keys]
  | cons e t ih =>
    obtain ⟨k', b⟩ := e
    rw [insert]
    split
    · simp [keys]
    · split
      · next h => simp [keys, h]
      · simp only [keys, List.map_cons, List.mem_cons] at ih ⊢
        rw [ih]
        exact or_left_comm

theorem mem_keys_foldl_insert (entries : List (String × α)) (t : Table α) (k : String) :
    k ∈ (entries.foldl (fun t (k, a) => t.insert k a) t).keys ↔
      k ∈ t.keys ∨ k ∈ entries.map (·.1) := by
  induction entries generalizing t with
  | nil => simp
  | cons e entries ih =>
    rw [List.foldl_cons, ih, mem_keys_insert, List.map_cons, List.mem_cons]
    exact or_assoc.trans or_left_comm

theorem mem_keys_ofEntries (entries : List (String × α)) (k : String) :
    k ∈ (ofEntries entries).keys ↔ k ∈ entries.map (·.1) := by
  rw [ofEntries, mem_keys_foldl_insert]
  simp [keys]

theorem keys_insert_of_new {t : Table α} {key : String} (a : α) (h : key ∉ t.keys) :
    (t.insert key a).keys.Perm (key :: t.keys) := by
  induction t with
  | nil => exact List.Perm.refl _
  | cons e t ih =>
    obtain ⟨k, b⟩ := e
    simp only [keys, List.map_cons, List.mem_cons, not_or] at h
    unfold insert
    split
    · exact List.Perm.refl _
    · rw [if_neg h.1]
      exact ((ih h.2).cons k).trans (List.Perm.swap key k _)

/-! ## Entries -/

theorem mem_of_get? {t : Table α} {k : String} {a : α} (h : t.get? k = some a) : (k, a) ∈ t := by
  induction t with
  | nil => exact absurd h (by simp [get?])
  | cons e t ih =>
    obtain ⟨k', b⟩ := e
    rw [get?] at h
    split at h
    · next hk => simp [← hk, ← Option.some.inj h]
    · exact List.mem_cons_of_mem _ (ih h)

theorem get?_of_not_mem {t : Table α} {k : String} (h : k ∉ t.keys) : t.get? k = none := by
  cases hk : t.get? k with
  | none => rfl
  | some a => exact absurd (List.mem_map_of_mem (f := (·.1)) (mem_of_get? hk)) h

theorem get?_of_mem {t : Table α} (hn : t.keys.Nodup) {k : String} {a : α} (h : (k, a) ∈ t) :
    t.get? k = some a := by
  induction t with
  | nil => exact absurd h List.not_mem_nil
  | cons e t ih =>
    obtain ⟨hnew, hn⟩ := List.nodup_cons.mp hn
    rcases List.mem_cons.mp h with rfl | h
    · simp [get?]
    · have hne : e.1 ≠ k := by
        rintro rfl
        exact hnew (List.mem_map_of_mem (f := (·.1)) h)
      rw [get?, if_neg hne, ih hn h]

theorem get?_append (t u : Table α) (k : String) :
    Table.get? (t ++ u) k = (t.get? k).or (u.get? k) := by
  induction t with
  | nil => rfl
  | cons e t ih => by_cases hk : e.1 = k <;> simp [get?, hk, ih]

theorem get?_mapKeys (f : String → α → β) (t : Table α) (k : String) :
    Table.get? (t.map fun (k, a) => (k, f k a)) k = (t.get? k).map (f k) := by
  induction t with
  | nil => rfl
  | cons e t ih => by_cases hk : e.1 = k <;> simp [get?, hk, ih]

theorem get?_map (f : α → β) (t : Table α) (k : String) :
    Table.get? (t.map fun (k, a) => (k, f a)) k = (t.get? k).map f := get?_mapKeys (fun _ => f) t k

theorem mem_insert {t : Table α} {key : String} {a : α} {e : String × α}
    (h : e ∈ t.insert key a) : e = (key, a) ∨ e ∈ t := by
  induction t with
  | nil => simpa [insert] using h
  | cons e' t ih =>
    obtain ⟨k, b⟩ := e'
    unfold insert at h
    grind

theorem mem_foldl_insert {entries : List (String × α)} {t : Table α} {e : String × α}
    (h : e ∈ entries.foldl (fun t (k, a) => t.insert k a) t) : e ∈ t ∨ e ∈ entries := by
  induction entries generalizing t with
  | nil => exact .inl h
  | cons e' entries ih =>
    rcases ih h with h | h
    · rcases mem_insert h with rfl | h
      · exact .inr List.mem_cons_self
      · exact .inl h
    · exact .inr (List.mem_cons_of_mem _ h)

theorem mem_of_mem_ofEntries {entries : List (String × α)} {e : String × α}
    (h : e ∈ ofEntries entries) : e ∈ entries :=
  (mem_foldl_insert h).resolve_left List.not_mem_nil

theorem get?_foldl_insert (entries : List (String × α)) (t : Table α) (k : String) :
    Table.get? (entries.foldl (fun t (k, a) => t.insert k a) t) k =
      (Table.get? entries.reverse k).or (t.get? k) := by
  induction entries generalizing t with
  | nil => rfl
  | cons e entries ih =>
    rw [List.foldl_cons, ih, get?_insert, List.reverse_cons, get?_append, Option.or_assoc]
    by_cases hk : e.1 = k <;> simp [get?, hk]

/-- The last entry of a key counts. -/
theorem get?_ofEntries_reverse (entries : List (String × α)) (k : String) :
    (ofEntries entries).get? k = Table.get? entries.reverse k := by
  rw [ofEntries, get?_foldl_insert]
  simp [get?]

theorem get?_reverse {t : Table α} (hn : t.keys.Nodup) (k : String) :
    Table.get? t.reverse k = t.get? k := by
  induction t with
  | nil => rfl
  | cons e t ih =>
    obtain ⟨hnew, hn⟩ := List.nodup_cons.mp hn
    rw [List.reverse_cons, get?_append, ih hn]
    by_cases hk : e.1 = k
    · subst hk
      simp [get?, get?_of_not_mem hnew]
    · simp [get?, hk]

/-- Where no key is given twice, a table answers as its entries do. -/
theorem get?_ofEntries {entries : List (String × α)} (hn : (keys entries).Nodup) (k : String) :
    (ofEntries entries).get? k = Table.get? entries k := by
  rw [get?_ofEntries_reverse, get?_reverse hn]

theorem get?_ofEntries_last (front : List (String × α)) {back : List (String × α)} {k : String}
    (h : k ∉ keys back) (a : α) : (ofEntries (front ++ (k, a) :: back)).get? k = some a := by
  have hback : Table.get? back.reverse k = none := by
    apply get?_of_not_mem
    simpa [keys] using h
  rw [get?_ofEntries_reverse, List.reverse_append, List.reverse_cons, get?_append, get?_append,
    hback]
  simp [get?]

theorem get?_filter (q : String → Bool) (t : Table α) (k : String) :
    Table.get? (t.filter fun e => q e.1) k = if q k then t.get? k else none := by
  induction t with
  | nil => simp [get?]
  | cons e t ih =>
    by_cases hk : e.1 = k
    · subst hk
      cases hq : q e.1 <;> simp [get?, hq, ih]
    · cases hq : q e.1 <;> simp [get?, hq, hk, ih]

/-! ## Order -/

theorem Sorted.insert {t : Table α} (h : t.Sorted) (key : String) (a : α) :
    (t.insert key a).Sorted := by
  induction t with
  | nil => exact List.pairwise_singleton _ _
  | cons e t ih =>
    obtain ⟨k, b⟩ := e
    obtain ⟨hlow, ht⟩ := List.pairwise_cons.mp h
    unfold Table.insert
    split
    · next hlt =>
      refine List.pairwise_cons.mpr ⟨fun e he => ?_, h⟩
      rcases List.mem_cons.mp he with rfl | he
      · exact hlt
      · exact String.lt_trans hlt (hlow e he)
    · next hge =>
      split
      · next heq => exact List.pairwise_cons.mpr ⟨heq ▸ hlow, ht⟩
      · next hne =>
        refine List.pairwise_cons.mpr ⟨fun e he => ?_, ih ht⟩
        rcases mem_insert he with rfl | he
        · show k < key
          grind
        · exact hlow e he

theorem sorted_foldl_insert (entries : List (String × α)) {t : Table α} (h : t.Sorted) :
    Sorted (entries.foldl (fun t (k, a) => t.insert k a) t) := by
  induction entries generalizing t with
  | nil => exact h
  | cons e entries ih => exact ih (h.insert e.1 e.2)

theorem sorted_ofEntries (entries : List (String × α)) : (ofEntries entries).Sorted :=
  sorted_foldl_insert entries List.Pairwise.nil

theorem Sorted.nodup {t : Table α} (h : t.Sorted) : t.keys.Nodup := by
  refine List.pairwise_map.mpr (List.Pairwise.imp (fun {a b} hlt heq => ?_) h)
  rw [heq] at hlt
  exact String.lt_irrefl _ hlt

theorem Sorted.ext {t u : Table α} (ht : t.Sorted) (hu : u.Sorted)
    (h : ∀ k, t.get? k = u.get? k) : t = u := by
  have hmem : ∀ {t u : Table α}, t.Sorted → (∀ k, t.get? k = u.get? k) → ∀ e ∈ t, e ∈ u := by
    intro t u ht h e he
    exact mem_of_get? ((h e.1).symm.trans (get?_of_mem ht.nodup he))
  apply List.Perm.eq_of_pairwise _ ht hu
  · have hnt : t.Nodup := List.Nodup.of_map _ ht.nodup
    have hnu : u.Nodup := List.Nodup.of_map _ hu.nodup
    refine (List.perm_ext_iff_of_nodup hnt hnu).mpr fun e => ?_
    exact ⟨hmem ht h e, hmem hu (fun k => (h k).symm) e⟩
  · intro e e' _ _ hlt hgt
    exact absurd hlt (String.lt_asymm hgt)

theorem Sorted.ofEntries_eq {t : Table α} (h : t.Sorted) : ofEntries t = t :=
  (sorted_ofEntries t).ext h (get?_ofEntries h.nodup)

theorem ofEntries_filter {es es' : List (String × α)} (h : ofEntries es = ofEntries es')
    (q : String → Bool) :
    ofEntries (es.filter fun e => q e.1) = ofEntries (es'.filter fun e => q e.1) := by
  refine (sorted_ofEntries _).ext (sorted_ofEntries _) fun k => ?_
  have hk : Table.get? es.reverse k = Table.get? es'.reverse k := by
    rw [← get?_ofEntries_reverse, ← get?_ofEntries_reverse, h]
  rw [get?_ofEntries_reverse, get?_ofEntries_reverse, ← List.filter_reverse, ← List.filter_reverse,
    get?_filter, get?_filter, hk]

end ChatGateway.Table
