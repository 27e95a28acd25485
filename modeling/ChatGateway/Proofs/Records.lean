import ChatGateway.Decode.Union
import ChatGateway.Proofs.Values

/-!
# Records that are read back

A decoder reads a value when it takes every document that says it, in whatever order the members
stand, to one result. What decoders of records do is said once for the fields and the members that
stand beside them.
-/

namespace ChatGateway.Decode

open Json

variable {α β : Type}

/-- However a document that says `v` is held and ordered, the decoder takes it to `a`. -/
def Reads (dec : Decoder α) (v : Value) (a : α) : Prop := ∀ m d, d.Says v → dec m d = .ok a

/-- The decoder takes no document that says `v`. -/
def Refuses (dec : Decoder α) (v : Value) : Prop :=
  ∀ m d, d.Says v → ∃ e, dec m d = .error e

@[simp]
theorem ok_bind {ε : Type} (a : α) (f : α → Except ε β) : (Except.ok a >>= f) = f a := rfl

@[simp]
theorem error_bind {ε : Type} (e : ε) (f : α → Except ε β) :
    (Except.error e >>= f) = .error e := rfl

@[simp]
theorem pure_eq_ok {ε : Type} (a : α) : (pure a : Except ε α) = .ok a := rfl

/-! ## Scalars and lists -/

theorem reads_string (s : String) : Reads string (.str s) s := by
  intro m d h
  rw [h.str]
  rfl

theorem reads_boolean (b : Bool) : Reads boolean (.bool b) b := by
  intro m d h
  rw [h.bool]
  rfl

theorem reads_natural {bits n : Nat} (h : n < Nat.pow 2 bits) (name : String) :
    Reads (natural bits name) (.ofNat n) n := by
  intro m d hd
  have hn : (n : Int).toNat < Nat.pow 2 bits := h
  rw [hd.num, natural, if_pos ⟨Int.natCast_nonneg n, hn⟩]
  rfl

theorem reads_u64 {n : Nat} (h : n < UInt64.size) : Reads u64 (.ofNat n) n :=
  reads_natural h "u64"

theorem reads_usize {n : Nat} (h : n < UInt64.size) : Reads usize (.ofNat n) n :=
  reads_natural h "usize"

theorem reads_binary64 (x : Number.Binary64) : Reads binary64 (.ofBinary64 x) x := by
  intro m d h
  rw [h.num]
  rfl

theorem reads_value {v : Value} (h : v.Canonical) : Reads value v v := by
  intro m d hd
  rw [value, hd.value, h]

theorem Reads.map {dec : Decoder α} {v : Value} {a : α} (h : Reads dec v a) (f : α → β) :
    Reads (fun m d => (dec m d).map f) v (f a) := by
  intro m d hd
  show (dec m d).map f = .ok (f a)
  rw [h m d hd]
  rfl

theorem Reads.option {dec : Decoder α} {v : Value} {a : α} (h : Reads dec v a) (hv : v ≠ .null) :
    Reads (option dec) v (some a) := by
  intro m d hd
  unfold Decode.option
  split
  · exact absurd rfl (hd.ne_null hv)
  · rw [h m d hd]
    rfl

theorem reads_null (dec : Decoder α) : Reads (option dec) .null none := by
  intro m d h
  rw [h.null]
  rfl

theorem items_eq {dec : Decoder α} {f : α → Value} {m : Medium} {as : List α}
    (h : ∀ a ∈ as, Reads dec (f a) a) {ds : List Document}
    (hds : List.Forall₂ Document.Says ds (as.map f)) : items dec m ds = .ok as := by
  induction as generalizing ds with
  | nil =>
    rw [List.map_nil, List.forall₂_nil_right_iff] at hds
    rw [hds, items]
  | cons a as ih =>
    rw [List.map_cons, List.forall₂_cons_right_iff] at hds
    obtain ⟨d, ds, hd, hds, rfl⟩ := hds
    obtain ⟨ha, has⟩ := List.forall_mem_cons.mp h
    rw [items, ha m d hd, ih has hds]
    rfl

theorem reads_list {dec : Decoder α} {f : α → Value} {as : List α}
    (h : ∀ a ∈ as, Reads dec (f a) a) : Reads (list dec) (.arr (as.map f)) as := by
  intro m d hd
  obtain ⟨ds, rfl, hds⟩ := hd.arr
  exact items_eq h hds

/-! ## Choices -/

theorem Reads.untagged {dec : Decoder α} {v : Value} {a : α} (h : Reads dec v a) (union : String)
    (choices : List (Decoder α)) : Reads (untagged union (dec :: choices)) v a := by
  intro m d hd
  simp [Decode.untagged, hd.value, h .copy d hd, Except.toOption]

theorem Reads.untagged_next {dec : Decoder α} {v : Value} {a : α} {union : String}
    {choices : List (Decoder α)} (hr : Refuses dec v) (h : Reads (Decode.untagged union choices) v a) :
    Reads (Decode.untagged union (dec :: choices)) v a := by
  intro m d hd
  obtain ⟨e, he⟩ := hr .copy d hd
  have hrest := h m d hd
  simp only [Decode.untagged] at hrest ⊢
  simpa [he, Except.toOption] using hrest

/-! ## The members of a record -/

/-- The members of an object say each field of a record that has a value, and nothing of the others;
all members have a key and a value, so that a reader can pass over them. -/
structure Shown (members : List (Option String × Document)) (fields : Table (Option Value)) :
    Prop where
  keys : (members.map (·.1)).Nodup
  valued : ∀ p ∈ members, (∃ k, p.1 = some k) ∧ ∃ v, p.2.value? = some v
  present : ∀ {k v}, fields.get? k = some (some v) → ∃ d, first? members k = some d ∧ d.Says v
  absent : ∀ {k}, (fields.get? k).join = none → first? members k = none

theorem first?_cons (p : Option String × Document) (ms : List (Option String × Document))
    (k : String) : first? (p :: ms) k = if p.1 = some k then some p.2 else first? ms k := by
  by_cases hk : p.1 = some k <;> simp [first?, hk]

theorem mem_of_first? {ms : List (Option String × Document)} {k : String} {d : Document}
    (h : first? ms k = some d) : (some k, d) ∈ ms := by
  induction ms with
  | nil => exact absurd h (by simp [first?])
  | cons p ms ih =>
    rw [first?_cons] at h
    split at h
    · next hk => simp [← hk, ← Option.some.inj h]
    · exact List.mem_cons_of_mem _ (ih h)

theorem first?_of_members? {ms : List (Option String × Document)} {es : List (String × Value)}
    (h : List.Forall₂ (fun p e => p.1 = some e.1 ∧ p.2.value? = some e.2) ms es) (k : String) :
    (first? ms k).map Document.value? = (Table.get? es k).map some := by
  induction h with
  | nil => rfl
  | @cons p e _ _ h _ ih =>
    obtain ⟨hkey, hv⟩ := h
    rw [first?_cons, Table.get?, hkey]
    by_cases hk : e.1 = k <;> simp [hk, hv, ih]

theorem valued_of_members? {ms : List (Option String × Document)} {es : List (String × Value)}
    (h : List.Forall₂ (fun p e => p.1 = some e.1 ∧ p.2.value? = some e.2) ms es) :
    ∀ p ∈ ms, (∃ k, p.1 = some k) ∧ ∃ v, p.2.value? = some v := by
  induction h with
  | nil => simp
  | cons h _ ih => exact List.forall_mem_cons.mpr ⟨⟨⟨_, h.1⟩, ⟨_, h.2⟩⟩, ih⟩

theorem get?_record {fields : List (String × Option Value)} (hn : (Table.keys fields).Nodup)
    (k : String) : Table.get? (fields.filterMap fun (k, v) => v.map (k, ·)) k =
      (Table.get? fields k).join := by
  induction fields with
  | nil => rfl
  | cons f fields ih =>
    obtain ⟨k', v⟩ := f
    obtain ⟨hnew, hrest⟩ := List.nodup_cons.mp hn
    have hih := ih hrest
    by_cases hk : k' = k
    · rw [hk] at hnew
      rw [Table.get?_of_not_mem hnew] at hih
      cases v <;> simp [Table.get?, hk, hih]
    · cases v <;> simp [Table.get?, hk, hih]

theorem keys_record (fields : List (String × Option Value)) :
    (Table.keys (fields.filterMap fun (k, v) => v.map (k, ·))).Sublist (Table.keys fields) := by
  induction fields with
  | nil => exact List.Sublist.refl _
  | cons f fields ih =>
    obtain ⟨k, v⟩ := f
    cases v with
    | none => simpa [Table.keys] using ih.cons k
    | some v => simpa [Table.keys] using ih.cons_cons k

theorem exists_shown {d : Document} {fields : List (String × Option Value)}
    (h : d.Says (.record fields)) (hn : (Table.keys fields).Nodup) :
    ∃ members, d = .obj members ∧ Shown members fields := by
  have hrecord : (Table.keys (fields.filterMap fun (k, v) => v.map (k, ·))).Nodup :=
    hn.sublist (keys_record fields)
  obtain ⟨members, es, rfl, hkeys, htidy, hes, hget⟩ := h.obj hrecord
  have hfirst : ∀ k, (first? members k).map Document.value? =
      (Table.get? fields k).join.map fun v => some v.canonical := by
    intro k
    rw [first?_of_members? hes, hget, get?_record hn, Option.map_map]
    rfl
  refine ⟨members, rfl, hkeys, valued_of_members? hes, fun {k v} hk => ?_, fun {k} hk => ?_⟩
  · have hd := hfirst k
    rw [hk] at hd
    obtain ⟨d, hd, hv⟩ := Option.map_eq_some_iff.mp hd
    exact ⟨d, hd, htidy _ (mem_of_first? hd), hv⟩
  · simpa [hk] using hfirst k

/-! ## The fields of a record -/

/-- A field that has been read if it is there. -/
def Part.given (index : Nat) (name : String) (a : Option α) : Part α := ⟨index, name, a.map .ok⟩

namespace Part

variable (index : Nat) (name : String) (p : Parts) (l : Label)

@[simp]
theorem seen_given (a : Option α) : (given index name a).seen = (name, none) := by
  cases a <;> rfl

@[simp]
theorem required_given (a : α) : (given index name (some a)).required p l = .ok a := rfl

@[simp]
theorem required_absent (members : List (Option String × Document)) :
    (given index name (none : Option α)).required (.named members) l =
      .error (.missingField name) := rfl

@[simp]
theorem optional_given (a : Option α) : (given index name (some a)).optional p l = .ok a := rfl

@[simp]
theorem optional_absent (members : List (Option String × Document)) :
    (given index name (none : Option (Option α))).optional (.named members) l = .ok none := rfl

@[simp]
theorem optional_map (a : Option α) (members : List (Option String × Document)) :
    (given index name (a.map some)).optional (.named members) l = .ok a := by
  cases a <;> rfl

@[simp]
theorem orElse_given (a b : α) : (given index name (some a)).orElse b = .ok a := rfl

@[simp]
theorem orElse_map (a : Option α) : (given index name (a.map some)).orElse none = .ok a := by
  cases a <;> rfl

end Part

@[simp]
theorem parts_obj (l : Label) (members : List (Option String × Document)) :
    parts l (.obj members) = .ok (.named members) := rfl

@[simp]
theorem Parts.close_named (members : List (Option String × Document)) (m : Medium) (l : Label) :
    (named members).close m l = .ok () := rfl

theorem strange_of_value? {d : Document} {v : Value} (h : d.value? = some v) (keep : Bool) :
    strange keep d = .ok () := by
  simp [strange, h, Document.whole_of_value? d h]

theorem visit_ok {fields : List (String × Option Error)} (hf : ∀ f ∈ fields, f.2 = none)
    (keep : Bool) {members : List (Option String × Document)} {met : List String}
    (hn : (members.map (·.1)).Nodup)
    (hv : ∀ p ∈ members, (∃ k, p.1 = some k) ∧ ∃ v, p.2.value? = some v)
    (hmet : ∀ k ∈ met, some k ∉ members.map (·.1)) : visit fields keep met members = .ok () := by
  induction members generalizing met with
  | nil => rfl
  | cons p members ih =>
    obtain ⟨key, d⟩ := p
    obtain ⟨⟨⟨k, hkey⟩, v, hd⟩, hrest⟩ := List.forall_mem_cons.mp hv
    obtain rfl : key = some k := hkey
    obtain ⟨hnew, hn⟩ := List.nodup_cons.mp hn
    have hnot : ∀ k' ∈ met, k' ≠ k ∧ some k' ∉ members.map (·.1) := by
      intro k' hk'
      simpa using hmet k' hk'
    rw [visit]
    split
    · rw [strange_of_value? hd]
      exact ih hn hrest fun k' hk' => (hnot k' hk').2
    · next name refusal hfind =>
      have hk : met.contains k = false := by
        simpa using fun hk => (hnot k hk).1 rfl
      have hnone : refusal = none := hf _ (List.mem_of_find?_eq_some hfind)
      rw [hk, hnone]
      refine ih hn hrest fun k' hk' => ?_
      rcases List.mem_cons.mp hk' with rfl | hk'
      · exact hnew
      · exact (hnot k' hk').2

namespace Shown

variable {members : List (Option String × Document)} {fields : Table (Option Value)}

theorem part (h : Shown members fields) (k : String) {dec : Decoder α} {v : Value} {a : α}
    (hr : Reads dec v a) (m : Medium) (index : Nat)
    (hk : fields.get? k = some (some v)) :
    (Parts.named members).part m index k dec = .given index k (some a) := by
  obtain ⟨d, hd, hmeans⟩ := h.present hk
  simp [Parts.part, Part.given, hd, hr m d hmeans]

theorem part_absent (h : Shown members fields) (k : String) (dec : Decoder α) (m : Medium)
    (index : Nat) (hk : (fields.get? k).join = none) :
    (Parts.named members).part m index k dec = .given index k none := by
  simp [Parts.part, Part.given, h.absent hk]

theorem part_option (h : Shown members fields) (k : String) (a : Option α) {dec : Decoder α}
    {f : α → Value} (hr : ∀ b ∈ a, Reads dec (f b) b) (hf : ∀ b, f b ≠ .null) (m : Medium)
    (index : Nat) (hk : fields.get? k = some (a.map f)) :
    (Parts.named members).part m index k (option dec) = .given index k (a.map some) := by
  cases a with
  | none => exact h.part_absent k (option dec) m index (by simp [hk])
  | some b => exact h.part k ((hr b rfl).option (hf b)) m index (by simp [hk])

theorem check (h : Shown members fields) {seen : List (String × Option Error)}
    (hs : ∀ f ∈ seen, f.2 = none) (keep : Bool) :
    (Parts.named members).check seen keep = .ok () :=
  visit_ok hs keep h.keys h.valued (by simp)

end Shown

/-! ## Members beside the fields -/

theorem first?_of_mem {ms : List (Option String × Document)} (hn : (ms.map (·.1)).Nodup)
    {k : String} {d : Document} (h : (some k, d) ∈ ms) : first? ms k = some d := by
  induction ms with
  | nil => exact absurd h List.not_mem_nil
  | cons p ms ih =>
    obtain ⟨hnew, hrest⟩ := List.nodup_cons.mp hn
    rw [first?_cons]
    rcases List.mem_cons.mp h with rfl | h
    · simp
    · have hne : p.1 ≠ some k := by
        intro he
        exact hnew (List.mem_map.mpr ⟨(some k, d), h, he.symm⟩)
      rw [if_neg hne, ih hrest h]

/-- What becomes of a member of a record that keeps what it does not know. -/
def kept (names : List String) (p : Option String × Document) : Option (String × Value) :=
  p.1.bind fun k => if names.contains k then none else p.2.value?.map (k, ·)

theorem kept_eq_some_iff {names : List String} {p : Option String × Document}
    {e : String × Value} : kept names p = some e ↔
      p.1 = some e.1 ∧ e.1 ∉ names ∧ p.2.value? = some e.2 := by
  obtain ⟨key, d⟩ := p
  obtain ⟨k, v⟩ := e
  cases key with
  | none => simp [kept]
  | some k' =>
    simp only [kept, Option.bind_some, List.contains_eq_mem, decide_eq_true_eq]
    split
    · next hk =>
      simp only [reduceCtorEq, false_iff, Option.some.injEq]
      rintro ⟨rfl, hout, -⟩
      exact hout hk
    · next hk =>
      rw [Option.map_eq_some_iff]
      constructor
      · rintro ⟨w, hw, he⟩
        obtain ⟨rfl, rfl⟩ := Prod.mk.inj he
        exact ⟨rfl, hk, hw⟩
      · rintro ⟨hkey, -, hv⟩
        exact ⟨v, hv, by rw [Option.some.inj hkey]⟩

theorem keys_kept (names : List String) (members : List (Option String × Document)) :
    ((Table.keys (members.filterMap (kept names))).map some).Sublist (members.map (·.1)) := by
  induction members with
  | nil => exact List.Sublist.refl _
  | cons p members ih =>
    cases hp : kept names p with
    | none => simpa [hp] using ih.cons p.1
    | some e =>
      obtain ⟨hkey, -, -⟩ := kept_eq_some_iff.mp hp
      simpa [hp, Table.keys, hkey] using ih.cons_cons (some e.1)

/-- What a record keeps beside the fields of these names. -/
structure Kept (names : List String) (extra : Table Value) : Prop where
  sorted : extra.Sorted
  canonical : ∀ e ∈ extra, e.2.Canonical
  unknown : ∀ k ∈ extra.keys, k ∉ names

section Kept

variable {members : List (Option String × Document)} {known : Table (Option Value)}
  {extra : Table Value} {names : List String}

theorem Shown.rest (h : Shown members (known ++ extra.map fun (k, v) => (k, some v)))
    (hx : Kept names extra) (hk : Table.keys known = names) :
    (Parts.named members).rest names = extra := by
  have hn : (Table.keys (members.filterMap (kept names))).Nodup :=
    .of_map some (h.keys.sublist (keys_kept _ members))
  show Table.ofEntries (members.filterMap (kept names)) = extra
  refine (Table.sorted_ofEntries _).ext hx.sorted fun k => Option.ext fun v => ?_
  have hget : k ∉ names →
      Table.get? (known ++ extra.map fun (k, v) => (k, some v)) k = (extra.get? k).map some := by
    intro hout
    rw [Table.get?_append, Table.get?_of_not_mem (hk ▸ hout), Table.get?_map, Option.none_or]
  rw [Table.get?_ofEntries hn]
  constructor
  -- a member that is kept is shown by a field, which can only be one of `extra`
  · intro hv
    obtain ⟨p, hp, hkept⟩ := List.mem_filterMap.mp (Table.mem_of_get? hv)
    obtain ⟨hkey, hout, hd⟩ := kept_eq_some_iff.mp hkept
    have hfirst : first? members k = some p.2 := first?_of_mem h.keys (hkey ▸ hp)
    cases he : extra.get? k with
    | none =>
      have hnone := h.absent (k := k) (by rw [hget hout, he]; rfl)
      exact absurd (hnone.symm.trans hfirst) (by simp)
    | some w =>
      obtain ⟨d, hd', hmeans⟩ := h.present (k := k) (v := w) (by rw [hget hout, he]; rfl)
      have hw : w.canonical = w := hx.canonical _ (Table.mem_of_get? he)
      obtain rfl : d = p.2 := Option.some.inj (hd'.symm.trans hfirst)
      rw [← hd, hmeans.value, hw]
  -- and what `extra` has is said by a member that has its value, as it is canonical
  · intro hv
    have hmem := Table.mem_of_get? hv
    have hout : k ∉ names := hx.unknown k (List.mem_map_of_mem (f := (·.1)) hmem)
    obtain ⟨d, hd, hmeans⟩ := h.present (k := k) (v := v) (by rw [hget hout, hv]; rfl)
    have hv' : d.value? = some v := hmeans.value.trans (congrArg some (hx.canonical _ hmem))
    refine Table.get?_of_mem hn (List.mem_filterMap.mpr ⟨(some k, d), mem_of_first? hd, ?_⟩)
    exact kept_eq_some_iff.mpr ⟨rfl, hout, hv'⟩

theorem Kept.nodup (hx : Kept names extra) (hk : Table.keys known = names) (hn : names.Nodup) :
    (Table.keys (known ++ extra.map fun (k, v) => (k, some v))).Nodup := by
  have hkeys : Table.keys (known ++ extra.map fun (k, v) => (k, some v)) =
      names ++ extra.keys := by
    simp [← hk, Table.keys, Function.comp_def]
  rw [hkeys, List.nodup_append]
  refine ⟨hn, hx.sorted.nodup, fun k hk k' hk' he => ?_⟩
  exact hx.unknown k' hk' (he ▸ hk)

theorem Kept.tidy (hx : Kept names extra) :
    ∀ f ∈ extra.map fun (k, v) => (k, some v), ∀ v ∈ f.2, (Document.ofValue v).Tidy := by
  refine List.forall_mem_map.mpr fun e he v hv => ?_
  obtain rfl : e.2 = v := Option.some.inj hv
  exact Document.tidy_of_canonical e.2 (hx.canonical e he)

end Kept

/-! ## Records and variants -/

/-- However the members stand, the decoder takes an object that shows the fields to `a`. -/
def Takes (dec : Decoder α) (fields : Table (Option Value)) (a : α) : Prop :=
  ∀ m members, Shown members fields → dec m (.obj members) = .ok a

theorem Takes.reads {dec : Decoder α} {fields : Table (Option Value)} {a : α}
    (h : Takes dec fields a) (hn : (Table.keys fields).Nodup) : Reads dec (.record fields) a := by
  intro m d hd
  obtain ⟨members, rfl, hmembers⟩ := exists_shown hd hn
  exact h m members hmembers

/-- Members that show `fields` have the fields of a record, which make up `a`. -/
structure Fields.Gets (s : Fields α) (m : Medium) (members : List (Option String × Document))
    (fields : Table (Option Value)) (a : α) : Prop where
  shown : Shown members fields
  taken : ∀ f ∈ s.seen (.named members) m, f.2 = none
  got : ∀ l, s.get (.named members) m l = .ok a

namespace Fields

variable {m : Medium} {members : List (Option String × Document)} {fields : Table (Option Value)}

theorem gets_of (h : Shown members fields) (a : α) : (of a).Gets m members fields a :=
  ⟨h, by simp [of], fun _ => rfl⟩

namespace Gets

theorem field {s : Fields (α → β)} {f : α → β} (h : s.Gets m members fields f) {name : String}
    {dec : Decoder α} {x : Part α} {take : Part α → Parts → Label → Except Error α} {a : α}
    (hx : (Parts.named members).part m s.names.length name dec = x) (hs : x.seen.2 = none)
    (ht : ∀ l, take x (.named members) l = .ok a) :
    (s.field name dec take).Gets m members fields (f a) where
  shown := h.shown
  taken := List.forall_mem_append.mpr ⟨h.taken, List.forall_mem_singleton.mpr (hx ▸ hs)⟩
  got l := by simp [Fields.field, h.got, hx, ht]

theorem required {s : Fields (α → β)} {f : α → β} (h : s.Gets m members fields f) (name : String)
    {dec : Decoder α} {v : Value} {a : α} (hr : Reads dec v a)
    (hk : fields.get? name = some (some v)) : (s.required name dec).Gets m members fields (f a) :=
  h.field (h.shown.part name hr m _ hk) (by simp) fun _ => rfl

theorem optional {s : Fields (Option α → β)} {f : Option α → β} (h : s.Gets m members fields f)
    (name : String) (a : Option α) {dec : Decoder α} {g : α → Value}
    (hr : ∀ b ∈ a, Reads dec (g b) b) (hg : ∀ b, g b ≠ .null)
    (hk : fields.get? name = some (a.map g)) : (s.optional name dec).Gets m members fields (f a) :=
  h.field (h.shown.part_option name a hr hg m _ hk) (by simp) (by simp)

theorem optional_given {s : Fields (Option α → β)} {f : Option α → β}
    (h : s.Gets m members fields f) (name : String) {dec : Decoder α} {v : Value} {a : Option α}
    (hr : Reads (Decode.option dec) v a) (hk : fields.get? name = some (some v)) :
    (s.optional name dec).Gets m members fields (f a) :=
  h.field (h.shown.part name hr m _ hk) (by simp) (by simp)

theorem optional_absent {s : Fields (Option α → β)} {f : Option α → β}
    (h : s.Gets m members fields f) (name : String) (dec : Decoder α)
    (hk : (fields.get? name).join = none) :
    (s.optional name dec).Gets m members fields (f none) :=
  h.field (h.shown.part_absent name (Decode.option dec) m _ hk) (by simp) (by simp)

theorem orElse {s : Fields (α → β)} {f : α → β} (h : s.Gets m members fields f) (name : String)
    {dec : Decoder α} {v : Value} {a : α} (b : α) (hr : Reads dec v a)
    (hk : fields.get? name = some (some v)) : (s.orElse name dec b).Gets m members fields (f a) :=
  h.field (h.shown.part name hr m _ hk) (by simp) (by simp)

theorem orElse_none {s : Fields (Option α → β)} {f : Option α → β}
    (h : s.Gets m members fields f) (name : String) (a : Option α) {dec : Decoder α} {g : α → Value}
    (hr : ∀ b ∈ a, Reads dec (g b) b) (hg : ∀ b, g b ≠ .null)
    (hk : fields.get? name = some (a.map g)) :
    (s.orElse name (Decode.option dec) none).Gets m members fields (f a) :=
  h.field (h.shown.part_option name a hr hg m _ hk) (by simp) (by simp)

end Gets

end Fields

theorem takes_record {s : Fields α} {fields : Table (Option Value)} {a : α} {name : String}
    (h : ∀ {m members}, Shown members fields → s.Gets m members fields a) :
    Takes (record name s) fields a := by
  intro m members hmembers
  have hs := h (m := m) hmembers
  simp [record, hs.got, hmembers.check hs.taken]

@[simp]
theorem openParts_obj (name : String) (members : List (Option String × Document)) :
    openParts name (.obj members) = .ok (.named members) := rfl

theorem takes_openRecord {s : Fields (Table Value → α)} {known : Table (Option Value)}
    {extra : Table Value} {f : Table Value → α} {a : α} {name : String} (hx : Kept s.names extra)
    (hk : Table.keys known = s.names)
    (h : ∀ {m members}, Shown members (known ++ extra.map fun (k, v) => (k, some v)) →
      s.Gets m members (known ++ extra.map fun (k, v) => (k, some v)) f) (ha : f extra = a) :
    Takes (openRecord name s) (known ++ extra.map fun (k, v) => (k, some v)) a := by
  intro m members hmembers
  have hs := h (m := m) hmembers
  have hrest := hmembers.rest hx hk
  simp [openRecord, hs.got, hrest, hmembers.check hs.taken, ha]

theorem tidy_record {fields : List (String × Option Value)} (hn : (Table.keys fields).Nodup)
    (h : ∀ f ∈ fields, ∀ v ∈ f.2, (Document.ofValue v).Tidy) :
    (Document.ofValue (.record fields)).Tidy := by
  refine Document.tidy_obj_iff.mpr ⟨hn.sublist (keys_record fields), fun e he => ?_⟩
  obtain ⟨f, hf, hfe⟩ := List.mem_filterMap.mp he
  obtain ⟨v, hv, rfl⟩ := Option.map_eq_some_iff.mp hfe
  exact h f hf v hv

section Tagged

variable {variants : List String} {other : Option Nat} {m : Medium}
  {members : List (Option String × Document)}

theorem first?_others (members : List (Option String × Document)) (k : String) :
    first? (members.filter (·.1 ≠ some "type")) k =
      if k = "type" then none else first? members k := by
  induction members with
  | nil => simp [first?]
  | cons p members ih =>
    by_cases hp : p.1 = some "type"
    · rw [List.filter_cons_of_neg (by simp [hp]), ih, first?_cons, hp]
      split
      · rfl
      · next hk => simp [Ne.symm hk]
    · rw [List.filter_cons_of_pos (by simp [hp]), first?_cons, ih, first?_cons]
      by_cases hk : k = "type"
      · simp [hk, hp]
      · simp [hk]

theorem taggedMembers_of_absent
    (hv : ∀ p ∈ members, (∃ k, p.1 = some k) ∧ ∃ v, p.2.value? = some v)
    (ht : some "type" ∉ members.map (·.1)) (found : Option Nat) :
    taggedMembers variants other m found members = .ok (found, members) := by
  induction members with
  | nil => rfl
  | cons p members ih =>
    obtain ⟨key, d⟩ := p
    obtain ⟨⟨⟨k, hkey⟩, v, hd⟩, hrest⟩ := List.forall_mem_cons.mp hv
    obtain rfl : key = some k := hkey
    simp only [List.map_cons, List.mem_cons, not_or, Option.some.injEq] at ht
    simp [taggedMembers, Ne.symm ht.1, strange_of_value? hd, ih hrest ht.2]

theorem taggedMembers_of_present (hn : (members.map (·.1)).Nodup)
    (hv : ∀ p ∈ members, (∃ k, p.1 = some k) ∧ ∃ v, p.2.value? = some v) {d : Document}
    (hd : first? members "type" = some d) {i : Nat} (ht : tag variants other m d = .ok i) :
    taggedMembers variants other m none members =
      .ok (some i, members.filter (·.1 ≠ some "type")) := by
  induction members with
  | nil => exact absurd hd (by simp [first?])
  | cons p members ih =>
    obtain ⟨key, d'⟩ := p
    obtain ⟨⟨⟨k, hkey⟩, v, hd'⟩, hrest⟩ := List.forall_mem_cons.mp hv
    obtain rfl : key = some k := hkey
    obtain ⟨hnew, hn⟩ := List.nodup_cons.mp hn
    rw [first?_cons] at hd
    by_cases hk : k = "type"
    · obtain rfl : d' = d := by simpa [hk] using hd
      have habsent : some "type" ∉ members.map (·.1) := by rwa [hk] at hnew
      have hall : members.filter (·.1 ≠ some "type") = members := by
        refine List.filter_eq_self.mpr fun p hp => ?_
        have hne : p.1 ≠ some "type" := fun he => habsent (List.mem_map.mpr ⟨p, hp, he⟩)
        simpa using hne
      rw [List.filter_cons_of_neg (by simp [hk]), hall]
      simp [taggedMembers, hk, ht, taggedMembers_of_absent hrest habsent]
    · have hfirst : first? members "type" = some d := by simpa [hk] using hd
      simp [taggedMembers, hk, strange_of_value? hd', ih hn hrest hfirst]

end Tagged

theorem Shown.tagged {members : List (Option String × Document)} {s : String}
    {fields : Table (Option Value)} (h : Shown members (("type", some (.str s)) :: fields))
    (ht : "type" ∉ Table.keys fields) {variants : List String} {i : Nat}
    (hi : variantIndex variants s = .ok i) (union : String) (other : Option Nat) (m : Medium) :
    ∃ others, Decode.tagged union variants other m (.obj members) = .ok (i, .obj others) ∧
      Shown others fields := by
  obtain ⟨d, hd, hmeans⟩ := h.present (k := "type") (v := .str s) (by simp [Table.get?])
  have htag : tag variants other m d = .ok i := by simp [hmeans.str, tag, hi]
  refine ⟨members.filter (·.1 ≠ some "type"), ?_, ?_⟩
  · simp [Decode.tagged, taggedMembers_of_present h.keys h.valued hd htag]
  · have hget : ∀ k ≠ "type", Table.get? (("type", some (.str s)) :: fields) k = fields.get? k := by
      intro k hk
      rw [Table.get?, if_neg (Ne.symm hk)]
    refine ⟨h.keys.sublist (List.filter_sublist.map _),
      fun p hp => h.valued p (List.mem_filter.mp hp).1, fun {k v} hk => ?_, fun {k} hk => ?_⟩
    · have hne : k ≠ "type" := by
        rintro rfl
        simp [Table.get?_of_not_mem ht] at hk
      rw [first?_others, if_neg hne]
      exact h.present ((hget k hne).trans hk)
    · rw [first?_others]
      split
      · rfl
      · next hne => exact h.absent (by rw [hget k hne, hk])

theorem Takes.variant {contents : Decoder α} {fields : Table (Option Value)} {a : α}
    (h : Takes contents fields a) (hn : ("type" :: Table.keys fields).Nodup) {dec : Decoder α}
    {union : String} {variants : List String} {other : Option Nat}
    {next : Nat × Document → Except Error α}
    (hdec : ∀ m d, dec m d = Decode.tagged union variants other m d >>= next) {s : String} {i : Nat}
    (hi : variantIndex variants s = .ok i)
    (hnext : ∀ others, next (i, .obj others) = contents .copy (.obj others)) :
    Reads dec (.record (("type", some (.str s)) :: fields)) a := by
  refine Takes.reads (fun m members hmembers => ?_) hn
  obtain ⟨others, htag, hothers⟩ := hmembers.tagged (List.nodup_cons.mp hn).1 hi union other m
  rw [hdec, htag, ok_bind, hnext, h .copy others hothers]

theorem takes_nothing (a : α) : Takes (fun _ _ => .ok a) [] a := fun _ _ _ => rfl

/-! ## What decoders give -/

theorem bind_eq_ok {ε : Type} {x : Except ε α} {f : α → Except ε β} {b : β} :
    x >>= f = .ok b ↔ ∃ a, x = .ok a ∧ f a = .ok b := by
  cases x <;> simp

theorem mismatch_ne_ok (d : Document) (expected : String) (a : α) : mismatch d expected ≠ .ok a := by
  cases d <;> simp [mismatch]

/-- What the decoder makes of any document has the property. -/
def Yields (dec : Decoder α) (P : α → Prop) : Prop := ∀ m d a, dec m d = .ok a → P a

variable {dec : Decoder α} {P : α → Prop}

theorem yields_natural (bits : Nat) (name : String) :
    Yields (natural bits name) (· < Nat.pow 2 bits) := by
  intro m d n h
  unfold natural at h
  split at h
  · split at h
    · next hn => exact Except.ok.inj h ▸ hn.2
    · cases h
  · exact absurd h (mismatch_ne_ok _ _ _)

theorem yields_value : Yields value Value.Canonical := by
  intro m d v h
  simp only [value] at h
  split at h
  · next hv =>
    obtain rfl := Except.ok.inj h
    exact Document.canonical_of_value? d hv
  · cases h

theorem Yields.option (h : Yields dec P) : Yields (option dec) fun x => ∀ a ∈ x, P a := by
  intro m d x hx
  unfold Decode.option at hx
  split at hx
  · obtain rfl := Except.ok.inj hx
    simp
  · cases hd : dec m d with
    | error e =>
      rw [hd] at hx
      cases hx
    | ok a =>
      rw [hd] at hx
      obtain rfl := Except.ok.inj hx
      rintro b ⟨⟩
      exact h m d a hd

theorem Yields.map {Q : β → Prop} {f : α → β} (h : Yields dec fun a => Q (f a)) :
    Yields (fun m d => (dec m d).map f) Q := by
  intro m d b hb
  cases hd : dec m d with
  | error e => simp [hd, Except.map] at hb
  | ok a =>
    obtain rfl : f a = b := by simpa [hd, Except.map] using hb
    exact h m d a hd

theorem yields_items (h : Yields dec P) (m : Medium) {ds : List Document} {as : List α}
    (hs : items dec m ds = .ok as) : ∀ a ∈ as, P a := by
  induction ds generalizing as with
  | nil =>
    obtain rfl := Except.ok.inj hs
    simp
  | cons d ds ih =>
    rw [items] at hs
    simp only [bind_eq_ok] at hs
    obtain ⟨a, ha, as', has, hs⟩ := hs
    obtain rfl := Except.ok.inj hs
    exact List.forall_mem_cons.mpr ⟨h m d a ha, ih has⟩

theorem Yields.list (h : Yields dec P) : Yields (list dec) fun as => ∀ a ∈ as, P a := by
  intro m d as hs
  unfold Decode.list at hs
  split at hs
  · exact yields_items h _ hs
  · exact absurd hs (mismatch_ne_ok _ _ _)

theorem chosen_of_untagged {union : String} {choices : List (Decoder α)} {m : Medium}
    {d : Document} {a : α} (h : untagged union choices m d = .ok a) :
    ∃ dec ∈ choices, dec .copy d = .ok a := by
  simp only [untagged] at h
  split at h
  · cases h
  · split at h
    · next hfound =>
      obtain rfl := Except.ok.inj h
      obtain ⟨dec, hdec, hsome⟩ := List.exists_of_findSome?_eq_some hfound
      refine ⟨dec, hdec, ?_⟩
      cases hd : dec .copy d with
      | error e => simp [hd, Except.toOption] at hsome
      | ok b => simpa [hd, Except.toOption] using hsome
    · cases h

theorem yields_untagged {union : String} {choices : List (Decoder α)}
    (h : ∀ dec ∈ choices, Yields dec P) : Yields (untagged union choices) P := by
  intro m d a ha
  obtain ⟨dec, hdec, hchosen⟩ := chosen_of_untagged ha
  exact h dec hdec .copy d a hchosen

theorem result_part (p : Parts) (m : Medium) (index : Nat) (name : String) (dec : Decoder α) :
    (p.part m index name dec).result = none ∨
      ∃ d, (p.part m index name dec).result = some (dec m d) := by
  cases p with
  | named members => cases h : first? members name <;> simp [Parts.part, h]
  | listed items => cases h : items[index]? <;> simp [Parts.part, h]

theorem Yields.required (h : Yields dec P) {p : Parts} {m : Medium} {index : Nat} {name : String}
    {l : Label} {a : α} (ha : (p.part m index name dec).required p l = .ok a) : P a := by
  unfold Part.required at ha
  rcases result_part p m index name dec with hr | ⟨d, hr⟩
  · rw [hr] at ha
    cases p <;> cases ha
  · rw [hr] at ha
    exact h m d a ha

theorem Yields.optional {dec : Decoder (Option α)} {P : Option α → Prop} (h : Yields dec P)
    (hnone : P none) {p : Parts} {m : Medium} {index : Nat} {name : String} {l : Label}
    {a : Option α} (ha : (p.part m index name dec).optional p l = .ok a) : P a := by
  unfold Part.optional at ha
  rcases result_part p m index name dec with hr | ⟨d, hr⟩
  · rw [hr] at ha
    cases p with
    | named members => exact Except.ok.inj ha ▸ hnone
    | listed items => cases ha
  · rw [hr] at ha
    exact h m d a ha

theorem Yields.orElse (h : Yields dec P) {b : α} (hb : P b) {p : Parts} {m : Medium} {index : Nat}
    {name : String} {a : α} (ha : (p.part m index name dec).orElse b = .ok a) : P a := by
  unfold Part.orElse at ha
  rcases result_part p m index name dec with hr | ⟨d, hr⟩
  · rw [hr] at ha
    exact Except.ok.inj ha ▸ hb
  · rw [hr] at ha
    exact h m d a ha

/-- What is kept beside the fields is a table of other members that have a value. -/
theorem kept_rest (p : Parts) (names : List String) : Kept names (p.rest names) := by
  cases p with
  | listed items => exact ⟨List.Pairwise.nil, by simp [Parts.rest], by simp [Parts.rest, Table.keys]⟩
  | named members =>
    show Kept names (Table.ofEntries (members.filterMap (kept names)))
    have hmem : ∀ e ∈ Table.ofEntries (members.filterMap (kept names)),
        ∃ p, kept names p = some e := by
      intro e he
      obtain ⟨p, -, hp⟩ := List.mem_filterMap.mp (Table.mem_of_mem_ofEntries he)
      exact ⟨p, hp⟩
    refine ⟨Table.sorted_ofEntries _, fun e he => ?_, fun k hk => ?_⟩
    · obtain ⟨p, hp⟩ := hmem e he
      exact Document.canonical_of_value? p.2 (kept_eq_some_iff.mp hp).2.2
    · obtain ⟨e, he, rfl⟩ := List.mem_map.mp hk
      obtain ⟨p, hp⟩ := hmem e he
      exact (kept_eq_some_iff.mp hp).2.1

/-- What the fields make up has the property. -/
def Fields.Yields (s : Fields α) (P : α → Prop) : Prop :=
  ∀ p m l a, s.get p m l = .ok a → P a

namespace Fields

variable {s : Fields (α → β)} {name : String} {Q : β → Prop}

theorem get_field_eq_ok {take : Part α → Parts → Label → Except Error α} {p : Parts} {m : Medium}
    {l : Label} {b : β} : (s.field name dec take).get p m l = .ok b ↔
      ∃ f, s.get p m l = .ok f ∧
        ∃ a, take (p.part m s.names.length name dec) p l = .ok a ∧ f a = b := by
  simp only [field, bind_eq_ok, pure_eq_ok, Except.ok.injEq]

theorem Yields.of {a : α} (h : P a) : (of a).Yields P := fun _ _ _ _ ha => Except.ok.inj ha ▸ h

theorem Yields.required (hd : Decode.Yields dec P) (h : s.Yields fun f => ∀ a, P a → Q (f a)) :
    (s.required name dec).Yields Q := by
  intro p m l b hb
  obtain ⟨f, hf, a, ha, rfl⟩ := get_field_eq_ok.mp hb
  exact h p m l f hf a (hd.required ha)

theorem Yields.optional {s : Fields (Option α → β)} (hd : Decode.Yields dec P)
    (h : s.Yields fun f => ∀ o, (∀ a ∈ o, P a) → Q (f o)) : (s.optional name dec).Yields Q := by
  intro p m l b hb
  obtain ⟨f, hf, o, ho, rfl⟩ := get_field_eq_ok.mp hb
  exact h p m l f hf o (hd.option.optional (by simp) ho)

theorem Yields.orElse {a : α} (hd : Decode.Yields dec P) (ha : P a)
    (h : s.Yields fun f => ∀ a, P a → Q (f a)) : (s.orElse name dec a).Yields Q := by
  intro p m l b hb
  obtain ⟨f, hf, c, hc, rfl⟩ := get_field_eq_ok.mp hb
  exact h p m l f hf c (hd.orElse ha hc)

end Fields

theorem yields_any (dec : Decoder α) : Yields dec fun _ => True := fun _ _ _ _ => trivial

theorem yields_record {s : Fields α} {name : String} (h : s.Yields P) :
    Yields (record name s) P := by
  intro m d a ha
  simp only [record, bind_eq_ok] at ha
  obtain ⟨p, -, -, -, b, hb, -, -, ha⟩ := ha
  exact Except.ok.inj ha ▸ h p m _ b hb

theorem yields_openRecord {s : Fields (Table Value → α)} {name : String}
    (h : s.Yields fun f => ∀ extra, Kept s.names extra → P (f extra)) :
    Yields (openRecord name s) P := by
  intro m d a ha
  simp only [openRecord, bind_eq_ok] at ha
  obtain ⟨p, -, -, -, f, hf, ha⟩ := ha
  exact Except.ok.inj ha ▸ h p m _ f hf _ (kept_rest p s.names)

end ChatGateway.Decode
