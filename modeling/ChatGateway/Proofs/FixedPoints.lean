import ChatGateway.Proofs.Coercions

/-!
# Values that coercion leaves alone

By a schema without alternatives at any depth, what has been coerced is not changed by coercing it
again, and a value that is of the declared type everywhere is not changed at all.
-/

namespace ChatGateway.Tool

open Json

/-! ## Schemas without alternatives at any depth -/

/-- Neither the schema nor any schema of items or properties below it lists alternatives. -/
inductive Unbranched : Value → Prop where
  | intro {schema : Value} (single : Single schema)
    (items : ∀ item, schema.get? "items" = some item → Unbranched item)
    (properties : ∀ key s, property? schema key = some s → Unbranched s) : Unbranched schema

mutual

/-- Neither the value nor a member of it, at any depth, has a member named like alternatives. -/
def branchless : Value → Bool
  | .obj ms => branchlessMembers ms
  | _ => true

def branchlessMembers : List (String × Value) → Bool
  | [] => true
  | (k, v) :: ms => k ∉ ["oneOf", "anyOf", "allOf"] && branchless v && branchlessMembers ms

end

theorem get?_of_branchless {ms : List (String × Value)} (h : branchlessMembers ms = true)
    {key : String} (hk : key ∈ ["oneOf", "anyOf", "allOf"]) : Table.get? ms key = none := by
  induction ms with
  | nil => rfl
  | cons m ms ih =>
    obtain ⟨k, v⟩ := m
    simp only [branchlessMembers, Bool.and_eq_true, decide_eq_true_eq] at h
    have hne : k ≠ key := fun he => h.1.1 (he ▸ hk)
    rw [Table.get?, if_neg hne, ih h.2]

/-- What `branchless` finds out of a schema, and of each member of it, as `properties` is one. -/
structure Clean (v : Value) : Prop where
  self : Unbranched v
  members : ∀ key w, v.get? key = some w → Unbranched w

theorem clean_of_none {v : Value} (h : ∀ key, v.get? key = none) : Clean v where
  self := .intro (fun key _ => h key) (by simp [h]) (by simp [property?, h])
  members := by simp [h]

mutual

theorem clean_of_branchless : (v : Value) → branchless v = true → Clean v
  | .null, _ | .bool _, _ | .num _, _ | .str _, _ | .arr _, _ => clean_of_none fun _ => rfl
  | .obj ms, h => by
    rw [branchless] at h
    have hms := clean_of_branchlessMembers ms h
    exact {
      self := .intro (fun key hk => get?_of_branchless h hk)
        (fun item hi => (hms _ item hi).self) fun key s hp => by
          obtain ⟨ps, hps, hs⟩ := Option.bind_eq_some_iff.mp hp
          exact (hms _ ps hps).members key s hs
      members := fun key w hw => (hms key w hw).self }

theorem clean_of_branchlessMembers : (ms : List (String × Value)) → branchlessMembers ms = true →
    ∀ key v, Table.get? ms key = some v → Clean v
  | [], _ => by simp [Table.get?]
  | (k, w) :: ms, h => fun key v hv => by
    simp only [branchlessMembers, Bool.and_eq_true] at h
    rw [Table.get?] at hv
    split at hv
    · exact Option.some.inj hv ▸ clean_of_branchless w h.1.2
    · exact clean_of_branchlessMembers ms h.2 key v hv

end

/-! ## Values of the declared type -/

/-- The value is of the declared type, at each place that a schema speaks of. Null is of every type,
and a schema without a known type asks for nothing. -/
inductive Conforms : Value → Value → Prop where
  | null (schema : Value) : Conforms schema .null
  | integer {schema : Value} (h : declared schema = some "integer") (n : Int) :
    Conforms schema (.num (.int n))
  | number {schema : Value} (h : declared schema = some "number") (n : Number) :
    Conforms schema (.num n)
  | boolean {schema : Value} (h : declared schema = some "boolean") (b : Bool) :
    Conforms schema (.bool b)
  | string {schema : Value} (h : declared schema = some "string") (s : String) :
    Conforms schema (.str s)
  | array {schema : Value} (h : declared schema = some "array") {vs : List Value}
    (items : ∀ item, schema.get? "items" = some item → ∀ v ∈ vs, Conforms item v) :
    Conforms schema (.arr vs)
  | object {schema : Value} (h : declared schema = some "object") {ms : List (String × Value)}
    (members : ∀ m ∈ ms, ∀ s, property? schema m.1 = some s → Conforms s m.2) :
    Conforms schema (.obj ms)
  | other {schema : Value}
    (h : ∀ t ∈ ["integer", "number", "boolean", "string", "array", "object"],
      declared schema ≠ some t) (v : Value) : Conforms schema v

mutual

def strings : Value → List String
  | .str s => [s]
  | .arr vs => stringsIn vs
  | .obj ms => stringsBelow ms
  | .null | .bool _ | .num _ => []

def stringsIn : List Value → List String
  | [] => []
  | v :: vs => strings v ++ stringsIn vs

def stringsBelow : List (String × Value) → List String
  | [] => []
  | (_, v) :: ms => strings v ++ stringsBelow ms

end

def Wordless (v : Value) : Prop :=
  ∀ s ∈ strings v, Text.sameIgnoringCase s.toList "null".toList = false

instance (v : Value) : Decidable (Wordless v) :=
  inferInstanceAs (Decidable (∀ s ∈ strings v, _))

theorem strings_subset_of_item {vs : List Value} {v : Value} (hv : v ∈ vs) :
    strings v ⊆ stringsIn vs := by
  induction vs with
  | nil => cases hv
  | cons w vs ih =>
    rw [stringsIn]
    rcases List.mem_cons.mp hv with rfl | hv
    · exact List.subset_append_left _ _
    · exact List.subset_append_of_subset_right _ (ih hv)

theorem strings_subset_of_member {ms : List (String × Value)} {m : String × Value} (hm : m ∈ ms) :
    strings m.2 ⊆ stringsBelow ms := by
  induction ms with
  | nil => cases hm
  | cons l ms ih =>
    rw [stringsBelow]
    rcases List.mem_cons.mp hm with rfl | hm
    · exact List.subset_append_left _ _
    · exact List.subset_append_of_subset_right _ (ih hm)

theorem Wordless.item {vs : List Value} (h : Wordless (.arr vs)) {v : Value} (hv : v ∈ vs) :
    Wordless v := fun s hs => h s (by rw [strings]; exact strings_subset_of_item hv hs)

theorem Wordless.member {ms : List (String × Value)} (h : Wordless (.obj ms))
    {m : String × Value} (hm : m ∈ ms) : Wordless m.2 :=
  fun s hs => h s (by rw [strings]; exact strings_subset_of_member hm hs)

theorem Wordless.meansNull {v : Value} (h : Wordless v) (hv : v ≠ .null) : meansNull v = false := by
  cases v with
  | null => exact absurd rfl hv
  | str s => exact h s (by simp [strings])
  | _ => rfl

/-! ## The word for null in printed values -/

theorem not_null_of_mem {t : List Char} {c : Char} (hc : c ∈ t)
    (hn : c.toLower ∉ ['n', 'u', 'l']) : Text.sameIgnoringCase t "null".toList = false := by
  refine Bool.eq_false_iff.mpr fun h => hn ?_
  have hlower : t.map Char.toLower = ['n', 'u', 'l', 'l'] := eq_of_beq h
  have hmem : c.toLower ∈ ['n', 'u', 'l', 'l'] := hlower ▸ List.mem_map_of_mem hc
  simpa using hmem

theorem toLower_of_isDigit {c : Char} (h : c.isDigit = true) : c.toLower = c := by
  have hupper : ¬ (c.val ≥ 'A'.val ∧ c.val ≤ 'Z'.val) := by
    simp only [Char.isDigit, Bool.and_eq_true, decide_eq_true_eq] at h
    rintro ⟨hlow, -⟩
    exact absurd (UInt32.le_trans hlow h.2) (by decide)
  exact dif_neg hupper

theorem not_null_int (n : Int) : Text.sameIgnoringCase (intText n) "null".toList = false := by
  obtain ⟨c, cs, hcs⟩ := List.exists_cons_of_ne_nil (@Nat.toDigits_ne_nil n.natAbs 10)
  have hmem : c ∈ Nat.toDigits 10 n.natAbs := by rw [hcs]; exact List.mem_cons_self
  have hdigit := Nat.isDigit_of_mem_toDigits (by decide) (by decide) hmem
  have hletter : c.toLower ∉ ['n', 'u', 'l'] := by
    rw [toLower_of_isDigit hdigit]
    intro h
    have hletters : ['n', 'u', 'l'].all (!·.isDigit) = true := by decide
    have hletter := List.all_eq_true.mp hletters c h
    rw [hdigit] at hletter
    cases hletter
  refine not_null_of_mem (c := c) ?_ hletter
  rw [intText]
  split
  · exact List.mem_cons_of_mem _ hmem
  · exact hmem

theorem point_or_exponent (x : Number.Binary64) : '.' ∈ x.text.toList ∨ 'e' ∈ x.text.toList := by
  have hright : ∀ (sign : String) (t : List Char), '.' ∈ t ∨ 'e' ∈ t →
      '.' ∈ (sign ++ String.ofList t).toList ∨ 'e' ∈ (sign ++ String.ofList t).toList := by
    intro sign t ht
    rw [String.toList_append, String.toList_ofList]
    exact ht.imp (List.mem_append_right _) (List.mem_append_right _)
  unfold Number.Binary64.text
  by_cases hz : x.isZero = true
  · rw [if_pos hz]
    exact hright _ ['0', '.', '0'] (by simp)
  · rw [if_neg hz]
    generalize x.shortest = shortest
    obtain ⟨digits, first⟩ := shortest
    dsimp only
    refine hright _ _ ?_
    split
    · exact .inl (List.mem_append_right _ List.mem_cons_self)
    split
    · exact .inl (by simp)
    · exact .inr (List.mem_append_right _ List.mem_cons_self)

theorem not_null_text {v : Value} (hnull : v ≠ .null) (hstr : ∀ s, v ≠ .str s) :
    Text.sameIgnoringCase v.text.toList "null".toList = false := by
  rw [Value.text, String.toList_ofList]
  cases v with
  | null => exact absurd rfl hnull
  | bool b => cases b <;> decide
  | num n =>
    cases n with
    | int n => exact not_null_int n
    | float x =>
      rcases point_or_exponent x with h | h
      · exact not_null_of_mem h (by decide)
      · exact not_null_of_mem h (by decide)
  | str s => exact absurd rfl (hstr s)
  | arr vs => exact not_null_of_mem (c := '[') List.mem_cons_self (by decide)
  | obj ms => exact not_null_of_mem (c := '\x7b') List.mem_cons_self (by decide)

/-! ## What is of its type already -/

theorem coerceBy_null (schema : Value) : coerceBy schema .null = .null :=
  coerce_eq_null_iff.mpr rfl

section
variable {schema : Value} (hs : Single schema)
include hs

theorem coerceBy_int (h : declared schema = some "integer") (n : Int) :
    coerceBy schema (.num (.int n)) = .num (.int n) := coerceBy_integer hs rfl h

theorem coerceBy_num (h : declared schema = some "number") (n : Number) :
    coerceBy schema (.num n) = .num n := coerceBy_number hs rfl h

theorem coerceBy_bool (h : declared schema = some "boolean") (b : Bool) :
    coerceBy schema (.bool b) = .bool b := coerceBy_boolean hs rfl h

theorem coerceBy_str (h : declared schema = some "string") {s : String}
    (hn : Text.sameIgnoringCase s.toList "null".toList = false) :
    coerceBy schema (.str s) = .str s := coerceBy_string hs hn h

theorem coerceBy_arr (h : declared schema = some "array") (vs : List Value) :
    coerceBy schema (.arr vs) = .arr (vs.map (coerceItem schema)) := coerceBy_array hs rfl h

theorem coerceBy_obj (h : declared schema = some "object") (ms : List (String × Value)) :
    coerceBy schema (.obj ms) = .obj (ms.map fun (k, w) => (k, coerceProperty schema k w)) :=
  coerceBy_object hs rfl h

end

theorem declared_cases (schema : Value) :
    (∃ t ∈ ["integer", "number", "boolean", "string", "array", "object"],
      declared schema = some t) ∨
    ∀ t ∈ ["integer", "number", "boolean", "string", "array", "object"],
      declared schema ≠ some t := by
  by_cases h : ∃ t ∈ ["integer", "number", "boolean", "string", "array", "object"],
      declared schema = some t
  · exact .inl h
  · exact .inr fun t ht hd => h ⟨t, ht, hd⟩

/-! ## Coercing again -/

section
variable {schema : Value}

theorem coerceItem_again (h : ∀ item, schema.get? "items" = some item → ∀ v,
    coerceBy item (coerceBy item v) = coerceBy item v) (v : Value) :
    coerceItem schema (coerceItem schema v) = coerceItem schema v := by
  unfold coerceItem
  cases hi : schema.get? "items" with
  | none => rfl
  | some item => exact h item hi v

theorem coerceProperty_again {key : String} (h : ∀ s, property? schema key = some s → ∀ v,
    coerceBy s (coerceBy s v) = coerceBy s v) (v : Value) :
    coerceProperty schema key (coerceProperty schema key v) = coerceProperty schema key v := by
  unfold coerceProperty
  cases hp : property? schema key with
  | none => rfl
  | some s => exact h s hp v

/-- The text of a value that is no string is not taken for null when it is coerced again. -/
theorem coerceBy_asString (hs : Single schema) (h : declared schema = some "string") {v : Value}
    (hv : meansNull v = false) : coerceBy schema (asString v) = asString v := by
  cases v with
  | str s => exact coerceBy_str hs h hv
  | null => cases hv
  | _ => exact coerceBy_str hs h (not_null_text (by simp) (by simp))

theorem Unbranched.coerceBy_again (h : Unbranched schema) (v : Value) :
    coerceBy schema (coerceBy schema v) = coerceBy schema v := by
  induction h generalizing v with
  | @intro schema hs _ _ items properties =>
    cases hv : meansNull v with
    | true =>
      have he : coerceBy schema v = .null := coerce_eq_null_iff.mpr hv
      rw [he, coerceBy_null]
    | false =>
      -- a value that stays what it is does so again
      have hsame : coerceBy schema v = v →
          coerceBy schema (coerceBy schema v) = coerceBy schema v := fun he => by rw [he, he]
      have hd := directed hs hv
      rcases declared_cases schema with ⟨t, ht, h⟩ | h
      · simp only [List.mem_cons, List.not_mem_nil, or_false] at ht
        rcases ht with rfl | rfl | rfl | rfl | rfl | rfl
        · rcases hd.integer h with he | ⟨n, he, -⟩
          · exact hsame he
          · rw [he, coerceBy_int hs h]
        · rcases hd.number h with he | ⟨n, s, he, -⟩
          · exact hsame he
          · rw [he, coerceBy_num hs h]
        · rcases hd.boolean h with he | ⟨b, s, he, -⟩
          · exact hsame he
          · rw [he, coerceBy_bool hs h]
        · rw [coerceBy_string hs hv h, coerceBy_asString hs h hv]
        · rcases hd.array h with ⟨vs, -, he⟩ | ⟨-, he⟩
          · rw [he, coerceBy_arr hs h, List.map_map]
            exact congrArg Value.arr (List.map_congr_left fun w _ => coerceItem_again items w)
          · exact hsame he
        · rcases hd.object h with ⟨ms, -, he⟩ | ⟨-, he⟩
          · rw [he, coerceBy_obj hs h, List.map_map]
            refine congrArg Value.obj (List.map_congr_left fun m _ => ?_)
            exact congrArg (m.1, ·) (coerceProperty_again (properties m.1) m.2)
          · exact hsame he
      · exact hsame (hd.other h)

/-! ## Conforming values -/

theorem coerceItem_of_conforms {v : Value} (h : ∀ item, schema.get? "items" = some item →
    coerceBy item v = v) : coerceItem schema v = v := by
  unfold coerceItem
  cases hi : schema.get? "items" with
  | none => rfl
  | some item => exact h item hi

theorem coerceProperty_of_conforms {key : String} {v : Value}
    (h : ∀ s, property? schema key = some s → coerceBy s v = v) :
    coerceProperty schema key v = v := by
  unfold coerceProperty
  cases hp : property? schema key with
  | none => rfl
  | some s => exact h s hp

theorem Unbranched.coerceBy_of_conforms (h : Unbranched schema) {v : Value}
    (hv : Conforms schema v) (hw : Wordless v) : coerceBy schema v = v := by
  induction h generalizing v with
  | @intro schema hs _ _ items properties =>
    cases hv with
    | null => exact coerceBy_null schema
    | integer h n => exact coerceBy_int hs h n
    | number h n => exact coerceBy_num hs h n
    | boolean h b => exact coerceBy_bool hs h b
    | string h s => exact coerceBy_str hs h (hw s (by simp [strings]))
    | @array _ h vs hitems =>
      have hkept : ∀ w ∈ vs, coerceItem schema w = w := fun w hmem =>
        coerceItem_of_conforms fun item hi =>
          items item hi (hitems item hi w hmem) (hw.item hmem)
      rw [coerceBy_arr hs h, List.map_congr_left hkept, List.map_id']
    | @object _ h ms hmembers =>
      have hkept : ∀ m ∈ ms, (m.1, coerceProperty schema m.1 m.2) = m := fun m hmem =>
        congrArg (m.1, ·) (coerceProperty_of_conforms fun s hp =>
          properties m.1 s hp (hmembers m hmem s hp) (hw.member hmem))
      rw [coerceBy_obj hs h, List.map_congr_left hkept, List.map_id']
    | other h v =>
      by_cases hv : v = .null
      · rw [hv, coerceBy_null]
      · exact coerceBy_other hs (hw.meansNull hv) h

end

/-! ## Arguments -/

/-- What the tool declares of its arguments lists no alternatives at any depth. -/
def UnbranchedArguments (tools : List Messages.Tool) (name : String) : Prop :=
  ∀ schema, findSchema tools name = some schema →
    ∀ key s, property? schema key = some s → Unbranched s

section
variable {tools : List Messages.Tool} {name : String} (h : UnbranchedArguments tools name)
include h

theorem coerceArgument_again (key : String) (v : Value) :
    coerceArgument tools name key (coerceArgument tools name key v) =
      coerceArgument tools name key v := by
  unfold coerceArgument
  cases hf : findSchema tools name with
  | none => rfl
  | some schema => exact coerceProperty_again (fun s hs => (h schema hf key s hs).coerceBy_again) v

theorem coerceArguments_again (args : Value) :
    coerceArguments tools name (coerceArguments tools name args) =
      coerceArguments tools name args := by
  have hother : (∀ ms, args ≠ .obj ms) → coerceArguments tools name args = args := by
    intro hargs
    unfold coerceArguments
    split
    · next ms _ => exact absurd rfl (hargs ms)
    · rfl
  cases args with
  | obj ms =>
    rw [coerceArguments_obj, coerceArguments_obj, List.map_map]
    refine congrArg Value.obj (List.map_congr_left fun m _ => ?_)
    exact congrArg (m.1, ·) (coerceArgument_again h m.1 m.2)
  | _ => rw [hother (by simp), hother (by simp)]

end

/-- **Coercion is a projection.** By a schema without alternatives at any depth, what was coerced is
not changed when it is coerced again, and what conforms to the schema and spells null nowhere is not
changed at all. Arguments that were coerced stay as they are. -/
theorem coercion_projects (schema v : Value) (h : Unbranched schema) :
    coerceBy schema (coerceBy schema v) = coerceBy schema v ∧
      (Conforms schema v → Wordless v → coerceBy schema v = v) ∧
      ∀ tools name args, UnbranchedArguments tools name →
        coerceArguments tools name (coerceArguments tools name args) =
          coerceArguments tools name args :=
  ⟨h.coerceBy_again v, fun hv hw => h.coerceBy_of_conforms hv hw,
    fun _ _ args hp => coerceArguments_again hp args⟩

/-- A list in a string, whose second item is cut to a whole number and whose third is no number. -/
theorem coercion_projects_nested :
    let item := Value.obj [("type", .arr [.str "null", .str "integer"])]
    let ids := Value.obj [("items", item), ("type", .str "array")]
    let schema := Value.obj [("properties", .obj [("ids", ids)]), ("type", .str "object")]
    let v := Value.obj [("ids", .str "[\"1\", 2.5, true]"), ("note", .str "null")]
    let w := Value.obj [("ids", .arr [.num (.int 1), .num (.int 2), .null]), ("note", .str "x")]
    let tools := [Messages.Tool.mk "f" none schema]
    Unbranched schema ∧ Conforms schema w ∧ Wordless w ∧ UnbranchedArguments tools "f" ∧
      coerceBy schema v = .obj [("ids", .arr [.num (.int 1), .num (.int 2), .bool true]),
        ("note", .str "null")] ∧
      coerceBy schema (coerceBy schema v) = coerceBy schema v ∧ coerceBy schema w = w ∧
      coerceArguments tools "f" (coerceArguments tools "f" v) = coerceArguments tools "f" v := by
  intro item ids schema v w tools
  have hids : Unbranched ids := (clean_of_branchless ids (by decide)).self
  have hids_of : ∀ key s, property? schema key = some s → s = ids := by
    intro key s hp
    simp only [property?, schema, Value.get?, Table.get?, if_pos, Option.bind_some] at hp
    split at hp <;> simp_all
  have hs : Unbranched schema := (clean_of_branchless schema (by decide)).self
  have hlist : Conforms ids (.arr [.num (.int 1), .num (.int 2), .null]) := by
    refine .array rfl fun i hi u hu => ?_
    obtain rfl : item = i := by simpa [ids, Value.get?, Table.get?] using hi
    simp only [List.mem_cons, List.not_mem_nil, or_false] at hu
    rcases hu with rfl | rfl | rfl
    · exact .integer rfl 1
    · exact .integer rfl 2
    · exact .null item
  have hw : Conforms schema w := by
    refine .object rfl fun m hm s hp => ?_
    simp only [List.mem_cons, List.not_mem_nil, or_false] at hm
    rcases hm with rfl | rfl
    · exact hids_of _ s hp ▸ hlist
    · simp [schema, property?, Value.get?, Table.get?] at hp
  have hplain : UnbranchedArguments tools "f" := by
    intro s hf key p hp
    obtain rfl : schema = s := by simpa [findSchema, tools] using hf
    exact hids_of key p hp ▸ hids
  have hwordless : Wordless w := by decide
  obtain ⟨hagain, -, hargs⟩ := coercion_projects schema v hs
  exact ⟨hs, hw, hwordless, hplain, by decide +kernel, hagain,
    (coercion_projects schema w hs).2.1 hw hwordless, hargs tools "f" v hplain⟩

end ChatGateway.Tool
