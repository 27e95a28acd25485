import ChatGateway.Tool.Coercion

/-!
# What coercion changes and what it keeps

Coercion looks at the type that a schema declares and at the schemas of items and properties. What
can be converted becomes a value of that type, at each place of a container on its own; all else
stays as it is. Only null, or the word for it, becomes null.
-/

namespace ChatGateway.Tool

open Json

/-! ## Schemas in JSON -/

def coerceBy (schema v : Value) : Value := coerce (Schema.ofValue schema) v

def declared : Value → Option String
  | .obj members => Schema.typeName members
  | _ => none

def coerceItem (schema v : Value) : Value := (schema.get? "items").elim v (coerceBy · v)

def property? (schema : Value) (key : String) : Option Value :=
  (schema.get? "properties").bind (·.get? key)

def coerceProperty (schema : Value) (key : String) (v : Value) : Value :=
  (property? schema key).elim v (coerceBy · v)

/-- The schema lists no alternatives. -/
def Single (schema : Value) : Prop := ∀ key ∈ ["oneOf", "anyOf", "allOf"], schema.get? key = none

namespace Schema

variable (key : String) (ms : List (String × Value))

theorem at?_eq : at? key ms = (Table.get? ms key).map ofValue := by
  induction ms with
  | nil => rfl
  | cons m ms ih =>
    obtain ⟨k, v⟩ := m
    by_cases hk : k = key <;> simp [at?, Table.get?, hk, ih]

theorem listAt_of_absent (h : Table.get? ms key = none) : listAt key ms = none := by
  induction ms with
  | nil => rfl
  | cons m ms ih =>
    obtain ⟨k, v⟩ := m
    by_cases hk : k = key
    · simp [Table.get?, hk] at h
    · rw [Table.get?, if_neg hk] at h
      cases v <;> simp [listAt, hk, ih h]

theorem tableAt_eq : tableAt key ms =
    match Table.get? ms key with
    | some (.obj ps) => ofMembers ps
    | _ => [] := by
  induction ms with
  | nil => rfl
  | cons m ms ih =>
    obtain ⟨k, v⟩ := m
    by_cases hk : k = key
    · cases v <;> simp [tableAt, Table.get?, hk]
    · cases v <;> simp [tableAt, Table.get?, hk, ih]

end Schema

theorem coerceMember_ofMembers (ps : List (String × Value)) (key : String) (v : Value) :
    coerceMember (Schema.ofMembers ps) key v = (Table.get? ps key).elim v (coerceBy · v) := by
  induction ps with
  | nil => rw [Schema.ofMembers, coerceMember]; rfl
  | cons p ps ih =>
    obtain ⟨k, s⟩ := p
    rw [Schema.ofMembers, coerceMember, Table.get?, ih]
    split <;> rfl

theorem coerceMember_properties (schema : Value) (key : String) (v : Value) :
    coerceMember (Schema.properties schema) key v = coerceProperty schema key v := by
  cases schema with
  | obj ms =>
    rw [Schema.properties, Schema.tableAt_eq, coerceProperty, property?, Value.get?]
    cases Table.get? ms "properties" with
    | none => rw [coerceMember]; rfl
    | some ps =>
      cases ps with
      | obj ps => exact coerceMember_ofMembers ps key v
      | _ => simp only [coerceMember]; rfl
  | _ => simp only [Schema.properties, coerceMember]; rfl

theorem ofValue_of_single {schema : Value} (h : Single schema) :
    Schema.ofValue schema =
      if declared schema = some "array" then .array ((schema.get? "items").map Schema.ofValue)
      else if declared schema = some "object" then .object (Schema.properties schema)
      else Schema.simple (declared schema) := by
  cases schema with
  | obj ms =>
    have habsent : ∀ key ∈ ["oneOf", "anyOf", "allOf"], Schema.listAt key ms = none :=
      fun key hk => Schema.listAt_of_absent key ms (h key hk)
    rw [Schema.ofValue, habsent _ (by simp), habsent _ (by simp), habsent _ (by simp),
      Schema.at?_eq]
    rfl
  | _ => rfl

/-! ## Conversions to a type -/

theorem asNumber_cases {v w : Value} (h : asNumber v = some w) :
    ∃ n, w = .num n ∧ (v = w ∨ ∃ s, v = .str s) := by
  cases v with
  | num n => exact ⟨n, by simpa [asNumber, eq_comm] using h⟩
  | str s =>
    rw [asNumber] at h
    split at h
    · exact ⟨_, (Option.some.inj h).symm, .inr ⟨s, rfl⟩⟩
    · obtain ⟨x, -, rfl⟩ := Option.map_eq_some_iff.mp h
      exact ⟨_, rfl, .inr ⟨s, rfl⟩⟩
  | _ => simp [asNumber] at h

theorem asInteger_cases {v w : Value} (h : asInteger v = some w) :
    ∃ n, w = .num (.int n) ∧ (v = w ∨ (∃ x, v = .num (.float x)) ∨
      ∃ s, v = .str s ∧ Number.readInt64 (Text.trim s.toList) = some n) := by
  cases v with
  | num n =>
    cases n with
    | int n => exact ⟨n, by simpa [asInteger, eq_comm] using h⟩
    | float x => exact ⟨_, (Option.some.inj h).symm, .inr (.inl ⟨x, rfl⟩)⟩
  | str s =>
    obtain ⟨n, hn, rfl⟩ := Option.map_eq_some_iff.mp h
    exact ⟨n, rfl, .inr (.inr ⟨s, rfl, hn⟩)⟩
  | _ => simp [asInteger] at h

theorem asBoolean_cases {v w : Value} (h : asBoolean v = some w) :
    ∃ b, w = .bool b ∧ (v = w ∨ ∃ s, v = .str s) := by
  cases v with
  | bool b => exact ⟨b, by simpa [asBoolean, eq_comm] using h⟩
  | str s => exact ⟨_, (Option.some.inj h).symm, .inr ⟨s, rfl⟩⟩
  | _ => simp [asBoolean] at h

theorem asString_cases (v : Value) : ∃ s, asString v = .str s ∧ ∀ t, v = .str t → s = t := by
  cases v with
  | str s => exact ⟨s, rfl, by simp⟩
  | _ => exact ⟨_, rfl, by simp⟩

/-- The value is the array of these items, or a string that spells it. -/
def Lists (v : Value) (vs : List Value) : Prop :=
  v = .arr vs ∨ ∃ s, v = .str s ∧ read s.toList = some (.arr vs)

/-- The value is the object of these members, or a string that spells it. -/
def Holds (v : Value) (ms : List (String × Value)) : Prop :=
  v = .obj ms ∨ ∃ s, v = .str s ∧ read s.toList = some (.obj ms)

theorem asItems_eq_some_iff {v : Value} {vs : List Value} : asItems v = some vs ↔ Lists v vs := by
  cases v with
  | str s =>
    rw [asItems]
    cases hr : read s.toList with
    | none => simp [Lists, hr]
    | some w => cases w <;> simp [Lists, hr]
  | _ => simp [asItems, Lists]

theorem asMembers_eq_some_iff {v : Value} {ms : List (String × Value)} :
    asMembers v = some ms ↔ Holds v ms := by
  cases v with
  | str s =>
    rw [asMembers]
    cases hr : read s.toList with
    | none => simp [Holds, hr]
    | some w => cases w <;> simp [Holds, hr]
  | _ => simp [asMembers, Holds]

/-! ## Null -/

theorem meansNull_iff {v : Value} : meansNull v = true ↔
    v = .null ∨ ∃ s, v = .str s ∧ Text.sameIgnoringCase s.toList "null".toList = true := by
  cases v <;> simp [meansNull]

theorem convert_of_null {v : Value} (h : meansNull v = true) (s : Schema) :
    convert s v = some .null := by
  rw [convert.eq_def, if_pos h]

mutual

theorem convert_ne_null : (s : Schema) → {v w : Value} → meansNull v = false →
    convert s v = some w → w ≠ .null
  | .any, v, w, hv, h => by
    obtain rfl : v = w := by simpa [convert, hv] using h
    rintro rfl
    exact absurd hv (by simp [meansNull])
  | .number, v, w, hv, h => by
    obtain ⟨n, rfl, -⟩ := asNumber_cases (v := v) (w := w) (by simpa [convert, hv] using h)
    exact nofun
  | .integer, v, w, hv, h => by
    obtain ⟨n, rfl, -⟩ := asInteger_cases (v := v) (w := w) (by simpa [convert, hv] using h)
    exact nofun
  | .boolean, v, w, hv, h => by
    obtain ⟨b, rfl, -⟩ := asBoolean_cases (v := v) (w := w) (by simpa [convert, hv] using h)
    exact nofun
  | .string, v, w, hv, h => by
    obtain rfl : asString v = w := by simpa [convert, hv] using h
    obtain ⟨s, hs, -⟩ := asString_cases v
    rw [hs]
    exact nofun
  | .array none, v, w, hv, h => by
    obtain ⟨vs, -, rfl⟩ : ∃ vs, asItems v = some vs ∧ .arr vs = w := by simpa [convert, hv] using h
    exact nofun
  | .array (some item), v, w, hv, h => by
    rw [convert, if_neg (by simp [hv])] at h
    obtain ⟨vs, -, rfl⟩ := Option.map_eq_some_iff.mp h
    exact nofun
  | .object ps, v, w, hv, h => by
    rw [convert, if_neg (by simp [hv])] at h
    obtain ⟨ms, -, rfl⟩ := Option.map_eq_some_iff.mp h
    exact nofun
  | .choice ss, v, w, hv, h => convertFirst_ne_null ss hv (by simpa [convert, hv] using h)

theorem convertFirst_ne_null : (ss : List Schema) → {v w : Value} → meansNull v = false →
    convertFirst ss v = some w → w ≠ .null
  | [], _, _, _, h => by simp [convertFirst] at h
  | s :: ss, v, w, hv, h => by
    rw [convertFirst] at h
    split at h
    · next hs => exact Option.some.inj h ▸ convert_ne_null s hv hs
    · exact convertFirst_ne_null ss hv h

end

theorem coerce_eq_null_iff {s : Schema} {v : Value} : coerce s v = .null ↔ meansNull v = true := by
  cases hv : meansNull v with
  | true => simp [coerce, convert_of_null hv]
  | false =>
    rw [coerce]
    cases hc : convert s v with
    | none =>
      have hne : v ≠ .null := by
        rintro rfl
        exact absurd hv (by simp [meansNull])
      simpa using hne
    | some w => simpa using convert_ne_null s hv hc

/-! ## Schemas without alternatives -/

/-- What a schema without alternatives makes of a value that is not null. Only numbers with a
fraction and strings turn into other numbers or truth values, and a value that is no container and
spells none stays what it is. -/
structure Directed (schema v r : Value) : Prop where
  integer : declared schema = some "integer" → r = v ∨
    ∃ n, r = .num (.int n) ∧ ((∃ x, v = .num (.float x)) ∨
      ∃ s, v = .str s ∧ Number.readInt64 (Text.trim s.toList) = some n)
  number : declared schema = some "number" → r = v ∨ ∃ n s, r = .num n ∧ v = .str s
  boolean : declared schema = some "boolean" → r = v ∨ ∃ b s, r = .bool b ∧ v = .str s
  string : declared schema = some "string" → ∃ s, r = .str s ∧ ∀ t, v = .str t → r = v
  array : declared schema = some "array" →
    (∃ vs, Lists v vs ∧ r = .arr (vs.map (coerceItem schema))) ∨ (¬ ∃ vs, Lists v vs) ∧ r = v
  object : declared schema = some "object" →
    (∃ ms, Holds v ms ∧ r = .obj (ms.map fun (k, w) => (k, coerceProperty schema k w))) ∨
      (¬ ∃ ms, Holds v ms) ∧ r = v
  other : (∀ t ∈ ["integer", "number", "boolean", "string", "array", "object"],
    declared schema ≠ some t) → r = v
  failed : convert (Schema.ofValue schema) v = none → r = v

section
variable {schema v : Value} (hs : Single schema) (hv : meansNull v = false)
include hs hv

theorem coerceBy_integer (h : declared schema = some "integer") :
    coerceBy schema v = (asInteger v).getD v := by
  rw [coerceBy, ofValue_of_single hs, h]
  simp [coerce, convert, Schema.simple, hv]

theorem coerceBy_number (h : declared schema = some "number") :
    coerceBy schema v = (asNumber v).getD v := by
  rw [coerceBy, ofValue_of_single hs, h]
  simp [coerce, convert, Schema.simple, hv]

theorem coerceBy_boolean (h : declared schema = some "boolean") :
    coerceBy schema v = (asBoolean v).getD v := by
  rw [coerceBy, ofValue_of_single hs, h]
  simp [coerce, convert, Schema.simple, hv]

theorem coerceBy_string (h : declared schema = some "string") :
    coerceBy schema v = asString v := by
  rw [coerceBy, ofValue_of_single hs, h]
  simp [coerce, convert, Schema.simple, hv]

theorem coerceBy_array (h : declared schema = some "array") :
    coerceBy schema v = ((asItems v).map fun vs => .arr (vs.map (coerceItem schema))).getD v := by
  rw [coerceBy, ofValue_of_single hs, h, if_pos rfl, coerce]
  cases hi : schema.get? "items" with
  | none =>
    have hitem : coerceItem schema = id := by
      funext w
      rw [coerceItem, hi]
      rfl
    simp [convert, hv, hitem]
  | some item =>
    have hitem : coerceItem schema = coerceBy item := by
      funext w
      rw [coerceItem, hi]
      rfl
    rw [hitem, Option.map_some, convert, if_neg (by simp [hv])]
    rfl

theorem coerceBy_object (h : declared schema = some "object") :
    coerceBy schema v =
      ((asMembers v).map fun ms => .obj (ms.map fun (k, w) => (k, coerceProperty schema k w))).getD
        v := by
  rw [coerceBy, ofValue_of_single hs, h, if_neg (by simp), if_pos rfl, coerce, convert,
    if_neg (by simp [hv])]
  simp only [coerceMember_properties]

theorem coerceBy_other (h : ∀ t ∈ ["integer", "number", "boolean", "string", "array", "object"],
    declared schema ≠ some t) : coerceBy schema v = v := by
  have hsimple : Schema.simple (declared schema) = .any := by
    cases hd : declared schema with
    | none => rfl
    | some t => grind [Schema.simple]
  rw [coerceBy, ofValue_of_single hs, if_neg (h _ (by simp)), if_neg (h _ (by simp)), hsimple]
  simp [coerce, convert, hv]

theorem directed : Directed schema v (coerceBy schema v) where
  integer h := by
    rw [coerceBy_integer hs hv h]
    cases ha : asInteger v with
    | none => exact .inl rfl
    | some w =>
      obtain ⟨n, rfl, rfl | hsource⟩ := asInteger_cases ha
      · exact .inl rfl
      · exact .inr ⟨n, rfl, hsource⟩
  number h := by
    rw [coerceBy_number hs hv h]
    cases ha : asNumber v with
    | none => exact .inl rfl
    | some w =>
      obtain ⟨n, rfl, rfl | ⟨s, hsource⟩⟩ := asNumber_cases ha
      · exact .inl rfl
      · exact .inr ⟨n, s, rfl, hsource⟩
  boolean h := by
    rw [coerceBy_boolean hs hv h]
    cases ha : asBoolean v with
    | none => exact .inl rfl
    | some w =>
      obtain ⟨b, rfl, rfl | ⟨s, hsource⟩⟩ := asBoolean_cases ha
      · exact .inl rfl
      · exact .inr ⟨b, s, rfl, hsource⟩
  string h := by
    rw [coerceBy_string hs hv h]
    obtain ⟨s, hsame, hkept⟩ := asString_cases v
    exact ⟨s, hsame, fun t ht => by rw [hsame, ht, hkept t ht]⟩
  array h := by
    rw [coerceBy_array hs hv h]
    simp only [← asItems_eq_some_iff]
    cases asItems v with
    | none => exact .inr ⟨by simp, rfl⟩
    | some vs => exact .inl ⟨vs, rfl, rfl⟩
  object h := by
    rw [coerceBy_object hs hv h]
    simp only [← asMembers_eq_some_iff]
    cases asMembers v with
    | none => exact .inr ⟨by simp, rfl⟩
    | some ms => exact .inl ⟨ms, rfl, rfl⟩
  other h := coerceBy_other hs hv h
  failed h := by rw [coerceBy, coerce, h, Option.getD_none]

end

def coerceArgument (tools : List Messages.Tool) (name key : String) (v : Value) : Value :=
  (findSchema tools name).elim v fun schema => coerceProperty schema key v

theorem coerceArguments_obj (tools : List Messages.Tool) (name : String)
    (ms : List (String × Value)) : coerceArguments tools name (.obj ms) =
      .obj (ms.map fun (k, v) => (k, coerceArgument tools name k v)) := by
  unfold coerceArguments coerceArgument
  cases findSchema tools name with
  | none => simp
  | some schema => simp [coerceMember_properties]

/-- **Coercion by declared types.** A value is coerced to null just if it is null or a string that
spells null. By a schema without alternatives any other value becomes one of the declared type or
stays what it is, at each place of a container on its own, and where it cannot be converted it
stays. Arguments keep their keys, and those that the tool does not declare keep their values. -/
theorem coerce_directed (schema v : Value) :
    (coerceBy schema v = .null ↔
      v = .null ∨ ∃ s, v = .str s ∧ Text.sameIgnoringCase s.toList "null".toList = true) ∧
    (Single schema → coerceBy schema v ≠ .null → Directed schema v (coerceBy schema v)) ∧
    ∀ tools name ms, ∃ ms', coerceArguments tools name (.obj ms) = .obj ms' ∧
      Table.keys ms' = Table.keys ms ∧
      ms' = ms.map fun (k, w) => (k, coerceArgument tools name k w) := by
  have hnull : coerceBy schema v = .null ↔ meansNull v = true := coerce_eq_null_iff
  refine ⟨hnull.trans meansNull_iff, fun hs hne => ?_, fun tools name ms => ?_⟩
  · have hv : meansNull v = false := by
      rw [Ne, hnull, Bool.not_eq_true] at hne
      exact hne
    exact directed hs hv
  · exact ⟨_, coerceArguments_obj tools name ms, by simp [Table.keys, Function.comp_def], rfl⟩

/-- Of the items in a string that spells an array, those that spell an integer become one. -/
theorem coerce_directed_list :
    let schema := Value.obj [("type", .str "array"), ("items", .obj [("type", .str "integer")])]
    let v := Value.str "[\"1\", true, \"x\"]"
    Single schema ∧ coerceBy schema v ≠ .null ∧ Directed schema v (coerceBy schema v) ∧
      coerceBy schema v = .arr [.num (.int 1), .bool true, .str "x"] := by
  intro schema v
  have hs : Single schema := by simp [Single, schema, Value.get?, Table.get?]
  have hv : coerceBy schema v = .arr [.num (.int 1), .bool true, .str "x"] := by decide +kernel
  have hne : coerceBy schema v ≠ .null := by simp [hv]
  exact ⟨hs, hne, (coerce_directed schema v).2.1 hs hne, hv⟩

end ChatGateway.Tool
