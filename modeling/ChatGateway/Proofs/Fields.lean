import ChatGateway.Proofs.Tidying

/-!
# Fields of tidied records

A record that is read names each of its fields once at most, so that tidying leaves what stands
there: its fields are read alike (`Tidied.required`, `Tidied.optional`, `Tidied.orElse`), none is
refused (`Tidied.check`), and it keeps the same beside them (`Tidied.rest`). A record whose fields
are kept is kept (`keeps_record`).
-/

namespace ChatGateway.Decode

open Json Document

variable {α β : Type}

theorem Part.required_eq (f : Part α) (p : Parts) (l : Label) :
    f.required p l = f.result.getD (match p with
      | .named _ => .error (.missingField f.name)
      | .listed _ => .error (.wrongLength f.index l.expected)) := by
  unfold Part.required
  cases f.result <;> cases p <;> rfl

theorem Part.optional_eq (f : Part (Option α)) (p : Parts) (l : Label) :
    f.optional p l = f.result.getD (match p with
      | .named _ => .ok none
      | .listed _ => .error (.wrongLength f.index l.expected)) := by
  unfold Part.optional
  cases f.result <;> cases p <;> rfl

namespace Parts

def lookup (p : Parts) (index : Nat) (name : String) : Option Document :=
  match p with
  | .named members => first? members name
  | .listed items => items[index]?

/-- An array has all its places once. -/
def Once (p : Parts) (name : String) : Prop :=
  match p with
  | .named members => Decode.Once members name
  | .listed _ => True

def Has (p : Parts) (name : String) : Prop :=
  match p with
  | .named members => some name ∈ members.map (·.1)
  | .listed _ => True

inductive Tidied : Parts → Parts → Prop where
  | named {ms ms' : List (Option String × Document)} (h : TidiedMembers ms ms') :
    Tidied (.named ms) (.named ms')
  | listed {ds ds' : List Document} (h : List.Forall₂ Document.Tidied ds ds') :
    Tidied (.listed ds) (.listed ds')

/-- A field that is there once and is not refused is not refused when it is tidied. -/
structure Shows (p p' : Parts) (s s' : String × Option Error) : Prop where
  name : s'.1 = s.1
  taken : p.Once s.1 → (p.Has s.1 → s.2 = none) → s'.2 = none

theorem part_eq (p : Parts) (m : Medium) (index : Nat) (name : String) (dec : Decoder α) :
    p.part m index name dec = ⟨index, name, (p.lookup index name).map (dec m)⟩ := by
  cases p <;> rfl

/-- Fields are met once, and none that is met is refused. -/
theorem visit_once {fields : List (String × Option Error)} (hn : (fields.map (·.1)).Nodup)
    {keep : Bool} {met : List String} {ms : List (Option String × Document)}
    (h : visit fields keep met ms = .ok ()) : ∀ f ∈ fields, Decode.Once ms f.1 ∧
      (f.1 ∈ met → some f.1 ∉ ms.map (·.1)) ∧ (some f.1 ∈ ms.map (·.1) → f.2 = none) := by
  induction ms generalizing met with
  | nil => simp [Decode.Once]
  | cons p ms ih =>
    obtain ⟨key, d⟩ := p
    cases key with
    | none => cases h
    | some k =>
      intro f hf
      rw [visit] at h
      simp only [once_cons_iff, List.map_cons, List.mem_cons, Option.some.injEq]
      split at h
      · next hfind =>
        have hne : f.1 ≠ k := by simpa using List.find?_eq_none.mp hfind f hf
        simp only [bind_eq_ok] at h
        obtain ⟨-, -, h⟩ := h
        rw [if_neg (Ne.symm hne), or_iff_right hne]
        exact ih h f hf
      · next name refusal hfind =>
        split at h
        · cases h
        · next hmet =>
          split at h
          · cases h
          · obtain ⟨honce, hbehind, hnone⟩ := ih h f hf
            by_cases hk : f.1 = k
            · have hname : name = k := by simpa using List.find?_some hfind
              have hf : f = (name, none) := List.inj_on_of_nodup_map hn hf
                (List.mem_of_find?_eq_some hfind) (hk.trans hname.symm)
              rw [if_pos hk.symm]
              refine ⟨hbehind (by simp [hk]), fun hm => ?_, fun _ => by rw [hf]⟩
              exact absurd (by simpa [hk] using hm) hmet
            · rw [if_neg (Ne.symm hk), or_iff_right hk]
              exact ⟨honce, fun hm => hbehind (List.mem_cons_of_mem k hm), hnone⟩

section Fields

variable {p p' : Parts} {m m' : Medium} {dec dec' : Decoder α} {index : Nat} {name : String}
  {l : Label}

theorem Tidied.lookup (h : p.Tidied p') (hk : p.Once name) (index : Nat) :
    Option.Rel Document.Tidied (p.lookup index name) (p'.lookup index name) := by
  cases h with
  | named h => exact first?_tidied h hk
  | listed h => exact rel_getElem? h index

theorem Tidied.lookup_cases (h : p.Tidied p') (hk : p.Once name) (index : Nat) :
    (p.lookup index name = none ∧ p'.lookup index name = none) ∨
      ∃ d d', p.lookup index name = some d ∧ p'.lookup index name = some d' ∧ d.Tidied d' := by
  have hrel := h.lookup hk index
  cases hd : p.lookup index name with
  | none =>
    rw [hd] at hrel
    cases hd' : p'.lookup index name with
    | none => exact .inl ⟨rfl, rfl⟩
    | some d' =>
      rw [hd'] at hrel
      cases hrel
  | some d =>
    obtain ⟨d', hd', htidied⟩ := exists_of_rel hrel hd
    exact .inr ⟨d, d', rfl, hd', htidied⟩

theorem Tidied.result (h : p.Tidied p') (hk : p.Once name)
    (hf : ∀ d ∈ p.lookup index name, FollowsAt (dec m) (dec' m') d) {x y : Except Error α}
    (hxy : ∀ a, x = .ok a → y = .ok a) {a : α}
    (ha : (p.part m index name dec).result.getD x = .ok a) :
    (p'.part m' index name dec').result.getD y = .ok a := by
  rw [part_eq] at ha ⊢
  rcases h.lookup_cases hk index with ⟨hd, hd'⟩ | ⟨d, d', hd, hd', htidied⟩
  · rw [hd] at ha
    rw [hd']
    exact hxy a ha
  · rw [hd] at ha
    rw [hd']
    exact hf d hd htidied ha

theorem Tidied.required (h : p.Tidied p') (hk : p.Once name)
    (hf : ∀ d ∈ p.lookup index name, FollowsAt (dec m) (dec' m') d) {a : α}
    (ha : (p.part m index name dec).required p l = .ok a) :
    (p'.part m' index name dec').required p' l = .ok a := by
  rw [Part.required_eq] at ha ⊢
  refine h.result hk hf (fun b hb => ?_) ha
  cases p <;> cases hb

theorem Tidied.optional (h : p.Tidied p') (hk : p.Once name) {dec dec' : Decoder (Option α)}
    (hf : ∀ d ∈ p.lookup index name, FollowsAt (dec m) (dec' m') d) {a : Option α}
    (ha : (p.part m index name dec).optional p l = .ok a) :
    (p'.part m' index name dec').optional p' l = .ok a := by
  rw [Part.optional_eq] at ha ⊢
  refine h.result hk hf (fun b hb => ?_) ha
  cases h with
  | named h => exact hb
  | listed h => cases hb

theorem Tidied.orElse (h : p.Tidied p') (hk : p.Once name)
    (hf : ∀ d ∈ p.lookup index name, FollowsAt (dec m) (dec' m') d) {a b : α}
    (ha : (p.part m index name dec).orElse b = .ok a) :
    (p'.part m' index name dec').orElse b = .ok a :=
  h.result hk hf (fun _ hb => hb) ha

theorem Tidied.admits (h : p.Tidied p') (hk : p.Once name) {dec dec' : Decoder (Option α)}
    (hf : ∀ d ∈ p.lookup index name, AdmitsAt (dec m) (dec' m') d) {a : Option α}
    (ha : (p.part m index name dec).optional p l = .ok a) :
    ∃ b, (p'.part m' index name dec').optional p' l = .ok b := by
  simp only [Part.optional_eq, part_eq] at ha ⊢
  rcases h.lookup_cases hk index with ⟨hd, hd'⟩ | ⟨d, d', hd, hd', htidied⟩
  · rw [hd] at ha
    rw [hd']
    cases h with
    | named h => exact ⟨none, rfl⟩
    | listed h => cases ha
  · rw [hd] at ha
    rw [hd']
    exact hf d hd htidied ha

theorem Tidied.shows (h : p.Tidied p')
    (hf : ∀ d ∈ p.lookup index name, p.Once name → AdmitsAt (dec m) (dec' m') d) :
    Shows p p' (p.part m index name dec).seen (p'.part m' index name dec').seen := by
  refine ⟨by simp, fun hk hs => ?_⟩
  rw [seen_part] at hk hs
  rw [part_eq] at hs ⊢
  rcases h.lookup_cases hk index with ⟨hd, hd'⟩ | ⟨d, d', hd, hd', htidied⟩
  · rw [hd']
    rfl
  · have hhas : p.Has name := by
      cases p with
      | named ms => exact List.mem_map_of_mem (f := (·.1)) (mem_of_first? hd)
      | listed ds => trivial
    have hnone := hs hhas
    rw [hd] at hnone
    rw [hd']
    cases ha : dec m d with
    | error e => simp [Part.seen, ha] at hnone
    | ok a =>
      obtain ⟨b, hb⟩ := hf d hd hk htidied ha
      simp [Part.seen, hb]

theorem Tidied.check (h : p.Tidied p') {fields fields' : List (String × Option Error)} {keep : Bool}
    (hn : (fields.map (·.1)).Nodup) (hf : List.Forall₂ (Shows p p') fields fields')
    (hc : p.check fields keep = .ok ()) :
    p'.check fields' keep = .ok () ∧ ∀ k ∈ fields.map (·.1), p.Once k := by
  cases h with
  | listed h => exact ⟨rfl, fun _ _ => trivial⟩
  | named h =>
    have hfields := visit_once hn hc
    refine ⟨visit_ok ?_ keep h.keys (valued_tidied h) (by simp), ?_⟩
    · clear hc hn
      induction hf with
      | nil => simp
      | cons hs _ ih =>
        obtain ⟨⟨honce, -, hnone⟩, hrest⟩ := List.forall_mem_cons.mp hfields
        exact List.forall_mem_cons.mpr ⟨hs.taken honce hnone, ih hrest⟩
    · intro k hk
      obtain ⟨f, hf, rfl⟩ := List.mem_map.mp hk
      exact (hfields f hf).1

theorem Tidied.close (h : p.Tidied p') (hm : m.Near m') (hc : p.close m l = .ok ()) :
    p'.close m' l = .ok () := by
  cases h with
  | named h => rfl
  | listed h =>
    unfold close at hc ⊢
    dsimp only at hc ⊢
    rw [← h.length_eq]
    split at hc
    · next hle => rw [if_pos hle]
    · exact absurd hc (by cases m <;> simp_all [Medium.Near])

theorem Tidied.rest (h : p.Tidied p') (names : List String) : p'.rest names = p.rest names := by
  cases h with
  | listed h => rfl
  | named h =>
    obtain ⟨es, es', hes, hes', he⟩ := h.entries
    show Table.ofEntries (List.filterMap (kept names) _) =
      Table.ofEntries (List.filterMap (kept names) _)
    rw [filterMap_kept hes names, filterMap_kept hes' names]
    exact (Table.ofEntries_filter he fun k => !names.contains k).symm

end Fields

end Parts

theorem parts_tidied {d d' : Document} {l : Label} {p : Parts} (hd : d.Tidied d')
    (h : parts l d = .ok p) : ∃ p', parts l d' = .ok p' ∧ p.Tidied p' := by
  cases d with
  | obj ms =>
    obtain ⟨ms', rfl, hms⟩ := hd.obj
    obtain rfl := Except.ok.inj h
    exact ⟨.named ms', rfl, .named hms⟩
  | arr ds =>
    obtain ⟨ds', rfl, hds⟩ := hd.arr
    obtain rfl := Except.ok.inj h
    exact ⟨.listed ds', rfl, .listed hds⟩
  | _ => cases h

theorem openParts_tidied {d d' : Document} {name : String} {p : Parts} (hd : d.Tidied d')
    (h : openParts name d = .ok p) : ∃ p', openParts name d' = .ok p' ∧ p.Tidied p' := by
  cases d with
  | obj ms =>
    obtain ⟨ms', rfl, hms⟩ := hd.obj
    obtain rfl := Except.ok.inj h
    exact ⟨.named ms', rfl, .named hms⟩
  | _ => cases h

/-! ## Records that are tidied -/

/-- What the fields of a record make up is related to what those of the tidied record do. -/
structure Fields.Follows (s s' : Fields α) (m m' : Medium) (p p' : Parts) (R : α → α → Prop) :
    Prop where
  near : m.Near m'
  tidied : p.Tidied p'
  names : s'.names = s.names
  shows : List.Forall₂ (p.Shows p') (s.seen p m) (s'.seen p' m')
  get : ∀ {l a}, (∀ k ∈ s.names, p.Once k) → s.get p m l = .ok a →
    ∃ a', s'.get p' m' l = .ok a' ∧ R a a'

namespace Fields.Follows

variable {m m' : Medium} {p p' : Parts} {name : String} {R : β → β → Prop}

theorem of {a a' : α} {R : α → α → Prop} (near : m.Near m') (tidied : p.Tidied p') (h : R a a') :
    (of a).Follows (of a') m m' p p' R where
  near := near
  tidied := tidied
  names := rfl
  shows := .nil
  get _ ha := ⟨a', rfl, Except.ok.inj ha ▸ h⟩

theorem field {s s' : Fields (α → β)} {dec dec' : Decoder α}
    {take : Part α → Parts → Label → Except Error α} {Q : α → α → Prop}
    (hf : ∀ d ∈ p.lookup s.names.length name, p.Once name → AdmitsAt (dec m) (dec' m') d)
    (ht : ∀ {l a}, p.Once name → take (p.part m s.names.length name dec) p l = .ok a →
      ∃ a', take (p'.part m' s.names.length name dec') p' l = .ok a' ∧ Q a a')
    (h : s.Follows s' m m' p p' fun f f' => ∀ a a', Q a a' → R (f a) (f' a')) :
    (s.field name dec take).Follows (s'.field name dec' take) m m' p p' R where
  near := h.near
  tidied := h.tidied
  names := congrArg (· ++ [name]) h.names
  shows := by
    have hlast := List.Forall₂.cons (h.tidied.shows hf) .nil
    simpa [Fields.field, h.names] using List.rel_append h.shows hlast
  get hk hb := by
    obtain ⟨f, hg, a, ha, rfl⟩ := get_field_eq_ok.mp hb
    obtain ⟨f', hg', hR⟩ := h.get (fun k hk' => hk k (List.mem_append_left _ hk')) hg
    obtain ⟨a', ha', hQ⟩ := ht (hk name (List.mem_append_right _ (List.mem_singleton_self _))) ha
    refine ⟨f' a', get_field_eq_ok.mpr ⟨f', hg', a', ?_, rfl⟩, hR a a' hQ⟩
    rwa [h.names]

theorem same {s s' : Fields (α → β)}
    (h : s.Follows s' m m' p p' fun f f' => ∀ a, R (f a) (f' a)) :
    s.Follows s' m m' p p' fun f f' => ∀ a a', a = a' → R (f a) (f' a') where
  near := h.near
  tidied := h.tidied
  names := h.names
  shows := h.shows
  get hk hf := by
    obtain ⟨f', hf', hR⟩ := h.get hk hf
    exact ⟨f', hf', fun a _ ha => ha ▸ hR a⟩

theorem required {s s' : Fields (α → β)} {dec : Decoder α} (hd : Keeps dec)
    (h : s.Follows s' m m' p p' fun f f' => ∀ a, R (f a) (f' a)) :
    (s.required name dec).Follows (s'.required name dec) m m' p p' R :=
  h.same.field (fun d _ _ => (hd h.near d).admits)
    fun hk ha => ⟨_, h.tidied.required hk (hd.on h.near) ha, rfl⟩

theorem optional_at {s s' : Fields (Option α → β)} {dec dec' : Decoder α}
    (hd : ∀ d ∈ p.lookup s.names.length name, p.Once name → FollowsAt (dec m) (dec' m') d)
    (h : s.Follows s' m m' p p' fun f f' => ∀ a, R (f a) (f' a)) :
    (s.optional name dec).Follows (s'.optional name dec') m m' p p' R :=
  h.same.field (fun d hl hk => (hd d hl hk).option.admits)
    fun hk ha => ⟨_, h.tidied.optional hk (fun d hl => (hd d hl hk).option) ha, rfl⟩

theorem optional {s s' : Fields (Option α → β)} {dec : Decoder α} (hd : Keeps dec)
    (h : s.Follows s' m m' p p' fun f f' => ∀ a, R (f a) (f' a)) :
    (s.optional name dec).Follows (s'.optional name dec) m m' p p' R :=
  h.optional_at fun d _ _ => hd h.near d

theorem orElse {s s' : Fields (α → β)} {dec : Decoder α} {a : α} (hd : Keeps dec)
    (h : s.Follows s' m m' p p' fun f f' => ∀ a, R (f a) (f' a)) :
    (s.orElse name dec a).Follows (s'.orElse name dec a) m m' p p' R :=
  h.same.field (fun d _ _ => (hd h.near d).admits)
    fun hk ha => ⟨_, h.tidied.orElse hk (hd.on h.near) ha, rfl⟩

/-- A field that is there afterwards as well, whatever it is then. -/
theorem admitted {s s' : Fields (Option α → β)} {dec : Decoder α}
    (hd : ∀ d, AdmitsAt (dec m) (dec m') d)
    (h : s.Follows s' m m' p p' fun f f' => ∀ a a', R (f a) (f' a')) :
    (s.optional name dec).Follows (s'.optional name dec) m m' p p' R := by
  have hany : s.Follows s' m m' p p' fun f f' => ∀ a a', True → R (f a) (f' a') :=
    { h with get := fun hk hf => by simpa using h.get hk hf }
  refine hany.field (fun d _ _ => (hd d).option) fun hk ha => ?_
  obtain ⟨a', ha'⟩ := h.tidied.admits hk (fun d _ => (hd d).option) ha
  exact ⟨a', ha', trivial⟩

end Fields.Follows

theorem follows_record {s s' : Fields α} {name : String} {m m' : Medium} {d : Document}
    (hn : s.names.Nodup) (h : ∀ p p', parts ⟨name, s.names.length⟩ d = .ok p → p.Tidied p' →
      s.Follows s' m m' p p' Eq) : FollowsAt (record name s m) (record name s' m') d := by
  intro d' a hd ha
  simp only [record, bind_eq_ok] at ha ⊢
  obtain ⟨p, hp, _, hcheck, b, hb, _, hclose, ha⟩ := ha
  obtain ⟨p', hp', hpp⟩ := parts_tidied hd hp
  have hs := h p p' hp hpp
  obtain ⟨hcheck', honce⟩ := hpp.check (s.names_seen p m ▸ hn) hs.shows hcheck
  rw [s.names_seen] at honce
  obtain ⟨b', hb', rfl⟩ := hs.get honce hb
  rw [hs.names]
  exact ⟨p', hp', (), hcheck', b, hb', (), hpp.close hs.near hclose, ha⟩

theorem keeps_record {s : Fields α} {name : String} (hn : s.names.Nodup)
    (h : ∀ {m m' p p'}, m.Near m' → Parts.Tidied p p' → s.Follows s m m' p p' Eq) :
    Keeps (record name s) :=
  fun _ _ hm _ => follows_record hn fun _ _ _ => h hm

theorem openRecord_tidied {s : Fields (Table Value → α)} {name : String} {m m' : Medium}
    {d d' : Document} {a : α} {R : α → α → Prop} (hn : s.names.Nodup)
    (h : ∀ {p p'}, Parts.Tidied p p' → s.Follows s m m' p p' fun f f' => ∀ x, R (f x) (f' x))
    (hd : d.Tidied d') (ha : openRecord name s m d = .ok a) :
    ∃ a', openRecord name s m' d' = .ok a' ∧ R a a' := by
  simp only [openRecord, bind_eq_ok] at ha ⊢
  obtain ⟨p, hp, _, hcheck, f, hf, ha⟩ := ha
  obtain ⟨p', hp', hpp⟩ := openParts_tidied hd hp
  obtain ⟨hcheck', honce⟩ := hpp.check (s.names_seen p m ▸ hn) (h hpp).shows hcheck
  rw [s.names_seen] at honce
  obtain ⟨f', hf', hR⟩ := (h hpp).get honce hf
  obtain rfl := Except.ok.inj ha
  refine ⟨f' (p'.rest s.names), ⟨p', hp', (), hcheck', f', hf', rfl⟩, ?_⟩
  rw [hpp.rest]
  exact hR _

end ChatGateway.Decode
