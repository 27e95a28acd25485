import ChatGateway.Proofs.Tables
import ChatGateway.Routing

/-!
# Where requests go

In a valid configuration a key names one provider. `routed_best_fit` says which one a request goes
to and when it goes nowhere, `knownModels_routable_iff` which configurations can serve every model
that they list.
-/

namespace ChatGateway

/-! ## Valid configurations -/

namespace Config

/-- A key names one provider, and those that the routing names are there. -/
structure Valid (c : Config) : Prop where
  keys : (c.providers.map (·.key)).Nodup
  default : ∃ p, c.provider? c.routing.defaultProvider = some p
  mapped : ∀ entry ∈ c.routing.modelProviders, ∃ p, c.provider? entry.2 = some p

theorem checkProviders_cons {seen : List String} {p : Provider} {ps : List Provider}
    (h : checkProviders seen (p :: ps) = .ok ()) :
    p.key ∉ seen ∧ checkProviders (p.key :: seen) ps = .ok () := by
  rw [checkProviders] at h
  split at h
  · exact absurd h (by simp)
  · next hs =>
    cases ha : p.address with
    | error e =>
      rw [ha] at h
      exact absurd h (by simp [bind, Except.bind])
    | ok url =>
      rw [ha] at h
      exact ⟨by simpa using hs, h⟩

theorem nodup_of_checkProviders {seen : List String} {ps : List Provider}
    (h : checkProviders seen ps = .ok ()) :
    (ps.map (·.key)).Nodup ∧ ∀ p ∈ ps, p.key ∉ seen := by
  induction ps generalizing seen with
  | nil => simp
  | cons p ps ih =>
    obtain ⟨hp, hrest⟩ := checkProviders_cons h
    obtain ⟨hnodup, hnew⟩ := ih hrest
    constructor
    · refine List.nodup_cons.mpr ⟨fun hm => ?_, hnodup⟩
      obtain ⟨q, hq, he⟩ := List.mem_map.mp hm
      exact hnew q hq (by simp [he])
    · intro q hq
      rcases List.mem_cons.mp hq with rfl | hq
      · exact hp
      · exact fun hs => hnew q hq (List.mem_cons_of_mem _ hs)

theorem valid_of_validate {c : Config} (h : c.validate = .ok ()) : c.Valid := by
  rw [validate] at h
  split at h
  · exact absurd h (by simp)
  · cases hp : checkProviders [] c.providers with
    | error e =>
      rw [hp] at h
      exact absurd h (by simp [bind, Except.bind])
    | ok u =>
      rw [hp] at h
      simp only [bind, Except.bind] at h
      split at h
      · exact absurd h (by simp)
      · next hd =>
        split at h
        · exact absurd h (by simp)
        · next hm =>
          refine ⟨(nodup_of_checkProviders hp).1, ?_, fun entry he => ?_⟩
          · simpa [Option.isNone_iff_eq_none, Option.ne_none_iff_exists'] using hd
          · have hsome := List.find?_eq_none.mp hm entry he
            simpa [Option.isNone_iff_eq_none, Option.ne_none_iff_exists'] using hsome

theorem mem_of_provider? {c : Config} {key : String} {p : Provider}
    (h : c.provider? key = some p) : p ∈ c.providers := List.mem_of_find?_eq_some h

theorem Valid.provider?_key {c : Config} (h : c.Valid) {p : Provider} (hp : p ∈ c.providers) :
    c.provider? p.key = some p := by
  obtain ⟨before, after, he⟩ := List.append_of_mem hp
  rw [provider?, List.find?_eq_some_iff_append]
  refine ⟨by simp, before, after, he, fun q hq => ?_⟩
  have hnodup := h.keys
  rw [he, List.map_append, List.map_cons] at hnodup
  have hne : q.key ≠ p.key :=
    (List.nodup_append.mp hnodup).2.2 q.key (List.mem_map_of_mem hq) p.key List.mem_cons_self
  simpa using hne

end Config

namespace Routing

open Messages Config

/-! ## Room -/

def Fits (p : Config.Provider) (tokens : Nat) : Prop := ∀ limit ∈ p.maxContext, tokens ≤ limit

theorem hasRoomFor_iff {p : Config.Provider} {tokens : Nat} :
    p.hasRoomFor tokens = true ↔ Fits p tokens := by
  unfold Provider.hasRoomFor Fits
  cases p.maxContext <;> simp

theorem fits_zero (p : Config.Provider) : Fits p 0 := fun _ _ => Nat.zero_le _

/-! ## The best fit -/

theorem smallest_eq_none_iff {ps : List Config.Provider} : smallest ps = none ↔ ps = [] := by
  cases ps with
  | nil => simp [smallest]
  | cons p ps =>
    rw [smallest]
    split
    · split <;> simp
    · simp

/-- The first of the smallest: those in front of it are larger, none behind it is smaller. -/
theorem smallest_splits {ps : List Config.Provider} {p : Config.Provider}
    (h : smallest ps = some p) : ∃ before after, ps = before ++ p :: after ∧
      (∀ q ∈ before, rank p < rank q) ∧ ∀ q ∈ after, rank p ≤ rank q := by
  induction ps generalizing p with
  | nil => exact absurd h (by simp [smallest])
  | cons a ps ih =>
    rw [smallest] at h
    split at h
    · next b hb =>
      obtain ⟨before, after, he, hbefore, hafter⟩ := ih hb
      split at h
      · next hlt =>
        obtain rfl := Option.some.inj h
        refine ⟨a :: before, after, by rw [he, List.cons_append], ?_, hafter⟩
        exact List.forall_mem_cons.mpr ⟨hlt, hbefore⟩
      · next hge =>
        obtain rfl := Option.some.inj h
        have hab : rank a ≤ rank b := Nat.le_of_not_lt hge
        refine ⟨[], ps, rfl, by simp, fun q hq => ?_⟩
        rw [he] at hq
        rcases List.mem_append.mp hq with hq | hq
        · exact Nat.le_trans hab (Nat.le_of_lt (hbefore q hq))
        · rcases List.mem_cons.mp hq with rfl | hq
          · exact hab
          · exact Nat.le_trans hab (hafter q hq)
    · next hnone =>
      obtain rfl := Option.some.inj h
      refine ⟨[], ps, rfl, by simp, ?_⟩
      rw [smallest_eq_none_iff.mp hnone]
      simp

section
variable (c : Config)

/-- The provider takes the model and has room, and of those that do it is the first of the
smallest, in the order of the configuration. A context without a limit ranks as the largest. -/
structure BestFit (model : String) (tokens : Nat) (p : Config.Provider) : Prop where
  declares : p.declares model = true
  fits : Fits p tokens
  first : ∃ before after, c.providers = before ++ p :: after ∧
    (∀ q ∈ before, q.declares model = true → Fits q tokens → rank p < rank q) ∧
    ∀ q ∈ after, q.declares model = true → Fits q tokens → rank p ≤ rank q

variable {c}

theorem bestFit_eq_none_iff {model : String} {tokens : Nat} :
    bestFit c model tokens = none ↔
      ∀ p ∈ c.providers, p.declares model = true → ¬ Fits p tokens := by
  simp [bestFit, smallest_eq_none_iff, ← hasRoomFor_iff]

theorem bestFit_of_eq_some {model : String} {tokens : Nat} {p : Config.Provider}
    (h : bestFit c model tokens = some p) : BestFit c model tokens p := by
  obtain ⟨before, after, he, hbefore, hafter⟩ := smallest_splits h
  -- the split of those with room, carried back to all providers
  obtain ⟨front, rest, hc, rfl, hrest⟩ := List.filter_eq_append_iff.mp he
  obtain ⟨skipped, back, rfl, hskipped, hp, rfl⟩ := List.filter_eq_cons_iff.mp hrest
  have hmem : ∀ {q : Config.Provider} {qs : List Config.Provider}, q ∈ qs →
      q.declares model = true → Fits q tokens →
        q ∈ qs.filter fun q => q.declares model && q.hasRoomFor tokens := by
    intro q qs hq hd hf
    simpa [hq, hd] using hasRoomFor_iff.mpr hf
  obtain ⟨hd, hr⟩ := Bool.and_eq_true_iff.mp hp
  refine ⟨hd, hasRoomFor_iff.mp hr, front ++ skipped, back, by simp [hc], ?_, ?_⟩
  · intro q hq hqd hqf
    rcases List.mem_append.mp hq with hq | hq
    · exact hbefore q (hmem hq hqd hqf)
    · exact absurd (by simpa [hqd] using hasRoomFor_iff.mpr hqf) (hskipped q hq)
  · intro q hq hqd hqf
    exact hafter q (hmem hq hqd hqf)

theorem BestFit.mem {model : String} {tokens : Nat} {p : Config.Provider}
    (h : BestFit c model tokens p) : p ∈ c.providers := by
  obtain ⟨before, after, he, -⟩ := h.first
  rw [he]
  simp

/-! ## The choice -/

variable (c) in
/-- The providers that a request may go to whatever models they take, in the order in which they
count. -/
def preferences (r : Request) : List Config.Provider :=
  (if r.thinkingRequested then (reasoner c r.model).toList else []) ++
    (((c.routing.modelProviders.get? r.model).bind c.provider?).toList ++
      (c.provider? c.routing.defaultProvider).toList)

theorem mem_of_mapped {model : String} {p : Config.Provider} (h : mapped c model = some p) :
    p ∈ c.providers := by
  obtain ⟨key, -, hp⟩ := Option.bind_eq_some_iff.mp h
  exact mem_of_provider? hp

theorem mem_of_firstReasoner {model : String} {p : Config.Provider}
    (h : firstReasoner c model = some p) : p ∈ c.providers := by
  rcases Option.or_eq_some_iff.mp h with h | ⟨-, h⟩
  · exact (List.mem_filter.mp (List.mem_of_find?_eq_some h)).1
  · exact (List.mem_filter.mp (List.mem_of_head? h)).1

theorem mem_of_reasoner {model : String} {p : Config.Provider} (h : reasoner c model = some p) :
    p ∈ c.providers := by
  rcases Option.or_eq_some_iff.mp h with h | ⟨-, h⟩
  · exact mem_of_mapped (Option.filter_eq_some_iff.mp h).1
  · rcases Option.or_eq_some_iff.mp h with h | ⟨-, h⟩
    · exact mem_of_provider? (Option.filter_eq_some_iff.mp h).1
    · exact mem_of_firstReasoner h

theorem mem_of_preferences {r : Request} {p : Config.Provider} (h : p ∈ preferences c r) :
    p ∈ c.providers := by
  rcases List.mem_append.mp h with h | h
  · split at h
    · exact mem_of_reasoner (Option.mem_toList.mp h)
    · exact absurd h (by simp)
  · rcases List.mem_append.mp h with h | h
    · exact mem_of_mapped (Option.mem_toList.mp h)
    · exact mem_of_provider? (Option.mem_toList.mp h)

theorem find?_toList {α : Type} (f : α → Bool) (o : Option α) :
    o.toList.find? f = o.filter f := by
  cases o with
  | none => rfl
  | some a => simp [Option.filter]

theorem provider_eq (c : Config) (r : Request) :
    provider c r = ((preferences c r).find? (·.hasRoomFor (estimate r))).or
      (bestFit c r.model (estimate r)) := by
  simp only [provider, preferences, mapped, default, List.find?_append, find?_toList,
    Option.or_assoc]
  congr 1
  split
  · exact (find?_toList _ _).symm
  · rfl

theorem provider_cases (c : Config) (r : Request) :
    (∃ p ∈ preferences c r, provider c r = some p ∧ Fits p (estimate r)) ∨
      ((∀ p ∈ preferences c r, ¬ Fits p (estimate r)) ∧
        provider c r = bestFit c r.model (estimate r)) := by
  rw [provider_eq]
  cases hf : (preferences c r).find? (·.hasRoomFor (estimate r)) with
  | some p =>
    have hroom : p.hasRoomFor (estimate r) = true := by simpa using List.find?_some hf
    exact .inl ⟨p, List.mem_of_find?_eq_some hf, rfl, hasRoomFor_iff.mp hroom⟩
  | none =>
    refine .inr ⟨fun p hp hfits => ?_, rfl⟩
    exact List.find?_eq_none.mp hf p hp (hasRoomFor_iff.mpr hfits)

theorem provider_sound {r : Request} {p : Config.Provider} (h : provider c r = some p) :
    p ∈ c.providers ∧ Fits p (estimate r) := by
  rcases provider_cases c r with ⟨q, hpref, hq, hf⟩ | ⟨-, hb⟩
  · obtain rfl := Option.some.inj (hq.symm.trans h)
    exact ⟨mem_of_preferences hpref, hf⟩
  · have hbest := bestFit_of_eq_some (hb.symm.trans h)
    exact ⟨hbest.mem, hbest.fits⟩

theorem provider_eq_none_iff {r : Request} :
    provider c r = none ↔
      ∀ p, p ∈ preferences c r ∨ (p ∈ c.providers ∧ p.declares r.model = true) →
        ¬ Fits p (estimate r) := by
  rcases provider_cases c r with ⟨q, hpref, hq, hf⟩ | ⟨hnone, hb⟩
  · rw [hq]
    exact ⟨fun h => absurd h (by simp), fun h => absurd hf (h q (.inl hpref))⟩
  · rw [hb, bestFit_eq_none_iff]
    constructor
    · rintro h p (hp | ⟨hm, hd⟩)
      · exact hnone p hp
      · exact h p hm hd
    · intro h p hm hd
      exact h p (.inr ⟨hm, hd⟩)

variable (c) in
def routed (r : Request) : Option String := (provider c r).map (·.key)

theorem provider?_routed (hv : c.Valid) {r : Request} {key : String}
    (h : routed c r = some key) : ∃ p, provider c r = some p ∧ c.provider? key = some p := by
  obtain ⟨p, hp, rfl⟩ := Option.map_eq_some_iff.mp h
  exact ⟨p, hp, hv.provider?_key (provider_sound hp).1⟩

/-- **Routing is sound, complete and a best fit.** In a valid configuration a request goes to a
provider with room for it. It goes nowhere just if neither a preference nor a provider that takes
the model has room, and where no preference has, it goes to the best fit. -/
theorem routed_best_fit {c : Config} (h : c.validate = .ok ()) (r : Request) :
    (∀ key, routed c r = some key → ∃ p, c.provider? key = some p ∧ Fits p (estimate r)) ∧
      (routed c r = none ↔
        ∀ p, p ∈ preferences c r ∨ (p ∈ c.providers ∧ p.declares r.model = true) →
          ¬ Fits p (estimate r)) ∧
      ((∀ p ∈ preferences c r, ¬ Fits p (estimate r)) → ∀ key, routed c r = some key →
        ∃ p, c.provider? key = some p ∧ BestFit c r.model (estimate r) p) := by
  have hv : c.Valid := valid_of_validate h
  refine ⟨fun key hkey => ?_, ?_, fun hnone key hkey => ?_⟩
  · obtain ⟨p, hp, hfound⟩ := provider?_routed hv hkey
    exact ⟨p, hfound, (provider_sound hp).2⟩
  · rw [routed, Option.map_eq_none_iff, provider_eq_none_iff]
  · obtain ⟨p, hp, hfound⟩ := provider?_routed hv hkey
    rcases provider_cases c r with ⟨q, hpref, hq, hf⟩ | ⟨-, hb⟩
    · exact absurd hf (hnone q hpref)
    · exact ⟨p, hfound, bestFit_of_eq_some (hb.symm.trans hp)⟩

def localProvider (key model : String) (maxContext : Option Nat) : Config.Provider where
  key
  name := "custom"
  baseUrl := some "http://localhost/v1"
  apiKey := none
  apiKeyVariable := none
  timeout := 600
  models := [(model, "large")]
  defaultModel := none
  supportsReasoning := true
  reasoning := .standard
  maxTokens := none
  maxContext
  extraHeaders := []

/-- The default provider has no room, and three others take the model. -/
def tiers : Config where
  server := .standard
  logging := .standard
  routing := ⟨"full", []⟩
  providers := [localProvider "full" "opus" (some 0), localProvider "endless" "opus" none,
    localProvider "near" "opus" (some 2), localProvider "equal" "opus" (some 2)]

def question (model text : String) (thinking : Option Thinking) : Request where
  model
  maxTokens := none
  messages := [⟨.user, .text text⟩]
  system := none
  stream := none
  temperature := none
  topP := none
  topK := none
  tools := none
  toolChoice := none
  metadata := none
  stopSequences := none
  thinking
  extra := []

theorem routed_best_fit_tiers :
    tiers.validate = .ok () ∧
      ∃ p, tiers.provider? "near" = some p ∧ BestFit tiers "opus" 1 p := by
  have hv : tiers.validate = .ok () := rfl
  have hroom : ∀ p ∈ preferences tiers (question "opus" "Why?" (some (.enabled none))),
      p.hasRoomFor 1 = false := by decide
  have hnone : ∀ p ∈ preferences tiers (question "opus" "Why?" (some (.enabled none))),
      ¬ Fits p 1 := by
    intro p hp hf
    exact absurd (hasRoomFor_iff.mpr hf) (by simp [hroom p hp])
  exact ⟨hv, (routed_best_fit hv (question "opus" "Why?" (some (.enabled none)))).2.2 hnone "near"
    (by decide)⟩

/-! ## The models on offer -/

theorem targetModel_eq_ok_iff {key model : String} {p : Config.Provider}
    (h : c.provider? key = some p) :
    (∃ name, targetModel c model key = .ok name) ↔ p.declares model = true := by
  simp only [targetModel, h, Provider.declares]
  cases p.models.get? model with
  | some name => simp
  | none => cases p.defaultModel <;> simp

theorem resolve_eq_ok_iff (hv : c.Valid) {r : Request} :
    (∃ route, resolve c r = .ok route) ↔
      ∃ p, provider c r = some p ∧ p.declares r.model = true := by
  rw [resolve]
  cases hp : provider c r with
  | none => simp
  | some p =>
    have hfound := hv.provider?_key (provider_sound hp).1
    have hmap : (∃ route, (targetModel c r.model p.key).map (Route.mk p.key) = .ok route) ↔
        ∃ name, targetModel c r.model p.key = .ok name := by
      cases targetModel c r.model p.key <;> simp [Except.map]
    rw [hmap, targetModel_eq_ok_iff hfound]
    simp

variable (c) in
/-- The provider of a model: the one that it is mapped to, or else the default one. -/
def home (model : String) : Option Config.Provider :=
  ((c.routing.modelProviders.get? model).bind c.provider?).or
    (c.provider? c.routing.defaultProvider)

theorem exists_home (hv : c.Valid) (model : String) : ∃ p, home c model = some p := by
  obtain ⟨d, hd⟩ := hv.default
  rw [home, hd]
  cases (c.routing.modelProviders.get? model).bind c.provider? with
  | some p => exact ⟨p, rfl⟩
  | none => exact ⟨d, rfl⟩

theorem provider_of_short (hv : c.Valid) {r : Request} (ht : r.thinkingRequested = false)
    (he : estimate r = 0) : provider c r = home c r.model := by
  obtain ⟨p, hp⟩ := exists_home hv r.model
  have hroom : ∀ o : Option Config.Provider, o.filter (·.hasRoomFor 0) = o := by
    intro o
    cases o with
    | none => rfl
    | some q => simp [hasRoomFor_iff.mpr (fits_zero q)]
  rw [provider_eq, preferences, ht, if_neg (by simp), List.nil_append, he, List.find?_append,
    find?_toList, find?_toList, hroom, hroom, ← home, hp, Option.some_or]

theorem estimate_question (model : String) (thinking : Option Thinking) :
    estimate (question model "" thinking) = 0 := by
  simp [estimate, size, question, contentSize]

/-- **The models on offer.** In a valid configuration short requests are answered for all models
that are listed just if the provider of each of them takes it. -/
theorem knownModels_routable_iff {c : Config} (h : c.validate = .ok ()) :
    (∀ r : Request, r.model ∈ c.knownModels → r.thinkingRequested = false → estimate r = 0 →
        ∃ route, resolve c r = .ok route) ↔
      ∀ model ∈ c.knownModels, ∀ p, home c model = some p → p.declares model = true := by
  have hv : c.Valid := valid_of_validate h
  constructor
  · intro hall model hm p hp
    have he := estimate_question model none
    obtain ⟨q, hq, hd⟩ := (resolve_eq_ok_iff hv).mp (hall (question model "" none) hm rfl he)
    rw [provider_of_short hv rfl he] at hq
    obtain rfl := Option.some.inj (hq.symm.trans hp)
    exact hd
  · intro hall r hm ht he
    obtain ⟨p, hp⟩ := exists_home hv r.model
    exact (resolve_eq_ok_iff hv).mpr
      ⟨p, (provider_of_short hv ht he).trans hp, hall r.model hm p hp⟩

end

def pair (modelProviders : Table String) : Config where
  server := .standard
  logging := .standard
  routing := ⟨"first", modelProviders⟩
  providers := [localProvider "first" "haiku" none, localProvider "second" "opus" none]

theorem knownModels_routable_pair :
    (pair [("opus", "second")]).validate = .ok () ∧
      ∀ r : Request, r.model ∈ (pair [("opus", "second")]).knownModels →
        r.thinkingRequested = false → estimate r = 0 →
          ∃ route, resolve (pair [("opus", "second")]) r = .ok route := by
  have hv : (pair [("opus", "second")]).validate = .ok () := rfl
  have hhome : ∀ model ∈ (pair [("opus", "second")]).knownModels,
      (home (pair [("opus", "second")]) model).all (·.declares model) = true := by decide
  refine ⟨hv, (knownModels_routable_iff hv).mpr fun model hm p hp => ?_⟩
  simpa [hp] using hhome model hm

/-- A model that only a provider other than the default one takes is listed and not answered. -/
theorem knownModels_unroutable :
    (pair []).validate = .ok () ∧ "opus" ∈ (pair []).knownModels ∧
      (question "opus" "" none).thinkingRequested = false ∧
      estimate (question "opus" "" none) = 0 ∧
      resolve (pair []) (question "opus" "" none) = .error (.modelMapping "opus" "first") :=
  ⟨rfl, by decide, rfl, by decide, rfl⟩

end Routing

end ChatGateway
