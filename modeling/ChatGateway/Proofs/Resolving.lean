import ChatGateway.Proofs.Routes
import ChatGateway.Server

/-!
# From the route to the endpoint

In a valid configuration there is one endpoint for each provider, under its key, so a request that
has a route finds both. `requests_settled` says how a request can fail before a provider is asked,
and that it fails in no other way.
-/

namespace ChatGateway

/-! ## Endpoints -/

namespace Provider.Endpoint

variable {env : Table String} {pool pool' : Table Endpoint}

theorem allFrom_cons {p : Config.Provider} {ps : List Config.Provider}
    (h : allFrom env pool (p :: ps) = .ok pool') :
    ∃ e, ofProvider env p = .ok e ∧ allFrom env (pool.insert p.key e) ps = .ok pool' := by
  unfold allFrom at h
  cases he : ofProvider env p with
  | error problem => simp [he, bind, Except.bind] at h
  | ok e => exact ⟨e, rfl, by simpa [he, bind, Except.bind] using h⟩

theorem get?_allFrom {ps : List Config.Provider} (h : allFrom env pool ps = .ok pool')
    {key : String} (hk : key ∉ ps.map (·.key)) : pool'.get? key = pool.get? key := by
  induction ps generalizing pool with
  | nil => rw [Except.ok.inj h]
  | cons p ps ih =>
    obtain ⟨e, -, hrest⟩ := allFrom_cons h
    simp only [List.map_cons, List.mem_cons, not_or] at hk
    rw [ih hrest hk.2, Table.get?_insert, if_neg (Ne.symm hk.1)]

theorem allFrom_spec {ps : List Config.Provider} (h : allFrom env pool ps = .ok pool')
    (hn : (ps.map (·.key)).Nodup) (hnew : ∀ p ∈ ps, p.key ∉ pool.keys) :
    pool'.keys.Perm (ps.map (·.key) ++ pool.keys) ∧
      ∀ p ∈ ps, ∃ e, ofProvider env p = .ok e ∧ pool'.get? p.key = some e := by
  induction ps generalizing pool with
  | nil =>
    rw [Except.ok.inj h]
    exact ⟨List.Perm.refl _, by simp⟩
  | cons p ps ih =>
    obtain ⟨e, he, hrest⟩ := allFrom_cons h
    obtain ⟨hp, hn⟩ := List.nodup_cons.mp hn
    have hkeys := Table.keys_insert_of_new e (hnew p List.mem_cons_self)
    have hnew' : ∀ q ∈ ps, q.key ∉ (pool.insert p.key e).keys := by
      intro q hq hmem
      rcases List.mem_cons.mp (hkeys.mem_iff.mp hmem) with heq | hold
      · apply hp
        simpa [heq] using List.mem_map_of_mem (f := fun p : Config.Provider => p.key) hq
      · exact hnew q (List.mem_cons_of_mem _ hq) hold
    obtain ⟨hperm, hall⟩ := ih hrest hn hnew'
    constructor
    · exact hperm.trans ((hkeys.append_left _).trans List.perm_middle)
    · intro q hq
      rcases List.mem_cons.mp hq with rfl | hq
      · exact ⟨e, he, by rw [get?_allFrom hrest hp, Table.get?_insert, if_pos rfl]⟩
      · exact hall q hq

theorem all_spec {c : Config} (hv : c.Valid) (h : all env c = .ok pool) :
    pool.keys.Perm (c.providers.map (·.key)) ∧
      ∀ p ∈ c.providers, ∃ e, ofProvider env p = .ok e ∧ pool.get? p.key = some e := by
  have hspec := allFrom_spec h hv.keys (by simp [Table.keys])
  simpa [Table.keys] using hspec

end Provider.Endpoint

/-! ## Routes -/

namespace Routing

open Messages

/-- What a provider calls a model: its own name for it, or else the one name that it has for all. -/
def nameOn (p : Config.Provider) (model : String) : Option String :=
  (p.models.get? model).or p.defaultModel

theorem nameOn_eq_none_iff {p : Config.Provider} {model : String} :
    nameOn p model = none ↔ p.models.get? model = none ∧ p.defaultModel = none := by
  simp [nameOn]

theorem isSome_nameOn {p : Config.Provider} {model : String} :
    (nameOn p model).isSome = p.declares model := by
  simp [nameOn, Config.Provider.declares]

theorem targetModel_of_found {c : Config} {key model : String} {p : Config.Provider}
    (h : c.provider? key = some p) :
    targetModel c model key =
      match nameOn p model with
      | some name => .ok name
      | none => .error (.modelMapping model key) := by
  cases hn : (p.models.get? model).or p.defaultModel with
  | none => simp [targetModel, nameOn, h, hn]
  | some name => simp [targetModel, nameOn, h, hn]

theorem resolve_cases {c : Config} (hv : c.Valid) (r : Request) :
    (provider c r = none ∧ resolve c r = .error (.routing r.model)) ∨
      ∃ p ∈ c.providers, provider c r = some p ∧ c.provider? p.key = some p ∧
        ((nameOn p r.model = none ∧ resolve c r = .error (.modelMapping r.model p.key)) ∨
          ∃ name, nameOn p r.model = some name ∧ resolve c r = .ok ⟨p.key, name⟩) := by
  unfold resolve
  cases hp : provider c r with
  | none => exact .inl ⟨rfl, rfl⟩
  | some p =>
    have hmem := (provider_sound hp).1
    have hfound := hv.provider?_key hmem
    refine .inr ⟨p, hmem, rfl, hfound, ?_⟩
    dsimp only
    rw [targetModel_of_found hfound]
    cases nameOn p r.model with
    | none => exact .inl ⟨rfl, rfl⟩
    | some name => exact .inr ⟨name, rfl, rfl⟩

theorem declares_of_scanned {c : Config} {r : Request} {p : Config.Provider}
    (hnone : ∀ q ∈ preferences c r, ¬ Fits q (estimate r)) (hp : provider c r = some p) :
    p.declares r.model = true := by
  rcases provider_cases c r with ⟨q, hpref, -, hf⟩ | ⟨-, hb⟩
  · exact absurd hf (hnone q hpref)
  · exact (bestFit_of_eq_some (hb.symm.trans hp)).declares

end Routing

/-! ## Requests -/

namespace Server

open Messages Provider Routing

/-- How a request fares before a provider is asked. -/
structure Settled (v : Server) (r : Messages.Request) : Prop where
  /-- A route names a provider that is there with its endpoint, and that provider's name for the
  model; what follows is the request to it. -/
  routed : ∀ route, resolve v.config r = .ok route → ∃ p e,
    provider v.config r = some p ∧ v.config.provider? route.key = some p ∧
    Endpoint.find v.endpoints route.key = .ok e ∧ nameOn p r.model = some route.model ∧
    ∀ s log, converse v s log r =
      .after [log.routed route.key route.model (estimate r)] (forward s log r route.model p e)
  total : (∃ route, resolve v.config r = .ok route) ∨
    resolve v.config r = .error (.routing r.model) ∨
    ∃ key, resolve v.config r = .error (.modelMapping r.model key)
  unrouted : resolve v.config r = .error (.routing r.model) ↔ provider v.config r = none
  unnamed : ∀ key, resolve v.config r = .error (.modelMapping r.model key) ↔
    ∃ p, provider v.config r = some p ∧ p.key = key ∧
      p.models.get? r.model = none ∧ p.defaultModel = none
  /-- A provider that was found by its room has a name for the model. -/
  scanned : (∀ p ∈ preferences v.config r, ¬ Routing.Fits p (estimate r)) →
    ∀ key, resolve v.config r ≠ .error (.modelMapping r.model key)

theorem ofConfig_eq_ok_iff {env : Table String} {c : Config} {v : Server} :
    ofConfig env c = .ok v ↔ v.config = c ∧ Endpoint.all env c = .ok v.endpoints := by
  unfold ofConfig
  obtain ⟨config, endpoints⟩ := v
  cases Endpoint.all env c with
  | error p => simp [Except.map]
  | ok pool => simp [Except.map, eq_comm]

theorem converse_of_found {v : Server} {r : Messages.Request} {route : Route}
    {p : Config.Provider} {e : Endpoint} (h : resolve v.config r = .ok route)
    (hp : v.config.provider? route.key = some p) (he : v.endpoints.get? route.key = some e)
    (s : Session) (log : Log) :
    converse v s log r =
      .after [log.routed route.key route.model (estimate r)] (forward s log r route.model p e) := by
  simp only [converse, h, hp, he]

theorem settled {v : Server} (hv : v.config.Valid)
    (hpool : ∀ p ∈ v.config.providers, ∃ e, v.endpoints.get? p.key = some e)
    (r : Messages.Request) : Settled v r := by
  rcases resolve_cases hv r with ⟨hp, hr⟩ | ⟨p, hmem, hp, hfound, ⟨hname, hr⟩ | ⟨name, hname, hr⟩⟩
  · refine ⟨by simp [hr], by simp [hr], by simp [hr, hp], by simp [hr, hp], by simp [hr]⟩
  · refine ⟨by simp [hr], by simp [hr], by simp [hr, hp], ?_, ?_⟩
    · intro key
      simp [hr, hp, nameOn_eq_none_iff.mp hname]
    · intro hnone
      have hd := declares_of_scanned hnone hp
      rw [← isSome_nameOn, hname] at hd
      exact absurd hd (by simp)
  · obtain ⟨e, he⟩ := hpool p hmem
    refine ⟨?_, by simp [hr], by simp [hr, hp], ?_, by simp [hr]⟩
    · intro route hroute
      obtain rfl := Except.ok.inj (hr.symm.trans hroute)
      exact ⟨p, e, hp, hfound, by simp [Endpoint.find, he], hname, converse_of_found hr hfound he⟩
    · intro key
      simp only [hr, hp, reduceCtorEq, false_iff]
      rintro ⟨q, hq, -, hnone⟩
      obtain rfl := Option.some.inj hq
      rw [nameOn_eq_none_iff.mpr hnone] at hname
      exact absurd hname (by simp)

/-- **What a started server can refuse.** In a valid configuration that has its endpoints there is
one for each provider, and every request finds its provider and that provider's name for the model,
or fails because no provider takes it or because the one that does has no name for the model. -/
theorem requests_settled {env : Table String} {c : Config} {v : Server}
    (hc : c.validate = .ok ()) (hv : ofConfig env c = .ok v) :
    v.config = c ∧ v.endpoints.keys.Perm (c.providers.map (·.key)) ∧
      (∀ p ∈ c.providers, ∃ e, Endpoint.ofProvider env p = .ok e ∧
        Endpoint.find v.endpoints p.key = .ok e) ∧
      ∀ r : Messages.Request, Settled v r := by
  obtain ⟨rfl, hall⟩ := ofConfig_eq_ok_iff.mp hv
  have hvalid := Config.valid_of_validate hc
  obtain ⟨hkeys, hpool⟩ := Endpoint.all_spec hvalid hall
  refine ⟨rfl, hkeys, ?_, settled hvalid fun p hp => (hpool p hp).imp fun _ h => h.2⟩
  intro p hp
  obtain ⟨e, he, hget⟩ := hpool p hp
  exact ⟨e, he, by simp [Endpoint.find, hget]⟩

theorem requests_settled_tiers :
    tiers.validate = .ok () ∧ ∃ v, ofConfig [] tiers = .ok v ∧
      resolve v.config (question "opus" "Why?" none) = .ok ⟨"near", "large"⟩ ∧
      Settled v (question "opus" "Why?" none) := by
  have hc : tiers.validate = .ok () := rfl
  obtain ⟨pool, hpool⟩ : ∃ pool, Endpoint.all [] tiers = .ok pool := ⟨_, rfl⟩
  have hv : ofConfig [] tiers = .ok ⟨tiers, pool⟩ := ofConfig_eq_ok_iff.mpr ⟨rfl, hpool⟩
  have hr : resolve tiers (question "opus" "Why?" none) = .ok ⟨"near", "large"⟩ := rfl
  exact ⟨hc, _, hv, hr, (requests_settled hc hv).2.2.2 _⟩

end Server

end ChatGateway
