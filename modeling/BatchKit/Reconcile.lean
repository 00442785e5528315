import BatchKit.Fleet

/-!
# What a hot-swap leaves of the fleet

A hot-swap that returns before the swap (the configuration does not load, a stop is pending,
or an `EndpointManager` cannot be built, wherever it stands in the configuration) changes
nothing but, in the last case, the generation counter. One that completes reconciles the fleet
with the configuration: one running, unretired manager per endpoint, configured as the
configuration says; a current manager stays exactly when the diff loop keeps it, and every
other one is stopped and retired. No reachable fleet holds two managers for one endpoint.
-/

namespace BatchKit

theorem hotswap_early_return (s : Orchestrator) (cfg : Option (Dict String EndpointConfig))
    (raises : EndpointManager → Bool)
    (hearly : cfg = none ∨ s.stopRequested = true ∨
      ∃ configData, cfg = some configData ∧ loopRaises s raises configData = true) :
    ∃ gen, (gen = s.endpointGeneration ∨ gen = s.endpointGeneration + 1) ∧
      hotswapWith s cfg raises = (⟨{ s with endpointGeneration := gen }, none⟩, []) := by
  by_cases hs : s.stopRequested = true
  · exact ⟨_, .inl rfl, hotswap_stopped hs cfg⟩
  rcases hearly with rfl | hs' | ⟨configData, rfl, hr⟩
  · exact ⟨_, .inl rfl, rfl⟩
  · exact absurd hs' hs
  · obtain ⟨em, hem, -⟩ := loopRaises_iff.mp hr
    exact ⟨_, .inr rfl,
      hotswap_constructorRaises (Bool.eq_false_iff.mpr hs) ⟨hr, List.ne_nil_of_mem hem⟩⟩

def twoEndpoints : Dict String EndpointConfig := oneEndpoint.insert "e2" ⟨"de", []⟩

theorem hotswap_early_return_afterSteal :
    ∃ gen, (gen = afterSteal.orch.endpointGeneration ∨
        gen = afterSteal.orch.endpointGeneration + 1) ∧
      hotswapWith afterSteal.orch (some twoEndpoints) (·.endpointName == "e2") =
        (⟨{ afterSteal.orch with endpointGeneration := gen }, none⟩, []) :=
  hotswap_early_return _ _ _ (.inr (.inr ⟨_, rfl, by decide⟩))

section Survivors

variable {s : Orchestrator} {configData : Dict String EndpointConfig}

/-- The diff loop keeps `m`, a current manager: the configuration holds its endpoint with an
equal configuration, its processor class is the one for the current batch type, and it was not
asked to stop. -/
def Survives (s : Orchestrator) (configData : Dict String EndpointConfig) (m : EndpointManager) :
    Prop :=
  configData.get? m.endpointName = some m.endpointConfig ∧
    m.workItemProcessor = workItemProcessorFor s.onBatchType ∧ m ∉ s.stoppedManagers

instance (s : Orchestrator) (configData : Dict String EndpointConfig) (m : EndpointManager) :
    Decidable (Survives s configData m) :=
  inferInstanceAs (Decidable (_ ∧ _ ∧ _))

theorem mem_deleted_keys (hnd : (s.endpointManagers.map (·.endpointName)).Nodup)
    {m : EndpointManager} (hm : m ∈ s.endpointManagers) :
    m.endpointName ∈ (hotswapDiff s configData).1.keys ↔ ¬Survives s configData m := by
  have hk : m.endpointName ∈ (managersByEndpoint s.endpointManagers).keys :=
    Dict.mem_keys.mpr ⟨m, (get?_managersByEndpoint hnd).mpr ⟨hm, rfl⟩⟩
  rw [hotswapDiff_eq, Dict.mem_keys_eraseAll, Survives]
  simp only [hk, true_and, not_iff_not, List.mem_map, List.mem_filter,
    preserved_managersByEndpoint hnd, Dict.get?_eq_some]
  constructor
  · rintro ⟨⟨e, c⟩, ⟨he, em, hem, rfl, rfl, hp, hst⟩, hme⟩
    obtain rfl := List.inj_on_of_nodup_map hnd hem hm hme
    exact ⟨he, hp, hst⟩
  · rintro ⟨he, hp, hst⟩
    exact ⟨_, ⟨he, m, hm, rfl, rfl, hp, hst⟩, rfl⟩

theorem mem_newManagers {m : EndpointManager} :
    m ∈ (hotswapDiff s configData).2 ↔ ∃ e ∈ configData.entries,
      preserved (managersByEndpoint s.endpointManagers) s.stoppedManagers
        (workItemProcessorFor s.onBatchType) e.1 e.2 = false ∧
      ⟨hotswapName s.endpointGeneration e.1, e.1, e.2, workItemProcessorFor s.onBatchType⟩ = m := by
  rw [hotswapDiff_eq]
  simp only [List.mem_map, List.mem_filter, Bool.not_eq_true', and_assoc]

end Survivors

/-- What a hot-swap of `o` onto `configData` that reaches the swap leaves in `o'`: one manager per
endpoint of the configuration, configured as the configuration says, with the processor class
of the current batch type, running and not retired; a current manager stays exactly when it
survives the diff loop, and every other one is stopped and retired. -/
structure Reconciled (o o' : Orchestrator) (configData : Dict String EndpointConfig) : Prop where
  distinct : (o'.endpointManagers.map (·.endpointName)).Nodup
  endpoints : ∀ e, e ∈ o'.endpointManagers.map (·.endpointName) ↔ e ∈ configData.keys
  config : ∀ m ∈ o'.endpointManagers, configData.get? m.endpointName = some m.endpointConfig
  processor : ∀ m ∈ o'.endpointManagers, m.workItemProcessor = workItemProcessorFor o.onBatchType
  running : ∀ m ∈ o'.endpointManagers, m ∉ o'.stoppedManagers
  live : ∀ m ∈ o'.endpointManagers, m.name ∉ o'.oldManagers
  kept : ∀ m ∈ o.endpointManagers, m ∈ o'.endpointManagers ↔ Survives o configData m
  retired : ∀ m ∈ o.endpointManagers, m ∉ o'.endpointManagers →
    m ∈ o'.stoppedManagers ∧ m.name ∈ o'.oldManagers

theorem hotswap_reconciles {maxRetries : Nat} {s : System} (hs : Reachable maxRetries s)
    (hstop : s.orch.stopRequested = false)
    (hnd : (s.orch.endpointManagers.map (·.endpointName)).Nodup)
    (configData : Dict String EndpointConfig) (raises : EndpointManager → Bool)
    (hok : loopRaises s.orch raises configData = false) :
    Reconciled s.orch (hotswapWith s.orch (some configData) raises).1.state configData := by
  have hi := hs.inv
  have hf := hs.fleetInv
  have hc : ¬((some configData).any (loopRaises s.orch raises) = true ∧
      (hotswapDiff s.orch configData).2 ≠ []) := by simp [hok]
  rw [hotswapWith, hotswap_swap hi.queue.owner_keys hstop hc]
  set o := s.orch
  set D := (hotswapDiff o configData).1
  set N := (hotswapDiff o configData).2
  set ret := o.endpointManagers.filter (·.endpointName ∈ D.keys)
  -- the managers the loop builds carry names no started manager has
  have hNs : ∀ m ∈ N, m ∉ s.started := fun m hm hs => hi.new_name_fresh configData m hm m hs rfl
  have hret : ∀ m ∈ ret, m ∈ s.started :=
    fun m hm => hi.managers_started m (List.mem_filter.mp hm).1
  -- a current manager stays exactly when it survives
  have hsurv : ∀ m, m ∈ o.endpointManagers.filter (·.endpointName ∉ D.keys) ↔
      m ∈ o.endpointManagers ∧ Survives o configData m := fun m => by
    rw [List.mem_filter, decide_eq_true_iff]
    exact and_congr_right fun hm => (mem_deleted_keys hnd hm).not_left
  have hN : ∀ m ∈ N, configData.get? m.endpointName = some m.endpointConfig ∧
      m.workItemProcessor = workItemProcessorFor o.onBatchType := fun m hm => by
    obtain ⟨e, he, -, rfl⟩ := mem_newManagers.mp hm
    exact ⟨Dict.get?_eq_some.mpr he, rfl⟩
  have hdel : ∀ m ∈ ret, m ∉ o.endpointManagers.filter (·.endpointName ∉ D.keys) :=
    fun m hr hm => of_decide_eq_true (List.mem_filter.mp hm).2 (of_decide_eq_true (List.mem_filter.mp hr).2)
  exact
    { distinct := by
        rw [List.map_append, List.nodup_append]
        refine ⟨hnd.sublist ((List.filter_sublist _).map _),
          configData.keys_nodup.sublist (newManagers_sublist o configData), fun x hx hy => ?_⟩
        obtain ⟨m, hm, rfl⟩ := List.mem_map.mp hx
        obtain ⟨n, hn, hne⟩ := List.mem_map.mp hy
        obtain ⟨hm, hcfg, hpr, hst⟩ := (hsurv m).mp hm
        obtain ⟨⟨e, c⟩, he, hp, rfl⟩ := mem_newManagers.mp hn
        obtain rfl : e = m.endpointName := hne
        obtain rfl := Dict.eq_of_mem_entries he (Dict.get?_eq_some.mp hcfg)
        rw [(preserved_managersByEndpoint hnd _ _ _).mpr ⟨m, hm, rfl, rfl, hpr, hst⟩] at hp
        cases hp
      endpoints := fun e => by
        rw [List.map_append, List.mem_append]
        constructor
        · rintro (hx | hx)
          · obtain ⟨m, hm, rfl⟩ := List.mem_map.mp hx
            exact Dict.mem_keys.mpr ⟨_, ((hsurv m).mp hm).2.1⟩
          · exact (newManagers_sublist o configData).subset hx
        · intro he
          obtain ⟨c, hcfg⟩ := Dict.mem_keys.mp he
          cases hp : preserved (managersByEndpoint o.endpointManagers) o.stoppedManagers
              (workItemProcessorFor o.onBatchType) e c
          · exact .inr (List.mem_map.mpr
              ⟨_, mem_newManagers.mpr ⟨(e, c), Dict.get?_eq_some.mp hcfg, hp, rfl⟩, rfl⟩)
          · obtain ⟨m, hm, rfl, rfl, hpr, hst⟩ := (preserved_managersByEndpoint hnd _ _ _).mp hp
            exact .inl (List.mem_map_of_mem _ ((hsurv m).mpr ⟨hm, hcfg, hpr, hst⟩))
      config := fun m hm => (List.mem_append.mp hm).elim (fun hm => ((hsurv m).mp hm).2.1)
        fun hm => (hN m hm).1
      processor := fun m hm => (List.mem_append.mp hm).elim (fun hm => ((hsurv m).mp hm).2.2.1)
        fun hm => (hN m hm).2
      running := fun m hm hst => by
        rcases List.mem_append.mp hm with hm | hm <;> rcases mem_addAll.mp hst with hst | hst
        · exact ((hsurv m).mp hm).2.2.2 hst
        · exact hdel m hst hm
        · exact hNs m hm (hf.stopped_started m hst)
        · exact hNs m hm (hret m hst)
      live := fun m hm ho => by
        rcases List.mem_append.mp hm with hm | hm
        · obtain ⟨hm', hsv⟩ := (hsurv m).mp hm
          rcases mem_addAll.mp ho with ho | ho
          · exact hsv.2.2 (hf.retired_stopped m hm' ho)
          · exact hdel m (hi.mem_of_name_mem hret (hi.managers_started m hm') ho) hm
        · exact hi.new_name_not_retired configData hret m hm ho
      kept := fun m hm => by
        rw [List.mem_append, hsurv]
        exact ⟨fun h => h.elim And.right fun hn => absurd (hi.managers_started m hm) (hNs m hn),
          fun h => .inl ⟨hm, h⟩⟩
      retired := fun m hm hn => by
        have hd : m ∈ ret := List.mem_filter.mpr ⟨hm, decide_eq_true (by_contra fun hk =>
          hn (List.mem_append_left _ (List.mem_filter.mpr ⟨hm, decide_eq_true hk⟩)))⟩
        exact ⟨mem_addAll.mpr (.inr hd), mem_addAll.mpr (.inr (List.mem_map_of_mem _ hd))⟩ }

theorem hotswap_reconciles_afterSteal :
    Reconciled afterSteal.orch (hotswapWith afterSteal.orch (some twoEndpoints) fun _ => false).1.state
      twoEndpoints :=
  hotswap_reconciles (Reachable.execs_getD (by decide)) (by decide) (by decide) _ _ (by decide)

/-- The fleet is what a hot-swap onto `configData` would make of it: one manager per endpoint of
the configuration, each surviving the diff loop. -/
structure Matches (o : Orchestrator) (configData : Dict String EndpointConfig) : Prop where
  distinct : (o.endpointManagers.map (·.endpointName)).Nodup
  endpoints : ∀ e ∈ configData.keys, e ∈ o.endpointManagers.map (·.endpointName)
  survive : ∀ m ∈ o.endpointManagers, Survives o configData m

namespace Matches

variable {o : Orchestrator} {configData : Dict String EndpointConfig}

theorem deleted_keys (h : Matches o configData) : (hotswapDiff o configData).1.keys = [] := by
  refine List.eq_nil_iff_forall_not_mem.mpr fun e he => ?_
  have hk : e ∈ (managersByEndpoint o.endpointManagers).keys := by
    rw [hotswapDiff_eq, Dict.mem_keys_eraseAll] at he
    exact he.1
  obtain ⟨m, hget⟩ := Dict.mem_keys.mp hk
  obtain ⟨hm, rfl⟩ := (get?_managersByEndpoint h.distinct).mp hget
  exact (mem_deleted_keys h.distinct hm).mp he (h.survive m hm)

theorem newManagers (h : Matches o configData) : (hotswapDiff o configData).2 = [] := by
  refine List.eq_nil_iff_forall_not_mem.mpr fun n hn => ?_
  obtain ⟨⟨e, c⟩, he, hp, -⟩ := mem_newManagers.mp hn
  obtain ⟨m, hm, rfl⟩ := List.mem_map.mp (h.endpoints e (Dict.mem_keys_of_mem he))
  obtain ⟨hcfg, hpr, hst⟩ := h.survive m hm
  obtain rfl := Dict.eq_of_mem_entries he (Dict.get?_eq_some.mp hcfg)
  rw [(preserved_managersByEndpoint h.distinct _ _ _).mpr ⟨m, hm, rfl, rfl, hpr, hst⟩] at hp
  cases hp

end Matches

/-- A hot-swap onto a configuration the fleet already matches stops, retires, builds and moves
nothing: only the generation counter advances. -/
theorem hotswap_idempotent (o : Orchestrator) (configData : Dict String EndpointConfig)
    (raises : EndpointManager → Bool) (hm : Matches o configData)
    (hstop : o.stopRequested = false) (hk : o.inProgressOwner.keys = o.inProgress.keys) :
    hotswapWith o (some configData) raises =
      (⟨{ o with endpointGeneration := o.endpointGeneration + 1 }, none⟩, []) := by
  have hD := hm.deleted_keys
  have hN := hm.newManagers
  have hc : ¬((some configData).any (loopRaises o raises) = true ∧
      (hotswapDiff o configData).2 ≠ []) := fun h => h.2 hN
  have hmv : o.inProgress.entries.filter (moved o.inProgressOwner (hotswapDiff o configData).1) =
      [] := List.filter_eq_nil_iff.mpr fun e _ => by
    unfold moved
    split <;> simp [hD]
  rw [hotswapWith, hotswap_swap hk hstop hc]
  simp only [hD, hN, hmv, List.not_mem_nil, decide_False, List.filter_false, List.map_nil,
    List.append_nil, List.length_nil, Nat.add_zero, not_false_eq_true, decide_True,
    List.filter_true]
  rfl

theorem hotswap_idempotent_afterSteal :
    hotswapWith afterSteal.orch (some oneEndpoint) (fun _ => false) =
      (⟨{ afterSteal.orch with endpointGeneration := afterSteal.orch.endpointGeneration + 1 },
        none⟩, []) :=
  hotswap_idempotent _ _ _ ⟨by decide, by decide, by decide⟩ (by decide) (by decide)


/-! ## One manager per endpoint

`deleted_managers` is keyed by endpoint name, so of two managers for one endpoint a hot-swap
would keep both or retire both. The fleet never gets there: a hot-swap keeps the managers whose
endpoint survives the diff loop and builds one manager for each other endpoint of the
configuration. -/

def OnePerEndpoint (o : Orchestrator) : Prop := (o.endpointManagers.map (·.endpointName)).Nodup

namespace OnePerEndpoint

variable {o o' : Orchestrator}

theorem of_fleet (h : OnePerEndpoint o) (ho : o'.fleet = o.fleet) : OnePerEndpoint o' := by
  simp only [Orchestrator.fleet, Prod.mk.injEq] at ho
  rw [OnePerEndpoint, ho.1]
  exact h

theorem swap (h : OnePerEndpoint o) (configData : Dict String EndpointConfig) :
    ((o.endpointManagers.filter (·.endpointName ∉ (hotswapDiff o configData).1.keys) ++
      (hotswapDiff o configData).2).map (·.endpointName)).Nodup := by
  rw [List.map_append, List.nodup_append]
  refine ⟨h.sublist ((List.filter_sublist _).map _),
    configData.keys_nodup.sublist (newManagers_sublist o configData), fun x hx hy => ?_⟩
  obtain ⟨m, hm, rfl⟩ := List.mem_map.mp hx
  obtain ⟨hm, hk⟩ := List.mem_filter.mp hm
  have hsv : Survives o configData m :=
    by_contra fun hn => of_decide_eq_true hk ((mem_deleted_keys h hm).mpr hn)
  obtain ⟨n, hn, hne⟩ := List.mem_map.mp hy
  obtain ⟨⟨e, c⟩, he, hp, rfl⟩ := mem_newManagers.mp hn
  obtain rfl : e = m.endpointName := hne
  obtain rfl := Dict.eq_of_mem_entries he (Dict.get?_eq_some.mp hsv.1)
  rw [(preserved_managersByEndpoint h _ _ _).mpr ⟨m, hm, rfl, rfl, hsv.2.1, hsv.2.2⟩] at hp
  cases hp

theorem hotswap (h : OnePerEndpoint o) (hk : o.inProgressOwner.keys = o.inProgress.keys)
    (cfg : Option (Dict String EndpointConfig)) (constructorRaises : Bool) :
    OnePerEndpoint (hotswapEndpointManagers o cfg constructorRaises).1.state := by
  rcases cfg with _ | configData
  · exact h
  by_cases hs : o.stopRequested = true
  · rw [hotswap_stopped hs]
    exact h
  have hs := Bool.eq_false_iff.mpr hs
  by_cases hc : constructorRaises = true ∧ (hotswapDiff o configData).2 ≠ []
  · rw [hotswap_constructorRaises hs hc]
    exact h
  · rw [hotswap_swap hk hs hc]
    exact h.swap configData

theorem cancel (h : OnePerEndpoint o) (batchId : Int) :
    OnePerEndpoint (cancelRunningBatch o batchId).1 := by
  unfold cancelRunningBatch
  split <;> exact h

theorem exec {maxRetries : Nat} {s s' : System} {a : Action} (hi : Inv s)
    (h : OnePerEndpoint s.orch) (he : System.exec maxRetries s a = some s') :
    OnePerEndpoint s'.orch := by
  have hk := hi.queue.owner_keys
  cases a with
  | master =>
    obtain ⟨-, ho | ⟨b, ho⟩⟩ := masterStep_fleet he
    · exact h.of_fleet ho
    · exact ho ▸ h.cancel b
  | masterHotswap cfg cr =>
    obtain ⟨_, -, rfl⟩ := System.exec_masterHotswap he
    exact h.hotswap hk cfg cr
  | masterStart workItems =>
    obtain ⟨_, hm, he⟩ := System.exec_masterStart he
    rcases hi.masterStart_cases hm he with ⟨-, rfl⟩ | ⟨r, -, -, -, -, -, rfl⟩
    · exact h
    · exact h.of_fleet rfl
  | summaryThread => exact (summaryStep_orch he).1 ▸ h
  | steal m =>
    obtain ⟨-, o, r, hst, rfl⟩ := System.exec_steal he
    exact h.of_fleet (fleet_stealWork hst)
  | success r result =>
    obtain ⟨-, rfl⟩ := System.exec_success he
    exact h.of_fleet (fleet_notifyWorkSuccess _ _ _)
  | failure r result =>
    obtain ⟨-, rfl⟩ := System.exec_failure he
    exact h.of_fleet (fleet_notifyWorkFailure _ _ _ _)
  | managerStop m =>
    obtain ⟨-, rfl⟩ := System.exec_managerStop he
    exact h
  | hotswap cfg cr =>
    obtain ⟨-, rfl⟩ := System.exec_hotswap he
    exact h.hotswap hk cfg cr
  | requestStop =>
    obtain ⟨-, rfl⟩ := System.exec_requestStop he
    exact h
  | cancel b =>
    obtain ⟨-, rfl⟩ := System.exec_cancel he
    exact h.cancel b
  | submit request => cases he; exact h
  | delete b => cases he; exact h
  | writeFails writer =>
    obtain ⟨b, ⟨-, _, -, rfl⟩ | ⟨-, -, rfl⟩⟩ := System.exec_writeFails he <;> exact h

end OnePerEndpoint

theorem Reachable.onePerEndpoint {maxRetries : Nat} {s : System} (hs : Reachable maxRetries s) :
    OnePerEndpoint s.orch := by
  induction hs with
  | init p lower => exact List.nodup_nil
  | step a hs he ih => exact ih.exec hs.inv he

/-- The orchestrator never holds two managers for one endpoint. -/
theorem fleet_one_per_endpoint {maxRetries : Nat} {s : System} (hs : Reachable maxRetries s) :
    (s.orch.endpointManagers.map (·.endpointName)).Nodup :=
  hs.onePerEndpoint

theorem fleet_one_per_endpoint_afterSteal :
    (afterSteal.orch.endpointManagers.map (·.endpointName)).Nodup :=
  fleet_one_per_endpoint (Reachable.execs_getD (by decide))

end BatchKit
