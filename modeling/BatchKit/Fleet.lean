import BatchKit.Callbacks

/-!
# The fleet of endpoint managers

Managers are retired by name, so names must never repeat: `HotswapGen{gen}_{endpoint}` is
injective, the generation grows on every hot-swap past the stop check, and one configuration
names each endpoint once. Retiring one manager then leaves every other manager's callbacks and
steals alone.

A hot-swap that reaches the swap moves back to the queue exactly the work of the managers it
retires, and keeps every other file in progress under its owner.
-/

namespace BatchKit

variable {maxRetries : Nat} {s : System}

/-- The names `hotswap_endpoint_managers` gives are pairwise distinct across all calls, and
retiring a manager by name affects no other manager. -/
def NamesFresh (s : System) : Prop :=
  (∀ g₁ e₁ g₂ e₂, hotswapName g₁ e₁ = hotswapName g₂ e₂ → g₁ = g₂ ∧ e₁ = e₂) ∧
  (∀ m₁ ∈ s.started, ∀ m₂ ∈ s.started, m₁.name = m₂.name → m₁ = m₂) ∧
  (∀ configData constructorRaises, s.orch.stopRequested = false →
    (hotswapEndpointManagers s.orch (some configData) constructorRaises).1.state.endpointGeneration =
      s.orch.endpointGeneration + 1) ∧
  (∀ configData, ((hotswapDiff s.orch configData).2.map (·.endpointName)).Nodup) ∧
  (∀ configData, ∀ m ∈ (hotswapDiff s.orch configData).2,
    m.name ∉ s.orch.oldManagers ∧ ∀ m' ∈ s.started, m'.name ≠ m.name) ∧
  (∀ m ∈ s.started, ∀ m' ∈ s.started, m' ≠ m →
    (accepts (retireManagers s.orch [m]) m' ↔ accepts s.orch m'))

theorem names_fresh (hs : Reachable maxRetries s) : NamesFresh s := by
  have hi := hs.inv
  have hnew := hi.new_name_fresh
  refine ⟨fun _ _ _ _ => hotswapName_inj, hi.started_inj,
    fun configData constructorRaises hst => ?_,
    fun configData => configData.keys_nodup.sublist (newManagers_sublist s.orch configData),
    fun configData m hm => ⟨fun ho => ?_, hnew configData m hm⟩, fun m hm m' hm' hne => ?_⟩
  · by_cases hc : constructorRaises = true ∧ (hotswapDiff s.orch configData).2 ≠ []
    · rw [hotswap_constructorRaises hst hc]
    · rw [hotswap_swap hi.queue.owner_keys hst hc]
  · obtain ⟨m', hm', hn⟩ := hi.old_started _ ho
    exact hnew configData m hm m' hm' hn
  · have hn : m'.name ≠ m.name := fun hn => hne (hi.started_inj m' hm' m hm hn)
    simp [accepts, retireManagers, stopManagers, mem_addAll, hn]

theorem names_fresh_afterSteal : NamesFresh afterSteal :=
  names_fresh (Reachable.execs_getD (by decide))

/-- A hot-swap that reaches the swap moves to the tail of the queue exactly the in-progress work
whose owner's endpoint it deletes, retires those owners, and leaves every other file in progress
under its owner: the queued and in-progress requests are the same, and every owner is a current
unretired manager. -/
def SwapMovesRetiredWork (o : Orchestrator) (configData : Dict String EndpointConfig)
    (constructorRaises : Bool) : Prop :=
  ∃ (o' : Orchestrator) (requeued : List (String × WorkItemRequest)),
    hotswapEndpointManagers o (some configData) constructorRaises =
      (⟨o', none⟩, (hotswapDiff o configData).2) ∧
    (∀ e, e ∈ requeued ↔ e ∈ o.inProgress.entries ∧ ∃ m, o.inProgressOwner.get? e.1 = some m ∧
      m ∈ o.endpointManagers ∧ m.endpointName ∈ (hotswapDiff o configData).1.keys) ∧
    o'.oldManagers = addAll o.oldManagers
      ((o.endpointManagers.filter (·.endpointName ∈ (hotswapDiff o configData).1.keys)).map
        (·.name)) ∧
    o'.fileQueue = o.fileQueue ++ requeued.map Prod.snd ∧
    o'.fileQueueSize = o.fileQueueSize + requeued.length ∧
    (∀ f, o'.inProgress.get? f =
      if f ∈ requeued.map Prod.fst then none else o.inProgress.get? f) ∧
    (∀ f, o'.inProgressOwner.get? f =
      if f ∈ requeued.map Prod.fst then none else o.inProgressOwner.get? f) ∧
    (o'.fileQueue ++ o'.inProgress.values).Perm (o.fileQueue ++ o.inProgress.values) ∧
    (∀ f m, o'.inProgressOwner.get? f = some m →
      m ∈ o'.endpointManagers ∧ m.name ∉ o'.oldManagers)

theorem hotswap_moves_retired_work (hs : Reachable maxRetries s)
    (configData : Dict String EndpointConfig) (constructorRaises : Bool)
    (hstop : s.orch.stopRequested = false)
    (hc : ¬(constructorRaises = true ∧ (hotswapDiff s.orch configData).2 ≠ [])) :
    SwapMovesRetiredWork s.orch configData constructorRaises := by
  have hi := hs.inv
  have hown := (hi.swap hstop hc).owner_active
  rw [hotswap_swap hi.queue.owner_keys hstop hc] at hown
  rw [SwapMovesRetiredWork, hotswap_swap hi.queue.owner_keys hstop hc]
  set D := (hotswapDiff s.orch configData).1
  set mv := s.orch.inProgress.entries.filter (moved s.orch.inProgressOwner D)
  -- an entry's key is among the moved keys exactly when the entry is moved
  have hkey : ∀ e ∈ s.orch.inProgress.entries,
      e.1 ∈ mv.map Prod.fst ↔ moved s.orch.inProgressOwner D e = true := by
    rintro ⟨k, v⟩ he
    constructor
    · intro hk
      obtain ⟨⟨k', v'⟩, hmv, hk'⟩ := List.mem_map.mp hk
      simp only at hk'
      subst hk'
      obtain ⟨he', hm⟩ := List.mem_filter.mp hmv
      obtain rfl := Dict.eq_of_mem_entries he he'
      exact hm
    · exact fun hm => List.mem_map_of_mem _ (List.mem_filter.mpr ⟨he, hm⟩)
  have hrest : (s.orch.inProgress.eraseAll (mv.map Prod.fst)).entries =
      s.orch.inProgress.entries.filter (fun e => !moved s.orch.inProgressOwner D e) := by
    rw [Dict.entries_eraseAll]
    exact List.filter_congr fun e he => by simp [hkey e he]
  refine ⟨_, mv, rfl, fun e => ?_, rfl, rfl, rfl, Dict.get?_eraseAll _ _, Dict.get?_eraseAll _ _,
    ?_, hown⟩
  · simp only [mv, List.mem_filter, moved]
    constructor
    · rintro ⟨he, hm⟩
      split at hm
      · rename_i m hm'
        exact ⟨he, m, hm', (hi.owner_active _ _ hm').1, of_decide_eq_true hm⟩
      · cases hm
    · rintro ⟨he, m, hm, -, hd⟩
      simp [he, hm, hd]
  · simp only [Dict.values, hrest, List.append_assoc]
    refine List.Perm.append_left _ ?_
    rw [← List.map_append]
    exact (List.filter_append_perm _ _).map _

theorem hotswap_moves_retired_work_afterSteal : SwapMovesRetiredWork afterSteal.orch ∅ false :=
  hotswap_moves_retired_work (Reachable.execs_getD (by decide)) ∅ false (by decide) (by simp)

def Orchestrator.fleet (o : Orchestrator) :
    List EndpointManager × List String × List EndpointManager :=
  (o.endpointManagers, o.oldManagers, o.stoppedManagers)

section FleetFrame

/-! Only the hot-swap, `cancel_running_batch`, `request_stop` and a manager's own stop touch the
fleet. -/

variable {o o' : Orchestrator}

theorem fleet_untrack (f : String) : (untrack o f).state.fleet = o.fleet := by
  unfold untrack; split_ifs <;> rfl

theorem fleet_checkBatchCompletion (o : Orchestrator) : (checkBatchCompletion o).fleet = o.fleet := by
  rw [Orchestrator.checkBatchCompletion_eq]; rfl

theorem fleet_then {out : Outcome} {k : Orchestrator → Orchestrator}
    (hk : ∀ t, (k t).fleet = t.fleet) : (out.then k).state.fleet = out.state.fleet := by
  unfold Outcome.then; split; exacts [hk _, rfl]

theorem fleet_notifyWorkSuccess (f : String) (m : EndpointManager) (r : WorkItemResult) :
    (notifyWorkSuccess o f m r).state.fleet = o.fleet := by
  unfold notifyWorkSuccess
  split_ifs
  · exact (fleet_then (k := fun t => checkBatchCompletion (mergeResults t f r))
      fun _ => fleet_checkBatchCompletion _).trans (fleet_untrack f)
  · rfl

theorem fleet_notifyWorkFailure (maxRetries : Nat) (f : String) (m : EndpointManager)
    (r : WorkItemResult) : (notifyWorkFailure o maxRetries f m r).state.fleet = o.fleet := by
  unfold notifyWorkFailure
  split_ifs
  · dsimp only
    split
    · exact (fleet_then fleet_checkBatchCompletion).trans (fleet_untrack f)
    · rfl
  · exact (fleet_then fleet_checkBatchCompletion).trans (fleet_untrack f)
  · rfl

theorem fleet_stealWork {lower : String → String} {m : EndpointManager} {r : Stolen}
    (h : stealWork o lower m = some (o', r)) :
    o'.fleet = o.fleet := by
  rcases Orchestrator.stealWork_cases h with
    ⟨rfl, -⟩ | ⟨_, _, -, -, -, -, ⟨-, -, rfl⟩ | ⟨-, -, rfl⟩⟩ <;> rfl

end FleetFrame

theorem masterStep_fleet {s s' : System} (he : System.masterStep s = some s') :
    s'.started = s.started ∧
      (s'.orch.fleet = s.orch.fleet ∨ ∃ batchId, s'.orch = (cancelRunningBatch s.orch batchId).1) := by
  unfold System.masterStep at he
  repeat' split at he
  all_goals first
    | cases he; done
    | cases he; exact ⟨rfl, .inl rfl⟩
    | cases he; exact ⟨rfl, .inr ⟨_, rfl⟩⟩

theorem summaryStep_orch {s s' : System} (he : System.summaryStep s = some s') :
    s'.orch = s.orch ∧ s'.started = s.started := by
  unfold System.summaryStep at he
  repeat' split at he
  all_goals first
    | cases he; done
    | cases he; exact ⟨rfl, rfl⟩

/-- Every manager asked to stop was started, and a manager of the fleet whose name is retired
was asked to stop. -/
structure FleetInv (o : Orchestrator) (started : List EndpointManager) : Prop where
  stopped_started : ∀ m ∈ o.stoppedManagers, m ∈ started
  retired_stopped : ∀ m ∈ o.endpointManagers, m.name ∈ o.oldManagers → m ∈ o.stoppedManagers

namespace FleetInv

variable {o o' : Orchestrator} {started : List EndpointManager}

theorem of_fleet (h : FleetInv o started) (ho : o'.fleet = o.fleet) : FleetInv o' started := by
  simp only [Orchestrator.fleet, Prod.mk.injEq] at ho
  obtain ⟨he, hold, hst⟩ := ho
  exact ⟨hst ▸ h.stopped_started, he ▸ hold ▸ hst ▸ h.retired_stopped⟩

theorem stopManagers (h : FleetInv o started) {managers : List EndpointManager}
    (hm : ∀ m ∈ managers, m ∈ started) : FleetInv (stopManagers o managers) started :=
  ⟨fun m hs => (mem_addAll.mp hs).elim (h.stopped_started m) (hm m),
    fun m he ho => mem_addAll.mpr (.inl (h.retired_stopped m he ho))⟩

theorem cancel (h : FleetInv o started) (hm : ∀ m ∈ o.endpointManagers, m ∈ started)
    (batchId : Int) : FleetInv (cancelRunningBatch o batchId).1 started := by
  by_cases hb : o.onBatchId = batchId
  · rw [Orchestrator.cancelRunningBatch_of_eq hb]
    exact ⟨fun m hs => (mem_addAll.mp hs).elim (h.stopped_started m) (hm m),
      fun m he _ => mem_addAll.mpr (.inr he)⟩
  · rwa [Orchestrator.cancelRunningBatch_of_ne hb]

theorem hotswap {s : System} (hi : Inv s) (h : FleetInv s.orch s.started)
    (cfg : Option (Dict String EndpointConfig)) (constructorRaises : Bool) :
    FleetInv (hotswapEndpointManagers s.orch cfg constructorRaises).1.state
      (s.started ++ (hotswapEndpointManagers s.orch cfg constructorRaises).2) := by
  rcases cfg with _ | configData
  · dsimp only [hotswapEndpointManagers]; rw [List.append_nil]; exact h
  by_cases hs : s.orch.stopRequested = true
  · rw [hotswap_stopped hs]; dsimp only; rw [List.append_nil]; exact h
  have hs := Bool.eq_false_iff.mpr hs
  by_cases hc : constructorRaises = true ∧ (hotswapDiff s.orch configData).2 ≠ []
  · rw [hotswap_constructorRaises hs hc]; dsimp only; rw [List.append_nil]; exact h.of_fleet rfl
  rw [hotswap_swap hi.queue.owner_keys hs hc]
  have hret : ∀ m ∈ s.orch.endpointManagers.filter
      (·.endpointName ∈ (hotswapDiff s.orch configData).1.keys), m ∈ s.started :=
    fun m hm => hi.managers_started m (List.mem_filter.mp hm).1
  constructor
  · intro m hm
    exact List.mem_append_left _ ((mem_addAll.mp hm).elim (h.stopped_started m) (hret m))
  · intro m hm ho
    rcases List.mem_append.mp hm with hm | hm
    · have hm := (List.mem_filter.mp hm).1
      rcases mem_addAll.mp ho with ho | ho
      · exact mem_addAll.mpr (.inl (h.retired_stopped m hm ho))
      · exact mem_addAll.mpr (.inr (hi.mem_of_name_mem hret (hi.managers_started m hm) ho))
    · exact absurd ho (hi.new_name_not_retired configData hret m hm)

theorem exec {maxRetries : Nat} {s s' : System} {a : Action} (hi : Inv s)
    (h : FleetInv s.orch s.started) (he : System.exec maxRetries s a = some s') :
    FleetInv s'.orch s'.started := by
  cases a with
  | master =>
    obtain ⟨hst, ho | ⟨b, ho⟩⟩ := masterStep_fleet he
    · exact hst ▸ h.of_fleet ho
    · exact hst ▸ ho ▸ h.cancel hi.managers_started b
  | masterHotswap cfg cr =>
    obtain ⟨_, -, rfl⟩ := System.exec_masterHotswap he
    exact h.hotswap hi cfg cr
  | masterStart workItems =>
    obtain ⟨_, hm, he⟩ := System.exec_masterStart he
    rcases hi.masterStart_cases hm he with ⟨-, rfl⟩ | ⟨r, -, -, -, -, -, rfl⟩
    · exact h
    · exact h.of_fleet rfl
  | summaryThread =>
    obtain ⟨ho, hst⟩ := summaryStep_orch he
    exact ho ▸ hst ▸ h
  | steal m =>
    obtain ⟨-, o, r, hst, rfl⟩ := System.exec_steal he
    exact h.of_fleet (fleet_stealWork hst)
  | success r result =>
    obtain ⟨-, rfl⟩ := System.exec_success he
    exact h.of_fleet (fleet_notifyWorkSuccess _ _ _)
  | failure r result =>
    obtain ⟨-, rfl⟩ := System.exec_failure he
    exact h.of_fleet (fleet_notifyWorkFailure _ _ _ _)
  | managerStop m =>
    obtain ⟨hm, rfl⟩ := System.exec_managerStop he
    exact h.stopManagers (by simpa using hm)
  | hotswap cfg cr =>
    obtain ⟨-, rfl⟩ := System.exec_hotswap he
    exact h.hotswap hi cfg cr
  | requestStop =>
    obtain ⟨-, rfl⟩ := System.exec_requestStop he
    exact (h.stopManagers hi.managers_started).of_fleet rfl
  | cancel b =>
    obtain ⟨-, rfl⟩ := System.exec_cancel he
    exact h.cancel hi.managers_started b
  | submit request => cases he; exact h.of_fleet rfl
  | delete b => cases he; exact h
  | writeFails writer =>
    obtain ⟨b, ⟨-, _, -, rfl⟩ | ⟨-, -, rfl⟩⟩ := System.exec_writeFails he <;> exact h

end FleetInv

theorem Reachable.fleetInv {maxRetries : Nat} {s : System} (hs : Reachable maxRetries s) :
    FleetInv s.orch s.started := by
  induction hs with
  | init p lower =>
    exact ⟨by simp [System.init, Orchestrator.init], by simp [System.init, Orchestrator.init]⟩
  | step a hs he ih => exact ih.exec hs.inv he


/-! ## Retirement is final

No step takes a name out of `_old_managers`, and `steal_work` hands work only to a manager whose
name is not there. So a retired manager stays retired and is never handed work again: the only
reports it holds are those it held when it was retired. -/

section Retirement

variable {maxRetries : Nat} {s s' : System}

theorem oldManagers_cancel (o : Orchestrator) (batchId : Int) :
    o.oldManagers ⊆ (cancelRunningBatch o batchId).1.oldManagers := by
  unfold cancelRunningBatch
  split
  · exact List.Subset.refl _
  · exact fun n hn => mem_addAll.mpr (.inl hn)

theorem oldManagers_hotswap {o : Orchestrator} (hk : o.inProgressOwner.keys = o.inProgress.keys)
    (cfg : Option (Dict String EndpointConfig)) (constructorRaises : Bool) :
    o.oldManagers ⊆ (hotswapEndpointManagers o cfg constructorRaises).1.state.oldManagers := by
  rcases cfg with _ | configData
  · exact List.Subset.refl _
  by_cases hs : o.stopRequested = true
  · rw [hotswap_stopped hs]
    exact List.Subset.refl _
  have hs := Bool.eq_false_iff.mpr hs
  by_cases hc : constructorRaises = true ∧ (hotswapDiff o configData).2 ≠ []
  · rw [hotswap_constructorRaises hs hc]
    exact List.Subset.refl _
  · rw [hotswap_swap hk hs hc]
    exact fun n hn => mem_addAll.mpr (.inl hn)

theorem oldManagers_exec (hi : Inv s) {a : Action} (he : System.exec maxRetries s a = some s') :
    s.orch.oldManagers ⊆ s'.orch.oldManagers := by
  have hk := hi.queue.owner_keys
  have of_fleet : s'.orch.fleet = s.orch.fleet → s.orch.oldManagers ⊆ s'.orch.oldManagers :=
    fun ho => by
      simp only [Orchestrator.fleet, Prod.mk.injEq] at ho
      rw [ho.2.1]
      exact List.Subset.refl _
  cases a with
  | master =>
    obtain ⟨-, ho | ⟨b, ho⟩⟩ := masterStep_fleet he
    · exact of_fleet ho
    · exact ho ▸ oldManagers_cancel _ b
  | masterHotswap cfg cr =>
    obtain ⟨_, -, rfl⟩ := System.exec_masterHotswap he
    exact oldManagers_hotswap hk cfg cr
  | masterStart workItems =>
    obtain ⟨_, hm, he⟩ := System.exec_masterStart he
    rcases hi.masterStart_cases hm he with ⟨-, rfl⟩ | ⟨r, -, -, -, -, -, rfl⟩ <;>
      exact List.Subset.refl _
  | summaryThread => exact of_fleet (by rw [(summaryStep_orch he).1])
  | steal m =>
    obtain ⟨-, o, r, hst, rfl⟩ := System.exec_steal he
    exact of_fleet (fleet_stealWork hst)
  | success r result =>
    obtain ⟨-, rfl⟩ := System.exec_success he
    exact of_fleet (fleet_notifyWorkSuccess _ _ _)
  | failure r result =>
    obtain ⟨-, rfl⟩ := System.exec_failure he
    exact of_fleet (fleet_notifyWorkFailure _ _ _ _)
  | managerStop m =>
    obtain ⟨-, rfl⟩ := System.exec_managerStop he
    exact List.Subset.refl _
  | hotswap cfg cr =>
    obtain ⟨-, rfl⟩ := System.exec_hotswap he
    exact oldManagers_hotswap hk cfg cr
  | requestStop =>
    obtain ⟨-, rfl⟩ := System.exec_requestStop he
    exact List.Subset.refl _
  | cancel b =>
    obtain ⟨-, rfl⟩ := System.exec_cancel he
    exact oldManagers_cancel _ b
  | submit request | delete b => cases he; exact List.Subset.refl _
  | writeFails writer =>
    obtain ⟨b, ⟨-, _, -, rfl⟩ | ⟨-, -, rfl⟩⟩ := System.exec_writeFails he <;>
      exact List.Subset.refl _

theorem outstanding_exec {a : Action} (he : System.exec maxRetries s a = some s') {r : Report}
    (hr : r ∈ s'.outstanding) : r ∈ s.outstanding ∨ r.manager.name ∉ s.orch.oldManagers := by
  cases a with
  | steal m =>
    obtain ⟨-, o, w, hst, rfl⟩ := System.exec_steal he
    rcases Orchestrator.stealWork_cases hst with
      ⟨-, rfl⟩ | ⟨w', rest, -, -, hold, -, ⟨-, rfl, -⟩ | ⟨-, rfl, -⟩⟩
    · exact .inl hr
    · exact .inl hr
    · rcases List.mem_append.mp hr with hr | hr
      · exact .inl hr
      · obtain rfl := List.mem_singleton.mp hr
        exact .inr hold
  | success r' result =>
    obtain ⟨-, rfl⟩ := System.exec_success he
    exact .inl (List.mem_of_mem_erase hr)
  | failure r' result =>
    obtain ⟨-, rfl⟩ := System.exec_failure he
    exact .inl (List.mem_of_mem_erase hr)
  | master | masterStart _ | summaryThread =>
    simp only [System.exec, System.masterStep, System.masterStart, System.summaryStep] at he
    repeat' split at he
    all_goals first
      | cases he; done
      | cases he; exact .inl hr
  | masterHotswap cfg cr => obtain ⟨_, -, rfl⟩ := System.exec_masterHotswap he; exact .inl hr
  | managerStop m => obtain ⟨-, rfl⟩ := System.exec_managerStop he; exact .inl hr
  | hotswap cfg cr => obtain ⟨-, rfl⟩ := System.exec_hotswap he; exact .inl hr
  | requestStop => obtain ⟨-, rfl⟩ := System.exec_requestStop he; exact .inl hr
  | cancel b => obtain ⟨-, rfl⟩ := System.exec_cancel he; exact .inl hr
  | submit request | delete b => cases he; exact .inl hr
  | writeFails writer =>
    obtain ⟨b, ⟨-, _, -, rfl⟩ | ⟨-, -, rfl⟩⟩ := System.exec_writeFails he <;> exact .inl hr

def Retired (s : System) (m : EndpointManager) (reports : List Report) : Prop :=
  m.name ∈ s.orch.oldManagers ∧ ∀ r ∈ s.outstanding, r.manager = m → r ∈ reports

theorem Retired.exec {m : EndpointManager} {reports : List Report} (hi : Inv s)
    (h : Retired s m reports) {a : Action} (he : System.exec maxRetries s a = some s') :
    Retired s' m reports :=
  ⟨oldManagers_exec hi he h.1, fun r hr hm => (outstanding_exec he hr).elim (h.2 r · hm)
    fun hn => absurd (hm ▸ h.1) hn⟩

theorem Retired.execs {m : EndpointManager} {reports : List Report} :
    ∀ {s s' : System} {l : List Action}, Reachable maxRetries s → Retired s m reports →
      System.execs maxRetries s l = some s' → Retired s' m reports
  | _, _, [], _, h, he => by cases he; exact h
  | _, _, a :: l, hs, h, he => by
    simp only [System.execs, Option.bind_eq_some] at he
    obtain ⟨t, ht, hl⟩ := he
    exact Retired.execs (hs.step a ht) (h.exec hs.inv ht) hl

end Retirement

/-- Retirement is final: along every run, a retired manager stays retired and is handed no work,
so every report it holds was already outstanding when the run began. -/
theorem retired_manager_inert {maxRetries : Nat} {m : EndpointManager} {s s' : System}
    {l : List Action} (hs : Reachable maxRetries s) (hm : m.name ∈ s.orch.oldManagers)
    (he : System.execs maxRetries s l = some s') :
    m.name ∈ s'.orch.oldManagers ∧ ∀ r ∈ s'.outstanding, r.manager = m → r ∈ s.outstanding :=
  Retired.execs hs ⟨hm, fun _ hr _ => hr⟩ he

def afterLateReports : System :=
  (System.execs 0 afterLate [.steal firstManager, .failure stolenReport ⟨1, true⟩]).get
    (by decide)

theorem retired_manager_inert_afterLateReports :
    firstManager.name ∈ afterLateReports.orch.oldManagers ∧
      ∀ r ∈ afterLateReports.outstanding, r.manager = firstManager → r ∈ afterLate.outstanding :=
  retired_manager_inert (Reachable.execs_getD (by decide)) (by decide) (Option.eq_some_of_isSome _)

end BatchKit
