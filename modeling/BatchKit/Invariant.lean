import BatchKit.System

/-!
# The accounting invariant

`Inv` holds in every reachable state. Besides the queue accounting it ties the fleet to the
in-progress map (every owner is a current, unretired manager), names to managers (every
manager ever started has its own `HotswapGen` name), outstanding reports to the accounting
(an unretired manager's report finds its file in progress and itself as owner), and the
completion event to quiescence. `Inv.exec` proves one step keeps it, action by action.
-/

namespace BatchKit

/-- The master is between batches: before the batch-start block, or past the wait. -/
def MasterPc.idle : MasterPc → Prop
  | .get | .setType _ | .skipDeleted _ | .hotswap _ | .start _ | .summary _ _ | .finalStatus _
  | .closeGate => True
  | _ => False

def MasterPc.pending : MasterPc → Option (Option BatchRequest)
  | .setType r | .skipDeleted r | .hotswap r | .start r => some r
  | _ => none

def Report.active (o : Orchestrator) (r : Report) : Bool := r.manager.name ∉ o.oldManagers

structure Inv (s : System) : Prop where
  queue : QueueInv s.orch
  owner_active : ∀ f m, s.orch.inProgressOwner.get? f = some m →
    m ∈ s.orch.endpointManagers ∧ m.name ∉ s.orch.oldManagers
  managers_started : ∀ m ∈ s.orch.endpointManagers, m ∈ s.started
  started_live : ∀ m ∈ s.started, m ∈ s.orch.endpointManagers ∨ m.name ∈ s.orch.oldManagers
  started_name : ∀ m ∈ s.started,
    ∃ g < s.orch.endpointGeneration, m.name = hotswapName g m.endpointName
  started_inj : ∀ m₁ ∈ s.started, ∀ m₂ ∈ s.started, m₁.name = m₂.name → m₁ = m₂
  old_started : ∀ n ∈ s.orch.oldManagers, ∃ m ∈ s.started, m.name = n
  report_owner : ∀ r ∈ s.outstanding, r.active s.orch = true → s.orch.stopRequested = false →
    s.orch.inProgressOwner.get? r.work.filepath = some r.manager ∧
      s.orch.inProgress.get? r.work.filepath = some r.work
  report_nodup : ((s.outstanding.filter (Report.active s.orch)).map (·.work.filepath)).Nodup
  report_epoch : ∀ r ∈ s.outstanding, r.epoch < s.epoch → r.active s.orch = false
  quiescent : s.orch.stopRequested = false →
    (s.orch.batchCompletionEvt = true ∨ s.epoch = 0) →
      s.orch.fileQueue = [] ∧ s.orch.inProgress.keys = []
  idle : s.master.idle → s.orch.batchCompletionEvt = true ∨ s.epoch = 0
  none_stopped : none ∈ s.orch.submissionQue → s.orch.stopRequested = true
  master_none : s.master.pending = some none → s.orch.stopRequested = true
  not_crashed : s.master ≠ .crashed

namespace Inv

variable {maxRetries : Nat} {s s' : System}

theorem init (singletonRunSummaryPath : Option String) (lower : String → String) :
    Inv (System.init singletonRunSummaryPath lower) where
  queue := QueueInv.init singletonRunSummaryPath
  owner_active := by simp [System.init, Orchestrator.init]
  managers_started := by simp [System.init, Orchestrator.init]
  started_live := by simp [System.init]
  started_name := by simp [System.init]
  started_inj := by simp [System.init]
  old_started := by simp [System.init, Orchestrator.init]
  report_owner := by simp [System.init]
  report_nodup := by simp [System.init]
  report_epoch := by simp [System.init]
  quiescent := fun _ _ => ⟨rfl, rfl⟩
  idle := fun _ => .inr rfl
  none_stopped := by simp [System.init, Orchestrator.init]
  master_none := by simp [System.init, MasterPc.pending]
  not_crashed := by simp [System.init]

theorem withMaster (h : Inv s) (m : MasterPc)
    (hidle : m.idle → s.orch.batchCompletionEvt = true ∨ s.epoch = 0)
    (hnone : m.pending = some none → s.orch.stopRequested = true) (hc : m ≠ .crashed) :
    Inv { s with master := m } :=
  { h with idle := hidle, master_none := hnone, not_crashed := hc }

theorem epoch_cons {e : Event} (he : e.isBatchStart = false) (s : System) :
    System.epoch { s with events := e :: s.events } = s.epoch := by
  simp [System.epoch, List.countP_cons, he]

theorem withEvent (h : Inv s) (e : Event) (he : e.isBatchStart = false) :
    Inv { s with events := e :: s.events } := by
  have hp := epoch_cons he s
  exact { h with
    report_epoch := fun r hr hlt => h.report_epoch r hr (hp ▸ hlt)
    quiescent := fun hs he' => h.quiescent hs (hp ▸ he')
    idle := fun hi => hp ▸ h.idle hi }

theorem active_iff {o : Orchestrator} {r : Report} :
    r.active o = true ↔ r.manager.name ∉ o.oldManagers := by
  simp [Report.active]

theorem filter_active_sublist {o o' : Orchestrator} (l : List Report)
    (hsub : ∀ n ∈ o.oldManagers, n ∈ o'.oldManagers) :
    (l.filter (Report.active o')).Sublist (l.filter (Report.active o)) :=
  l.monotone_filter_right fun _ hr => active_iff.mpr fun hn => active_iff.mp hr (hsub _ hn)

theorem cancelCore (h : Inv s) {batchId : Int} (hb : s.orch.onBatchId = batchId) :
    Inv { s with orch := (cancelRunningBatch s.orch batchId).1 } := by
  have hq := h.queue.cancelRunningBatch batchId
  rw [Orchestrator.cancelRunningBatch_of_eq hb] at hq ⊢
  have hold : ∀ n ∈ s.orch.oldManagers, n ∈ addAll s.orch.oldManagers
      (s.orch.endpointManagers.map (·.name)) := fun n hn => mem_addAll.mpr (.inl hn)
  exact
    { h with
      queue := hq
      owner_active := by simp
      started_live := fun m hm => (h.started_live m hm).imp id (hold _)
      old_started := fun n hn => by
        rcases mem_addAll.mp hn with hn | hn
        · exact h.old_started n hn
        · obtain ⟨m, hm, rfl⟩ := List.mem_map.mp hn
          exact ⟨m, h.managers_started m hm, rfl⟩
      report_owner := fun r hr ha hs => by
        have hm := (h.owner_active _ _ (h.report_owner r hr
          (active_iff.mpr fun hn => active_iff.mp ha (hold _ hn)) hs).1).1
        exact absurd (mem_addAll.mpr (.inr (List.mem_map_of_mem _ hm))) (active_iff.mp ha)
      report_nodup := h.report_nodup.sublist ((filter_active_sublist _ hold).map _)
      report_epoch := fun r hr hlt => by
        have := h.report_epoch r hr hlt
        simp only [Report.active, decide_eq_false_iff_not, not_not] at this ⊢
        exact hold _ this
      quiescent := fun _ _ => ⟨by simp [h.queue.size_eq], rfl⟩
      idle := fun _ => .inl rfl }

theorem cancel (h : Inv s) (batchId : Int) :
    Inv { s with orch := (cancelRunningBatch s.orch batchId).1,
                 events := if (cancelRunningBatch s.orch batchId).2 then
                   .batchCanceled batchId :: s.events else s.events } := by
  by_cases hb : s.orch.onBatchId = batchId
  · have := (h.cancelCore hb).withEvent (.batchCanceled batchId) rfl
    simpa [Orchestrator.cancelRunningBatch_of_eq hb] using this
  · simpa [Orchestrator.cancelRunningBatch_of_ne hb] using h

theorem requestStop (h : Inv s) : Inv { s with orch := requestStop s.orch } :=
  { h with
    queue := h.queue.requestStop
    report_owner := fun _ _ _ hs => by simp [BatchKit.requestStop, drain, stopManagers] at hs
    quiescent := fun hs => by simp [BatchKit.requestStop, drain, stopManagers] at hs
    idle := fun _ => .inl rfl
    none_stopped := fun _ => rfl
    master_none := fun _ => rfl }

theorem managerStop (h : Inv s) (m : EndpointManager) :
    Inv { s with orch := stopManagers s.orch [m] } :=
  { h with queue := { h.queue with } }

theorem submit (h : Inv s) (request : BatchRequest) :
    Inv { s with
      orch := { s.orch with submissionQue := s.orch.submissionQue ++ [some request] } } :=
  { h with
    queue := { h.queue with }
    none_stopped := fun hn => h.none_stopped (by simpa using hn) }

theorem summaryStep (h : Inv s) (he : System.summaryStep s = some s') : Inv s' := by
  unfold System.summaryStep at he
  repeat' split at he
  all_goals first
    | cases he; done
    | cases he; exact { h with }

theorem masterStep (h : Inv s) (he : System.masterStep s = some s') : Inv s' := by
  unfold System.masterStep at he
  cases hm : s.master with
  | get =>
    simp only [hm] at he
    split at he
    · cases he
    · rename_i r rest hq
      cases he
      exact
        { h with
          queue := { h.queue with }
          idle := fun _ => h.idle (by rw [hm]; trivial)
          none_stopped := fun hn => h.none_stopped (hq ▸ List.mem_cons_of_mem _ hn)
          master_none := fun hn => by
            cases Option.some.inj hn
            exact h.none_stopped (hq ▸ List.mem_cons_self _ _)
          not_crashed := nofun }
  | setType r =>
    simp only [hm, Option.some.injEq] at he
    subst he
    exact
      { h with
        queue := { h.queue with }
        idle := fun _ => h.idle (by rw [hm]; trivial)
        master_none := fun hn => h.master_none (by rw [hm]; exact hn)
        not_crashed := nofun }
  | skipDeleted r =>
    simp only [hm, Option.some.injEq] at he
    subst he
    refine h.withMaster _ (fun _ => h.idle (by rw [hm]; trivial)) (fun hn => h.master_none ?_) ?_
    · rw [hm]; split at hn <;> [split at hn; skip] <;> simp_all [MasterPc.pending]
    · split <;> [split; skip] <;> simp
  | markRunning r =>
    simp only [hm] at he
    split at he <;> cases he
    · exact h.withMaster (.cancel r) nofun nofun nofun
    · exact { (h.withEvent (.statusRunning r.batchId) rfl).withMaster (.wait r) nofun nofun
        nofun with }
  | cancel r =>
    simp only [hm, Option.some.injEq] at he
    subst he
    exact (h.cancel r.batchId).withMaster (.wait r) nofun nofun nofun
  | wait r =>
    simp only [hm] at he
    split at he <;> cases he
    exact h.withMaster (.summary r .acquire) (fun _ => .inl ‹_›) nofun nofun
  | summary r w =>
    have hi := h.idle (by rw [hm]; trivial)
    cases w with
    | acquire =>
      simp only [hm] at he
      split at he <;> cases he
      exact { h.withMaster (.summary r .snapshot) (fun _ => hi) nofun nofun with }
    | snapshot =>
      simp only [hm, Option.some.injEq] at he
      subst he
      exact h.withMaster (.summary r (.write _)) (fun _ => hi) nofun nofun
    | write b =>
      simp only [hm, Option.some.injEq] at he
      subst he
      exact { (h.withMaster (.finalStatus r) (fun _ => hi) nofun nofun).withEvent
        (.runSummaryWritten .master b) rfl with }
  | finalStatus r =>
    simp only [hm, Option.some.injEq] at he
    subst he
    have hi := h.idle (by rw [hm]; trivial)
    split
    · exact (h.withMaster .closeGate (fun _ => hi) nofun nofun).withEvent
        (.batchDeleted r.batchId) rfl
    · exact (h.withMaster .closeGate (fun _ => hi) nofun nofun).withEvent
        (.statusDone r.batchId) rfl
  | closeGate =>
    simp only [hm, Option.some.injEq] at he
    subst he
    exact
      { h with
        queue := { h.queue with }
        idle := fun _ => h.idle (by rw [hm]; trivial)
        master_none := nofun
        not_crashed := nofun }
  | finalize =>
    simp only [hm] at he
    split at he
    · cases he; exact h.withMaster .finished nofun nofun nofun
    · cases he
  | hotswap r => simp [hm] at he
  | start r => simp [hm] at he
  | finished => simp [hm] at he
  | crashed => simp [hm] at he

theorem new_name_fresh (h : Inv s) (configData : Dict String EndpointConfig) :
    ∀ m ∈ (hotswapDiff s.orch configData).2, ∀ m' ∈ s.started, m'.name ≠ m.name := by
  intro m hm m' hm' hn
  obtain ⟨g, hg, hg'⟩ := h.started_name m' hm'
  rw [hg', newManagers_name s.orch configData m hm] at hn
  have := (hotswapName_inj hn).1
  omega

theorem mem_of_name_mem (h : Inv s) {ms : List EndpointManager} (hms : ∀ m ∈ ms, m ∈ s.started)
    {m : EndpointManager} (hm : m ∈ s.started) (hn : m.name ∈ ms.map (·.name)) : m ∈ ms := by
  obtain ⟨r, hr, hrm⟩ := List.mem_map.mp hn
  exact h.started_inj r (hms r hr) m hm hrm ▸ hr

theorem new_name_not_retired (h : Inv s) (configData : Dict String EndpointConfig)
    {ms : List EndpointManager} (hms : ∀ m ∈ ms, m ∈ s.started) :
    ∀ m ∈ (hotswapDiff s.orch configData).2,
      m.name ∉ addAll s.orch.oldManagers (ms.map (·.name)) := by
  intro m hm hn
  rcases mem_addAll.mp hn with hn | hn
  · obtain ⟨m', hm', hn⟩ := h.old_started _ hn
    exact h.new_name_fresh configData m hm m' hm' hn
  · obtain ⟨r, hr, hn⟩ := List.mem_map.mp hn
    exact h.new_name_fresh configData m hm r (hms r hr) hn

theorem swap (h : Inv s) {configData : Dict String EndpointConfig} {constructorRaises : Bool}
    (hs : s.orch.stopRequested = false)
    (hc : ¬(constructorRaises = true ∧ (hotswapDiff s.orch configData).2 ≠ [])) :
    Inv { s with
      orch := (hotswapEndpointManagers s.orch (some configData) constructorRaises).1.state,
      started :=
        s.started ++ (hotswapEndpointManagers s.orch (some configData) constructorRaises).2 } := by
  have hq := h.queue.hotswap (some configData) constructorRaises
  rw [hotswap_swap h.queue.owner_keys hs hc] at hq ⊢
  set D := (hotswapDiff s.orch configData).1
  set N := (hotswapDiff s.orch configData).2
  set ret := s.orch.endpointManagers.filter (·.endpointName ∈ D.keys)
  set mv := s.orch.inProgress.entries.filter (moved s.orch.inProgressOwner D)
  have hold : ∀ n ∈ s.orch.oldManagers, n ∈ addAll s.orch.oldManagers (ret.map (·.name)) :=
    fun n hn => mem_addAll.mpr (.inl hn)
  -- an owner whose endpoint is kept keeps its work in progress
  have hkeep : ∀ f m, s.orch.inProgressOwner.get? f = some m → m.endpointName ∉ D.keys →
      f ∉ mv.map Prod.fst := by
    intro f m hf hm hmv
    obtain ⟨⟨f', w⟩, hw, rfl⟩ := List.mem_map.mp hmv
    have := (List.mem_filter.mp hw).2
    simp [moved, hf, hm] at this
  -- an owner whose endpoint is deleted loses it
  have hmove : ∀ f m, s.orch.inProgressOwner.get? f = some m → m.endpointName ∈ D.keys →
      f ∈ mv.map Prod.fst := by
    intro f m hf hm
    obtain ⟨w, hw⟩ := Dict.mem_keys.mp (h.queue.owner_keys ▸ Dict.mem_keys.mpr ⟨m, hf⟩)
    exact List.mem_map.mpr ⟨(f, w), List.mem_filter.mpr
      ⟨Dict.get?_eq_some.mp hw, by simp [moved, hf, hm]⟩, rfl⟩
  -- a current manager is retired exactly when its endpoint is deleted
  have hret : ∀ m ∈ s.orch.endpointManagers, m.endpointName ∉ D.keys →
      m.name ∉ s.orch.oldManagers → m.name ∉ addAll s.orch.oldManagers (ret.map (·.name)) := by
    intro m hm hd ho hn
    rcases mem_addAll.mp hn with hn | hn
    · exact ho hn
    · have hr := h.mem_of_name_mem (fun r hr => h.managers_started r (List.mem_filter.mp hr).1)
        (h.managers_started m hm) hn
      exact hd (by simpa using (List.mem_filter.mp hr).2)
  have hnew := newManagers_name s.orch configData
  have hnodup : (N.map (·.endpointName)).Nodup :=
    configData.keys_nodup.sublist (newManagers_sublist s.orch configData)
  exact
    { h with
      queue := hq
      owner_active := fun f m hf => by
        simp only [Dict.get?_eraseAll] at hf
        split at hf
        · cases hf
        · obtain ⟨hm, ho⟩ := h.owner_active f m hf
          have hd : m.endpointName ∉ D.keys := fun hd => ‹f ∉ _› (hmove f m hf hd)
          exact ⟨List.mem_append_left _ (List.mem_filter.mpr ⟨hm, by simpa using hd⟩),
            hret m hm hd ho⟩
      managers_started := fun m hm => by
        rcases List.mem_append.mp hm with hm | hm
        · exact List.mem_append_left _ (h.managers_started m (List.mem_filter.mp hm).1)
        · exact List.mem_append_right _ hm
      started_live := fun m hm => by
        rcases List.mem_append.mp hm with hm | hm
        · rcases h.started_live m hm with he | ho
          · by_cases hd : m.endpointName ∈ D.keys
            · exact .inr (mem_addAll.mpr (.inr (List.mem_map_of_mem _
                (List.mem_filter.mpr ⟨he, by simpa using hd⟩))))
            · exact .inl (List.mem_append_left _ (List.mem_filter.mpr ⟨he, by simpa using hd⟩))
          · exact .inr (hold _ ho)
        · exact .inl (List.mem_append_right _ hm)
      started_name := fun m hm => by
        rcases List.mem_append.mp hm with hm | hm
        · obtain ⟨g, hg, hn⟩ := h.started_name m hm
          exact ⟨g, Nat.lt_succ_of_lt hg, hn⟩
        · exact ⟨_, Nat.lt_succ_self _, hnew m hm⟩
      started_inj := fun m₁ h₁ m₂ h₂ hn => by
        rcases List.mem_append.mp h₁ with h₁ | h₁ <;> rcases List.mem_append.mp h₂ with h₂ | h₂
        · exact h.started_inj m₁ h₁ m₂ h₂ hn
        · exact absurd hn (h.new_name_fresh configData m₂ h₂ m₁ h₁)
        · exact absurd hn.symm (h.new_name_fresh configData m₁ h₁ m₂ h₂)
        · exact List.inj_on_of_nodup_map hnodup h₁ h₂
            (hotswapName_inj (hnew m₁ h₁ ▸ hnew m₂ h₂ ▸ hn)).2
      old_started := fun n hn => by
        rcases mem_addAll.mp hn with hn | hn
        · obtain ⟨m, hm, rfl⟩ := h.old_started n hn
          exact ⟨m, List.mem_append_left _ hm, rfl⟩
        · obtain ⟨m, hm, rfl⟩ := List.mem_map.mp hn
          exact ⟨m, List.mem_append_left _ (h.managers_started m (List.mem_filter.mp hm).1), rfl⟩
      report_owner := fun r hr ha hs' => by
        have ha' : r.active s.orch = true := active_iff.mpr fun hn => active_iff.mp ha (hold _ hn)
        obtain ⟨ho, hw⟩ := h.report_owner r hr ha' hs'
        have hm := (h.owner_active _ _ ho).1
        have hd : r.manager.endpointName ∉ D.keys := fun hd => active_iff.mp ha
          (mem_addAll.mpr (.inr (List.mem_map_of_mem _
            (List.mem_filter.mpr ⟨hm, by simpa using hd⟩))))
        have hk := hkeep _ _ ho hd
        simp only [Dict.get?_eraseAll, hk, if_false]
        exact ⟨ho, hw⟩
      report_nodup := h.report_nodup.sublist ((filter_active_sublist _ hold).map _)
      report_epoch := fun r hr hlt => by
        have := h.report_epoch r hr hlt
        simp only [Report.active, decide_eq_false_iff_not, not_not] at this ⊢
        exact hold _ this
      quiescent := fun hs' he => by
        obtain ⟨hQ, hK⟩ := h.quiescent hs' he
        have hmv : mv = [] := by
          have : s.orch.inProgress.entries = [] := by simpa [Dict.keys] using hK
          simp [mv, this]
        simp [hQ, hmv, Dict.keys_eraseAll, hK] }

theorem hotswap (h : Inv s) (configData : Option (Dict String EndpointConfig))
    (constructorRaises : Bool) :
    Inv { s with
      orch := (hotswapEndpointManagers s.orch configData constructorRaises).1.state,
      started :=
        s.started ++ (hotswapEndpointManagers s.orch configData constructorRaises).2 } := by
  rcases configData with _ | configData
  · simpa only [hotswapEndpointManagers, List.append_nil] using h
  cases hs : s.orch.stopRequested
  · by_cases hc : constructorRaises = true ∧ (hotswapDiff s.orch configData).2 ≠ []
    · simp only [hotswap_constructorRaises hs hc, List.append_nil]
      exact
        { h with
          queue := { h.queue with }
          started_name := fun m hm => by
            obtain ⟨g, hg, hn⟩ := h.started_name m hm
            exact ⟨g, Nat.lt_succ_of_lt hg, hn⟩ }
    · exact h.swap hs hc
  · simpa only [hotswap_stopped hs, List.append_nil] using h

theorem masterHotswap (h : Inv s) {request : Option BatchRequest} (hm : s.master = .hotswap request)
    (configData : Option (Dict String EndpointConfig)) (constructorRaises : Bool) :
    Inv { s with
      orch := (hotswapEndpointManagers s.orch configData constructorRaises).1.state,
      started := s.started ++ (hotswapEndpointManagers s.orch configData constructorRaises).2,
      master := if (hotswapEndpointManagers s.orch configData constructorRaises).1.raised = none
        then .start request else .crashed } := by
  rw [(hotswap_outcome h.queue.owner_keys configData constructorRaises).1, if_pos rfl]
  have h' := h.hotswap configData constructorRaises
  exact h'.withMaster (.start request) (fun _ => h'.idle (show s.master.idle by rw [hm]; trivial))
    (fun hn => h'.master_none (show s.master.pending = _ by rw [hm]; exact hn)) nofun

theorem steal (h : Inv s) {lower : String → String} {m : EndpointManager} (hm : m ∈ s.started)
    {o : Orchestrator} {r : Stolen} (hst : stealWork s.orch lower m = some (o, r))
    (exited : List EndpointManager) :
    Inv { s with orch := o, exited := exited,
                 outstanding := match r with
                   | .work w => s.outstanding ++ [⟨m, w, s.epoch⟩]
                   | .sentinel => s.outstanding } := by
  have hq := h.queue.stealWork hst
  rcases Orchestrator.stealWork_cases hst with ⟨rfl, rfl⟩ |
    ⟨w, rest, hQ, -, hold, hs, ⟨-, rfl, rfl⟩ | ⟨-, rfl, rfl⟩⟩
  · exact { h with }
  · -- a request for another language goes back on the queue
    exact { h with
      queue := hq
      quiescent := fun _ he => absurd (h.quiescent hs he).1 (by simp [hQ]) }
  · -- the manager takes the request
    have hw : w.filepath ∉ s.orch.inProgress.keys := h.queue.queue_disjoint w (by simp [hQ])
    have hlive : m ∈ s.orch.endpointManagers := (h.started_live m hm).resolve_right hold
    have hfp : ∀ r ∈ s.outstanding, r.active s.orch = true → r.work.filepath ≠ w.filepath :=
      fun r hr ha he => hw (he ▸ Dict.mem_keys.mpr ⟨_, (h.report_owner r hr ha hs).2⟩)
    exact
      { h with
        queue := hq
        owner_active := fun f m' hf => by
          rw [Dict.get?_insert] at hf
          split at hf
          · cases hf; exact ⟨hlive, hold⟩
          · exact h.owner_active f m' hf
        report_owner := fun r hr ha hs' => by
          rcases List.mem_append.mp hr with hr | hr
          · simp only [Dict.get?_insert, if_neg (hfp r hr ha)]
            exact h.report_owner r hr ha hs'
          · rw [List.mem_singleton.mp hr]
            simp [Dict.get?_insert]
        report_nodup := by
          show (((s.outstanding ++ [(⟨m, w, s.epoch⟩ : Report)]).filter (Report.active s.orch)).map
            (·.work.filepath)).Nodup
          rw [List.filter_append, List.filter_singleton, active_iff.mpr hold, cond_true,
            List.map_append]
          refine h.report_nodup.append (List.nodup_singleton _) (List.disjoint_singleton.mpr ?_)
          simp only [List.mem_map, List.mem_filter, not_exists, not_and]
          exact fun r hr => hfp r hr.1 hr.2
        report_epoch := fun r hr hlt => by
          rcases List.mem_append.mp hr with hr | hr
          · exact h.report_epoch r hr hlt
          · rw [List.mem_singleton.mp hr] at hlt
            exact absurd hlt (Nat.lt_irrefl _)
        quiescent := fun _ he => absurd (h.quiescent hs he).1 (by simp [hQ]) }

theorem dropReport (h : Inv s) (r : Report) : Inv { s with outstanding := s.outstanding.erase r } :=
  { h with
    report_owner := fun r' hr ha hs => h.report_owner r' (List.mem_of_mem_erase hr) ha hs
    report_nodup := h.report_nodup.sublist (((s.outstanding.erase_sublist r).filter _).map _)
    report_epoch := fun r' hr => h.report_epoch r' (List.mem_of_mem_erase hr) }

theorem epoch_of_events {t : System} {evs : List Event} (ht : t.events = evs ++ s.events)
    (hevs : ∀ e ∈ evs, e.isBatchStart = false) : t.epoch = s.epoch := by
  have h0 : evs.countP Event.isBatchStart = 0 :=
    List.countP_eq_zero.mpr fun e he => by simp [hevs e he]
  simp [System.epoch, ht, List.countP_append, h0]

theorem settle (h : Inv s) {r : Report} (hr : r ∈ s.outstanding) (ha : accepts s.orch r.manager)
    (q : List WorkItemRequest) (n : Nat) (W : Dict String (Option WorkItemResult))
    {evs : List Event} (hevs : ∀ e ∈ evs, e.isBatchStart = false)
    (hq : QueueInv (checkBatchCompletion { s.orch with
      fileQueue := q, fileQueueSize := n,
      inProgress := s.orch.inProgress.erase r.work.filepath,
      inProgressOwner := s.orch.inProgressOwner.erase r.work.filepath, workResults := W })) :
    Inv { s with
      orch := checkBatchCompletion { s.orch with
        fileQueue := q, fileQueueSize := n,
        inProgress := s.orch.inProgress.erase r.work.filepath,
        inProgressOwner := s.orch.inProgressOwner.erase r.work.filepath, workResults := W }
      outstanding := s.outstanding.erase r
      events := evs ++ s.events } := by
  have hact : r.active s.orch = true := active_iff.mpr ha.1
  have hf : r.work.filepath ∈ s.orch.inProgress.keys :=
    Dict.mem_keys.mpr ⟨_, (h.report_owner r hr hact ha.2).2⟩
  -- the batch of the reported file is running
  have hbusy : ¬(s.orch.batchCompletionEvt = true ∨ s.epoch = 0) := fun hb => by
    simp [(h.quiescent ha.2 hb).2] at hf
  have hep : ∀ t : System, t.events = evs ++ s.events → t.epoch = s.epoch :=
    fun t ht => epoch_of_events ht hevs
  -- every other active report is for another file
  have hother : ∀ r' ∈ s.outstanding.erase r, r'.active s.orch = true →
      r'.work.filepath ≠ r.work.filepath := by
    have hp := ((List.perm_cons_erase hr).filter (Report.active s.orch)).map (·.work.filepath)
    rw [List.filter_cons_of_pos hact, List.map_cons] at hp
    intro r' hr' ha' he
    exact (List.nodup_cons.mp (hp.nodup_iff.mp h.report_nodup)).1
      (he ▸ List.mem_map_of_mem _ (List.mem_filter.mpr ⟨hr', ha'⟩))
  rw [Orchestrator.checkBatchCompletion_eq] at hq ⊢
  exact
    { h with
      queue := hq
      owner_active := fun f m hf' => by
        rw [Dict.get?_erase] at hf'
        split at hf'
        · cases hf'
        · exact h.owner_active f m hf'
      report_owner := fun r' hr' ha' hs' => by
        simp only [Dict.get?_erase, if_neg (hother r' hr' ha')]
        exact h.report_owner r' (List.mem_of_mem_erase hr') ha' hs'
      report_nodup := h.report_nodup.sublist (((s.outstanding.erase_sublist r).filter _).map _)
      report_epoch := fun r' hr' hlt =>
        h.report_epoch r' (List.mem_of_mem_erase hr') (lt_of_lt_of_eq hlt (hep _ rfl))
      quiescent := fun _ he => by
        replace he := he.imp_right fun h0 => (hep _ rfl).symm.trans h0
        simp only [Bool.or_eq_true, decide_eq_true_eq] at he
        rcases he with (he | ⟨hn, hz⟩) | he
        · exact absurd (.inl he) hbusy
        · exact ⟨List.eq_nil_of_length_eq_zero (hq.size_eq ▸ hn), Dict.size_eq_zero.mp hz⟩
        · exact absurd (.inr he) hbusy
      idle := fun hi => by
        rcases h.idle hi with he | he
        · exact .inl (by simp [he])
        · exact .inr ((hep _ rfl).trans he) }

theorem reportEvents_not_batchStart (o : Orchestrator) (maxRetries : Nat) (filepath : String)
    (manager : EndpointManager) (result : WorkItemResult) (failure : Bool) :
    ∀ e ∈ System.reportEvents o maxRetries filepath manager result failure,
      e.isBatchStart = false := by
  unfold System.reportEvents
  split_ifs <;> simp [Event.isBatchStart]

theorem success (h : Inv s) {r : Report} (hr : r ∈ s.outstanding) (result : WorkItemResult) :
    Inv { s with
      orch := (notifyWorkSuccess s.orch r.work.filepath r.manager result).state,
      outstanding := s.outstanding.erase r,
      events := System.reportEvents s.orch maxRetries r.work.filepath r.manager result false ++
        s.events } := by
  by_cases ha : accepts s.orch r.manager
  · have hf : r.work.filepath ∈ s.orch.inProgress.keys :=
      Dict.mem_keys.mpr ⟨_, (h.report_owner r hr (active_iff.mpr ha.1) ha.2).2⟩
    have hq := h.queue.notifyWorkSuccess r.work.filepath r.manager result
    rw [Orchestrator.notifyWorkSuccess_of_accepts h.queue.owner_keys ha hf] at hq ⊢
    exact h.settle hr ha _ _ _ (reportEvents_not_batchStart _ _ _ _ _ _) hq
  · simp only [notifyWorkSuccess, System.reportEvents, if_neg ha, List.nil_append]
    exact h.dropReport r

theorem failure (h : Inv s) {r : Report} (hr : r ∈ s.outstanding) (result : WorkItemResult) :
    Inv { s with
      orch := (notifyWorkFailure s.orch maxRetries r.work.filepath r.manager result).state,
      outstanding := s.outstanding.erase r,
      events := System.reportEvents s.orch maxRetries r.work.filepath r.manager result true ++
        s.events } := by
  by_cases ha : accepts s.orch r.manager
  · have hw := (h.report_owner r hr (active_iff.mpr ha.1) ha.2).2
    have hq := h.queue.notifyWorkFailure maxRetries r.work.filepath r.manager result
    by_cases hre : retries s.orch maxRetries r.work.filepath result
    · rw [Orchestrator.notifyWorkFailure_retry h.queue.owner_keys ha hre hw] at hq ⊢
      exact h.settle hr ha (s.orch.fileQueue ++ [r.work]) (s.orch.fileQueueSize + 1) _
        (reportEvents_not_batchStart _ _ _ _ _ _) hq
    · rw [Orchestrator.notifyWorkFailure_giveUp h.queue.owner_keys ha hre
        (Dict.mem_keys.mpr ⟨_, hw⟩)] at hq ⊢
      exact h.settle hr ha _ _ _ (reportEvents_not_batchStart _ _ _ _ _ _) hq
  · simp only [notifyWorkFailure, System.reportEvents, if_neg ha, List.nil_append]
    exact h.dropReport r

/-- What the batch-start block does in a state where `Inv` holds: it returns at the stop check,
or both assertions hold and the batch's items are enqueued. -/
theorem masterStart_cases (h : Inv s) {request : Option BatchRequest}
    (hm : s.master = .start request) {workItems : List WorkItemRequest}
    (he : System.masterStart s request workItems = some s') :
    (s.orch.stopRequested = true ∧ s' = { s with
      master := if System.singletonMode s.orch.singletonRunSummaryPath then .finalize
        else .finished }) ∨
    ∃ r, request = some r ∧ s.orch.stopRequested = false ∧ s.orch.fileQueue = [] ∧
      s.orch.inProgress.keys = [] ∧ (workItems.map (·.filepath)).Nodup ∧
      s' = { s with
        orch := { s.orch with
          fileQueue := s.orch.fileQueue ++ workItems
          fileQueueSize := s.orch.fileQueueSize + workItems.length
          workResults := workItems.foldl (fun d w => d.insert w.filepath none)
            (if s.orch.singletonRunSummaryPath = none then ∅ else s.orch.workResults)
          summarizer := true
          onBatchId := r.batchId
          batchCompletionEvt := false
          runSummaryThreadGate := true }
        master := .markRunning r
        events := .batchStarted r.batchId (workItems.map (·.filepath)) :: s.events } := by
  unfold System.masterStart at he
  split at he
  · exact .inl ⟨‹_›, (Option.some.inj he).symm⟩
  split at he
  swap; · cases he
  rename_i hs hn
  simp only [Bool.not_eq_true] at hs
  obtain ⟨hQ, hK⟩ := h.quiescent hs (h.idle (by rw [hm]; trivial))
  cases request with
  | none => exact absurd (h.master_none (by rw [hm]; rfl)) (by simp [hs])
  | some r =>
    have hz : s.orch.inProgress.size = 0 ∧ s.orch.fileQueueSize = 0 :=
      ⟨Dict.size_eq_zero.mpr hK, by simp [h.queue.size_eq, hQ]⟩
    simp only [startBatch_of_quiet hz, Option.some.injEq] at he
    exact .inr ⟨r, rfl, hs, hQ, hK, hn, he.symm⟩

theorem masterStart (h : Inv s) {request : Option BatchRequest} (hm : s.master = .start request)
    {workItems : List WorkItemRequest} (he : System.masterStart s request workItems = some s') :
    Inv s' := by
  rcases masterStart_cases h hm he with ⟨-, rfl⟩ | ⟨r, rfl, hs, hQ, hK, hn, rfl⟩
  · exact h.withMaster _ (by split <;> exact nofun) (by split <;> exact nofun)
      (by split <;> exact nofun)
  have hz : s.orch.inProgress.size = 0 ∧ s.orch.fileQueueSize = 0 :=
    ⟨Dict.size_eq_zero.mpr hK, by simp [h.queue.size_eq, hQ]⟩
  have hq := h.queue.startBatch hs (some r) hn
  rw [startBatch_of_quiet hz] at hq
  -- nothing is in progress, so every outstanding report is inactive
  have hinact : ∀ r ∈ s.outstanding, r.active s.orch = false := fun r hr => by
    by_contra ha
    have hw := (h.report_owner r hr (by simpa using ha) hs).2
    have hk : r.work.filepath ∉ s.orch.inProgress.keys := by simp [hK]
    rw [Dict.get?_eq_none.mpr hk] at hw
    cases hw
  exact
    { h with
      queue := hq
      report_owner := fun r hr ha => (Bool.false_ne_true ((hinact r hr).symm.trans ha)).elim
      report_nodup := by
        show ((s.outstanding.filter (Report.active s.orch)).map _).Nodup
        rw [List.filter_eq_nil_iff.mpr fun r hr => by simp [hinact r hr]]
        exact List.nodup_nil
      report_epoch := fun r hr _ => hinact r hr
      quiescent := fun _ he => by
        rcases he with he | he
        · exact (Bool.false_ne_true he).elim
        · simp [System.epoch, List.countP_cons, Event.isBatchStart] at he
      idle := nofun
      master_none := nofun
      not_crashed := nofun }

theorem writeFails (h : Inv s) {writer : Writer}
    (he : System.exec maxRetries s (.writeFails writer) = some s') : Inv s' := by
  obtain ⟨b, ⟨-, r, hm, rfl⟩ | ⟨-, -, rfl⟩⟩ := System.exec_writeFails he
  · exact { (h.withMaster (.finalStatus r) (fun _ => h.idle (by rw [hm]; trivial)) nofun
      nofun).withEvent (.runSummaryFailed .master b) rfl with }
  · exact { h.withEvent (.runSummaryFailed .summary b) rfl with }

theorem exec (h : Inv s) {a : Action} (he : System.exec maxRetries s a = some s') : Inv s' := by
  cases a with
  | master => exact h.masterStep he
  | masterHotswap configData constructorRaises =>
    obtain ⟨_, hm, rfl⟩ := System.exec_masterHotswap he
    exact h.masterHotswap hm configData constructorRaises
  | masterStart workItems =>
    obtain ⟨_, hm, he⟩ := System.exec_masterStart he
    exact h.masterStart hm he
  | summaryThread => exact h.summaryStep he
  | steal m =>
    obtain ⟨⟨hm, -⟩, o, r, hst, rfl⟩ := System.exec_steal he
    cases r <;> exact h.steal hm hst _
  | success r result =>
    obtain ⟨⟨hr, -⟩, rfl⟩ := System.exec_success he
    exact h.success hr result
  | failure r result =>
    obtain ⟨⟨hr, -⟩, rfl⟩ := System.exec_failure he
    exact h.failure hr result
  | managerStop m =>
    obtain ⟨-, rfl⟩ := System.exec_managerStop he
    exact h.managerStop m
  | hotswap configData constructorRaises =>
    obtain ⟨-, rfl⟩ := System.exec_hotswap he
    exact h.hotswap configData constructorRaises
  | requestStop =>
    obtain ⟨-, rfl⟩ := System.exec_requestStop he
    exact h.requestStop
  | cancel batchId =>
    obtain ⟨-, rfl⟩ := System.exec_cancel he
    exact h.cancel batchId
  | submit request => cases he; exact h.submit request
  | delete batchId => cases he; exact { h with }
  | writeFails writer => exact h.writeFails he

end Inv

theorem Reachable.inv {maxRetries : Nat} {s : System} (hs : Reachable maxRetries s) : Inv s := by
  induction hs with
  | init p lower => exact Inv.init p lower
  | step a _ he ih => exact ih.exec he

end BatchKit
