import BatchKit.Fleet
import BatchKit.Shutdown

/-!
# Draining a batch

No work item is lost or stuck. While no stop is pending, every file in progress has an
outstanding report from its owner (`ReportedInv`), so it can still be reported, and a queued item
can be stolen by any live manager that accepts its language. One such manager stealing, and the
outstanding reports succeeding, empty any batch; a batch with a work item is then signalled
complete.

Draining leaves the master where it waits, so the master then writes the batch's run summary and
marks the batch done, every file of the batch having its result.
-/

namespace BatchKit

variable {maxRetries : Nat} {s s' : System}

section Owner

variable {o : Orchestrator} {filepath : String} {manager : EndpointManager}
  {result : WorkItemResult}

theorem checkBatchCompletion_inProgressOwner (o : Orchestrator) :
    (checkBatchCompletion o).inProgressOwner = o.inProgressOwner := by
  rw [Orchestrator.checkBatchCompletion_eq]

theorem notifyWorkSuccess_inProgressOwner (hk : o.inProgressOwner.keys = o.inProgress.keys)
    (hf : accepts o manager → filepath ∈ o.inProgress.keys) :
    (notifyWorkSuccess o filepath manager result).state.inProgressOwner =
      if accepts o manager then o.inProgressOwner.erase filepath else o.inProgressOwner := by
  by_cases ha : accepts o manager
  · simp only [Orchestrator.notifyWorkSuccess_of_accepts hk ha (hf ha), if_pos ha,
      checkBatchCompletion_inProgressOwner]
  · simp [notifyWorkSuccess, ha]

theorem notifyWorkFailure_inProgressOwner (hk : o.inProgressOwner.keys = o.inProgress.keys)
    {work : WorkItemRequest} (hw : accepts o manager → o.inProgress.get? filepath = some work)
    (maxRetries : Nat) :
    (notifyWorkFailure o maxRetries filepath manager result).state.inProgressOwner =
      if accepts o manager then o.inProgressOwner.erase filepath else o.inProgressOwner := by
  by_cases ha : accepts o manager
  · by_cases hr : retries o maxRetries filepath result
    · simp only [Orchestrator.notifyWorkFailure_retry hk ha hr (hw ha), if_pos ha,
        checkBatchCompletion_inProgressOwner]
    · simp only [Orchestrator.notifyWorkFailure_giveUp hk ha hr (Dict.mem_keys.mpr ⟨_, hw ha⟩),
        if_pos ha, checkBatchCompletion_inProgressOwner]
  · simp [notifyWorkFailure, ha]

theorem hotswap_inProgressOwner (hk : o.inProgressOwner.keys = o.inProgress.keys)
    (cfg : Option (Dict String EndpointConfig)) (constructorRaises : Bool) {m : EndpointManager}
    (hf : (hotswapEndpointManagers o cfg constructorRaises).1.state.inProgressOwner.get? filepath =
      some m) :
    o.inProgressOwner.get? filepath = some m := by
  rcases cfg with _ | configData
  · exact hf
  cases hs : o.stopRequested
  · by_cases hc : constructorRaises = true ∧ (hotswapDiff o configData).2 ≠ []
    · simpa only [hotswap_constructorRaises hs hc] using hf
    · simp only [hotswap_swap hk hs hc, Dict.get?_eraseAll] at hf
      split at hf
      · cases hf
      · exact hf
  · simpa only [hotswap_stopped hs] using hf

theorem stealWork_live {lower : String → String} {m : EndpointManager} {w : WorkItemRequest}
    {rest : List WorkItemRequest} (hq : QueueInv o) (hlive : m.name ∉ o.oldManagers)
    (hst : o.stopRequested = false) (hw : o.fileQueue = w :: rest)
    (hl : languageMismatch lower m w = false) :
    stealWork o lower m = some ({ o with
      fileQueue := rest
      fileQueueSize := o.fileQueueSize - 1
      inProgress := o.inProgress.insert w.filepath w
      inProgressOwner := o.inProgressOwner.insert w.filepath m }, .work w) := by
  have hpos : 0 < o.fileQueueSize := by simp [hq.size_eq, hw]
  simp [stealWork, hlive, hst, hpos, hw, hl]

theorem notifyWorkSuccess_accepted (hk : o.inProgressOwner.keys = o.inProgress.keys)
    (ha : accepts o manager) (hf : filepath ∈ o.inProgress.keys) (result : WorkItemResult) :
    (notifyWorkSuccess o filepath manager result).state.fileQueue = o.fileQueue ∧
      (notifyWorkSuccess o filepath manager result).state.oldManagers = o.oldManagers ∧
      (notifyWorkSuccess o filepath manager result).state.stopRequested = o.stopRequested ∧
      (notifyWorkSuccess o filepath manager result).state.inProgress.keys =
        o.inProgress.keys.filter (· ≠ filepath) := by
  simp only [Orchestrator.notifyWorkSuccess_of_accepts hk ha hf,
    Orchestrator.checkBatchCompletion_eq, Dict.keys_erase, and_self]

end Owner

/-- While no stop is pending, every file in progress has an outstanding report from its owner. -/
def ReportedInv (s : System) : Prop :=
  s.orch.stopRequested = false → ∀ f m, s.orch.inProgressOwner.get? f = some m →
    ∃ r ∈ s.outstanding, r.manager = m ∧ r.work.filepath = f

namespace ReportedInv

theorem init (singletonRunSummaryPath : Option String) (lower : String → String) :
    ReportedInv (System.init singletonRunSummaryPath lower) :=
  fun _ f m hf => by simp [System.init, Orchestrator.init] at hf

theorem cancel (h : ReportedInv s) (batchId : Int) :
    ReportedInv { s with
      orch := (cancelRunningBatch s.orch batchId).1,
      events := if (cancelRunningBatch s.orch batchId).2 then
        .batchCanceled batchId :: s.events else s.events } := by
  by_cases hb : s.orch.onBatchId = batchId
  · simp only [Orchestrator.cancelRunningBatch_of_eq hb]
    intro _ f m hf
    simp at hf
  · simp only [Orchestrator.cancelRunningBatch_of_ne hb]
    exact h

theorem report (hi : Inv s) (h : ReportedInv s) {r : Report} {t : System}
    (hs : t.orch.stopRequested = s.orch.stopRequested)
    (ho : t.orch.inProgressOwner = if accepts s.orch r.manager then
      s.orch.inProgressOwner.erase r.work.filepath else s.orch.inProgressOwner)
    (hout : t.outstanding = s.outstanding.erase r) : ReportedInv t := by
  intro hst f m hf
  have hst' : s.orch.stopRequested = false := hs ▸ hst
  -- the owner entry was there before, and is not the reported file's if the report was accepted
  have hold : s.orch.inProgressOwner.get? f = some m ∧
      (accepts s.orch r.manager → f ≠ r.work.filepath) := by
    rw [ho] at hf
    split at hf
    · rw [Dict.get?_erase] at hf
      split at hf
      · cases hf
      · exact ⟨hf, fun _ => ‹_›⟩
    · exact ⟨hf, fun ha => absurd ha ‹_›⟩
  obtain ⟨r', hr', hm', hf'⟩ := h hst' f m hold.1
  refine ⟨r', hout ▸ (List.mem_erase_of_ne fun he => ?_).mpr hr', hm', hf'⟩
  -- the witness is not the report: it is for another file, or from a live manager
  by_cases ha : accepts s.orch r.manager
  · exact hold.2 ha (he ▸ hf'.symm)
  · refine ha ⟨?_, hst'⟩
    rw [← he, hm']
    exact (hi.owner_active f m hold.1).2

theorem exec (hi : Inv s) (h : ReportedInv s) {a : Action}
    (he : System.exec maxRetries s a = some s') : ReportedInv s' := by
  have hk := hi.queue.owner_keys
  cases a with
  | master =>
    change System.masterStep s = some s' at he
    unfold System.masterStep at he
    repeat' split at he
    all_goals first
      | cases he; done
      | cases he; exact h
      | cases he; exact h.cancel _
  | masterHotswap configData constructorRaises =>
    obtain ⟨_, -, rfl⟩ := System.exec_masterHotswap he
    exact fun hst f m hf => h ((hotswap_outcome hk _ _).2.2.stopRequested ▸ hst) f m
      (hotswap_inProgressOwner hk _ _ hf)
  | masterStart workItems =>
    obtain ⟨_, hm, he⟩ := System.exec_masterStart he
    rcases hi.masterStart_cases hm he with ⟨-, rfl⟩ | ⟨r, -, -, -, hK, -, rfl⟩
    · exact h
    · -- nothing is in progress when a batch starts
      intro _ f m hf
      rw [Dict.get?_eq_none.mpr (by simp [hk, hK])] at hf
      cases hf
  | summaryThread =>
    change System.summaryStep s = some s' at he
    unfold System.summaryStep at he
    repeat' split at he
    all_goals first | cases he; done | cases he; exact h
  | steal m =>
    obtain ⟨-, o, r, hst, rfl⟩ := System.exec_steal he
    rcases Orchestrator.stealWork_cases hst with
      ⟨rfl, rfl⟩ | ⟨w, rest, -, -, -, -, ⟨-, rfl, rfl⟩ | ⟨-, rfl, rfl⟩⟩
    · exact h
    · exact h
    · -- the stolen file's new owner has the new report
      intro hst f m' hf
      rw [Dict.get?_insert] at hf
      split at hf
      · cases hf
        exact ⟨_, List.mem_append_right _ (List.mem_singleton_self _), rfl, ‹_ = _›.symm⟩
      · obtain ⟨r, hr, h₁, h₂⟩ := h hst f m' hf
        exact ⟨r, List.mem_append_left _ hr, h₁, h₂⟩
  | success r result =>
    obtain ⟨⟨hr, -⟩, rfl⟩ := System.exec_success he
    exact h.report hi (Orchestrator.SameControl.notifyWorkSuccess _ _ _).stopRequested
      (notifyWorkSuccess_inProgressOwner hk fun ha =>
        Dict.mem_keys.mpr ⟨_, (hi.report_owner r hr (Inv.active_iff.mpr ha.1) ha.2).2⟩) rfl
  | failure r result =>
    obtain ⟨⟨hr, -⟩, rfl⟩ := System.exec_failure he
    exact h.report hi (Orchestrator.SameControl.notifyWorkFailure _ _ _ _).stopRequested
      (notifyWorkFailure_inProgressOwner hk
        (fun ha => (hi.report_owner r hr (Inv.active_iff.mpr ha.1) ha.2).2) _) rfl
  | managerStop m =>
    obtain ⟨-, rfl⟩ := System.exec_managerStop he
    exact h
  | hotswap configData constructorRaises =>
    obtain ⟨-, rfl⟩ := System.exec_hotswap he
    exact fun hst f m hf => h ((hotswap_outcome hk _ _).2.2.stopRequested ▸ hst) f m
      (hotswap_inProgressOwner hk _ _ hf)
  | requestStop =>
    obtain ⟨-, rfl⟩ := System.exec_requestStop he
    exact nofun
  | cancel batchId =>
    obtain ⟨-, rfl⟩ := System.exec_cancel he
    exact h.cancel batchId
  | submit request => cases he; exact h
  | delete batchId => cases he; exact h
  | writeFails writer =>
    obtain ⟨b, ⟨-, _, -, rfl⟩ | ⟨-, -, rfl⟩⟩ := System.exec_writeFails he <;> exact h

end ReportedInv

theorem Reachable.reportedInv (hs : Reachable maxRetries s) : ReportedInv s := by
  induction hs with
  | init p lower => exact ReportedInv.init p lower
  | step a hs he ih => exact ih.exec hs.inv he

theorem reportEvents_quiet (o : Orchestrator) (maxRetries : Nat) (filepath : String)
    (manager : EndpointManager) (result : WorkItemResult) (failure : Bool) :
    ∀ e ∈ System.reportEvents o maxRetries filepath manager result failure,
      e.isBatchStart = false ∧ e.isCancel = false := by
  unfold System.reportEvents
  split_ifs <;> simp [Event.isBatchStart, Event.isCancel]

structure DrainFrame (s t : System) : Prop where
  master : t.master = s.master
  deleted : t.deleted = s.deleted
  events : ∃ pre, t.events = pre ++ s.events ∧
    ∀ e ∈ pre, e.isBatchStart = false ∧ e.isCancel = false

namespace DrainFrame

variable {t u : System}

theorem refl (s : System) : DrainFrame s s := ⟨rfl, rfl, [], rfl, nofun⟩

theorem trans (h : DrainFrame s t) (h' : DrainFrame t u) : DrainFrame s u := by
  obtain ⟨pre, he, hpre⟩ := h.events
  obtain ⟨pre', he', hpre'⟩ := h'.events
  exact ⟨h'.master.trans h.master, h'.deleted.trans h.deleted, pre' ++ pre,
    by rw [he', he, List.append_assoc], List.forall_mem_append.mpr ⟨hpre', hpre⟩⟩

theorem currentFiles_eq (h : DrainFrame s t) : currentFiles t.events = currentFiles s.events := by
  obtain ⟨pre, he, hpre⟩ := h.events
  rw [he, currentFiles_append _ fun e he => (hpre e he).1]

theorem anyCancel_eq (h : DrainFrame s t) :
    (sinceStart t.events).any Event.isCancel = (sinceStart s.events).any Event.isCancel := by
  obtain ⟨pre, he, hpre⟩ := h.events
  rw [he, sinceStart_append _ fun e he => (hpre e he).1, List.any_append,
    List.any_eq_false.mpr fun e he => by simp [(hpre e he).2], Bool.false_or]

end DrainFrame

theorem drained_signalled (hs : Reachable maxRetries s) (hne : currentFiles s.events ≠ [])
    (hq : s.orch.fileQueue = []) (hk : s.orch.inProgress.keys = []) :
    s.orch.batchCompletionEvt = true :=
  hs.signalInv hne (by rw [hs.inv.queue.size_eq, hq]; rfl) (Dict.size_eq_zero.mpr hk)

theorem drained_results (hs : Reachable maxRetries s) (hst : s.orch.stopRequested = false)
    (hnc : (sinceStart s.events).any Event.isCancel = false) (hq : s.orch.fileQueue = [])
    (hk : s.orch.inProgress.keys = []) :
    ∀ f ∈ currentFiles s.events, ∃ r, s.orch.workResults.get? f = some (some r) := fun f hf =>
  ((hs.batchInv.cover hst hnc f hf).resolve_left (by simp [hq])).resolve_left (by simp [hk])

/-- What draining needs of a state: it is reachable with no stop pending, and `m` is a started,
live manager, not asked to stop and still in its steal loop, that accepts the language of every
queued item. -/
structure DrainReady (maxRetries : Nat) (m : EndpointManager) (s : System) : Prop where
  reachable : Reachable maxRetries s
  running : s.orch.stopRequested = false
  started : m ∈ s.started
  live : m.name ∉ s.orch.oldManagers
  notStopped : m ∉ s.orch.stoppedManagers
  notExited : m ∉ s.exited
  language : ∀ w ∈ s.orch.fileQueue, languageMismatch s.lower m w = false

def DrainStep (m : EndpointManager) (result : WorkItemResult) (a : Action) : Prop :=
  a = .steal m ∨ ∃ r, a = .success r result

namespace DrainReady

variable {m : EndpointManager}

theorem holdsAccounting (h : DrainReady maxRetries m s) : s.master.holdsAccounting = false := by
  cases hm : s.master
  case finalize => exact absurd (h.reachable.finalize hm).2 (by simp [h.running])
  all_goals rfl

theorem succeed (h : DrainReady maxRetries m s) {f : String} (hf : f ∈ s.orch.inProgress.keys)
    (result : WorkItemResult) :
    ∃ r t, System.exec maxRetries s (.success r result) = some t ∧ DrainReady maxRetries m t ∧
      t.orch.inProgress.keys = s.orch.inProgress.keys.filter (· ≠ f) ∧
      t.orch.fileQueue = s.orch.fileQueue ∧ DrainFrame s t := by
  have hi := h.reachable.inv
  have hk := hi.queue.owner_keys
  obtain ⟨m', hm'⟩ := Dict.mem_keys.mp (hk ▸ hf : f ∈ s.orch.inProgressOwner.keys)
  obtain ⟨r, hr, rfl, rfl⟩ := h.reachable.reportedInv h.running f m' hm'
  have ha : accepts s.orch r.manager := ⟨(hi.owner_active _ _ hm').2, h.running⟩
  obtain ⟨hq, hold, hst, hkeys⟩ := notifyWorkSuccess_accepted hk ha hf result
  have he : System.exec maxRetries s (.success r result) = some { s with
      orch := (notifyWorkSuccess s.orch r.work.filepath r.manager result).state,
      outstanding := s.outstanding.erase r,
      events := System.reportEvents s.orch maxRetries r.work.filepath r.manager result false ++
        s.events } := by
    simp [System.exec, hr, h.holdsAccounting]
  have hstopped : (notifyWorkSuccess s.orch r.work.filepath r.manager result).state.stoppedManagers =
      s.orch.stoppedManagers :=
    congrArg (·.2.2) (fleet_notifyWorkSuccess _ _ _)
  refine ⟨r, _, he, ⟨Reachable.step _ h.reachable he, hst.trans h.running, h.started, ?_, ?_,
    h.notExited, ?_⟩, hkeys, hq, rfl, rfl, _, rfl, reportEvents_quiet _ _ _ _ _ _⟩
  · exact fun hn => h.live (hold ▸ hn)
  · exact fun hn => h.notStopped (hstopped ▸ hn)
  · exact fun w hw => h.language w (hq ▸ hw)

theorem steal (h : DrainReady maxRetries m s) {w : WorkItemRequest} {rest : List WorkItemRequest}
    (hq : s.orch.fileQueue = w :: rest) :
    ∃ t, System.exec maxRetries s (.steal m) = some t ∧ DrainReady maxRetries m t ∧
      t.orch.fileQueue = rest ∧
      t.orch.inProgress.keys = (s.orch.inProgress.insert w.filepath w).keys ∧ DrainFrame s t := by
  have hst := stealWork_live h.reachable.inv.queue h.live h.running hq
    (h.language w (hq ▸ List.mem_cons_self w rest))
  have he : System.exec maxRetries s (.steal m) = some { s with
      orch := { s.orch with
        fileQueue := rest
        fileQueueSize := s.orch.fileQueueSize - 1
        inProgress := s.orch.inProgress.insert w.filepath w
        inProgressOwner := s.orch.inProgressOwner.insert w.filepath m }
      outstanding := s.outstanding ++ [⟨m, w, s.epoch⟩] } := by
    simp [System.exec, h.started, h.notExited, h.holdsAccounting, hst]
  exact ⟨_, he, ⟨Reachable.step _ h.reachable he, h.running, h.started, h.live, h.notStopped,
    h.notExited, fun w' hw' => h.language w' (hq ▸ List.mem_cons_of_mem w hw')⟩, rfl, rfl, rfl,
    rfl, [], rfl, nofun⟩

theorem finishInProgress (result : WorkItemResult) : ∀ (ks : List String) {s : System},
    DrainReady maxRetries m s → s.orch.inProgress.keys = ks →
    Leads (DrainStep m result) maxRetries s fun t => DrainReady maxRetries m t ∧
      t.orch.inProgress.keys = [] ∧ DrainFrame s t
  | [], s, h, hk => Leads.refl ⟨h, hk, .refl s⟩
  | f :: rest, s, h, hk => by
    obtain ⟨r, t, he, ht, hkt, -, hct⟩ := h.succeed (hk ▸ List.mem_cons_self f rest) result
    have hnd : (f :: rest).Nodup := hk ▸ s.orch.inProgress.keys_nodup
    have hrest : t.orch.inProgress.keys = rest := by
      rw [hkt, hk, List.filter_cons_of_neg (by simp), List.filter_eq_self]
      exact fun g hg => by simpa using fun h : g = f => (List.nodup_cons.mp hnd).1 (h ▸ hg)
    exact Leads.step (.inr ⟨r, rfl⟩) t he ((finishInProgress result rest ht hrest).mono
      fun u hu => ⟨hu.1, hu.2.1, hct.trans hu.2.2⟩)

theorem drainQueue (result : WorkItemResult) : ∀ (q : List WorkItemRequest) {s : System},
    DrainReady maxRetries m s → s.orch.fileQueue = q → s.orch.inProgress.keys = [] →
    Leads (DrainStep m result) maxRetries s fun t => DrainReady maxRetries m t ∧
      t.orch.fileQueue = [] ∧ t.orch.inProgress.keys = [] ∧ DrainFrame s t
  | [], s, h, hq, hk => Leads.refl ⟨h, hq, hk, .refl s⟩
  | w :: rest, s, h, hq, hk => by
    obtain ⟨t, he, ht, hqt, hkt, hct⟩ := h.steal hq
    have hkt' : t.orch.inProgress.keys = [w.filepath] := by
      rw [hkt, Dict.keys_insert, hk]
      rfl
    obtain ⟨r, u, he', hu, hku, hqu, hcu⟩ := ht.succeed (hkt' ▸ List.mem_singleton_self _) result
    have hku' : u.orch.inProgress.keys = [] := by
      rw [hku, hkt']
      simp
    refine Leads.step (.inl rfl) t he (Leads.step (.inr ⟨r, rfl⟩) u he' ?_)
    exact (drainQueue result rest hu (hqu.trans hqt) hku').mono
      fun v hv => ⟨hv.1, hv.2.1, hv.2.2.1, hct.trans (hcu.trans hv.2.2.2)⟩

/-- The batch drains: the files in progress are reported, then `m` takes the queue. -/
theorem drain (result : WorkItemResult) (h : DrainReady maxRetries m s) :
    Leads (DrainStep m result) maxRetries s fun t => DrainReady maxRetries m t ∧
      t.orch.fileQueue = [] ∧ t.orch.inProgress.keys = [] ∧ DrainFrame s t :=
  (finishInProgress result _ h rfl).trans fun _ ⟨ht, hkt, hct⟩ =>
    (drainQueue result _ ht rfl hkt).mono fun _ ⟨hu, hqu, hku, hcu⟩ => ⟨hu, hqu, hku, hct.trans hcu⟩

end DrainReady

/-- A batch with a work item completes: while no stop is pending and the batch is not canceled,
with the master waiting on it, a started live manager, not asked to stop and still in its steal
loop, that accepts the language of every queued item, the outstanding reports succeeding, the
master and the run-summary thread bring the master
to the batch's status change, to done unless the batch was deleted, with a result recorded for
every file of the batch. -/
theorem batch_completes (hs : Reachable maxRetries s) (hst : s.orch.stopRequested = false)
    (hnc : (sinceStart s.events).any Event.isCancel = false) (hne : currentFiles s.events ≠ [])
    {request : BatchRequest} (hw : s.master = .wait request) {m : EndpointManager}
    (hm : m ∈ s.started) (hlive : m.name ∉ s.orch.oldManagers) (hrun : m ∉ s.orch.stoppedManagers)
    (hloop : m ∉ s.exited) (hlang : ∀ w ∈ s.orch.fileQueue, languageMismatch s.lower m w = false)
    (result : WorkItemResult) :
    ∃ l s', (∀ a ∈ l, a = .steal m ∨ (∃ r, a = .success r result) ∨ a = .master ∨
        a = .summaryThread) ∧
      System.execs maxRetries s l = some s' ∧ s'.master = .closeGate ∧
      s'.events.head? = some (if request.batchId ∈ s.deleted then .batchDeleted request.batchId
        else .statusDone request.batchId) ∧
      ∀ f ∈ currentFiles s.events, ∃ r, s'.orch.workResults.get? f = some (some r) := by
  have h : Leads (fun a => a = .steal m ∨ (∃ r, a = .success r result) ∨ a = .master ∨
      a = .summaryThread) maxRetries s fun u => u.master = .closeGate ∧
        u.events.head? = some (if request.batchId ∈ s.deleted then .batchDeleted request.batchId
          else .statusDone request.batchId) ∧
        ∀ f ∈ currentFiles s.events, ∃ r, u.orch.workResults.get? f = some (some r) := by
    refine ((DrainReady.drain result ⟨hs, hst, hm, hlive, hrun, hloop, hlang⟩).weaken
      fun a ha => ha.imp_right .inl).trans fun t ⟨ht, hqt, hkt, hf⟩ => ?_
    -- the drained batch is signalled, and each of its files has its result
    have hE := drained_signalled ht.reachable (hf.currentFiles_eq ▸ hne) hqt hkt
    have hres := drained_results ht.reachable ht.running (hf.anyCancel_eq.trans hnc) hqt hkt
    refine (leads_of_wait (.inr (.inr (.inl rfl))) (.inr (.inr (.inr rfl))) hE
      ht.reachable.lockInv (hf.master.trans hw)).mono fun u ⟨hmu, hou, hev⟩ => ?_
    rw [hou, ← hf.deleted, ← hf.currentFiles_eq]
    exact ⟨hmu, hev, hres⟩
  exact h

theorem batch_completes_afterSteal :
    ∃ l s', (∀ a ∈ l, a = .steal firstManager ∨ (∃ r, a = .success r ⟨1, false⟩) ∨
        a = .master ∨ a = .summaryThread) ∧
      System.execs 0 afterSteal l = some s' ∧ s'.master = .closeGate ∧
      s'.events.head? = some (if oneFileRequest.batchId ∈ afterSteal.deleted then
        .batchDeleted oneFileRequest.batchId else .statusDone oneFileRequest.batchId) ∧
      ∀ f ∈ currentFiles afterSteal.events, ∃ r, s'.orch.workResults.get? f = some (some r) :=
  batch_completes (Reachable.execs_getD (by decide)) (by decide) (by decide) (by decide)
    (by decide) (by decide) (by decide) (by decide) (by decide) (by decide) ⟨1, false⟩

end BatchKit
