import BatchKit.Callbacks

/-!
# Batch completion

`_batch_completion_evt` is set by the accepted report that empties the batch, by
`cancel_running_batch` and by `request_stop`, and cleared only by the batch-start block. Once
set without a stop, nothing is queued or in progress until the next batch starts, so the
assertions of the batch-start block hold. Conversely, once a batch with a work item has started,
the event is set whenever nothing is queued and nothing is in progress (`SignalInv`): the
accepted report that empties the batch sets it, and no other step empties the batch.

A batch whose `make_work_items` yields nothing is never signalled: the batch-start block does not
check for completion, and no report can come for it. The master then waits until the batch is
canceled or a stop is requested. So does a batch holding a request whose language no started
manager serves (`Unroutable`), unless a hot-swap brings a manager for it.
-/

namespace BatchKit

variable {maxRetries : Nat} {s s' : System}

theorem cancelRunningBatch_batchCompletionEvt {o : Orchestrator} (batchId : Int)
    (h : o.batchCompletionEvt = true) :
    (cancelRunningBatch o batchId).1.batchCompletionEvt = true := by
  unfold cancelRunningBatch
  split
  · exact h
  · rfl

theorem Inv.not_accepts (hi : Inv s) {r : Report} (hr : r ∈ s.outstanding)
    (hK : s.orch.inProgress.keys = []) : ¬accepts s.orch r.manager := fun ha => by
  have hw := (hi.report_owner r hr (Inv.active_iff.mpr ha.1) ha.2).2
  have hk : r.work.filepath ∉ s.orch.inProgress.keys := by simp [hK]
  rw [Dict.get?_eq_none.mpr hk] at hw
  cases hw

theorem report_ignored {o : Orchestrator} {r : Report} (hna : ¬accepts o r.manager)
    (maxRetries : Nat) (result : WorkItemResult) (failure : Bool) :
    (notifyWorkSuccess o r.work.filepath r.manager result).state = o ∧
    (notifyWorkFailure o maxRetries r.work.filepath r.manager result).state = o ∧
    System.reportEvents o maxRetries r.work.filepath r.manager result failure = [] := by
  simp [notifyWorkSuccess, notifyWorkFailure, System.reportEvents, hna]

theorem completion_persists (hi : Inv s) (hE : s.orch.batchCompletionEvt = true) {a : Action}
    (ha : ∀ workItems, a ≠ .masterStart workItems) (he : System.exec maxRetries s a = some s') :
    s'.orch.batchCompletionEvt = true := by
  -- no report is accepted: a stop is pending, or nothing is in progress
  have hna : ∀ r ∈ s.outstanding, ¬accepts s.orch r.manager := fun r hr => by
    cases hs : s.orch.stopRequested
    · exact hi.not_accepts hr (hi.quiescent hs (.inl hE)).2
    · exact fun ha => by simp [ha.2] at hs
  cases a with
  | master =>
    change System.masterStep s = some s' at he
    unfold System.masterStep at he
    repeat' split at he
    all_goals first
      | cases he; done
      | cases he; exact hE
      | cases he; exact cancelRunningBatch_batchCompletionEvt _ hE
  | masterHotswap configData constructorRaises =>
    obtain ⟨_, -, rfl⟩ := System.exec_masterHotswap he
    exact (hotswap_outcome hi.queue.owner_keys configData constructorRaises).2.1.trans hE
  | masterStart workItems => exact absurd rfl (ha workItems)
  | summaryThread =>
    change System.summaryStep s = some s' at he
    unfold System.summaryStep at he
    repeat' split at he
    all_goals first
      | cases he; done
      | cases he; exact hE
  | steal m =>
    obtain ⟨-, o, r, hst, rfl⟩ := System.exec_steal he
    rcases Orchestrator.stealWork_cases hst with ⟨rfl, -⟩ |
      ⟨w, rest, -, -, -, -, ⟨-, -, rfl⟩ | ⟨-, -, rfl⟩⟩ <;> exact hE
  | success r result =>
    obtain ⟨⟨hr, -⟩, rfl⟩ := System.exec_success he
    rw [(report_ignored (hna r hr) maxRetries result false).1]
    exact hE
  | failure r result =>
    obtain ⟨⟨hr, -⟩, rfl⟩ := System.exec_failure he
    rw [(report_ignored (hna r hr) maxRetries result true).2.1]
    exact hE
  | managerStop m =>
    obtain ⟨-, rfl⟩ := System.exec_managerStop he
    exact hE
  | hotswap configData constructorRaises =>
    obtain ⟨-, rfl⟩ := System.exec_hotswap he
    exact (hotswap_outcome hi.queue.owner_keys configData constructorRaises).2.1.trans hE
  | requestStop => obtain ⟨-, rfl⟩ := System.exec_requestStop he; rfl
  | cancel batchId =>
    obtain ⟨-, rfl⟩ := System.exec_cancel he
    exact cancelRunningBatch_batchCompletionEvt _ hE
  | submit request => cases he; exact hE
  | delete batchId => cases he; exact hE
  | writeFails writer =>
    obtain ⟨b, ⟨-, _, -, rfl⟩ | ⟨-, -, rfl⟩⟩ := System.exec_writeFails he <;> exact hE

theorem completion_quiescent (hs : Reachable maxRetries s) :
    (s.orch.stopRequested = false → s.orch.batchCompletionEvt = true →
      s.orch.fileQueueSize = 0 ∧ s.orch.inProgress.size = 0) ∧
    (∀ a s', System.exec maxRetries s a = some s' → (∀ workItems, a ≠ .masterStart workItems) →
      s.orch.batchCompletionEvt = true → s'.orch.batchCompletionEvt = true) ∧
    (∀ request workItems, s.master = .start (some request) → s.orch.stopRequested = false →
      (startBatch s.orch (some request) workItems).raised = none) ∧
    s.master ≠ .crashed := by
  have hi := hs.inv
  refine ⟨fun hst hE => ?_, fun a s' he ha hE => completion_persists hi hE ha he,
    fun request workItems hm hst => ?_, hi.not_crashed⟩
  · obtain ⟨hQ, hK⟩ := hi.quiescent hst (.inl hE)
    exact ⟨by simp [hi.queue.size_eq, hQ], Dict.size_eq_zero.mpr hK⟩
  · obtain ⟨hQ, hK⟩ := hi.quiescent hst (hi.idle (by rw [hm]; trivial))
    rw [startBatch_of_quiet ⟨Dict.size_eq_zero.mpr hK, by simp [hi.queue.size_eq, hQ]⟩]

theorem completion_quiescent_afterRetries :
    (afterRetries.orch.stopRequested = false → afterRetries.orch.batchCompletionEvt = true →
      afterRetries.orch.fileQueueSize = 0 ∧ afterRetries.orch.inProgress.size = 0) ∧
    (∀ a s', System.exec 1 afterRetries a = some s' → (∀ workItems, a ≠ .masterStart workItems) →
      afterRetries.orch.batchCompletionEvt = true → s'.orch.batchCompletionEvt = true) ∧
    (∀ request workItems, afterRetries.master = .start (some request) →
      afterRetries.orch.stopRequested = false →
      (startBatch afterRetries.orch (some request) workItems).raised = none) ∧
    afterRetries.master ≠ .crashed :=
  completion_quiescent (Reachable.execs_getD (by decide))

section Signalled

/-! The converse, for a batch with a work item: the completion event is set as soon as nothing
is queued and nothing is in progress. -/

def Signalled (o : Orchestrator) : Prop :=
  o.fileQueueSize = 0 → o.inProgress.size = 0 → o.batchCompletionEvt = true

namespace Signalled

variable {o o' : Orchestrator}

theorem checkBatchCompletion (o : Orchestrator) : Signalled (checkBatchCompletion o) := by
  rw [Orchestrator.checkBatchCompletion_eq]
  intro hq hk
  simp_all

theorem untrack_then (hk : o.inProgressOwner.keys = o.inProgress.keys) (h : Signalled o)
    (filepath : String) {k : Orchestrator → Orchestrator} (hk' : ∀ t, Signalled (k t)) :
    Signalled ((untrack o filepath).then k).state := by
  rw [Orchestrator.untrack_of_keys hk]
  split
  · exact hk' _
  · exact h

theorem notifyWorkSuccess (hk : o.inProgressOwner.keys = o.inProgress.keys) (h : Signalled o)
    (filepath : String) (manager : EndpointManager) (result : WorkItemResult) :
    Signalled (notifyWorkSuccess o filepath manager result).state := by
  unfold BatchKit.notifyWorkSuccess
  split
  · exact untrack_then hk h filepath fun _ => checkBatchCompletion _
  · exact h

theorem notifyWorkFailure (hk : o.inProgressOwner.keys = o.inProgress.keys) (h : Signalled o)
    (maxRetries : Nat) (filepath : String) (manager : EndpointManager) (result : WorkItemResult) :
    Signalled (notifyWorkFailure o maxRetries filepath manager result).state := by
  have hm : Signalled (mergeResults o filepath result) := h
  unfold BatchKit.notifyWorkFailure
  dsimp only
  split_ifs
  · split
    · refine untrack_then ?_ ?_ filepath checkBatchCompletion
      · exact hk
      · -- the file goes back on the queue, so the queue is not empty
        intro hq
        simp [put] at hq
    · exact hm
  · refine untrack_then ?_ hm filepath checkBatchCompletion
    exact hk
  · exact h

theorem stealWork {lower : String → String} {manager : EndpointManager} {r : Stolen}
    (h : Signalled o) (hst : stealWork o lower manager = some (o', r)) : Signalled o' := by
  rcases Orchestrator.stealWork_cases hst with
    ⟨rfl, -⟩ | ⟨w, rest, -, hpos, -, -, ⟨-, -, rfl⟩ | ⟨-, -, rfl⟩⟩
  · exact h
  · intro hq
    simp only [put] at hq
    omega
  · intro _ hk
    exact absurd (Dict.size_eq_zero.mp hk ▸ Dict.mem_keys_insert.mpr (.inl rfl))
      (List.not_mem_nil _)

theorem hotswap (hk : o.inProgressOwner.keys = o.inProgress.keys) (h : Signalled o)
    (cfg : Option (Dict String EndpointConfig)) (constructorRaises : Bool) :
    Signalled (hotswapEndpointManagers o cfg constructorRaises).1.state := by
  rcases cfg with _ | configData
  · exact h
  cases hs : o.stopRequested
  · by_cases hc : constructorRaises = true ∧ (hotswapDiff o configData).2 ≠ []
    · rw [hotswap_constructorRaises hs hc]
      exact h
    · rw [hotswap_swap hk hs hc]
      intro hq hK
      -- an empty queue after the swap means nothing was moved
      simp only [Nat.add_eq_zero, List.length_eq_zero] at hq
      simp only [hq.2, List.map_nil, Dict.eraseAll, List.foldl_nil] at hK
      exact h hq.1 hK
  · rw [hotswap_stopped hs]
    exact h

theorem cancel (h : Signalled o) (batchId : Int) : Signalled (cancelRunningBatch o batchId).1 := by
  by_cases hb : o.onBatchId = batchId
  · rw [Orchestrator.cancelRunningBatch_of_eq hb]
    exact fun _ _ => rfl
  · rw [Orchestrator.cancelRunningBatch_of_ne hb]
    exact h

end Signalled

/-- Once a batch with a work item has started, its completion event is set whenever nothing is
queued and nothing is in progress. -/
def SignalInv (s : System) : Prop := currentFiles s.events ≠ [] → Signalled s.orch

namespace SignalInv

theorem frame (h : SignalInv s) {t : System} (hev : currentFiles t.events = currentFiles s.events)
    (ho : Signalled s.orch → Signalled t.orch) : SignalInv t :=
  fun hne => ho (h (hev ▸ hne))

theorem cancel (h : SignalInv s) (batchId : Int) :
    SignalInv { s with
      orch := (cancelRunningBatch s.orch batchId).1,
      events := if (cancelRunningBatch s.orch batchId).2 then
        .batchCanceled batchId :: s.events else s.events } :=
  h.frame (by split <;> simp [Event.isBatchStart]) (·.cancel batchId)

theorem exec (hi : Inv s) (h : SignalInv s) {a : Action}
    (he : System.exec maxRetries s a = some s') : SignalInv s' := by
  have hk := hi.queue.owner_keys
  cases a with
  | master =>
    change System.masterStep s = some s' at he
    unfold System.masterStep at he
    repeat' split at he
    all_goals first
      | cases he; done
      | cases he; exact h
      | cases he; exact h.cancel _
  | masterHotswap configData constructorRaises =>
    obtain ⟨_, -, rfl⟩ := System.exec_masterHotswap he
    exact h.frame rfl (·.hotswap hk configData constructorRaises)
  | masterStart workItems =>
    obtain ⟨_, hm, he⟩ := System.exec_masterStart he
    rcases hi.masterStart_cases hm he with ⟨-, rfl⟩ | ⟨r, -, -, -, -, -, rfl⟩
    · exact h
    · -- the new batch's files are all queued
      intro hne hq _
      simp only [currentFiles_batchStarted, ne_eq, List.map_eq_nil_iff] at hne
      simp only [Nat.add_eq_zero, List.length_eq_zero] at hq
      exact absurd hq.2 hne
  | summaryThread =>
    change System.summaryStep s = some s' at he
    unfold System.summaryStep at he
    repeat' split at he
    all_goals first | cases he; done | cases he; exact h
  | steal m =>
    obtain ⟨-, o, r, hst, rfl⟩ := System.exec_steal he
    exact h.frame rfl (·.stealWork hst)
  | success r result =>
    obtain ⟨-, rfl⟩ := System.exec_success he
    exact h.frame (currentFiles_append _ (Inv.reportEvents_not_batchStart _ _ _ _ _ _))
      (·.notifyWorkSuccess hk _ _ _)
  | failure r result =>
    obtain ⟨-, rfl⟩ := System.exec_failure he
    exact h.frame (currentFiles_append _ (Inv.reportEvents_not_batchStart _ _ _ _ _ _))
      (·.notifyWorkFailure hk _ _ _ _)
  | managerStop m =>
    obtain ⟨-, rfl⟩ := System.exec_managerStop he
    exact h
  | hotswap configData constructorRaises =>
    obtain ⟨-, rfl⟩ := System.exec_hotswap he
    exact h.frame rfl (·.hotswap hk configData constructorRaises)
  | requestStop =>
    obtain ⟨-, rfl⟩ := System.exec_requestStop he
    exact h.frame rfl fun _ _ _ => rfl
  | cancel batchId =>
    obtain ⟨-, rfl⟩ := System.exec_cancel he
    exact h.cancel batchId
  | submit request => cases he; exact h
  | delete batchId => cases he; exact h
  | writeFails writer =>
    obtain ⟨b, ⟨-, _, -, rfl⟩ | ⟨-, -, rfl⟩⟩ := System.exec_writeFails he <;> exact h

end SignalInv

theorem Reachable.signalInv (hs : Reachable maxRetries s) : SignalInv s := by
  induction hs with
  | init p lower => exact fun hne => absurd rfl hne
  | step a hs he ih => exact ih.exec hs.inv he

end Signalled

/-- The master waits on a batch with nothing queued and nothing in progress while the completion
event is clear. -/
def Stalled (s : System) : Prop :=
  (∃ request, s.master = .wait request) ∧ s.orch.fileQueue = [] ∧ s.orch.inProgress.keys = [] ∧
    s.orch.batchCompletionEvt = false

theorem hotswap_of_idle {o : Orchestrator} (hk : o.inProgressOwner.keys = o.inProgress.keys)
    (hK : o.inProgress.keys = []) (cfg : Option (Dict String EndpointConfig))
    (constructorRaises : Bool) :
    (hotswapEndpointManagers o cfg constructorRaises).1.state.fileQueue = o.fileQueue ∧
    (hotswapEndpointManagers o cfg constructorRaises).1.state.inProgress.keys = [] := by
  have he : o.inProgress.entries = [] := by simpa [Dict.keys] using hK
  rcases cfg with _ | configData
  · exact ⟨rfl, hK⟩
  cases hs : o.stopRequested
  · by_cases hc : constructorRaises = true ∧ (hotswapDiff o configData).2 ≠ []
    · rw [hotswap_constructorRaises hs hc]; exact ⟨rfl, hK⟩
    · rw [hotswap_swap hk hs hc]; simp [he, Dict.keys_eraseAll, hK]
  · rw [hotswap_stopped hs]; exact ⟨rfl, hK⟩

theorem Stalled.exec (hi : Inv s) (h : Stalled s) {a : Action} (hstop : a ≠ .requestStop)
    (hc : a ≠ .cancel s.orch.onBatchId) (he : System.exec maxRetries s a = some s') :
    Stalled s' ∧ s'.orch.onBatchId = s.orch.onBatchId := by
  obtain ⟨⟨request, hm⟩, hQ, hK, hE⟩ := h
  have hna : ∀ r ∈ s.outstanding, ¬accepts s.orch r.manager := fun r hr => hi.not_accepts hr hK
  cases a with
  | master => simp [System.exec, System.masterStep, hm, hE] at he
  | masterHotswap configData constructorRaises => simp [System.exec, hm] at he
  | masterStart workItems => simp [System.exec, hm] at he
  | summaryThread =>
    change System.summaryStep s = some s' at he
    unfold System.summaryStep at he
    repeat' split at he
    all_goals first
      | cases he; done
      | cases he; exact ⟨⟨⟨request, hm⟩, hQ, hK, hE⟩, rfl⟩
  | steal m =>
    obtain ⟨-, o, r, hst, rfl⟩ := System.exec_steal he
    rcases Orchestrator.stealWork_cases hst with ⟨rfl, -⟩ | ⟨w, rest, hq, -⟩
    · exact ⟨⟨⟨request, hm⟩, hQ, hK, hE⟩, rfl⟩
    · simp [hQ] at hq
  | success r result =>
    obtain ⟨⟨hr, -⟩, rfl⟩ := System.exec_success he
    obtain ⟨h₁, -, h₃⟩ := report_ignored (hna r hr) maxRetries result false
    rw [h₁, h₃]
    exact ⟨⟨⟨request, hm⟩, hQ, hK, hE⟩, rfl⟩
  | failure r result =>
    obtain ⟨⟨hr, -⟩, rfl⟩ := System.exec_failure he
    obtain ⟨-, h₂, h₃⟩ := report_ignored (hna r hr) maxRetries result true
    rw [h₂, h₃]
    exact ⟨⟨⟨request, hm⟩, hQ, hK, hE⟩, rfl⟩
  | managerStop m =>
    obtain ⟨-, rfl⟩ := System.exec_managerStop he
    exact ⟨⟨⟨request, hm⟩, hQ, hK, hE⟩, rfl⟩
  | hotswap configData constructorRaises =>
    obtain ⟨-, rfl⟩ := System.exec_hotswap he
    obtain ⟨hq', hk'⟩ := hotswap_of_idle hi.queue.owner_keys hK configData constructorRaises
    obtain ⟨-, he', hc'⟩ := hotswap_outcome hi.queue.owner_keys configData constructorRaises
    exact ⟨⟨⟨request, hm⟩, hq'.trans hQ, hk', he'.trans hE⟩, hc'.onBatchId⟩
  | requestStop => exact absurd rfl hstop
  | cancel batchId =>
    obtain ⟨-, rfl⟩ := System.exec_cancel he
    have hb : s.orch.onBatchId ≠ batchId := fun hb => hc (hb ▸ rfl)
    rw [Orchestrator.cancelRunningBatch_of_ne hb]
    exact ⟨⟨⟨request, hm⟩, hQ, hK, hE⟩, rfl⟩
  | submit request' => cases he; exact ⟨⟨⟨request, hm⟩, hQ, hK, hE⟩, rfl⟩
  | delete batchId => cases he; exact ⟨⟨⟨request, hm⟩, hQ, hK, hE⟩, rfl⟩
  | writeFails writer =>
    obtain ⟨b, ⟨-, _, hm', -⟩ | ⟨-, -, rfl⟩⟩ := System.exec_writeFails he
    · rw [hm] at hm'; cases hm'
    · exact ⟨⟨⟨request, hm⟩, hQ, hK, hE⟩, rfl⟩

/-- Without a stop request or a cancel of its batch, a stalled master waits forever. -/
theorem stalled_until_stop_or_cancel : ∀ {s s' : System} {l : List Action},
    Reachable maxRetries s → Stalled s →
    (∀ a ∈ l, a ≠ .requestStop ∧ a ≠ .cancel s.orch.onBatchId) →
    System.execs maxRetries s l = some s' → Stalled s'
  | s, s', [], _, h, _, he => by cases he; exact h
  | s, s', a :: l, hs, h, hl, he => by
    simp only [System.execs, Option.bind_eq_some] at he
    obtain ⟨s₁, h₁, h₂⟩ := he
    have ha := hl a (List.mem_cons_self _ _)
    obtain ⟨h₁', hb⟩ := Stalled.exec hs.inv h ha.1 ha.2 h₁
    exact stalled_until_stop_or_cancel (Reachable.step a hs h₁) h₁'
      (fun b hb' => hb ▸ hl b (List.mem_cons_of_mem _ hb')) h₂

/-- A batch whose `make_work_items` yields nothing: the master starts it and marks it running. -/
def emptyBatchRun : List Action :=
  [.submit oneFileRequest, .master, .master, .master, .masterHotswap (some oneEndpoint) false,
    .masterStart [], .master]

def afterEmptyStart : System :=
  (System.execs 0 (System.init none asciiLower) emptyBatchRun).getD (System.init none asciiLower)

/-- After the batch-start block of an empty batch, nothing is queued or in progress, yet the
completion event is clear and the master waits on it. -/
theorem emptyBatch_not_signalled :
    Reachable 0 afterEmptyStart ∧ 0 < afterEmptyStart.epoch ∧
    afterEmptyStart.orch.fileQueueSize = 0 ∧ afterEmptyStart.orch.inProgress.size = 0 ∧
    afterEmptyStart.orch.batchCompletionEvt = false ∧ Stalled afterEmptyStart :=
  ⟨Reachable.execs_getD (by decide), by decide, by decide, by decide, by decide,
    ⟨oneFileRequest, by decide⟩, by decide, by decide, by decide⟩

def afterEmptyWait : System :=
  (System.execs 0 afterEmptyStart [.summaryThread, .hotswap (some oneEndpoint) false]).get
    (by decide)

theorem stalled_until_stop_or_cancel_afterEmptyWait : Stalled afterEmptyWait :=
  stalled_until_stop_or_cancel (Reachable.execs_getD (by decide))
    ⟨⟨oneFileRequest, by decide⟩, by decide, by decide, by decide⟩ (by simp)
    (Option.eq_some_of_isSome _)


/-! ## Work no manager serves

`steal_work` puts a request whose language the stealing manager does not serve back at the tail
of the queue. While no manager started so far serves it, the request stays queued: the batch is
never signalled complete and the master waits on it, until a hot-swap brings a manager for its
language, the batch is canceled or a stop is requested. -/

def Orchestrator.KeepsQueue (o o' : Orchestrator) : Prop := o.fileQueue.IsPrefix o'.fileQueue

namespace Orchestrator.KeepsQueue

variable {o : Orchestrator}

theorem untrack (o : Orchestrator) (f : String) : KeepsQueue o (untrack o f).state := by
  unfold BatchKit.untrack
  split_ifs <;> exact List.prefix_refl _

theorem then_ {out : Outcome} {k : Orchestrator → Orchestrator} (hk : ∀ t, KeepsQueue t (k t)) :
    KeepsQueue out.state (out.then k).state := by
  unfold Outcome.then
  split
  · exact hk _
  · exact List.prefix_refl _

theorem checkBatchCompletion (o : Orchestrator) : KeepsQueue o (checkBatchCompletion o) := by
  rw [checkBatchCompletion_eq]
  exact List.prefix_refl _

theorem notifyWorkSuccess (f : String) (m : EndpointManager) (result : WorkItemResult) :
    KeepsQueue o (notifyWorkSuccess o f m result).state := by
  unfold BatchKit.notifyWorkSuccess
  split_ifs
  · exact (untrack o f).trans (then_ fun t => checkBatchCompletion (mergeResults t f result))
  · exact List.prefix_refl _

theorem notifyWorkFailure (maxRetries : Nat) (f : String) (m : EndpointManager)
    (result : WorkItemResult) : KeepsQueue o (notifyWorkFailure o maxRetries f m result).state := by
  unfold BatchKit.notifyWorkFailure
  split_ifs
  · dsimp only
    split
    · rename_i work _
      exact (List.prefix_append o.fileQueue [work]).trans
        ((untrack (put (mergeResults o f result) work) f).trans (then_ checkBatchCompletion))
    · exact List.prefix_refl _
  · exact (untrack (mergeResults o f result) f).trans (then_ checkBatchCompletion)
  · exact List.prefix_refl _

end Orchestrator.KeepsQueue

/-- The master waits on its batch while `work` is queued and every manager started so far serves
another language. -/
def Unroutable (s : System) (work : WorkItemRequest) : Prop :=
  (∃ request, s.master = .wait request) ∧ work ∈ s.orch.fileQueue ∧
    ∀ m ∈ s.started, languageMismatch s.lower m work = true

namespace Unroutable

variable {work : WorkItemRequest}

theorem batchCompletionEvt (hi : Inv s) (h : Unroutable s work) :
    s.orch.batchCompletionEvt = false := by
  have hq : s.orch.fileQueue ≠ [] := List.ne_nil_of_mem h.2.1
  have hs : s.orch.stopRequested = false :=
    Bool.eq_false_iff.mpr fun hs => hq (hi.queue.stopped_empty hs)
  exact Bool.eq_false_iff.mpr fun hE => hq (hi.quiescent hs (.inl hE)).1

theorem frame (h : Unroutable s work) {t : System} (hm : t.master = s.master)
    (hs : t.started = s.started) (hl : t.lower = s.lower) (hq : s.orch.KeepsQueue t.orch) :
    Unroutable t work :=
  ⟨by rw [hm]; exact h.1, hq.subset h.2.1, by rw [hs, hl]; exact h.2.2⟩

theorem steal (h : Unroutable s work) {m : EndpointManager} (hm : m ∈ s.started)
    {o : Orchestrator} {r : Stolen} (hst : stealWork s.orch s.lower m = some (o, r)) :
    work ∈ o.fileQueue := by
  rcases Orchestrator.stealWork_cases hst with
    ⟨rfl, -⟩ | ⟨w, rest, hq, -, -, -, ⟨-, -, rfl⟩ | ⟨hmw, -, rfl⟩⟩
  · exact h.2.1
  · simpa [put, hq, or_comm] using h.2.1
  · have hw : work ≠ w := fun hw => by simp [hw ▸ h.2.2 m hm] at hmw
    simpa [hq, hw] using h.2.1

theorem exec (hi : Inv s) (h : Unroutable s work) {a : Action} (hstop : a ≠ .requestStop)
    (hc : a ≠ .cancel s.orch.onBatchId) (hh : ∀ cfg cr, a ≠ .hotswap cfg cr)
    (he : System.exec maxRetries s a = some s') :
    Unroutable s' work ∧ s'.orch.onBatchId = s.orch.onBatchId := by
  obtain ⟨request, hm⟩ := h.1
  have hE := h.batchCompletionEvt hi
  cases a with
  | master => simp [System.exec, System.masterStep, hm, hE] at he
  | masterHotswap configData constructorRaises => simp [System.exec, hm] at he
  | masterStart workItems => simp [System.exec, hm] at he
  | summaryThread =>
    change System.summaryStep s = some s' at he
    unfold System.summaryStep at he
    repeat' split at he
    all_goals first
      | cases he; done
      | cases he; exact ⟨h, rfl⟩
  | steal m =>
    obtain ⟨⟨hms, -⟩, o, r, hst, rfl⟩ := System.exec_steal he
    exact ⟨⟨h.1, h.steal hms hst, h.2.2⟩, (Orchestrator.SameControl.stealWork hst).onBatchId⟩
  | success r result =>
    obtain ⟨-, rfl⟩ := System.exec_success he
    exact ⟨h.frame rfl rfl rfl (Orchestrator.KeepsQueue.notifyWorkSuccess _ _ _),
      (Orchestrator.SameControl.notifyWorkSuccess _ _ _).onBatchId⟩
  | failure r result =>
    obtain ⟨-, rfl⟩ := System.exec_failure he
    exact ⟨h.frame rfl rfl rfl (Orchestrator.KeepsQueue.notifyWorkFailure _ _ _ _),
      (Orchestrator.SameControl.notifyWorkFailure _ _ _ _).onBatchId⟩
  | managerStop m =>
    obtain ⟨-, rfl⟩ := System.exec_managerStop he
    exact ⟨h, rfl⟩
  | hotswap configData constructorRaises => exact absurd rfl (hh configData constructorRaises)
  | requestStop => exact absurd rfl hstop
  | cancel batchId =>
    obtain ⟨-, rfl⟩ := System.exec_cancel he
    have hb : s.orch.onBatchId ≠ batchId := fun hb => hc (hb ▸ rfl)
    rw [Orchestrator.cancelRunningBatch_of_ne hb]
    exact ⟨h, rfl⟩
  | submit request' => cases he; exact ⟨h, rfl⟩
  | delete batchId => cases he; exact ⟨h, rfl⟩
  | writeFails writer =>
    obtain ⟨b, ⟨-, _, hm', -⟩ | ⟨-, -, rfl⟩⟩ := System.exec_writeFails he
    · rw [hm] at hm'; cases hm'
    · exact ⟨h, rfl⟩

end Unroutable

/-- Until a stop request, a cancel of its batch or a hot-swap, a batch holding a request that no
started manager serves keeps it queued and is never signalled complete: the master waits on
it. -/
theorem unroutable_blocks_batch {work : WorkItemRequest} : ∀ {s s' : System} {l : List Action},
    Reachable maxRetries s → Unroutable s work →
    (∀ a ∈ l, a ≠ .requestStop ∧ a ≠ .cancel s.orch.onBatchId ∧ ∀ cfg cr, a ≠ .hotswap cfg cr) →
    System.execs maxRetries s l = some s' →
    Unroutable s' work ∧ s'.orch.batchCompletionEvt = false
  | s, s', [], hs, h, _, he => by cases he; exact ⟨h, h.batchCompletionEvt hs.inv⟩
  | s, s', a :: l, hs, h, hl, he => by
    simp only [System.execs, Option.bind_eq_some] at he
    obtain ⟨s₁, h₁, h₂⟩ := he
    obtain ⟨hstop, hc, hh⟩ := hl a (List.mem_cons_self _ _)
    obtain ⟨h₁', hb⟩ := h.exec hs.inv hstop hc hh h₁
    exact unroutable_blocks_batch (Reachable.step a hs h₁) h₁'
      (fun b hb' => hb ▸ hl b (List.mem_cons_of_mem _ hb')) h₂

def frenchItem : WorkItemRequest := ⟨"a", some "FR"⟩

/-- A batch of the French request starts with only the English endpoint configured. -/
def frenchBatchRun : List Action :=
  [.submit oneFileRequest, .master, .master, .master, .masterHotswap (some oneEndpoint) false,
    .masterStart [frenchItem], .master]

def afterFrenchStart : System :=
  (System.execs 0 (System.init none asciiLower) frenchBatchRun).getD (System.init none asciiLower)

def afterFrenchSteal : System :=
  (System.execs 0 afterFrenchStart [.steal firstManager, .summaryThread]).get (by decide)

theorem unroutable_blocks_batch_afterFrenchSteal :
    Unroutable afterFrenchSteal frenchItem ∧ afterFrenchSteal.orch.batchCompletionEvt = false :=
  unroutable_blocks_batch (Reachable.execs_getD (by decide))
    ⟨⟨oneFileRequest, by decide⟩, by decide, by decide⟩ (by simp) (Option.eq_some_of_isSome _)

end BatchKit
