import BatchKit.Batch

/-!
# Manager callbacks

What `steal_work` hands a manager, and what it leaves of the queue and the accounting. What
`notify_work_success` and `notify_work_failure` do with a report, by where the report
comes from. A report of an unretired manager while no stop is pending is for a file the manager
owns: both methods find it in `_in_progress` and `_in_progress_owner`, raise nothing, and take
it out of `_in_progress`. A report for work taken before the current batch started changes
nothing: every manager that held such work has been retired since.
-/

namespace BatchKit

/-- What `steal_work` promises of a pass that returns `r`, leaving `s'`. Work goes only to an
unretired manager while no stop is pending, is routed by language, and is the head of the
queue, now tracked as the manager's; the sentinel keeps the queue up to order, and moves at
most a mismatched head to the tail. -/
def StealContract (lower : String → String) (s : Orchestrator) (manager : EndpointManager)
    (s' : Orchestrator) : Stolen → Prop
  | .work w =>
    manager.name ∉ s.oldManagers ∧ s.stopRequested = false ∧
    (w.language = none ∨ w.language = some "" ∨
      ∃ language, w.language = some language ∧
        lower manager.endpointConfig.language = lower language) ∧
    ∃ rest, s.fileQueue = w :: rest ∧ s'.fileQueueSize + 1 = s.fileQueueSize ∧
      s' = { s with fileQueue := rest, fileQueueSize := s.fileQueueSize - 1,
                    inProgress := s.inProgress.insert w.filepath w,
                    inProgressOwner := s.inProgressOwner.insert w.filepath manager }
  | .sentinel =>
    s'.fileQueue.Perm s.fileQueue ∧ s'.fileQueueSize = s.fileQueueSize ∧
    s'.inProgress = s.inProgress ∧ s'.inProgressOwner = s.inProgressOwner ∧
    (s' = s ∨ ∃ w rest, s.fileQueue = w :: rest ∧ languageMismatch lower manager w = true ∧
      s' = { s with fileQueue := rest ++ [w] })

theorem stealWork_contract {lower : String → String} {s s' : Orchestrator}
    {manager : EndpointManager} {r : Stolen} (h : stealWork s lower manager = some (s', r)) :
    StealContract lower s manager s' r := by
  rcases Orchestrator.stealWork_cases h with
    ⟨rfl, rfl⟩ | ⟨w, rest, hq, hpos, hold, hstop, ⟨hm, rfl, rfl⟩ | ⟨hm, rfl, rfl⟩⟩
  · exact ⟨.refl _, rfl, rfl, rfl, .inl rfl⟩
  · have hsize : s.fileQueueSize - 1 + 1 = s.fileQueueSize := by omega
    refine ⟨by simp [put, hq, List.perm_append_singleton], hsize, rfl, rfl,
      .inr ⟨w, rest, hq, hm, ?_⟩⟩
    simp only [put, hsize]
  · exact ⟨hold, hstop, languageMismatch_eq_false.mp hm, rest, hq, by simp only; omega, rfl⟩

def oneQueued : Orchestrator :=
  { Orchestrator.init none with fileQueue := [oneFileItem], fileQueueSize := 1 }

def oneTaken : Orchestrator :=
  { oneQueued with
    fileQueue := []
    fileQueueSize := 0
    inProgress := oneQueued.inProgress.insert "a" oneFileItem
    inProgressOwner := oneQueued.inProgressOwner.insert "a" firstManager }

theorem stealWork_contract_oneQueued :
    stealWork oneQueued asciiLower firstManager = some (oneTaken, .work oneFileItem) ∧
      StealContract asciiLower oneQueued firstManager oneTaken (.work oneFileItem) :=
  ⟨rfl, stealWork_contract rfl⟩

variable {maxRetries : Nat} {s : System}

theorem report_from_owner (hs : Reachable maxRetries s) {r : Report} (hr : r ∈ s.outstanding)
    (hold : r.manager.name ∉ s.orch.oldManagers) (hstop : s.orch.stopRequested = false)
    (result : WorkItemResult) :
    s.orch.inProgressOwner.get? r.work.filepath = some r.manager ∧
    s.orch.inProgress.get? r.work.filepath = some r.work ∧
    (notifyWorkSuccess s.orch r.work.filepath r.manager result).raised = none ∧
    r.work.filepath ∉
      (notifyWorkSuccess s.orch r.work.filepath r.manager result).state.inProgress.keys ∧
    (notifyWorkFailure s.orch maxRetries r.work.filepath r.manager result).raised = none ∧
    r.work.filepath ∉
      (notifyWorkFailure s.orch maxRetries r.work.filepath r.manager result).state.inProgress.keys := by
  have hi := hs.inv
  obtain ⟨ho, hw⟩ := hi.report_owner r hr (Inv.active_iff.mpr hold) hstop
  have ha : accepts s.orch r.manager := ⟨hold, hstop⟩
  have hf : r.work.filepath ∈ s.orch.inProgress.keys := Dict.mem_keys.mpr ⟨_, hw⟩
  have hk := hi.queue.owner_keys
  refine ⟨ho, hw, ?_⟩
  rw [Orchestrator.notifyWorkSuccess_of_accepts hk ha hf]
  by_cases hre : retries s.orch maxRetries r.work.filepath result
  · rw [Orchestrator.notifyWorkFailure_retry hk ha hre hw]
    simp [Orchestrator.checkBatchCompletion_eq, Dict.mem_keys_erase]
  · rw [Orchestrator.notifyWorkFailure_giveUp hk ha hre hf]
    simp [Orchestrator.checkBatchCompletion_eq, Dict.mem_keys_erase]

def afterSteal : System :=
  (System.execs 0 (System.init none asciiLower) stealRun).getD (System.init none asciiLower)

def stolenReport : Report := ⟨firstManager, oneFileItem, 1⟩

theorem report_from_owner_afterSteal :
    afterSteal.orch.inProgressOwner.get? stolenReport.work.filepath = some stolenReport.manager ∧
    afterSteal.orch.inProgress.get? stolenReport.work.filepath = some stolenReport.work ∧
    (notifyWorkSuccess afterSteal.orch stolenReport.work.filepath stolenReport.manager
      ⟨1, true⟩).raised = none ∧
    stolenReport.work.filepath ∉ (notifyWorkSuccess afterSteal.orch stolenReport.work.filepath
      stolenReport.manager ⟨1, true⟩).state.inProgress.keys ∧
    (notifyWorkFailure afterSteal.orch 0 stolenReport.work.filepath stolenReport.manager
      ⟨1, true⟩).raised = none ∧
    stolenReport.work.filepath ∉ (notifyWorkFailure afterSteal.orch 0 stolenReport.work.filepath
      stolenReport.manager ⟨1, true⟩).state.inProgress.keys :=
  report_from_owner (Reachable.execs_getD (by decide)) (by decide) (by decide) (by decide) _

theorem late_report_ignored (hs : Reachable maxRetries s) {r : Report} (hr : r ∈ s.outstanding)
    (hlate : r.epoch < s.epoch) (result : WorkItemResult) :
    notifyWorkSuccess s.orch r.work.filepath r.manager result = ⟨s.orch, none⟩ ∧
    notifyWorkFailure s.orch maxRetries r.work.filepath r.manager result = ⟨s.orch, none⟩ := by
  have hna : ¬accepts s.orch r.manager := fun ha =>
    Bool.false_ne_true ((hs.inv.report_epoch r hr hlate).symm.trans (Inv.active_iff.mpr ha.1))
  exact ⟨by simp [notifyWorkSuccess, hna], by simp [notifyWorkFailure, hna]⟩

/-- After `stealRun`, the batch is canceled and a second batch with the same file starts while
`firstManager` still holds the file of the first. -/
def lateRun : List Action :=
  stealRun ++ [.cancel 1, .submit ⟨2, ⟨"T", "P"⟩⟩, .master, .master, .master, .master, .master,
    .master, .master, .master, .master, .masterHotswap (some oneEndpoint) false,
    .masterStart [oneFileItem]]

def afterLate : System :=
  (System.execs 0 (System.init none asciiLower) lateRun).getD (System.init none asciiLower)

theorem late_report_ignored_afterLate :
    notifyWorkSuccess afterLate.orch stolenReport.work.filepath stolenReport.manager ⟨1, true⟩ =
      ⟨afterLate.orch, none⟩ ∧
    notifyWorkFailure afterLate.orch 0 stolenReport.work.filepath stolenReport.manager ⟨1, true⟩ =
      ⟨afterLate.orch, none⟩ :=
  late_report_ignored (Reachable.execs_getD (by decide)) (by decide) (by decide) _

structure Orchestrator.Shrinks (o o' : Orchestrator) : Prop where
  inProgress : ∀ f w, o'.inProgress.get? f = some w → o.inProgress.get? f = some w
  owner : ∀ f m, o'.inProgressOwner.get? f = some m → o.inProgressOwner.get? f = some m

namespace Orchestrator.Shrinks

/-! Every method but `steal_work` only takes entries out of `_in_progress` and
`_in_progress_owner`. -/

variable {o o' o'' : Orchestrator}

theorem same (hw : o'.inProgress = o.inProgress) (hm : o'.inProgressOwner = o.inProgressOwner) :
    Shrinks o o' :=
  ⟨fun _ _ h => hw ▸ h, fun _ _ h => hm ▸ h⟩

theorem trans (h : Shrinks o o') (h' : Shrinks o' o'') : Shrinks o o'' :=
  ⟨fun f w hw => h.inProgress f w (h'.inProgress f w hw),
    fun f m hm => h.owner f m (h'.owner f m hm)⟩

theorem untrack (o : Orchestrator) (f : String) : Shrinks o (untrack o f).state := by
  unfold BatchKit.untrack
  split_ifs <;> first
    | exact same rfl rfl
    | exact ⟨fun _ _ => Dict.get?_of_get?_erase, fun _ _ => id⟩
    | exact ⟨fun _ _ => Dict.get?_of_get?_erase, fun _ _ => Dict.get?_of_get?_erase⟩

theorem then_ {out : Outcome} {k : Orchestrator → Orchestrator} (hk : ∀ t, Shrinks t (k t)) :
    Shrinks out.state (out.then k).state := by
  unfold Outcome.then
  split
  · exact hk _
  · exact same rfl rfl

theorem checkBatchCompletion (o : Orchestrator) : Shrinks o (checkBatchCompletion o) := by
  rw [checkBatchCompletion_eq]
  exact same rfl rfl

theorem notifyWorkSuccess (f : String) (m : EndpointManager) (result : WorkItemResult) :
    Shrinks o (notifyWorkSuccess o f m result).state := by
  unfold BatchKit.notifyWorkSuccess
  split_ifs
  · exact (untrack o f).trans (then_ fun t =>
      (same rfl rfl : Shrinks t (mergeResults t f result)).trans (checkBatchCompletion _))
  · exact same rfl rfl

theorem notifyWorkFailure (maxRetries : Nat) (f : String) (m : EndpointManager)
    (result : WorkItemResult) : Shrinks o (notifyWorkFailure o maxRetries f m result).state := by
  have hm : Shrinks o (mergeResults o f result) := same rfl rfl
  unfold BatchKit.notifyWorkFailure
  split_ifs
  · dsimp only
    split
    · rename_i work _
      exact (same rfl rfl : Shrinks o (put (mergeResults o f result) work)).trans
        ((untrack _ f).trans (then_ checkBatchCompletion))
    · exact hm
  · exact hm.trans ((untrack _ f).trans (then_ checkBatchCompletion))
  · exact same rfl rfl

theorem cancelRunningBatch (o : Orchestrator) (batchId : Int) :
    Shrinks o (cancelRunningBatch o batchId).1 := by
  by_cases hb : o.onBatchId = batchId
  · rw [cancelRunningBatch_of_eq hb]
    exact ⟨fun _ _ h => by simp at h, fun _ _ h => by simp at h⟩
  · rw [cancelRunningBatch_of_ne hb]
    exact same rfl rfl

theorem hotswap (hk : o.inProgressOwner.keys = o.inProgress.keys)
    (cfg : Option (Dict String EndpointConfig)) (constructorRaises : Bool) :
    Shrinks o (hotswapEndpointManagers o cfg constructorRaises).1.state := by
  rcases cfg with _ | configData
  · exact same rfl rfl
  by_cases hs : o.stopRequested = true
  · rw [hotswap_stopped hs]
    exact same rfl rfl
  have hs := Bool.eq_false_iff.mpr hs
  by_cases hc : constructorRaises = true ∧ (hotswapDiff o configData).2 ≠ []
  · rw [hotswap_constructorRaises hs hc]
    exact same rfl rfl
  · rw [hotswap_swap hk hs hc]
    exact ⟨fun _ _ => Dict.get?_of_get?_eraseAll, fun _ _ => Dict.get?_of_get?_eraseAll⟩

end Orchestrator.Shrinks

def Routed (lower : String → String) (o : Orchestrator) : Prop :=
  ∀ f m w, o.inProgressOwner.get? f = some m → o.inProgress.get? f = some w →
    languageMismatch lower m w = false

namespace Routed

variable {lower : String → String} {o o' : Orchestrator}

theorem shrink (h : Routed lower o) (hs : Orchestrator.Shrinks o o') : Routed lower o' :=
  fun f m w hm hw => h f m w (hs.owner f m hm) (hs.inProgress f w hw)

theorem stealWork (h : Routed lower o) {m : EndpointManager} {r : Stolen}
    (hst : stealWork o lower m = some (o', r)) : Routed lower o' := by
  rcases Orchestrator.stealWork_cases hst with
    ⟨rfl, -⟩ | ⟨w, rest, -, -, -, -, ⟨-, -, rfl⟩ | ⟨hm, -, rfl⟩⟩
  · exact h
  · exact h
  · intro f m' w' hm' hw'
    simp only [Dict.get?_insert] at hm' hw'
    split_ifs at hm' hw'
    · cases hm'
      cases hw'
      exact hm
    · exact h f m' w' hm' hw'

end Routed

/-- Routing by language holds over whole runs: every file in progress, and every work item a
manager holds unreported, is in a language its manager accepts. -/
structure RoutedInv (s : System) : Prop where
  owned : Routed s.lower s.orch
  handed : ∀ r ∈ s.outstanding, languageMismatch s.lower r.manager r.work = false

namespace RoutedInv

variable {s s' : System}

theorem init (p : Option String) (lower : String → String) : RoutedInv (System.init p lower) :=
  ⟨fun _ _ _ h => by simp [System.init, Orchestrator.init] at h, nofun⟩

theorem shrink (h : RoutedInv s) (hl : s'.lower = s.lower)
    (hs : Orchestrator.Shrinks s.orch s'.orch) (hr : ∀ r ∈ s'.outstanding, r ∈ s.outstanding) :
    RoutedInv s' :=
  ⟨hl ▸ h.owned.shrink hs, fun r hr' => hl ▸ h.handed r (hr r hr')⟩

theorem exec (hi : Inv s) (h : RoutedInv s) {a : Action}
    (he : System.exec maxRetries s a = some s') : RoutedInv s' := by
  have hk := hi.queue.owner_keys
  cases a with
  | master | summaryThread =>
    simp only [System.exec, System.masterStep, System.summaryStep] at he
    repeat' split at he
    all_goals first
      | cases he; done
      | cases he; exact h.shrink rfl (.same rfl rfl) fun _ => id
      | cases he; exact h.shrink rfl (.cancelRunningBatch _ _) fun _ => id
  | masterHotswap cfg cr =>
    obtain ⟨_, -, rfl⟩ := System.exec_masterHotswap he
    exact h.shrink rfl (.hotswap hk cfg cr) fun _ => id
  | masterStart workItems =>
    obtain ⟨_, hm, he⟩ := System.exec_masterStart he
    rcases hi.masterStart_cases hm he with ⟨-, rfl⟩ | ⟨r, -, -, -, -, -, rfl⟩ <;>
      exact h.shrink rfl (.same rfl rfl) fun _ => id
  | steal m =>
    obtain ⟨-, o, r, hst, rfl⟩ := System.exec_steal he
    refine ⟨h.owned.stealWork hst, fun r' hr' => ?_⟩
    rcases Orchestrator.stealWork_cases hst with
      ⟨-, rfl⟩ | ⟨w, rest, -, -, -, -, ⟨-, rfl, -⟩ | ⟨hm, rfl, -⟩⟩
    · exact h.handed r' hr'
    · exact h.handed r' hr'
    · rcases List.mem_append.mp hr' with hr' | hr'
      · exact h.handed r' hr'
      · obtain rfl := List.mem_singleton.mp hr'
        exact hm
  | success r result =>
    obtain ⟨-, rfl⟩ := System.exec_success he
    exact h.shrink rfl (.notifyWorkSuccess _ _ _) fun _ => List.mem_of_mem_erase
  | failure r result =>
    obtain ⟨-, rfl⟩ := System.exec_failure he
    exact h.shrink rfl (.notifyWorkFailure _ _ _ _) fun _ => List.mem_of_mem_erase
  | managerStop m =>
    obtain ⟨-, rfl⟩ := System.exec_managerStop he
    exact h.shrink rfl (.same rfl rfl) fun _ => id
  | hotswap cfg cr =>
    obtain ⟨-, rfl⟩ := System.exec_hotswap he
    exact h.shrink rfl (.hotswap hk cfg cr) fun _ => id
  | requestStop =>
    obtain ⟨-, rfl⟩ := System.exec_requestStop he
    exact h.shrink rfl (.same rfl rfl) fun _ => id
  | cancel b =>
    obtain ⟨-, rfl⟩ := System.exec_cancel he
    exact h.shrink rfl (.cancelRunningBatch _ _) fun _ => id
  | submit request => cases he; exact h.shrink rfl (.same rfl rfl) fun _ => id
  | delete b => cases he; exact h.shrink rfl (.same rfl rfl) fun _ => id
  | writeFails writer =>
    obtain ⟨b, ⟨-, _, -, rfl⟩ | ⟨-, -, rfl⟩⟩ := System.exec_writeFails he <;>
      exact h.shrink rfl (.same rfl rfl) fun _ => id

end RoutedInv

theorem Reachable.routedInv (hs : Reachable maxRetries s) : RoutedInv s := by
  induction hs with
  | init p lower => exact RoutedInv.init p lower
  | step a hs he ih => exact ih.exec hs.inv he

/-- No manager is ever given, or owns in progress, a work item in a language it does not accept:
over every run, hot-swaps included, a work item with a (nonempty) language is held only by a
manager configured for that language, ignoring case. -/
theorem language_routed (hs : Reachable maxRetries s) :
    (∀ f m w, s.orch.inProgressOwner.get? f = some m → s.orch.inProgress.get? f = some w →
      languageMismatch s.lower m w = false) ∧
    ∀ r ∈ s.outstanding, languageMismatch s.lower r.manager r.work = false :=
  ⟨hs.routedInv.owned, hs.routedInv.handed⟩

theorem language_routed_afterSteal :
    (∀ f m w, afterSteal.orch.inProgressOwner.get? f = some m →
      afterSteal.orch.inProgress.get? f = some w → languageMismatch afterSteal.lower m w = false) ∧
    ∀ r ∈ afterSteal.outstanding, languageMismatch afterSteal.lower r.manager r.work = false :=
  language_routed (Reachable.execs_getD (by decide))


/-- No work is duplicated among live managers: over every run, hot-swaps and requeues included,
no file is held unreported by two managers that are not retired, nor twice by one. -/
theorem no_duplicate_work (hs : Reachable maxRetries s) :
    ((s.outstanding.filter fun r => r.manager.name ∉ s.orch.oldManagers).map
      (·.work.filepath)).Nodup :=
  hs.inv.report_nodup

def secondManager : EndpointManager := ⟨hotswapName 1 "e1", "e1", ⟨"en", []⟩, "P"⟩

def afterRetake : System :=
  (System.execs 0 (System.init none asciiLower) (lateRun ++ [.steal secondManager])).getD
    (System.init none asciiLower)

theorem no_duplicate_work_afterRetake :
    ((afterRetake.outstanding.filter fun r => r.manager.name ∉ afterRetake.orch.oldManagers).map
      (·.work.filepath)).Nodup :=
  no_duplicate_work (Reachable.execs_getD (by decide))

end BatchKit
