import BatchKit.Callbacks

/-!
# Re-entrant callbacks while managers are stopped

`EndpointManager.request_stop` is outside the sources. Here it sets the manager's stop flag and
may then deliver, on the calling thread, `notify_work_success` or `notify_work_failure` for work
the manager still holds. `_accounting_lock` is reentrant, so such a callback runs at once inside
the operation that stops the manager, and an exception it raises propagates out of that
operation.

The three operations that stop managers under the lock order their statements differently.
`request_stop` sets `_stop_requested` first, and the hot-swap adds each name to
`_old_managers` before it stops the manager, so every callback takes an early return and both
behave exactly as without callbacks. `cancel_running_batch` clears `_in_progress`, then stops
each manager and only afterwards adds its name to `_old_managers`: a callback of the first
manager is accepted, finds no entry for its file, and raises `KeyError`. The cancel stops there,
with the other managers neither stopped nor retired and `_batch_completion_evt` not set.
-/

namespace BatchKit

def Outcome.bind (o : Outcome) (k : Orchestrator → Outcome) : Outcome :=
  match o.raised with
  | none => k o.state
  | some _ => o

@[simp] theorem Outcome.bind_ok (s : Orchestrator) (k : Orchestrator → Outcome) :
    (Outcome.mk s none).bind k = k s := rfl

theorem Outcome.bind_of_raised {o : Outcome} {e : PyError} (h : o.raised = some e)
    (k : Orchestrator → Outcome) : o.bind k = o := by
  simp [Outcome.bind, h]

theorem Outcome.then_of_raised {o : Outcome} {e : PyError} (h : o.raised = some e)
    (k : Orchestrator → Orchestrator) : o.then k = o := by
  simp [Outcome.then, h]

/-- A callback a manager's `request_stop` delivers on the calling thread. -/
inductive Callback where
  | success (filepath : String) (result : WorkItemResult)
  | failure (filepath : String) (result : WorkItemResult)
deriving DecidableEq, Repr

def Callback.filepath : Callback → String
  | .success filepath _ | .failure filepath _ => filepath

def Callback.deliver (maxRetries : Nat) (manager : EndpointManager) (o : Orchestrator) :
    Callback → Outcome
  | .success filepath result => notifyWorkSuccess o filepath manager result
  | .failure filepath result => notifyWorkFailure o maxRetries filepath manager result

def deliverAll (maxRetries : Nat) (manager : EndpointManager) :
    List Callback → Orchestrator → Outcome
  | [], o => ⟨o, none⟩
  | c :: cs, o => (c.deliver maxRetries manager o).bind (deliverAll maxRetries manager cs)

/-- `manager.request_stop()`: its stop flag, then the callbacks `callbacks manager` it
delivers. -/
def requestStopManager (maxRetries : Nat) (callbacks : EndpointManager → List Callback)
    (manager : EndpointManager) (o : Orchestrator) : Outcome :=
  deliverAll maxRetries manager (callbacks manager) (stopManagers o [manager])

section Loops

variable (maxRetries : Nat) (callbacks : EndpointManager → List Callback)

/-- `for m in self._endpoint_managers: m.request_stop()`, in `request_stop`. -/
def stopEach : List EndpointManager → Orchestrator → Outcome
  | [], o => ⟨o, none⟩
  | m :: ms, o => (requestStopManager maxRetries callbacks m o).bind (stopEach ms)

/-- `self._old_managers.add(m.name); m.request_stop()` for each deleted manager, in the
hot-swap. -/
def retireEach : List EndpointManager → Orchestrator → Outcome
  | [], o => ⟨o, none⟩
  | m :: ms, o =>
    (requestStopManager maxRetries callbacks m
      { o with oldManagers := addAll o.oldManagers [m.name] }).bind (retireEach ms)

/-- `m.request_stop(); self._old_managers.add(m.name)` for each manager, in
`cancel_running_batch`. -/
def stopThenRetire : List EndpointManager → Orchestrator → Outcome
  | [], o => ⟨o, none⟩
  | m :: ms, o =>
    (requestStopManager maxRetries callbacks m o).bind fun o =>
      stopThenRetire ms { o with oldManagers := addAll o.oldManagers [m.name] }

end Loops

section Operations

variable (maxRetries : Nat) (callbacks : EndpointManager → List Callback) (s : Orchestrator)

def requestStopReentrant : Outcome :=
  let s := drain { s with stopRequested := true }
  let s := { s with submissionQue := s.submissionQue ++ [none], batchCompletionEvt := true }
  (stopEach maxRetries callbacks s.endpointManagers s).then
    fun s => { s with runSummaryThreadGate := true }

def cancelRunningBatchReentrant (batchId : Int) : Outcome × Bool :=
  if s.onBatchId ≠ batchId then (⟨s, none⟩, false)
  else
    let s := drain s
    let s := { s with inProgress := ∅, inProgressOwner := ∅ }
    ((stopThenRetire maxRetries callbacks s.endpointManagers s).then
      fun s => { s with batchCompletionEvt := true }, true)

def hotswapEndpointManagersReentrant (configData : Option (Dict String EndpointConfig))
    (constructorRaises : Bool) : Outcome × List EndpointManager :=
  match configData with
  | none => (⟨s, none⟩, [])
  | some configData =>
    if s.stopRequested then (⟨s, none⟩, [])
    else
      let deleted := (hotswapDiff s configData).1
      let newEmObjs := (hotswapDiff s configData).2
      let s := { s with endpointGeneration := s.endpointGeneration + 1 }
      if constructorRaises ∧ newEmObjs ≠ [] then (⟨s, none⟩, [])
      else if s.stopRequested then (⟨s, none⟩, [])
      else
        match retireEach maxRetries callbacks
            (s.endpointManagers.filter (·.endpointName ∈ deleted.keys)) s with
        | ⟨s, some e⟩ => (⟨s, some e⟩, [])
        | ⟨s, none⟩ =>
          let r := reassign s.inProgressOwner deleted s.inProgress.entries
            ⟨s, s.inProgress, s.inProgressOwner⟩
          match r.2 with
          | some e => (⟨r.1.orch, some e⟩, [])
          | none =>
            (⟨{ r.1.orch with
                  inProgress := r.1.workInProgress
                  inProgressOwner := r.1.workInProgressOwner
                  endpointManagers :=
                    s.endpointManagers.filter (·.endpointName ∉ deleted.keys) ++ newEmObjs }, none⟩,
              newEmObjs)

end Operations

section Dropped

variable {maxRetries : Nat} {callbacks : EndpointManager → List Callback}

theorem deliverAll_dropped {manager : EndpointManager} {o : Orchestrator}
    (h : ¬accepts o manager) : ∀ cs, deliverAll maxRetries manager cs o = ⟨o, none⟩
  | [] => rfl
  | c :: cs => by
    have hc : c.deliver maxRetries manager o = ⟨o, none⟩ := by
      cases c <;> simp [Callback.deliver, notifyWorkSuccess, notifyWorkFailure, h]
    rw [deliverAll, hc, Outcome.bind_ok, deliverAll_dropped h cs]

theorem retireEach_eq : ∀ (ms : List EndpointManager) (o : Orchestrator),
    retireEach maxRetries callbacks ms o = ⟨retireManagers o ms, none⟩
  | [], o => rfl
  | m :: ms, o => by
    have hold : m.name ∈ (stopManagers { o with oldManagers := addAll o.oldManagers [m.name] }
        [m]).oldManagers := mem_addAll.mpr (.inr (List.mem_singleton_self _))
    rw [retireEach, requestStopManager, deliverAll_dropped (fun ha => ha.1 hold), Outcome.bind_ok,
      retireEach_eq ms]
    rfl

theorem stopEach_of_stopped : ∀ (ms : List EndpointManager) {o : Orchestrator},
    o.stopRequested = true → stopEach maxRetries callbacks ms o = ⟨stopManagers o ms, none⟩
  | [], o, _ => rfl
  | m :: ms, o, hs => by
    rw [stopEach, requestStopManager, deliverAll_dropped (o := stopManagers o [m])
      (fun ha => Bool.false_ne_true (ha.2.symm.trans hs)), Outcome.bind_ok,
      stopEach_of_stopped ms (o := stopManagers o [m]) hs]
    rfl

end Dropped

/-- `request_stop` and the hot-swap drop every re-entrant callback: with callbacks, each does
exactly what it does without. -/
theorem stop_and_hotswap_drop_reentrant (maxRetries : Nat)
    (callbacks : EndpointManager → List Callback) (s : Orchestrator)
    (configData : Option (Dict String EndpointConfig)) (constructorRaises : Bool) :
    requestStopReentrant maxRetries callbacks s = ⟨requestStop s, none⟩ ∧
    hotswapEndpointManagersReentrant maxRetries callbacks s configData constructorRaises =
      hotswapEndpointManagers s configData constructorRaises := by
  refine ⟨by rw [requestStopReentrant, stopEach_of_stopped _ rfl]; rfl, ?_⟩
  rcases configData with _ | configData
  · rfl
  simp only [hotswapEndpointManagersReentrant, retireEach_eq]
  rfl

theorem deliver_of_cleared (maxRetries : Nat) {o : Orchestrator} {manager : EndpointManager}
    (hp : o.inProgress = ∅) (ha : accepts o manager) (c : Callback) :
    (c.deliver maxRetries manager o).raised = some (.keyError c.filepath) ∧
      (c.deliver maxRetries manager o).state.batchCompletionEvt = o.batchCompletionEvt := by
  cases c with
  | success filepath result =>
    simp [Callback.deliver, notifyWorkSuccess, ha, untrack, hp, Callback.filepath]
  | failure filepath result =>
    simp only [Callback.deliver, notifyWorkFailure, if_pos ha]
    split_ifs
    · simp [mergeResults, hp, Callback.filepath]
    · simp [untrack, mergeResults, hp, Callback.filepath]

/-- `cancel_running_batch` stops the first manager before retiring it, after clearing
`_in_progress`: a callback of that manager is accepted and raises `KeyError`, and the cancel
ends there without setting `_batch_completion_evt`. -/
theorem cancel_reentrant_raises (maxRetries : Nat) (callbacks : EndpointManager → List Callback)
    {s : Orchestrator} {batchId : Int} (hb : s.onBatchId = batchId)
    {m : EndpointManager} {rest : List EndpointManager} (hm : s.endpointManagers = m :: rest)
    (hold : m.name ∉ s.oldManagers) (hstop : s.stopRequested = false)
    {c : Callback} {cs : List Callback} (hc : callbacks m = c :: cs) :
    (cancelRunningBatchReentrant maxRetries callbacks s batchId).1.raised =
      some (.keyError c.filepath) ∧
    (cancelRunningBatchReentrant maxRetries callbacks s batchId).1.state.batchCompletionEvt =
      s.batchCompletionEvt := by
  set cleared := { drain s with inProgress := ∅, inProgressOwner := ∅ }
  have hd := deliver_of_cleared maxRetries (o := stopManagers cleared [m]) rfl ⟨hold, hstop⟩ c
  -- the loop stops at the first callback of the first manager
  have hloop : stopThenRetire maxRetries callbacks (m :: rest) cleared =
      c.deliver maxRetries m (stopManagers cleared [m]) := by
    rw [stopThenRetire, requestStopManager, hc, deliverAll, Outcome.bind_of_raised hd.1,
      Outcome.bind_of_raised hd.1]
  have hcancel : (cancelRunningBatchReentrant maxRetries callbacks s batchId).1 =
      (stopThenRetire maxRetries callbacks (m :: rest) cleared).then
        fun s => { s with batchCompletionEvt := true } := by
    rw [cancelRunningBatchReentrant, if_neg (not_not.mpr hb)]
    exact congrArg (fun l => (stopThenRetire maxRetries callbacks l cleared).then
      fun s => { s with batchCompletionEvt := true }) hm
  rw [hcancel, hloop, Outcome.then_of_raised hd.1]
  exact hd

def successOfA (m : EndpointManager) : List Callback :=
  if m = firstManager then [.success "a" ⟨1, false⟩] else []

theorem cancel_reentrant_raises_afterSteal :
    stolenReport ∈ afterSteal.outstanding ∧ stolenReport.manager = firstManager ∧
    stolenReport.work.filepath = "a" ∧
    (cancelRunningBatchReentrant 0 successOfA afterSteal.orch 1).1.raised =
      some (.keyError (Callback.success "a" ⟨1, false⟩).filepath) ∧
    (cancelRunningBatchReentrant 0 successOfA afterSteal.orch 1).1.state.batchCompletionEvt =
      afterSteal.orch.batchCompletionEvt :=
  ⟨by decide, rfl, rfl, cancel_reentrant_raises 0 successOfA (by decide)
    (show afterSteal.orch.endpointManagers = [firstManager] by decide) (by decide) (by decide)
    (show successOfA firstManager = [.success "a" ⟨1, false⟩] by decide)⟩

end BatchKit
