import BatchKit.Completion

/-!
# Stopping

Once `_stop_requested` is set it stays set, and every later step of every thread leaves the
queue empty, puts nothing in progress, merges no result, starts no manager and starts no
batch: the master returns at the stop check of its batch-start block. A second `request_stop`
changes nothing but the submission queue, where it puts one more `None`.
-/

namespace BatchKit

variable {maxRetries : Nat} {s₀ s s' : System}

/-- What a pending stop keeps from state `s₀` on. -/
structure StopFrame (s₀ s : System) : Prop where
  stopped : s.orch.stopRequested = true
  queue : s.orch.fileQueue = []
  size : s.orch.fileQueueSize = 0
  inProgress : ∀ f ∈ s.orch.inProgress.keys, f ∈ s₀.orch.inProgress.keys
  results : s.orch.workResults = s₀.orch.workResults
  managers : s.orch.endpointManagers = s₀.orch.endpointManagers
  started : s.started = s₀.started
  epoch : s.epoch = s₀.epoch

theorem StopFrame.cancel (h : StopFrame s₀ s) (batchId : Int) :
    StopFrame s₀ { s with orch := (cancelRunningBatch s.orch batchId).1 } := by
  by_cases hb : s.orch.onBatchId = batchId
  · rw [Orchestrator.cancelRunningBatch_of_eq hb]
    exact { h with
      queue := by simp [h.queue]
      size := rfl
      inProgress := fun _ hf => absurd hf (List.not_mem_nil _) }
  · rw [Orchestrator.cancelRunningBatch_of_ne hb]
    exact h

theorem StopFrame.exec (h : StopFrame s₀ s) {a : Action}
    (he : System.exec maxRetries s a = some s') : StopFrame s₀ s' := by
  have hna : ∀ r : Report, ¬accepts s.orch r.manager := fun _ ha =>
    absurd ha.2 (by simp [h.stopped])
  cases a with
  | master =>
    change System.masterStep s = some s' at he
    unfold System.masterStep at he
    repeat' split at he
    all_goals first
      | cases he; done
      | cases he; exact { h with }
      | cases he
        rename_i r _
        have hc := h.cancel r.batchId
        split
        · exact { hc with epoch := (Inv.epoch_cons (by rfl) s).trans h.epoch }
        · exact { hc with }
  | masterHotswap configData constructorRaises =>
    obtain ⟨_, -, rfl⟩ := System.exec_masterHotswap he
    simp only [hotswap_stopped h.stopped, List.append_nil]
    exact { h with }
  | masterStart workItems =>
    obtain ⟨_, -, he⟩ := System.exec_masterStart he
    simp only [System.masterStart, h.stopped, if_true, Option.some.injEq] at he
    subst he
    exact { h with }
  | summaryThread =>
    change System.summaryStep s = some s' at he
    unfold System.summaryStep at he
    repeat' split at he
    all_goals first
      | cases he; done
      | cases he; exact { h with }
  | steal m =>
    obtain ⟨-, o, r, hst, rfl⟩ := System.exec_steal he
    rcases Orchestrator.stealWork_cases hst with ⟨rfl, -⟩ | ⟨w, rest, -, -, -, hs, -⟩
    · exact { h with }
    · simp [h.stopped] at hs
  | success r result =>
    obtain ⟨-, rfl⟩ := System.exec_success he
    obtain ⟨h₁, -, h₃⟩ := report_ignored (hna r) maxRetries result false
    rw [h₁, h₃]
    exact { h with }
  | failure r result =>
    obtain ⟨-, rfl⟩ := System.exec_failure he
    obtain ⟨-, h₂, h₃⟩ := report_ignored (hna r) maxRetries result true
    rw [h₂, h₃]
    exact { h with }
  | managerStop m =>
    obtain ⟨-, rfl⟩ := System.exec_managerStop he
    exact { h with }
  | hotswap configData constructorRaises =>
    obtain ⟨-, rfl⟩ := System.exec_hotswap he
    simp only [hotswap_stopped h.stopped, List.append_nil]
    exact { h with }
  | requestStop =>
    obtain ⟨-, rfl⟩ := System.exec_requestStop he
    exact { h with
      stopped := rfl
      queue := by simp [BatchKit.requestStop, drain, stopManagers, h.queue]
      size := rfl }
  | cancel batchId =>
    obtain ⟨-, rfl⟩ := System.exec_cancel he
    have hc := h.cancel batchId
    split
    · exact { hc with
        epoch := (Inv.epoch_cons (by rfl) s).trans h.epoch }
    · exact { hc with }
  | submit request => cases he; exact { h with }
  | delete batchId => cases he; exact { h with }
  | writeFails writer =>
    obtain ⟨b, ⟨-, _, -, rfl⟩ | ⟨-, -, rfl⟩⟩ := System.exec_writeFails he <;> exact { h with }

theorem StopFrame.execs : ∀ {s s' : System} {l : List Action}, StopFrame s₀ s →
    System.execs maxRetries s l = some s' → StopFrame s₀ s'
  | _, _, [], h, he => by cases he; exact h
  | _, _, a :: l, h, he => by
    simp only [System.execs, Option.bind_eq_some] at he
    obtain ⟨s₁, h₁, h₂⟩ := he
    exact StopFrame.execs (h.exec h₁) h₂

theorem addAll_of_subset {α : Type} [DecidableEq α] :
    ∀ {l xs : List α}, (∀ x ∈ xs, x ∈ l) → addAll l xs = l
  | _, [], _ => rfl
  | l, x :: xs, h => by
    simp only [addAll, List.foldl_cons, List.insert_of_mem (h x (List.mem_cons_self _ _))]
    exact addAll_of_subset fun y hy => h y (List.mem_cons_of_mem _ hy)

/-- A second `request_stop` finds the queue drained and the managers stopped. -/
theorem requestStop_requestStop (o : Orchestrator) :
    { requestStop (requestStop o) with submissionQue := (requestStop o).submissionQue } =
      requestStop o := by
  have h : addAll (addAll o.stoppedManagers o.endpointManagers) o.endpointManagers =
      addAll o.stoppedManagers o.endpointManagers :=
    addAll_of_subset fun x hx => mem_addAll.mpr (.inr hx)
  simp [requestStop, drain, stopManagers, h]

theorem stop_is_final (hs : Reachable maxRetries s) (hstop : s.orch.stopRequested = true)
    {l : List Action} (he : System.execs maxRetries s l = some s') :
    StopFrame s s' ∧ ∀ o : Orchestrator,
      { requestStop (requestStop o) with submissionQue := (requestStop o).submissionQue } =
        requestStop o := by
  have hq := hs.inv.queue
  have hQ := hq.stopped_empty hstop
  refine ⟨StopFrame.execs ⟨hstop, hQ, by simp [hq.size_eq, hQ], fun _ => id, rfl, rfl, rfl, rfl⟩
    he, requestStop_requestStop⟩

def afterStop : System :=
  (System.execs 0 (System.init none asciiLower) [.requestStop]).getD (System.init none asciiLower)

def afterStopRun : System :=
  (System.execs 0 afterStop [.master, .master, .master, .masterHotswap (some oneEndpoint) false,
    .masterStart [oneFileItem]]).get (by decide)

theorem stop_is_final_afterStopRun :
    StopFrame afterStop afterStopRun ∧ ∀ o : Orchestrator,
      { requestStop (requestStop o) with submissionQue := (requestStop o).submissionQue } =
        requestStop o :=
  stop_is_final (Reachable.execs_getD (by decide)) (by decide) (Option.eq_some_of_isSome _)

end BatchKit
