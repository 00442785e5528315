import BatchKit.Orchestrator

/-!
# Queue accounting

`QueueInv` is the part of the accounting invariant that every method keeps by itself:
`_file_queue_size` counts `_file_queue`, no file path is queued twice or both queued and in
progress, `_in_progress` and `_in_progress_owner` have the same keys, each request in progress
sits under its own file path, and nothing is queued once a stop was requested.
-/

namespace BatchKit

structure QueueInv (s : Orchestrator) : Prop where
  size_eq : s.fileQueueSize = s.fileQueue.length
  queue_nodup : (s.fileQueue.map (·.filepath)).Nodup
  queue_disjoint : ∀ w ∈ s.fileQueue, w.filepath ∉ s.inProgress.keys
  owner_keys : s.inProgressOwner.keys = s.inProgress.keys
  key_filepath : ∀ f w, s.inProgress.get? f = some w → w.filepath = f
  stopped_empty : s.stopRequested = true → s.fileQueue = []

theorem foldl_enqueueWork (items : List WorkItemRequest) (s : Orchestrator) :
    items.foldl enqueueWork s =
      { s with fileQueue := s.fileQueue ++ items,
               fileQueueSize := s.fileQueueSize + items.length,
               workResults :=
                 items.foldl (fun d w => d.insert w.filepath none) s.workResults } := by
  induction items generalizing s with
  | nil => cases s; simp
  | cons w items ih =>
    simp only [List.foldl_cons, ih, enqueueWork, put, List.append_assoc, List.singleton_append,
      List.length_cons]
    congr 1
    omega

theorem startBatch_of_quiet {s : Orchestrator} (hz : s.inProgress.size = 0 ∧ s.fileQueueSize = 0)
    (request : BatchRequest) (workItems : List WorkItemRequest) :
    startBatch s (some request) workItems =
      ⟨{ s with
          fileQueue := s.fileQueue ++ workItems
          fileQueueSize := s.fileQueueSize + workItems.length
          workResults := workItems.foldl (fun d w => d.insert w.filepath none)
            (if s.singletonRunSummaryPath = none then ∅ else s.workResults)
          summarizer := true
          onBatchId := request.batchId
          batchCompletionEvt := false
          runSummaryThreadGate := true }, none⟩ := by
  simp only [startBatch, hz, and_self, if_true, foldl_enqueueWork]

namespace QueueInv

variable {s : Orchestrator}

theorem init (singletonRunSummaryPath : Option String) :
    QueueInv (Orchestrator.init singletonRunSummaryPath) where
  size_eq := rfl
  queue_nodup := List.nodup_nil
  queue_disjoint := by simp [Orchestrator.init]
  owner_keys := rfl
  key_filepath := by simp [Orchestrator.init]
  stopped_empty := fun _ => rfl

theorem not_mem_queue (h : QueueInv s) {f : String} (hf : f ∈ s.inProgress.keys) :
    f ∉ s.fileQueue.map (·.filepath) := by
  simp only [List.mem_map, not_exists, not_and]
  rintro w hw rfl
  exact h.queue_disjoint w hw hf

theorem checkBatchCompletion (h : QueueInv s) : QueueInv (BatchKit.checkBatchCompletion s) := by
  unfold BatchKit.checkBatchCompletion
  split
  · exact { h with }
  · exact h

theorem then_ {o : Outcome} (ho : QueueInv o.state) {k : Orchestrator → Orchestrator}
    (hk : ∀ t, QueueInv t → QueueInv (k t)) : QueueInv (o.then k).state := by
  unfold Outcome.then
  split
  · exact hk _ ho
  · exact ho

theorem untrack (h : QueueInv s) (filepath : String) :
    QueueInv (BatchKit.untrack s filepath).state := by
  rw [Orchestrator.untrack_of_keys h.owner_keys]
  split
  · exact
      { size_eq := h.size_eq
        queue_nodup := h.queue_nodup
        queue_disjoint := fun w hw hk => h.queue_disjoint w hw (Dict.mem_keys_erase.mp hk).2
        owner_keys := by simp only [Dict.keys_erase, h.owner_keys]
        key_filepath := fun f w hw => by
          rw [Dict.get?_erase] at hw
          split at hw
          · cases hw
          · exact h.key_filepath f w hw
        stopped_empty := h.stopped_empty }
  · exact h

/-- The retry path of `notify_work_failure`: the request goes back on the queue and leaves
`_in_progress`. -/
theorem requeue (h : QueueInv s) (hs : s.stopRequested = false) {filepath : String}
    {w : WorkItemRequest} (hw : s.inProgress.get? filepath = some w) :
    QueueInv (BatchKit.untrack (BatchKit.put s w) filepath).state := by
  have hk : filepath ∈ s.inProgress.keys := Dict.mem_keys.mpr ⟨w, hw⟩
  have hf := h.key_filepath _ _ hw
  have hpk : (BatchKit.put s w).inProgressOwner.keys = (BatchKit.put s w).inProgress.keys :=
    h.owner_keys
  have hpk' : filepath ∈ (BatchKit.put s w).inProgress.keys := hk
  rw [Orchestrator.untrack_of_keys hpk, if_pos hpk']
  refine
    { size_eq := by simp [put, h.size_eq]
      queue_nodup := ?_
      queue_disjoint := ?_
      owner_keys := by simp only [put, Dict.keys_erase, h.owner_keys]
      key_filepath := fun f v hv => by
        simp only [put, Dict.get?_erase] at hv
        split at hv
        · cases hv
        · exact h.key_filepath f v hv
      stopped_empty := by simp [put, hs] }
  · simp only [put, List.map_append, List.map_cons, List.map_nil]
    exact h.queue_nodup.append (List.nodup_singleton _)
      (List.disjoint_singleton.mpr (hf ▸ h.not_mem_queue hk))
  · intro v hv hvk
    simp only [put, List.mem_append, List.mem_singleton] at hv
    rcases hv with hv | rfl
    · exact h.queue_disjoint v hv (Dict.mem_keys_erase.mp hvk).2
    · exact (Dict.mem_keys_erase.mp hvk).1 hf

theorem stealWork (h : QueueInv s) {s' : Orchestrator} {lower : String → String}
    {m : EndpointManager} {r : Stolen} (hst : stealWork s lower m = some (s', r)) : QueueInv s' := by
  rcases Orchestrator.stealWork_cases hst with ⟨rfl, -⟩ |
    ⟨w, rest, hq, hpos, -, hs, ⟨-, -, rfl⟩ | ⟨-, -, rfl⟩⟩
  · exact h
  all_goals
    have hn := h.queue_nodup
    have hd := h.queue_disjoint
    have hsz := h.size_eq
    simp only [hq, List.map_cons, List.nodup_cons, List.mem_cons, forall_eq_or_imp,
      List.length_cons] at hn hd hsz
  · refine
      { size_eq := by simp [put, hsz]
        queue_nodup := ?_
        queue_disjoint := fun v hv => ?_
        owner_keys := h.owner_keys
        key_filepath := h.key_filepath
        stopped_empty := by simp [put, hs] }
    · simp only [put, List.map_append, List.map_cons, List.map_nil]
      exact hn.2.append (List.nodup_singleton _) (List.disjoint_singleton.mpr hn.1)
    · simp only [put, List.mem_append, List.mem_singleton] at hv
      rcases hv with hv | rfl
      · exact hd.2 v hv
      · exact hd.1
  · refine
      { size_eq := by simp [hsz]
        queue_nodup := hn.2
        queue_disjoint := fun v hv hk => ?_
        owner_keys := by simp only [Dict.keys_insert, h.owner_keys]
        key_filepath := fun f v hv => ?_
        stopped_empty := by simp [hs] }
    · rcases Dict.mem_keys_insert.mp hk with hk | hk
      · exact hn.1 (hk ▸ List.mem_map_of_mem _ hv)
      · exact hd.2 v hv hk
    · simp only [Dict.get?_insert] at hv
      split at hv
      · cases hv; subst f; rfl
      · exact h.key_filepath f v hv

theorem notifyWorkSuccess (h : QueueInv s) (filepath : String) (m : EndpointManager)
    (result : WorkItemResult) : QueueInv (notifyWorkSuccess s filepath m result).state := by
  unfold BatchKit.notifyWorkSuccess
  split
  · exact then_ (h.untrack filepath) fun t ht => checkBatchCompletion { ht with }
  · exact h

theorem notifyWorkFailure (h : QueueInv s) (maxRetries : Nat) (filepath : String)
    (m : EndpointManager) (result : WorkItemResult) :
    QueueInv (notifyWorkFailure s maxRetries filepath m result).state := by
  have hm : QueueInv (mergeResults s filepath result) := { h with }
  unfold BatchKit.notifyWorkFailure
  dsimp only
  split
  · rename_i ha
    split
    · split
      · exact then_ (hm.requeue ha.2 ‹_›) fun t ht => checkBatchCompletion ht
      · exact hm
    · exact then_ (hm.untrack filepath) fun t ht => checkBatchCompletion ht
  · exact h

theorem cancelRunningBatch (h : QueueInv s) (batchId : Int) :
    QueueInv (cancelRunningBatch s batchId).1 := by
  unfold BatchKit.cancelRunningBatch
  split
  · exact h
  · have hq : s.fileQueue.drop s.fileQueueSize = [] := by simp [h.size_eq]
    exact
      { size_eq := by simp [drain, retireManagers, stopManagers, hq]
        queue_nodup := by simp [drain, retireManagers, stopManagers, hq]
        queue_disjoint := by simp [drain, retireManagers, stopManagers, hq]
        owner_keys := rfl
        key_filepath := by simp [retireManagers, stopManagers]
        stopped_empty := by simp [drain, retireManagers, stopManagers, hq] }

theorem requestStop (h : QueueInv s) : QueueInv (requestStop s) := by
  have hq : s.fileQueue.drop s.fileQueueSize = [] := by simp [h.size_eq]
  exact
    { size_eq := by simp [BatchKit.requestStop, drain, stopManagers, hq]
      queue_nodup := by simp [BatchKit.requestStop, drain, stopManagers, hq]
      queue_disjoint := by simp [BatchKit.requestStop, drain, stopManagers, hq]
      owner_keys := h.owner_keys
      key_filepath := h.key_filepath
      stopped_empty := by simp [BatchKit.requestStop, drain, stopManagers, hq] }

theorem startBatch (h : QueueInv s) (hs : s.stopRequested = false)
    (request : Option BatchRequest) {workItems : List WorkItemRequest}
    (hn : (workItems.map (·.filepath)).Nodup) :
    QueueInv (startBatch s request workItems).state := by
  cases request with
  | none => exact { h with }
  | some request =>
    by_cases hz : s.inProgress.size = 0 ∧ s.fileQueueSize = 0
    · have hq : s.fileQueue = [] := by simpa [h.size_eq] using hz.2
      rw [startBatch_of_quiet hz]
      exact
        { size_eq := by simp [hz.2, hq]
          queue_nodup := by simpa [hq] using hn
          queue_disjoint := by simp [Dict.size_eq_zero.mp hz.1]
          owner_keys := h.owner_keys
          key_filepath := h.key_filepath
          stopped_empty := by simp [hs] }
    · simp only [BatchKit.startBatch, if_neg hz]
      exact { h with }

end QueueInv

end BatchKit
