import BatchKit.Shutdown

/-!
# The life of a work item

The spec's life of a work item: it enters the queue when its batch starts, may go back and
forth between the queue and progress, and leaves by a recorded result. `FileState` is that
abstract life and `FileStep` its moves, each labelled with the step of the system that makes
it; `fileState` reads a file's state off the accounting.

The accounting refines the life: a batch start puts each of its files in the queue, and until
the batch is canceled or a stop is requested, every other step of every thread moves each file
of the batch by one `FileStep` or leaves it where it is. In particular only the owner's last
report finishes a file, and nothing takes a finished file back.
-/

namespace BatchKit

/-- Where a work item is in its life. -/
inductive FileState where
  | queued
  | inProgress (owner : EndpointManager)
  | done
deriving DecidableEq, Repr

/-- The state the accounting gives file `f`: queued, in progress with its owner, or out of both
with a result. -/
def fileState (o : Orchestrator) (f : String) : Option FileState :=
  if f ∈ o.fileQueue.map (·.filepath) then some .queued
  else match o.inProgressOwner.get? f, o.workResults.get? f with
    | some m, _ => some (.inProgress m)
    | none, some (some _) => some .done
    | none, _ => none

/-- The moves of work item `f`, with the step that makes each; a report moves only the file it
is for. -/
inductive FileStep (f : String) : Action → FileState → FileState → Prop where
  | steal (m : EndpointManager) : FileStep f (.steal m) .queued (.inProgress m)
  | succeed (r : Report) (result : WorkItemResult) (hf : r.work.filepath = f) :
      FileStep f (.success r result) (.inProgress r.manager) .done
  | retry (r : Report) (result : WorkItemResult) (hf : r.work.filepath = f) :
      FileStep f (.failure r result) (.inProgress r.manager) .queued
  | giveUp (r : Report) (result : WorkItemResult) (hf : r.work.filepath = f) :
      FileStep f (.failure r result) (.inProgress r.manager) .done
  | retire (m : EndpointManager) (configData : Option (Dict String EndpointConfig))
      (constructorRaises : Bool) :
      FileStep f (.hotswap configData constructorRaises) (.inProgress m) .queued
  | retireByMaster (m : EndpointManager) (configData : Option (Dict String EndpointConfig))
      (constructorRaises : Bool) :
      FileStep f (.masterHotswap configData constructorRaises) (.inProgress m) .queued

section Accounting

variable {o o' : Orchestrator} {f : String}

theorem fileState_congr
    (hq : f ∈ o'.fileQueue.map (·.filepath) ↔ f ∈ o.fileQueue.map (·.filepath))
    (ho : o'.inProgressOwner.get? f = o.inProgressOwner.get? f)
    (hr : o'.workResults.get? f = o.workResults.get? f) : fileState o' f = fileState o f := by
  simp only [fileState, hq, ho, hr]

theorem fileState_queued (h : f ∈ o.fileQueue.map (·.filepath)) :
    fileState o f = some .queued := by
  simp [fileState, h]

theorem fileState_inProgress (hq : QueueInv o) {m : EndpointManager}
    (h : o.inProgressOwner.get? f = some m) : fileState o f = some (.inProgress m) := by
  have hk : f ∈ o.inProgress.keys := hq.owner_keys ▸ Dict.mem_keys.mpr ⟨m, h⟩
  simp [fileState, hq.not_mem_queue hk, h]

theorem fileState_done (hq : f ∉ o.fileQueue.map (·.filepath))
    (ho : o.inProgressOwner.get? f = none) {r : WorkItemResult}
    (hr : o.workResults.get? f = some (some r)) : fileState o f = some .done := by
  simp [fileState, hq, ho, hr]

theorem fileState_isSome (hq : QueueInv o)
    (h : f ∈ o.fileQueue.map (·.filepath) ∨ f ∈ o.inProgress.keys ∨
      ∃ r, o.workResults.get? f = some (some r)) : ∃ x, fileState o f = some x := by
  unfold fileState
  split
  · exact ⟨_, rfl⟩
  rename_i hnq
  rcases ho : o.inProgressOwner.get? f with _ | m
  · rcases h with h | h | ⟨r, hr⟩
    · exact absurd h hnq
    · exact absurd (hq.owner_keys ▸ h) (Dict.get?_eq_none.mp ho)
    · exact ⟨_, by rw [hr]⟩
  · exact ⟨_, rfl⟩

theorem fileState_stealWork (hq : QueueInv o) {lower : String → String} {m : EndpointManager}
    {r : Stolen} (hst : stealWork o lower m = some (o', r)) (f : String) :
    fileState o' f = fileState o f ∨
      fileState o f = some .queued ∧ fileState o' f = some (.inProgress m) := by
  rcases Orchestrator.stealWork_cases hst with
    ⟨rfl, -⟩ | ⟨w, rest, hw, -, -, -, ⟨-, -, rfl⟩ | ⟨-, -, rfl⟩⟩
  · exact .inl rfl
  · -- a language mismatch moves the head to the tail
    exact .inl (fileState_congr (by simp [put, hw, or_comm]) rfl rfl)
  · have hnd : w.filepath ∉ rest.map (·.filepath) := by
      have := hq.queue_nodup
      rw [hw, List.map_cons] at this
      exact (List.nodup_cons.mp this).1
    by_cases hf : f = w.filepath
    · subst hf
      exact .inr ⟨fileState_queued (by simp [hw]), by simp [fileState, hnd, Dict.get?_insert]⟩
    · exact .inl (fileState_congr (by simp [hw, hf]) (by simp [Dict.get?_insert, hf]) rfl)

theorem fileState_finish (hq : QueueInv o) {filepath : String} {m : EndpointManager}
    (hm : o.inProgressOwner.get? filepath = some m) (res : WorkItemResult)
    (hQ : o'.fileQueue = o.fileQueue) (hO : o'.inProgressOwner = o.inProgressOwner.erase filepath)
    (hR : o'.workResults = o.workResults.insert filepath (some res)) (f : String) :
    fileState o' f = fileState o f ∨
      f = filepath ∧ fileState o f = some (.inProgress m) ∧ fileState o' f = some .done := by
  by_cases hf : f = filepath
  · subst hf
    have hk : f ∈ o.inProgress.keys := hq.owner_keys ▸ Dict.mem_keys.mpr ⟨m, hm⟩
    exact .inr ⟨rfl, fileState_inProgress hq hm, fileState_done (hQ ▸ hq.not_mem_queue hk)
      (by simp [hO, Dict.get?_erase]) (by rw [hR, Dict.get?_insert, if_pos rfl])⟩
  · exact .inl (fileState_congr (by rw [hQ]) (by simp [hO, Dict.get?_erase, hf])
      (by simp [hR, Dict.get?_insert, hf]))

theorem fileState_requeue (hq : QueueInv o) {mv : List (String × WorkItemRequest)}
    (hmv : ∀ e ∈ mv, o.inProgress.get? e.1 = some e.2)
    (hQ : o'.fileQueue = o.fileQueue ++ mv.map Prod.snd)
    (hO : ∀ f, o'.inProgressOwner.get? f =
      if f ∈ mv.map Prod.fst then none else o.inProgressOwner.get? f)
    (hR : ∀ f ∉ mv.map Prod.fst, o'.workResults.get? f = o.workResults.get? f) (f : String) :
    fileState o' f = fileState o f ∨ f ∈ mv.map Prod.fst ∧ fileState o' f = some .queued := by
  -- each moved request sits under its own file path
  have hkey : ∀ e ∈ mv, e.2.filepath = e.1 := fun e he => hq.key_filepath _ _ (hmv e he)
  by_cases hf : f ∈ mv.map Prod.fst
  · refine .inr ⟨hf, fileState_queued ?_⟩
    obtain ⟨⟨f, w⟩, he, rfl⟩ := List.mem_map.mp hf
    rw [hQ, List.map_append, List.mem_append, List.map_map]
    exact .inr (List.mem_map.mpr ⟨(f, w), he, hkey _ he⟩)
  · refine .inl (fileState_congr ?_ (by rw [hO, if_neg hf]) (hR f hf))
    rw [hQ, List.map_append, List.mem_append, List.map_map, or_iff_left_iff_imp]
    rintro h
    obtain ⟨e, he, rfl⟩ := List.mem_map.mp h
    exact absurd (List.mem_map.mpr ⟨e, he, (hkey e he).symm⟩) hf

theorem fileState_hotswap (hq : QueueInv o) (cfg : Option (Dict String EndpointConfig))
    (constructorRaises : Bool) (f : String) :
    fileState (hotswapEndpointManagers o cfg constructorRaises).1.state f = fileState o f ∨
      ∃ m, fileState o f = some (.inProgress m) ∧
        fileState (hotswapEndpointManagers o cfg constructorRaises).1.state f = some .queued := by
  rcases cfg with _ | configData
  · exact .inl rfl
  cases hs : o.stopRequested
  · by_cases hc : constructorRaises = true ∧ (hotswapDiff o configData).2 ≠ []
    · rw [hotswap_constructorRaises hs hc]
      exact .inl rfl
    · rw [hotswap_swap hq.owner_keys hs hc]
      have hmv : ∀ e ∈ o.inProgress.entries.filter
          (moved o.inProgressOwner (hotswapDiff o configData).1),
          o.inProgress.get? e.1 = some e.2 := fun e he =>
        Dict.get?_eq_some.mpr (List.mem_filter.mp he).1
      refine (fileState_requeue hq hmv ?_ ?_ ?_ f).imp_right fun ⟨hf, h⟩ => ?_
      · rfl
      · exact Dict.get?_eraseAll _ _
      · exact fun _ _ => rfl
      · -- a moved file was in progress
        obtain ⟨⟨f, w⟩, he, rfl⟩ := List.mem_map.mp hf
        obtain ⟨m, hm⟩ := Dict.mem_keys.mp
          (hq.owner_keys ▸ Dict.mem_keys.mpr ⟨w, hmv _ he⟩ : f ∈ o.inProgressOwner.keys)
        exact ⟨m, fileState_inProgress hq hm, h⟩
  · rw [hotswap_stopped hs]
    exact .inl rfl

end Accounting

variable {maxRetries : Nat} {s s' : System}

theorem cancelRunningBatch_of_snd {o : Orchestrator} {batchId : Int}
    (h : (cancelRunningBatch o batchId).2 = false) : (cancelRunningBatch o batchId).1 = o := by
  by_cases hb : o.onBatchId = batchId
  · simp [Orchestrator.cancelRunningBatch_of_eq hb] at h
  · rw [Orchestrator.cancelRunningBatch_of_ne hb]

theorem fileState_cancel {o : Orchestrator} {batchId : Int} {events : List Event}
    (hnc : (sinceStart (if (cancelRunningBatch o batchId).2 then .batchCanceled batchId :: events
      else events)).any Event.isCancel = false) (f : String) :
    fileState (cancelRunningBatch o batchId).1 f = fileState o f := by
  cases h : (cancelRunningBatch o batchId).2
  · rw [cancelRunningBatch_of_snd h]
  · simp [h, Event.isBatchStart, Event.isCancel] at hnc

theorem exec_events {a : Action} (he : System.exec maxRetries s a = some s')
    (ha : ∀ workItems, a ≠ .masterStart workItems) :
    ∃ pre, s'.events = pre ++ s.events ∧ ∀ e ∈ pre, e.isBatchStart = false := by
  have hcancel : ∀ (o : Orchestrator) (batchId : Int), ∃ pre,
      (if (cancelRunningBatch o batchId).2 then .batchCanceled batchId :: s.events
        else s.events) = pre ++ s.events ∧ ∀ e ∈ pre, e.isBatchStart = false := fun o b => by
    split
    · exact ⟨[_], rfl, by simp [Event.isBatchStart]⟩
    · exact ⟨[], rfl, nofun⟩
  cases a with
  | master =>
    change System.masterStep s = some s' at he
    unfold System.masterStep at he
    repeat' split at he
    all_goals first
      | cases he; done
      | cases he; exact ⟨[], rfl, nofun⟩
      | cases he; exact ⟨[_], rfl, by simp [Event.isBatchStart]⟩
      | cases he; exact hcancel _ _
  | masterHotswap configData constructorRaises =>
    obtain ⟨_, -, rfl⟩ := System.exec_masterHotswap he
    exact ⟨[], rfl, nofun⟩
  | masterStart workItems => exact absurd rfl (ha workItems)
  | summaryThread =>
    change System.summaryStep s = some s' at he
    unfold System.summaryStep at he
    repeat' split at he
    all_goals first
      | cases he; done
      | cases he; exact ⟨[], rfl, nofun⟩
      | cases he; exact ⟨[_], rfl, by simp [Event.isBatchStart]⟩
  | steal m =>
    obtain ⟨-, o, r, -, rfl⟩ := System.exec_steal he
    exact ⟨[], rfl, nofun⟩
  | success r result =>
    obtain ⟨-, rfl⟩ := System.exec_success he
    exact ⟨_, rfl, Inv.reportEvents_not_batchStart _ _ _ _ _ _⟩
  | failure r result =>
    obtain ⟨-, rfl⟩ := System.exec_failure he
    exact ⟨_, rfl, Inv.reportEvents_not_batchStart _ _ _ _ _ _⟩
  | managerStop m =>
    obtain ⟨-, rfl⟩ := System.exec_managerStop he
    exact ⟨[], rfl, nofun⟩
  | hotswap configData constructorRaises =>
    obtain ⟨-, rfl⟩ := System.exec_hotswap he
    exact ⟨[], rfl, nofun⟩
  | requestStop =>
    obtain ⟨-, rfl⟩ := System.exec_requestStop he
    exact ⟨[], rfl, nofun⟩
  | cancel batchId =>
    obtain ⟨-, rfl⟩ := System.exec_cancel he
    exact hcancel _ _
  | submit request => cases he; exact ⟨[], rfl, nofun⟩
  | delete batchId => cases he; exact ⟨[], rfl, nofun⟩
  | writeFails writer =>
    obtain ⟨b, ⟨-, _, -, rfl⟩ | ⟨-, -, rfl⟩⟩ := System.exec_writeFails he <;>
      exact ⟨[_], rfl, by simp [Event.isBatchStart]⟩

theorem report_owned (hi : Inv s) {r : Report} (hr : r ∈ s.outstanding)
    (ha : accepts s.orch r.manager) :
    s.orch.inProgressOwner.get? r.work.filepath = some r.manager ∧
      s.orch.inProgress.get? r.work.filepath = some r.work :=
  hi.report_owner r hr (Inv.active_iff.mpr ha.1) ha.2

/-- One step of any thread moves each file by at most one move of its life, unless it cancels
the current batch or requests a stop. -/
theorem fileState_exec (hi : Inv s) {a : Action} (he : System.exec maxRetries s a = some s')
    (ha : ∀ workItems, a ≠ .masterStart workItems) (hst : s'.orch.stopRequested = false)
    (hnc : (sinceStart s'.events).any Event.isCancel = false) (f : String) :
    fileState s'.orch f = fileState s.orch f ∨
      ∃ x y, fileState s.orch f = some x ∧ fileState s'.orch f = some y ∧ FileStep f a x y := by
  have hq := hi.queue
  cases a with
  | master =>
    change System.masterStep s = some s' at he
    unfold System.masterStep at he
    repeat' split at he
    all_goals first
      | cases he; done
      | cases he; exact .inl rfl
      | cases he; exact .inl (fileState_cancel hnc f)
  | masterHotswap configData constructorRaises =>
    obtain ⟨_, -, rfl⟩ := System.exec_masterHotswap he
    exact (fileState_hotswap hq _ _ f).imp_right fun ⟨m, h, h'⟩ =>
      ⟨_, _, h, h', .retireByMaster m configData constructorRaises⟩
  | masterStart workItems => exact absurd rfl (ha workItems)
  | summaryThread =>
    change System.summaryStep s = some s' at he
    unfold System.summaryStep at he
    repeat' split at he
    all_goals first | cases he; done | cases he; exact .inl rfl
  | steal m =>
    obtain ⟨-, o, r, hs, rfl⟩ := System.exec_steal he
    exact (fileState_stealWork hq hs f).imp_right fun ⟨h, h'⟩ => ⟨_, _, h, h', .steal m⟩
  | success r result =>
    obtain ⟨⟨hr, -⟩, rfl⟩ := System.exec_success he
    by_cases hac : accepts s.orch r.manager
    · have ho := report_owned hi hr hac
      rw [Orchestrator.notifyWorkSuccess_of_accepts hq.owner_keys hac
        (Dict.mem_keys.mpr ⟨_, ho.2⟩)]
      refine (fileState_finish hq ho.1 (mergedResult s.orch r.work.filepath result) ?_ ?_ ?_
        f).imp_right fun h => ⟨_, _, h.2.1, h.2.2, .succeed r result h.1.symm⟩ <;>
      simp only [Orchestrator.checkBatchCompletion_eq]
    · exact .inl (by rw [(report_ignored hac maxRetries result false).1])
  | failure r result =>
    obtain ⟨⟨hr, -⟩, rfl⟩ := System.exec_failure he
    by_cases hac : accepts s.orch r.manager
    · have ho := report_owned hi hr hac
      by_cases hre : retries s.orch maxRetries r.work.filepath result
      · rw [Orchestrator.notifyWorkFailure_retry hq.owner_keys hac hre ho.2]
        have hmv : ∀ e ∈ [(r.work.filepath, r.work)], s.orch.inProgress.get? e.1 = some e.2 := by
          simpa using ho.2
        refine (fileState_requeue hq hmv ?_ ?_ ?_ f).imp_right fun ⟨hf, h⟩ =>
          ⟨_, _, (List.mem_singleton.mp hf) ▸ fileState_inProgress hq ho.1, h,
            .retry r result (List.mem_singleton.mp hf).symm⟩
        all_goals simp_all [Orchestrator.checkBatchCompletion_eq, Dict.get?_erase,
          Dict.get?_insert]
      · rw [Orchestrator.notifyWorkFailure_giveUp hq.owner_keys hac hre
          (Dict.mem_keys.mpr ⟨_, ho.2⟩)]
        refine (fileState_finish hq ho.1 (mergedResult s.orch r.work.filepath result) ?_ ?_ ?_
          f).imp_right fun h => ⟨_, _, h.2.1, h.2.2, .giveUp r result h.1.symm⟩ <;>
        simp only [Orchestrator.checkBatchCompletion_eq]
    · exact .inl (by rw [(report_ignored hac maxRetries result true).2.1])
  | managerStop m =>
    obtain ⟨-, rfl⟩ := System.exec_managerStop he
    exact .inl rfl
  | hotswap configData constructorRaises =>
    obtain ⟨-, rfl⟩ := System.exec_hotswap he
    exact (fileState_hotswap hq _ _ f).imp_right fun ⟨m, h, h'⟩ =>
      ⟨_, _, h, h', .retire m configData constructorRaises⟩
  | requestStop =>
    obtain ⟨-, rfl⟩ := System.exec_requestStop he
    cases hst
  | cancel batchId =>
    obtain ⟨-, rfl⟩ := System.exec_cancel he
    exact .inl (fileState_cancel hnc f)
  | submit request => cases he; exact .inl rfl
  | delete batchId => cases he; exact .inl rfl
  | writeFails writer =>
    obtain ⟨b, ⟨-, _, -, rfl⟩ | ⟨-, -, rfl⟩⟩ := System.exec_writeFails he <;> exact .inl rfl

theorem fileState_batchStart (hi : Inv s) {workItems : List WorkItemRequest}
    (he : System.exec maxRetries s (.masterStart workItems) = some s')
    (hst : s'.orch.stopRequested = false) :
    ∀ f ∈ currentFiles s'.events, fileState s'.orch f = some .queued := by
  obtain ⟨_, hm, he⟩ := System.exec_masterStart he
  rcases hi.masterStart_cases hm he with ⟨hs, rfl⟩ | ⟨r, -, -, hQ, -, -, rfl⟩
  · simp [hs] at hst
  · intro f hf
    rw [currentFiles_batchStarted] at hf
    exact fileState_queued (by simpa [hQ] using hf)

/-- The accounting refines the life of a work item. A batch start puts each file of the new
batch in the queue. Until the batch is canceled or a stop is requested, each file of the batch
has a state, and every other step of every thread moves it by one move of its life or leaves it
where it is. -/
theorem file_lifecycle (hs : Reachable maxRetries s) {a : Action}
    (he : System.exec maxRetries s a = some s') (hst : s'.orch.stopRequested = false)
    (hnc : (sinceStart s'.events).any Event.isCancel = false) :
    (∀ workItems, a = .masterStart workItems →
      ∀ f ∈ currentFiles s'.events, fileState s'.orch f = some .queued) ∧
    ((∀ workItems, a ≠ .masterStart workItems) → ∀ f ∈ currentFiles s.events,
      ∃ x y, fileState s.orch f = some x ∧ fileState s'.orch f = some y ∧
        (y = x ∨ FileStep f a x y)) := by
  refine ⟨fun workItems ha => fileState_batchStart hs.inv (ha ▸ he) hst, fun ha f hf => ?_⟩
  -- before the step the batch was neither stopped nor canceled either
  have hst₀ : s.orch.stopRequested = false :=
    Bool.eq_false_iff.mpr fun h => by simp [exec_stopRequested_true hs.inv h he] at hst
  obtain ⟨pre, hpre, hb⟩ := exec_events he ha
  have hnc₀ : (sinceStart s.events).any Event.isCancel = false := by
    rw [hpre, sinceStart_append _ hb, List.any_append, Bool.or_eq_false_iff] at hnc
    exact hnc.2
  -- the file has a state before the step
  obtain ⟨x, hx⟩ := fileState_isSome hs.inv.queue (hs.batchInv.cover hst₀ hnc₀ f hf)
  rcases fileState_exec hs.inv he ha hst hnc f with h | ⟨x', y, hx', hy, hxy⟩
  · exact ⟨x, x, hx, h.trans hx, .inl rfl⟩
  · exact ⟨x', y, hx', hy, .inr hxy⟩

def afterFirstSuccess : System :=
  (System.exec 0 afterSteal (.success stolenReport ⟨1, false⟩)).get (by decide)

theorem file_lifecycle_afterFirstSuccess :
    (∀ workItems, Action.success stolenReport ⟨1, false⟩ = .masterStart workItems →
      ∀ f ∈ currentFiles afterFirstSuccess.events,
        fileState afterFirstSuccess.orch f = some .queued) ∧
    ((∀ workItems, Action.success stolenReport ⟨1, false⟩ ≠ .masterStart workItems) →
      ∀ f ∈ currentFiles afterSteal.events, ∃ x y, fileState afterSteal.orch f = some x ∧
        fileState afterFirstSuccess.orch f = some y ∧
        (y = x ∨ FileStep f (.success stolenReport ⟨1, false⟩) x y)) :=
  file_lifecycle (Reachable.execs_getD (by decide)) (Option.eq_some_of_isSome _) (by decide)
    (by decide)

end BatchKit
