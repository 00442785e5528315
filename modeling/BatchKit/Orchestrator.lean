import BatchKit.Types

/-!
# The orchestrator's lock-protected methods

`Orchestrator` holds the fields of the Python object that the modelled methods read or write,
and the `_stop_requested` flags of the managers it holds (`stoppedManagers`). Each method body
below runs under `_accounting_lock`, so each is one atomic step. A method that raises leaves
the state it had reached when it raised, as in Python; `Outcome` carries both.
`ORCHESTRATOR_SCOPE_MAX_RETRIES` lives in `constants.py`, outside the sources, and is the
parameter `maxRetries`.
-/

namespace BatchKit

structure Orchestrator where
  submissionQue : List (Option BatchRequest)
  singletonRunSummaryPath : Option String
  onBatchId : Int
  onBatchType : Option BatchType
  fileQueue : List WorkItemRequest
  fileQueueSize : Nat
  inProgress : Dict String WorkItemRequest
  inProgressOwner : Dict String EndpointManager
  workResults : Dict String (Option WorkItemResult)
  batchCompletionEvt : Bool
  summarizer : Bool
  stopRequested : Bool
  runSummaryThreadGate : Bool
  endpointManagers : List EndpointManager
  endpointGeneration : Nat
  oldManagers : List String
  stoppedManagers : List EndpointManager

namespace Orchestrator

/-- The object right after `__init__`, before any hot-swap has built a manager. -/
def init (singletonRunSummaryPath : Option String) : Orchestrator where
  submissionQue := []
  singletonRunSummaryPath := singletonRunSummaryPath
  onBatchId := -1
  onBatchType := none
  fileQueue := []
  fileQueueSize := 0
  inProgress := ∅
  inProgressOwner := ∅
  workResults := ∅
  batchCompletionEvt := false
  summarizer := false
  stopRequested := false
  runSummaryThreadGate := false
  endpointManagers := []
  endpointGeneration := 0
  oldManagers := []
  stoppedManagers := []

end Orchestrator

inductive PyError where
  | keyError (key : String)
  | assertionError
  | attributeError
deriving DecidableEq, Repr

structure Outcome where
  state : Orchestrator
  raised : Option PyError

def Outcome.then (o : Outcome) (k : Orchestrator → Orchestrator) : Outcome :=
  match o.raised with
  | none => ⟨k o.state, none⟩
  | some _ => o

@[simp] theorem Outcome.then_ok (s : Orchestrator) (k : Orchestrator → Orchestrator) :
    (Outcome.mk s none).then k = ⟨k s, none⟩ := rfl

@[simp] theorem Outcome.then_raised (s : Orchestrator) (e : PyError)
    (k : Orchestrator → Orchestrator) :
    (Outcome.mk s (some e)).then k = ⟨s, some e⟩ := rfl

section Methods

variable (s : Orchestrator)

def put (work : WorkItemRequest) : Orchestrator :=
  { s with fileQueue := s.fileQueue ++ [work], fileQueueSize := s.fileQueueSize + 1 }

def drain : Orchestrator :=
  { s with fileQueue := s.fileQueue.drop s.fileQueueSize, fileQueueSize := 0 }

/-- `m.request_stop()` for each manager, setting its `_stop_requested` flag. -/
def stopManagers (managers : List EndpointManager) : Orchestrator :=
  { s with stoppedManagers := addAll s.stoppedManagers managers }

/-- `m.request_stop()` and `self._old_managers.add(m.name)` for each manager. -/
def retireManagers (managers : List EndpointManager) : Orchestrator :=
  { stopManagers s managers with oldManagers := addAll s.oldManagers (managers.map (·.name)) }

inductive Stolen where
  | sentinel
  | work (w : WorkItemRequest)
deriving DecidableEq, Repr

/-- One pass of the loop of `steal_work` that returns; `none` when the manager waits on
`_file_queue_cond` (or on a `get()` that cannot return). `lower` is `str.lower`. -/
def stealWork (lower : String → String) (manager : EndpointManager) :
    Option (Orchestrator × Stolen) :=
  if manager.name ∈ s.oldManagers ∨ s.stopRequested then some (s, .sentinel)
  else if 0 < s.fileQueueSize then
    match s.fileQueue with
    | [] => none
    | work :: rest =>
      let s := { s with fileQueue := rest, fileQueueSize := s.fileQueueSize - 1 }
      if languageMismatch lower manager work then some (put s work, .sentinel)
      else
        some ({ s with inProgress := s.inProgress.insert work.filepath work,
                       inProgressOwner := s.inProgressOwner.insert work.filepath manager },
              .work work)
  else none

/-- The result `_merge_results` stores: `result`, its `attempts` increased by those of the
result already stored, if any. -/
def mergedResult (filepath : String) (result : WorkItemResult) : WorkItemResult :=
  match s.workResults.get? filepath with
  | some (some prev) => { result with attempts := result.attempts + prev.attempts }
  | _ => result

def mergeResults (filepath : String) (result : WorkItemResult) : Orchestrator :=
  { s with workResults := s.workResults.insert filepath (some (mergedResult s filepath result)) }

/-- Neither early return of `notify_work_success` / `notify_work_failure` is taken. -/
def accepts (manager : EndpointManager) : Prop :=
  manager.name ∉ s.oldManagers ∧ s.stopRequested = false

instance (manager : EndpointManager) : Decidable (accepts s manager) :=
  inferInstanceAs (Decidable (_ ∧ _))

/-- `del self._in_progress[filepath]; del self._in_progress_owner[filepath]`. -/
def untrack (filepath : String) : Outcome :=
  if filepath ∉ s.inProgress.keys then ⟨s, some (.keyError filepath)⟩
  else if filepath ∉ s.inProgressOwner.keys then
    ⟨{ s with inProgress := s.inProgress.erase filepath }, some (.keyError filepath)⟩
  else
    ⟨{ s with inProgress := s.inProgress.erase filepath,
              inProgressOwner := s.inProgressOwner.erase filepath }, none⟩

/-- `if self._file_queue_size == 0 and len(self._in_progress) == 0:
self._batch_completion_evt.set()`. -/
def checkBatchCompletion : Orchestrator :=
  if s.fileQueueSize = 0 ∧ s.inProgress.size = 0 then { s with batchCompletionEvt := true } else s

def notifyWorkSuccess (filepath : String) (manager : EndpointManager) (result : WorkItemResult) :
    Outcome :=
  if accepts s manager then
    (untrack s filepath).then fun s => checkBatchCompletion (mergeResults s filepath result)
  else ⟨s, none⟩

/-- `result.can_retry and
self._work_results[filepath].attempts - 1 < ORCHESTRATOR_SCOPE_MAX_RETRIES`,
read after the merge. -/
def retries (maxRetries : Nat) (filepath : String) (result : WorkItemResult) : Prop :=
  result.canRetry = true ∧ (mergedResult s filepath result).attempts - 1 < maxRetries

instance (maxRetries : Nat) (filepath : String) (result : WorkItemResult) :
    Decidable (retries s maxRetries filepath result) :=
  inferInstanceAs (Decidable (_ ∧ _))

def notifyWorkFailure (maxRetries : Nat) (filepath : String) (manager : EndpointManager)
    (result : WorkItemResult) : Outcome :=
  if accepts s manager then
    let merged := mergeResults s filepath result
    if retries s maxRetries filepath result then
      match merged.inProgress.get? filepath with
      | some work => (untrack (put merged work) filepath).then checkBatchCompletion
      | none => ⟨merged, some (.keyError filepath)⟩
    else (untrack merged filepath).then checkBatchCompletion
  else ⟨s, none⟩

def cancelRunningBatch (batchId : Int) : Orchestrator × Bool :=
  if s.onBatchId ≠ batchId then (s, false)
  else
    let s := drain s
    let s := { s with inProgress := ∅, inProgressOwner := ∅ }
    ({ retireManagers s s.endpointManagers with batchCompletionEvt := true }, true)

/-- The part of `request_stop` under `_accounting_lock` (the process check and the
configuration watcher are outside the model). -/
def requestStop : Orchestrator :=
  let s := drain { s with stopRequested := true }
  let s := { s with submissionQue := s.submissionQue ++ [none], batchCompletionEvt := true }
  { stopManagers s s.endpointManagers with runSummaryThreadGate := true }

def enqueueWork (work : WorkItemRequest) : Orchestrator :=
  let s := put s work
  { s with workResults := s.workResults.insert work.filepath none }

/-- The batch-start block of `_master_thread_loop`, after its stop check: the record keeping is
reset, the assertions checked, and the batch's work items enqueued. -/
def startBatch (request : Option BatchRequest) (workItems : List WorkItemRequest) : Outcome :=
  let s := { s with workResults := if s.singletonRunSummaryPath = none then ∅ else s.workResults }
  match request with
  | none => ⟨s, some .attributeError⟩
  | some request =>
    let s := { s with summarizer := true, onBatchId := request.batchId,
                      batchCompletionEvt := false, runSummaryThreadGate := true }
    if s.inProgress.size = 0 ∧ s.fileQueueSize = 0 then ⟨workItems.foldl enqueueWork s, none⟩
    else ⟨s, some .assertionError⟩

end Methods

namespace Orchestrator

variable {s s' : Orchestrator}

theorem untrack_of_keys (h : s.inProgressOwner.keys = s.inProgress.keys) (filepath : String) :
    untrack s filepath =
      if filepath ∈ s.inProgress.keys then
        ⟨{ s with inProgress := s.inProgress.erase filepath,
                  inProgressOwner := s.inProgressOwner.erase filepath }, none⟩
      else ⟨s, some (.keyError filepath)⟩ := by
  unfold untrack
  by_cases hf : filepath ∈ s.inProgress.keys <;> simp [hf, h]

theorem stealWork_cases {lower : String → String} {manager : EndpointManager} {r : Stolen}
    (h : stealWork s lower manager = some (s', r)) :
    (s' = s ∧ r = .sentinel) ∨
    ∃ work rest, s.fileQueue = work :: rest ∧ 0 < s.fileQueueSize ∧
      manager.name ∉ s.oldManagers ∧ s.stopRequested = false ∧
      ((languageMismatch lower manager work = true ∧ r = .sentinel ∧
          s' = put { s with fileQueue := rest, fileQueueSize := s.fileQueueSize - 1 } work) ∨
        (languageMismatch lower manager work = false ∧ r = .work work ∧
          s' = { s with fileQueue := rest, fileQueueSize := s.fileQueueSize - 1,
                        inProgress := s.inProgress.insert work.filepath work,
                        inProgressOwner := s.inProgressOwner.insert work.filepath manager })) := by
  unfold stealWork at h
  split at h
  · simp only [Option.some.injEq, Prod.mk.injEq] at h
    exact .inl ⟨h.1.symm, h.2.symm⟩
  · split at h
    · rename_i hs hq
      simp only [not_or, Bool.not_eq_true] at hs
      split at h
      · cases h
      · rename_i work rest hqueue
        refine .inr ⟨work, rest, hqueue, hq, hs.1, hs.2, ?_⟩
        split at h <;> rename_i hm <;> simp only [Option.some.injEq, Prod.mk.injEq] at h
        · exact .inl ⟨hm, h.2.symm, h.1.symm⟩
        · exact .inr ⟨by simpa using hm, h.2.symm, h.1.symm⟩
    · cases h

theorem cancelRunningBatch_of_ne {batchId : Int} (hb : s.onBatchId ≠ batchId) :
    cancelRunningBatch s batchId = (s, false) := by
  simp [cancelRunningBatch, hb]

theorem cancelRunningBatch_of_eq {batchId : Int} (hb : s.onBatchId = batchId) :
    cancelRunningBatch s batchId =
      ({ s with fileQueue := s.fileQueue.drop s.fileQueueSize, fileQueueSize := 0,
                inProgress := ∅, inProgressOwner := ∅, batchCompletionEvt := true,
                oldManagers := addAll s.oldManagers (s.endpointManagers.map (·.name)),
                stoppedManagers := addAll s.stoppedManagers s.endpointManagers }, true) := by
  simp [cancelRunningBatch, hb, drain, retireManagers, stopManagers]

theorem checkBatchCompletion_eq (s : Orchestrator) :
    checkBatchCompletion s =
      { s with
        batchCompletionEvt :=
          s.batchCompletionEvt || (s.fileQueueSize = 0 ∧ s.inProgress.size = 0) } := by
  unfold checkBatchCompletion
  split <;> simp [*]

section Reports

variable {filepath : String} {manager : EndpointManager} {result : WorkItemResult}

theorem notifyWorkSuccess_of_accepts (hk : s.inProgressOwner.keys = s.inProgress.keys)
    (ha : accepts s manager) (hf : filepath ∈ s.inProgress.keys) :
    notifyWorkSuccess s filepath manager result =
      ⟨checkBatchCompletion { s with
          inProgress := s.inProgress.erase filepath,
          inProgressOwner := s.inProgressOwner.erase filepath,
          workResults := s.workResults.insert filepath (some (mergedResult s filepath result)) },
        none⟩ := by
  simp only [notifyWorkSuccess, if_pos ha, untrack_of_keys hk, if_pos hf, Outcome.then_ok]
  rfl

theorem notifyWorkFailure_retry (hk : s.inProgressOwner.keys = s.inProgress.keys)
    {maxRetries : Nat} {work : WorkItemRequest} (ha : accepts s manager)
    (hr : retries s maxRetries filepath result) (hw : s.inProgress.get? filepath = some work) :
    notifyWorkFailure s maxRetries filepath manager result =
      ⟨checkBatchCompletion { s with
          fileQueue := s.fileQueue ++ [work],
          fileQueueSize := s.fileQueueSize + 1,
          inProgress := s.inProgress.erase filepath,
          inProgressOwner := s.inProgressOwner.erase filepath,
          workResults := s.workResults.insert filepath (some (mergedResult s filepath result)) },
        none⟩ := by
  have hk' : (put (mergeResults s filepath result) work).inProgressOwner.keys =
      (put (mergeResults s filepath result) work).inProgress.keys := hk
  have hf : filepath ∈ (put (mergeResults s filepath result) work).inProgress.keys :=
    Dict.mem_keys.mpr ⟨work, hw⟩
  simp only [notifyWorkFailure, if_pos ha, if_pos hr]
  rw [show (mergeResults s filepath result).inProgress.get? filepath = some work from hw]
  simp only [untrack_of_keys hk', if_pos hf, Outcome.then_ok]
  rfl

theorem notifyWorkFailure_giveUp (hk : s.inProgressOwner.keys = s.inProgress.keys)
    {maxRetries : Nat} (ha : accepts s manager) (hr : ¬retries s maxRetries filepath result)
    (hf : filepath ∈ s.inProgress.keys) :
    notifyWorkFailure s maxRetries filepath manager result =
      ⟨checkBatchCompletion { s with
          inProgress := s.inProgress.erase filepath,
          inProgressOwner := s.inProgressOwner.erase filepath,
          workResults := s.workResults.insert filepath (some (mergedResult s filepath result)) },
        none⟩ := by
  have hk' : (mergeResults s filepath result).inProgressOwner.keys =
      (mergeResults s filepath result).inProgress.keys := hk
  have hf' : filepath ∈ (mergeResults s filepath result).inProgress.keys := hf
  simp only [notifyWorkFailure, if_pos ha, if_neg hr, untrack_of_keys hk', if_pos hf',
    Outcome.then_ok]
  rfl

end Reports

@[simp] theorem get?_mergeResults (filepath filepath' : String) (result : WorkItemResult) :
    (mergeResults s filepath result).workResults.get? filepath' =
      if filepath' = filepath then some (some (mergedResult s filepath result))
      else s.workResults.get? filepath' := by
  simp [mergeResults, Dict.get?_insert]

structure SameControl (o o' : Orchestrator) : Prop where
  submissionQue : o'.submissionQue = o.submissionQue
  onBatchId : o'.onBatchId = o.onBatchId
  stopRequested : o'.stopRequested = o.stopRequested
  singletonRunSummaryPath : o'.singletonRunSummaryPath = o.singletonRunSummaryPath

namespace SameControl

theorem refl (o : Orchestrator) : SameControl o o := ⟨rfl, rfl, rfl, rfl⟩

theorem trans {o o' o'' : Orchestrator} (h : SameControl o o') (h' : SameControl o' o'') :
    SameControl o o'' :=
  ⟨h'.submissionQue.trans h.submissionQue, h'.onBatchId.trans h.onBatchId,
    h'.stopRequested.trans h.stopRequested,
    h'.singletonRunSummaryPath.trans h.singletonRunSummaryPath⟩

theorem untrack (filepath : String) : SameControl s (untrack s filepath).state := by
  unfold BatchKit.untrack
  split_ifs <;> exact ⟨rfl, rfl, rfl, rfl⟩

theorem then_ {o : Outcome} {k : Orchestrator → Orchestrator} (hk : ∀ t, SameControl t (k t)) :
    SameControl o.state (o.then k).state := by
  unfold Outcome.then
  split
  · exact hk _
  · exact refl _

theorem checkBatchCompletion (o : Orchestrator) : SameControl o (checkBatchCompletion o) := by
  rw [checkBatchCompletion_eq]
  exact ⟨rfl, rfl, rfl, rfl⟩

theorem notifyWorkSuccess (filepath : String) (manager : EndpointManager)
    (result : WorkItemResult) :
    SameControl s (notifyWorkSuccess s filepath manager result).state := by
  unfold BatchKit.notifyWorkSuccess
  split_ifs
  · exact (untrack filepath).trans (then_ fun t =>
      (⟨rfl, rfl, rfl, rfl⟩ : SameControl t (mergeResults t filepath result)).trans
        (checkBatchCompletion _))
  · exact refl _

theorem notifyWorkFailure (maxRetries : Nat) (filepath : String) (manager : EndpointManager)
    (result : WorkItemResult) :
    SameControl s (notifyWorkFailure s maxRetries filepath manager result).state := by
  have hm : SameControl s (mergeResults s filepath result) := ⟨rfl, rfl, rfl, rfl⟩
  unfold BatchKit.notifyWorkFailure
  split_ifs
  · dsimp only
    split
    · rename_i work _
      have hp : SameControl s (put (mergeResults s filepath result) work) := ⟨rfl, rfl, rfl, rfl⟩
      exact hp.trans ((untrack filepath).trans (then_ checkBatchCompletion))
    · exact hm
  · exact hm.trans ((untrack filepath).trans (then_ checkBatchCompletion))
  · exact refl _

theorem stealWork {lower : String → String} {manager : EndpointManager} {r : Stolen}
    (h : stealWork s lower manager = some (s', r)) :
    SameControl s s' := by
  rcases stealWork_cases h with
    ⟨rfl, -⟩ | ⟨_, _, -, -, -, -, ⟨-, -, rfl⟩ | ⟨-, -, rfl⟩⟩ <;> exact ⟨rfl, rfl, rfl, rfl⟩

theorem cancelRunningBatch (batchId : Int) : SameControl s (cancelRunningBatch s batchId).1 := by
  unfold BatchKit.cancelRunningBatch
  split <;> exact ⟨rfl, rfl, rfl, rfl⟩

end SameControl

end Orchestrator

end BatchKit
