import BatchKit.Hotswap

/-!
# The orchestrator among its threads

The master thread (`_master_thread_loop`), the run-summary thread (`_run_summary_loop`), the
endpoint managers' callbacks, the configuration watcher and outside callers interleave. A
step is one of them running one lock-protected block (or one call outside every lock); `exec`
is the step function and `Reachable` its reachable states. The one place a thread waits for
another lock while it holds `_accounting_lock` is `_master_finalize` in singleton run-summary
mode, called from inside the batch-start block; there the master keeps the accounting lock
across steps, and every other thread's accounting step waits.

Two ghost components record what the code does not store. `outstanding` holds the work
`steal_work` handed out and not yet reported, with the number of batches started by then:
managers report only such work, each once. `events` is the history, newest first, of the
effects on the status store and the summary files and of the accounting decisions. `exited`
holds the managers whose `steal_work` returned the sentinel: their threads have left the loop.
`lower` is Python's `str.lower`, which the model leaves abstract.
-/

namespace BatchKit

inductive WritePc where
  | acquire
  | snapshot
  | write (snapBatchId : Int)
deriving DecidableEq, Repr

inductive MasterPc where
  | get
  | setType (request : Option BatchRequest)
  | skipDeleted (request : Option BatchRequest)
  | hotswap (request : Option BatchRequest)
  | start (request : Option BatchRequest)
  | markRunning (request : BatchRequest)
  | cancel (request : BatchRequest)
  | wait (request : BatchRequest)
  | summary (request : BatchRequest) (w : WritePc)
  | finalStatus (request : BatchRequest)
  | closeGate
  /-- In `_master_finalize`: holding `_accounting_lock`, waiting for `_run_summary_lock`. -/
  | finalize
  | finished
  | crashed
deriving DecidableEq, Repr

/-- The master holds `_accounting_lock` between steps. -/
def MasterPc.holdsAccounting : MasterPc → Bool
  | .finalize => true
  | _ => false

inductive SummaryPc where
  | loop
  | gate
  | summary (w : WritePc)
  | finished
deriving DecidableEq, Repr

inductive Writer where
  | master
  | summary
deriving DecidableEq, Repr

inductive Event where
  | batchStarted (batchId : Int) (filepaths : List String)
  | accepted (filepath : String) (attempts : Int) (requeued : Bool)
  | batchCanceled (batchId : Int)
  | statusRunning (batchId : Int)
  | statusDone (batchId : Int)
  | batchDeleted (batchId : Int)
  | runSummaryWritten (writer : Writer) (batchId : Int)
  | runSummaryFailed (writer : Writer) (batchId : Int)
deriving DecidableEq, Repr

def Event.isBatchStart : Event → Bool
  | .batchStarted _ _ => true
  | _ => false

structure Report where
  manager : EndpointManager
  work : WorkItemRequest
  epoch : Nat
deriving DecidableEq, Repr

structure System where
  orch : Orchestrator
  master : MasterPc
  summary : SummaryPc
  runSummaryLock : Option Writer
  deleted : List Int
  started : List EndpointManager
  exited : List EndpointManager
  outstanding : List Report
  events : List Event
  lower : String → String

inductive Action where
  | master
  | masterHotswap (configData : Option (Dict String EndpointConfig)) (constructorRaises : Bool)
  | masterStart (workItems : List WorkItemRequest)
  | summaryThread
  | steal (manager : EndpointManager)
  | success (report : Report) (result : WorkItemResult)
  | failure (report : Report) (result : WorkItemResult)
  | managerStop (manager : EndpointManager)
  | hotswap (configData : Option (Dict String EndpointConfig)) (constructorRaises : Bool)
  | requestStop
  | cancel (batchId : Int)
  | submit (request : BatchRequest)
  | delete (batchId : Int)
  /-- `write_summary_information` raises after the snapshot; the master's call
  (`allow_fail=True`) and `_run_summary_loop` log the error and go on. -/
  | writeFails (writer : Writer)

def Action.isMaster : Action → Bool
  | .master | .masterHotswap _ _ | .masterStart _ => true
  | _ => false

namespace System

def init (singletonRunSummaryPath : Option String) (lower : String → String) : System where
  orch := Orchestrator.init singletonRunSummaryPath
  master := .get
  summary := .loop
  runSummaryLock := none
  deleted := []
  started := []
  exited := []
  outstanding := []
  events := []
  lower := lower

/-- The number of batch-start blocks run so far. -/
def epoch (s : System) : Nat := s.events.countP Event.isBatchStart

/-- The master's steps that take no input from outside. -/
def masterStep (s : System) : Option System :=
  match s.master with
  | .get =>
    match s.orch.submissionQue with
    | [] => none
    | request :: rest =>
      some { s with orch := { s.orch with submissionQue := rest }, master := .setType request }
  | .setType request =>
    some { s with orch := { s.orch with onBatchType := request.map (·.batchType) },
                  master := .skipDeleted request }
  | .skipDeleted request =>
    some { s with master := match request with
                            | some r => if r.batchId ∈ s.deleted then .get else .hotswap request
                            | none => .hotswap request }
  | .markRunning request =>
    if request.batchId ∈ s.deleted then some { s with master := .cancel request }
    else some { s with master := .wait request, events := .statusRunning request.batchId :: s.events }
  | .cancel request =>
    let r := cancelRunningBatch s.orch request.batchId
    some { s with orch := r.1, master := .wait request,
                  events := if r.2 then .batchCanceled request.batchId :: s.events else s.events }
  | .wait request =>
    if s.orch.batchCompletionEvt then some { s with master := .summary request .acquire } else none
  | .summary request .acquire =>
    if s.runSummaryLock = none then
      some { s with runSummaryLock := some .master, master := .summary request .snapshot }
    else none
  | .summary request .snapshot =>
    some { s with master := .summary request (.write s.orch.onBatchId) }
  | .summary request (.write snapBatchId) =>
    some { s with runSummaryLock := none, master := .finalStatus request,
                  events := .runSummaryWritten .master snapBatchId :: s.events }
  | .finalStatus request =>
    some { s with master := .closeGate,
                  events := (if request.batchId ∈ s.deleted then .batchDeleted request.batchId
                             else .statusDone request.batchId) :: s.events }
  | .closeGate =>
    some { s with orch := { s.orch with runSummaryThreadGate := false }, master := .get }
  | .finalize =>
    if s.runSummaryLock = none then some { s with master := .finished } else none
  | _ => none

/-- `if self._singleton_run_summary_path:` in `_master_finalize`. -/
def singletonMode : Option String → Bool
  | some path => !path.isEmpty
  | none => false

/-- The batch-start block: the stop check, then `startBatch`. At the stop check,
`_master_finalize` in singleton mode runs `write_summary_information` (which logs the summary
and writes none) inside the block, so under `_accounting_lock`. `make_work_items` is outside the
sources; it yields pairwise distinct file paths. -/
def masterStart (s : System) (request : Option BatchRequest) (workItems : List WorkItemRequest) :
    Option System :=
  if s.orch.stopRequested then
    some { s with master := if singletonMode s.orch.singletonRunSummaryPath then .finalize
                            else .finished }
  else if (workItems.map (·.filepath)).Nodup then
    let o := startBatch s.orch request workItems
    match o.raised, request with
    | none, some r =>
      some { s with orch := o.state, master := .markRunning r,
                    events := .batchStarted r.batchId (workItems.map (·.filepath)) :: s.events }
    | _, _ => some { s with orch := o.state, master := .crashed }
  else none

def summaryStep (s : System) : Option System :=
  match s.summary with
  | .loop => some { s with summary := if s.orch.stopRequested then .finished else .gate }
  | .gate =>
    if s.orch.runSummaryThreadGate then
      some { s with summary :=
        if s.orch.stopRequested then .finished
        else if -1 < s.orch.onBatchId ∧ s.orch.summarizer then .summary .acquire else .loop }
    else none
  | .summary .acquire =>
    if s.runSummaryLock = none then
      some { s with runSummaryLock := some .summary, summary := .summary .snapshot }
    else none
  | .summary .snapshot =>
    if s.master.holdsAccounting then none
    else some { s with summary := .summary (.write s.orch.onBatchId) }
  | .summary (.write snapBatchId) =>
    some { s with runSummaryLock := none, summary := .loop,
                  events := .runSummaryWritten .summary snapBatchId :: s.events }
  | .finished => none

/-- The accounting decisions a report leaves in the history. -/
def reportEvents (s : Orchestrator) (maxRetries : Nat) (filepath : String)
    (manager : EndpointManager) (result : WorkItemResult) (failure : Bool) : List Event :=
  if accepts s manager then
    [.accepted filepath result.attempts (failure && decide (retries s maxRetries filepath result))]
  else []

def exec (maxRetries : Nat) (s : System) : Action → Option System
  | .master => masterStep s
  | .masterHotswap configData constructorRaises =>
    match s.master with
    | .hotswap request =>
      let r := hotswapEndpointManagers s.orch configData constructorRaises
      some { s with orch := r.1.state, started := s.started ++ r.2,
                    master := if r.1.raised = none then .start request else .crashed }
    | _ => none
  | .masterStart workItems =>
    match s.master with
    | .start request => masterStart s request workItems
    | _ => none
  | .summaryThread => summaryStep s
  | .steal manager =>
    if manager ∈ s.started ∧ manager ∉ s.exited ∧ s.master.holdsAccounting = false then
      (stealWork s.orch s.lower manager).map fun r =>
        { s with orch := r.1,
                 exited := match r.2 with
                   | .work _ => s.exited
                   | .sentinel => manager :: s.exited,
                 outstanding := match r.2 with
                   | .work w => s.outstanding ++ [⟨manager, w, s.epoch⟩]
                   | .sentinel => s.outstanding }
    else none
  | .success report result =>
    if report ∈ s.outstanding ∧ s.master.holdsAccounting = false then
      some { s with
        orch := (notifyWorkSuccess s.orch report.work.filepath report.manager result).state,
        outstanding := s.outstanding.erase report,
        events := reportEvents s.orch maxRetries report.work.filepath report.manager result false ++
          s.events }
    else none
  | .failure report result =>
    if report ∈ s.outstanding ∧ s.master.holdsAccounting = false then
      some { s with
        orch := (notifyWorkFailure s.orch maxRetries report.work.filepath report.manager result).state,
        outstanding := s.outstanding.erase report,
        events := reportEvents s.orch maxRetries report.work.filepath report.manager result true ++
          s.events }
    else none
  | .managerStop manager =>
    if manager ∈ s.started then some { s with orch := stopManagers s.orch [manager] } else none
  | .hotswap configData constructorRaises =>
    if s.master.holdsAccounting then none
    else
      let r := hotswapEndpointManagers s.orch configData constructorRaises
      some { s with orch := r.1.state, started := s.started ++ r.2 }
  | .requestStop =>
    if s.master.holdsAccounting then none else some { s with orch := requestStop s.orch }
  | .cancel batchId =>
    if s.master.holdsAccounting then none
    else
      let r := cancelRunningBatch s.orch batchId
      some { s with orch := r.1,
                    events := if r.2 then .batchCanceled batchId :: s.events else s.events }
  | .submit request =>
    some { s with orch := { s.orch with submissionQue := s.orch.submissionQue ++ [some request] } }
  | .delete batchId => some { s with deleted := batchId :: s.deleted }
  | .writeFails .master =>
    match s.master with
    | .summary request (.write snapBatchId) =>
      some { s with runSummaryLock := none, master := .finalStatus request,
                    events := .runSummaryFailed .master snapBatchId :: s.events }
    | _ => none
  | .writeFails .summary =>
    match s.summary with
    | .summary (.write snapBatchId) =>
      some { s with runSummaryLock := none, summary := .loop,
                    events := .runSummaryFailed .summary snapBatchId :: s.events }
    | _ => none

section Inversion

/-! What each guarded action does when it can happen. -/

variable {maxRetries : Nat} {s s' : System}

theorem exec_masterHotswap {configData : Option (Dict String EndpointConfig)}
    {constructorRaises : Bool}
    (he : exec maxRetries s (.masterHotswap configData constructorRaises) = some s') :
    ∃ request, s.master = .hotswap request ∧ s' = { s with
      orch := (hotswapEndpointManagers s.orch configData constructorRaises).1.state,
      started := s.started ++ (hotswapEndpointManagers s.orch configData constructorRaises).2,
      master := if (hotswapEndpointManagers s.orch configData constructorRaises).1.raised = none
        then .start request else .crashed } := by
  simp only [exec] at he
  split at he
  · exact ⟨_, ‹_›, (Option.some.inj he).symm⟩
  · cases he

theorem exec_masterStart {workItems : List WorkItemRequest}
    (he : exec maxRetries s (.masterStart workItems) = some s') :
    ∃ request, s.master = .start request ∧ masterStart s request workItems = some s' := by
  simp only [exec] at he
  split at he
  · exact ⟨_, ‹_›, he⟩
  · cases he

theorem exec_steal {manager : EndpointManager} (he : exec maxRetries s (.steal manager) = some s') :
    (manager ∈ s.started ∧ manager ∉ s.exited ∧ s.master.holdsAccounting = false) ∧
      ∃ o r, stealWork s.orch s.lower manager = some (o, r) ∧ s' = { s with
      orch := o,
      exited := match r with
        | .work _ => s.exited
        | .sentinel => manager :: s.exited,
      outstanding := match r with
        | .work w => s.outstanding ++ [⟨manager, w, s.epoch⟩]
        | .sentinel => s.outstanding } := by
  simp only [exec] at he
  split at he
  · obtain ⟨⟨o, r⟩, hst, rfl⟩ := Option.map_eq_some'.mp he
    exact ⟨‹_›, o, r, hst, rfl⟩
  · cases he

theorem exec_success {report : Report} {result : WorkItemResult}
    (he : exec maxRetries s (.success report result) = some s') :
    (report ∈ s.outstanding ∧ s.master.holdsAccounting = false) ∧ s' = { s with
      orch := (notifyWorkSuccess s.orch report.work.filepath report.manager result).state,
      outstanding := s.outstanding.erase report,
      events := reportEvents s.orch maxRetries report.work.filepath report.manager result false ++
        s.events } := by
  simp only [exec] at he
  split at he
  · exact ⟨‹_›, (Option.some.inj he).symm⟩
  · cases he

theorem exec_failure {report : Report} {result : WorkItemResult}
    (he : exec maxRetries s (.failure report result) = some s') :
    (report ∈ s.outstanding ∧ s.master.holdsAccounting = false) ∧ s' = { s with
      orch :=
        (notifyWorkFailure s.orch maxRetries report.work.filepath report.manager result).state,
      outstanding := s.outstanding.erase report,
      events := reportEvents s.orch maxRetries report.work.filepath report.manager result true ++
        s.events } := by
  simp only [exec] at he
  split at he
  · exact ⟨‹_›, (Option.some.inj he).symm⟩
  · cases he

theorem exec_managerStop {manager : EndpointManager}
    (he : exec maxRetries s (.managerStop manager) = some s') :
    manager ∈ s.started ∧ s' = { s with orch := stopManagers s.orch [manager] } := by
  simp only [exec] at he
  split at he
  · exact ⟨‹_›, (Option.some.inj he).symm⟩
  · cases he

theorem exec_hotswap {configData : Option (Dict String EndpointConfig)} {constructorRaises : Bool}
    (he : exec maxRetries s (.hotswap configData constructorRaises) = some s') :
    s.master.holdsAccounting = false ∧ s' = { s with
      orch := (hotswapEndpointManagers s.orch configData constructorRaises).1.state,
      started :=
        s.started ++ (hotswapEndpointManagers s.orch configData constructorRaises).2 } := by
  simp only [exec] at he
  split at he
  · cases he
  · exact ⟨Bool.eq_false_iff.mpr ‹_›, (Option.some.inj he).symm⟩

theorem exec_requestStop (he : exec maxRetries s .requestStop = some s') :
    s.master.holdsAccounting = false ∧ s' = { s with orch := requestStop s.orch } := by
  simp only [exec] at he
  split at he
  · cases he
  · exact ⟨Bool.eq_false_iff.mpr ‹_›, (Option.some.inj he).symm⟩

theorem exec_cancel {batchId : Int} (he : exec maxRetries s (.cancel batchId) = some s') :
    s.master.holdsAccounting = false ∧ s' = { s with
      orch := (cancelRunningBatch s.orch batchId).1,
      events := if (cancelRunningBatch s.orch batchId).2 then .batchCanceled batchId :: s.events
        else s.events } := by
  simp only [exec] at he
  split at he
  · cases he
  · exact ⟨Bool.eq_false_iff.mpr ‹_›, (Option.some.inj he).symm⟩

theorem exec_writeFails {writer : Writer} (he : exec maxRetries s (.writeFails writer) = some s') :
    ∃ b, (writer = .master ∧ ∃ request, s.master = .summary request (.write b) ∧
      s' = { s with runSummaryLock := none, master := .finalStatus request,
                    events := .runSummaryFailed .master b :: s.events }) ∨
    (writer = .summary ∧ s.summary = .summary (.write b) ∧
      s' = { s with runSummaryLock := none, summary := .loop,
                    events := .runSummaryFailed .summary b :: s.events }) := by
  cases writer <;> simp only [exec] at he <;> split at he <;> cases he
  · exact ⟨_, .inl ⟨rfl, _, ‹_›, rfl⟩⟩
  · exact ⟨_, .inr ⟨rfl, ‹_›, rfl⟩⟩

theorem exec_frame {a : Action} (he : exec maxRetries s a = some s') (ha : a.isMaster = false)
    (hs : a ≠ .summaryThread) (hw : ∀ writer, a ≠ .writeFails writer) :
    s'.master = s.master ∧ s'.summary = s.summary ∧ s'.runSummaryLock = s.runSummaryLock := by
  cases a with
  | master | masterHotswap | masterStart => cases ha
  | summaryThread => exact absurd rfl hs
  | steal m => obtain ⟨-, o, r, -, rfl⟩ := exec_steal he; exact ⟨rfl, rfl, rfl⟩
  | writeFails writer => exact absurd rfl (hw writer)
  | success r result => obtain ⟨-, rfl⟩ := exec_success he; exact ⟨rfl, rfl, rfl⟩
  | failure r result => obtain ⟨-, rfl⟩ := exec_failure he; exact ⟨rfl, rfl, rfl⟩
  | managerStop m => obtain ⟨-, rfl⟩ := exec_managerStop he; exact ⟨rfl, rfl, rfl⟩
  | hotswap configData constructorRaises =>
    obtain ⟨-, rfl⟩ := exec_hotswap he
    exact ⟨rfl, rfl, rfl⟩
  | requestStop => obtain ⟨-, rfl⟩ := exec_requestStop he; exact ⟨rfl, rfl, rfl⟩
  | cancel batchId => obtain ⟨-, rfl⟩ := exec_cancel he; exact ⟨rfl, rfl, rfl⟩
  | submit request | delete batchId => cases he; exact ⟨rfl, rfl, rfl⟩

end Inversion

end System

inductive Reachable (maxRetries : Nat) : System → Prop
  | init (singletonRunSummaryPath : Option String) (lower : String → String) :
      Reachable maxRetries (System.init singletonRunSummaryPath lower)
  | step {s s' : System} (a : Action) :
      Reachable maxRetries s → System.exec maxRetries s a = some s' → Reachable maxRetries s'

def System.execs (maxRetries : Nat) : System → List Action → Option System
  | s, [] => some s
  | s, a :: rest => (System.exec maxRetries s a).bind (System.execs maxRetries · rest)

theorem System.execs_append {maxRetries : Nat} (s : System) (l l' : List Action) :
    System.execs maxRetries s (l ++ l') =
      (System.execs maxRetries s l).bind (System.execs maxRetries · l') := by
  induction l generalizing s with
  | nil => rfl
  | cons a l ih =>
    simp only [List.cons_append, System.execs]
    rcases System.exec maxRetries s a with _ | t
    · rfl
    · exact ih t

theorem Reachable.execs {maxRetries : Nat} :
    ∀ {s s' : System} {l : List Action}, Reachable maxRetries s →
      System.execs maxRetries s l = some s' → Reachable maxRetries s'
  | s, s', [], hs, h => by cases h; exact hs
  | s, s', a :: rest, hs, h => by
    simp only [System.execs, Option.bind_eq_some] at h
    obtain ⟨s₁, h₁, h₂⟩ := h
    exact Reachable.execs (Reachable.step a hs h₁) h₂

/-- Steps that `Step` allows can take `s` to a state where `P` holds. -/
def Leads (Step : Action → Prop) (maxRetries : Nat) (s : System) (P : System → Prop) : Prop :=
  ∃ l t, (∀ a ∈ l, Step a) ∧ System.execs maxRetries s l = some t ∧ P t

namespace Leads

variable {Step : Action → Prop} {maxRetries : Nat} {s : System} {P Q : System → Prop}

theorem refl (h : P s) : Leads Step maxRetries s P :=
  ⟨[], s, nofun, rfl, h⟩

theorem step {a : Action} (ha : Step a) (t : System) (he : System.exec maxRetries s a = some t)
    (h : Leads Step maxRetries t P) : Leads Step maxRetries s P := by
  obtain ⟨l, u, hl, hx, hu⟩ := h
  exact ⟨a :: l, u, List.forall_mem_cons.mpr ⟨ha, hl⟩, by simp [System.execs, he, hx], hu⟩

theorem prepend {t : System} {l : List Action} (hl : ∀ a ∈ l, Step a)
    (he : System.execs maxRetries s l = some t) (h : Leads Step maxRetries t P) :
    Leads Step maxRetries s P := by
  obtain ⟨l', u, hl', hx, hu⟩ := h
  refine ⟨l ++ l', u, List.forall_mem_append.mpr ⟨hl, hl'⟩, ?_, hu⟩
  rw [System.execs_append, he]
  exact hx

theorem trans (h : Leads Step maxRetries s P) (hq : ∀ t, P t → Leads Step maxRetries t Q) :
    Leads Step maxRetries s Q := by
  obtain ⟨l, t, hl, he, ht⟩ := h
  exact prepend hl he (hq t ht)

theorem mono (h : Leads Step maxRetries s P) (hq : ∀ t, P t → Q t) : Leads Step maxRetries s Q :=
  h.trans fun t ht => refl (hq t ht)

theorem weaken {Step' : Action → Prop} (h : Leads Step maxRetries s P)
    (hs : ∀ a, Step a → Step' a) : Leads Step' maxRetries s P := by
  obtain ⟨l, t, hl, he, ht⟩ := h
  exact ⟨l, t, fun a ha => hs a (hl a ha), he, ht⟩

end Leads

theorem Reachable.execs_getD {maxRetries : Nat} {p : Option String} {lower : String → String}
    {l : List Action} (h : (System.execs maxRetries (System.init p lower) l).isSome = true) :
    Reachable maxRetries
      ((System.execs maxRetries (System.init p lower) l).getD (System.init p lower)) := by
  cases he : System.execs maxRetries (System.init p lower) l with
  | none => simp [he] at h
  | some s => exact Reachable.execs (Reachable.init p lower) he

end BatchKit
