import BatchKit.Stop

/-!
# Shutdown

The docstring of `request_stop` promises that `join()` eventually returns. Once the stop flag is
set, the master thread and the run-summary thread alone bring the master to its return, whatever
configuration the master's hot-swap reads, from every reachable state outside one lock cycle.

Two invariants carry the progress. `_run_summary_lock` is held exactly by the thread inside
`write_summary_information` past its acquire, so a master waiting for the lock waits on a writer
that releases it within two steps. After the stop, the completion event stays set and a `None`
request is in the submission queue or already taken by the master, so the master never blocks in
`get()` or in `_batch_completion_evt.wait()`, and the first request it takes that is not skipped
as deleted leads it to the stop check. From there the master returns once the run-summary thread
has let go of `_run_summary_lock`.

In singleton run-summary mode the promise fails. There `_master_finalize` calls
`write_summary_information`, which takes `_run_summary_lock`, from inside the batch-start block,
so while the master holds `_accounting_lock`; the run-summary thread takes the two locks the
other way round. A stop that finds the run-summary thread holding `_run_summary_lock` when the
master reaches its stop check leaves the two threads waiting on each other for good.
-/

namespace BatchKit

variable {maxRetries : Nat} {s s' : System}

def MasterPc.writing : MasterPc → Bool
  | .summary _ .snapshot | .summary _ (.write _) => true
  | _ => false

def SummaryPc.writing : SummaryPc → Bool
  | .summary .snapshot | .summary (.write _) => true
  | _ => false

def MasterPc.returning : MasterPc → Bool
  | .finalize | .finished => true
  | _ => false

/-- `_run_summary_lock` is held by the thread inside `write_summary_information`, by no one
otherwise. -/
structure LockInv (s : System) : Prop where
  master : s.runSummaryLock = some .master ↔ s.master.writing = true
  summary : s.runSummaryLock = some .summary ↔ s.summary.writing = true

namespace LockInv

theorem init (singletonRunSummaryPath : Option String) (lower : String → String) :
    LockInv (System.init singletonRunSummaryPath lower) :=
  ⟨by simp [System.init, MasterPc.writing], by simp [System.init, SummaryPc.writing]⟩

theorem exclusive (h : LockInv s) : ¬(s.master.writing = true ∧ s.summary.writing = true) :=
  fun ⟨hm, hs⟩ => nomatch (h.master.mpr hm).symm.trans (h.summary.mpr hs)

theorem summary_state (h : LockInv s) (hl : s.runSummaryLock = some .summary) :
    s.summary = .summary .snapshot ∨ ∃ b, s.summary = .summary (.write b) := by
  have hw := h.summary.mp hl
  cases hsu : s.summary with
  | summary w =>
    cases w with
    | acquire => simp [hsu, SummaryPc.writing] at hw
    | snapshot => exact .inl rfl
    | write b => exact .inr ⟨b, rfl⟩
  | loop | gate | finished => simp [hsu, SummaryPc.writing] at hw

theorem frame (h : LockInv s) {t : System} (hl : t.runSummaryLock = s.runSummaryLock)
    (hm : t.master.writing = s.master.writing) (hs : t.summary.writing = s.summary.writing) :
    LockInv t :=
  ⟨by rw [hl, hm]; exact h.master, by rw [hl, hs]; exact h.summary⟩

theorem masterStep (h : LockInv s) (he : System.masterStep s = some s') : LockInv s' := by
  unfold System.masterStep at he
  repeat' split at he
  all_goals first
    | cases he; done
    | cases he; exact h.frame rfl (by simp [MasterPc.writing, *]) rfl
    | cases he; exact ⟨by simp [MasterPc.writing], by simpa [*] using h.summary⟩
    | cases he
      exact ⟨by simp [MasterPc.writing], by
        simpa using fun hw => h.exclusive ⟨by simp [MasterPc.writing, *], hw⟩⟩

theorem summaryStep (h : LockInv s) (he : System.summaryStep s = some s') : LockInv s' := by
  unfold System.summaryStep at he
  repeat' split at he
  all_goals first
    | cases he; done
    | cases he; exact h.frame rfl rfl (by simp [SummaryPc.writing, *])
    | cases he; exact ⟨by simpa [*] using h.master, by simp [SummaryPc.writing]⟩
    | cases he
      exact ⟨by simpa using fun hw => h.exclusive ⟨hw, by simp [SummaryPc.writing, *]⟩, by
        simp [SummaryPc.writing]⟩

theorem exec (h : LockInv s) {a : Action} (he : System.exec maxRetries s a = some s') :
    LockInv s' := by
  cases a with
  | master => exact h.masterStep he
  | masterHotswap configData constructorRaises =>
    obtain ⟨_, hm, rfl⟩ := System.exec_masterHotswap he
    exact h.frame rfl (by split <;> simp [MasterPc.writing, hm]) rfl
  | masterStart workItems =>
    obtain ⟨_, hm, he⟩ := System.exec_masterStart he
    simp only [System.masterStart] at he
    repeat' split at he
    all_goals first
      | cases he; done
      | cases he; exact h.frame rfl (by simp [MasterPc.writing, hm]) rfl
  | summaryThread => exact h.summaryStep he
  | writeFails writer =>
    obtain ⟨b, ⟨-, r, hm, rfl⟩ | ⟨-, hsu, rfl⟩⟩ := System.exec_writeFails he
    · exact ⟨by simp [MasterPc.writing], by
        simpa using fun hw => h.exclusive ⟨by simp [MasterPc.writing, hm], hw⟩⟩
    · exact ⟨by simpa using fun hw => h.exclusive ⟨hw, by simp [SummaryPc.writing, hsu]⟩, by
        simp [SummaryPc.writing]⟩
  | _ =>
    obtain ⟨hm, hsu, hl⟩ := System.exec_frame he rfl nofun fun _ => nofun
    exact h.frame hl (by rw [hm]) (by rw [hsu])

end LockInv

theorem Reachable.lockInv (hs : Reachable maxRetries s) : LockInv s := by
  induction hs with
  | init p lower => exact LockInv.init p lower
  | step a _ he ih => exact ih.exec he

def stopWhileWritingRun : List Action :=
  stealRun ++ [.summaryThread, .summaryThread, .summaryThread, .requestStop]

def afterStopWhileWriting : System :=
  (System.execs 0 (System.init none asciiLower) stopWhileWritingRun).getD
    (System.init none asciiLower)

theorem exec_stopRequested (hi : Inv s) {a : Action} (he : System.exec maxRetries s a = some s') :
    (a ≠ .requestStop → s'.orch.stopRequested = s.orch.stopRequested) ∧
      s'.orch.singletonRunSummaryPath = s.orch.singletonRunSummaryPath := by
  have hk := hi.queue.owner_keys
  have same : Orchestrator.SameControl s.orch s'.orch →
      (a ≠ .requestStop → s'.orch.stopRequested = s.orch.stopRequested) ∧
        s'.orch.singletonRunSummaryPath = s.orch.singletonRunSummaryPath :=
    fun hc => ⟨fun _ => hc.stopRequested, hc.singletonRunSummaryPath⟩
  cases a with
  | master =>
    change System.masterStep s = some s' at he
    unfold System.masterStep at he
    repeat' split at he
    all_goals first
      | cases he; done
      | cases he; exact ⟨fun _ => rfl, rfl⟩
      | cases he; exact same (.cancelRunningBatch _)
  | masterHotswap configData constructorRaises =>
    obtain ⟨_, -, rfl⟩ := System.exec_masterHotswap he
    exact same (hotswap_outcome hk configData constructorRaises).2.2
  | masterStart workItems =>
    obtain ⟨_, hm, he⟩ := System.exec_masterStart he
    rcases hi.masterStart_cases hm he with ⟨-, rfl⟩ | ⟨r, -, -, -, -, -, rfl⟩ <;>
      exact ⟨fun _ => rfl, rfl⟩
  | summaryThread =>
    change System.summaryStep s = some s' at he
    unfold System.summaryStep at he
    repeat' split at he
    all_goals first | cases he; done | cases he; exact ⟨fun _ => rfl, rfl⟩
  | steal m =>
    obtain ⟨-, o, r, hst, rfl⟩ := System.exec_steal he
    exact same (.stealWork hst)
  | success r result =>
    obtain ⟨-, rfl⟩ := System.exec_success he
    exact same (.notifyWorkSuccess _ _ _)
  | failure r result =>
    obtain ⟨-, rfl⟩ := System.exec_failure he
    exact same (.notifyWorkFailure _ _ _ _)
  | managerStop m =>
    obtain ⟨-, rfl⟩ := System.exec_managerStop he
    exact ⟨fun _ => rfl, rfl⟩
  | hotswap configData constructorRaises =>
    obtain ⟨-, rfl⟩ := System.exec_hotswap he
    exact same (hotswap_outcome hk configData constructorRaises).2.2
  | requestStop =>
    obtain ⟨-, rfl⟩ := System.exec_requestStop he
    exact ⟨fun h => absurd rfl h, rfl⟩
  | cancel batchId =>
    obtain ⟨-, rfl⟩ := System.exec_cancel he
    exact same (.cancelRunningBatch _)
  | submit request => cases he; exact ⟨fun _ => rfl, rfl⟩
  | delete batchId => cases he; exact ⟨fun _ => rfl, rfl⟩
  | writeFails writer =>
    obtain ⟨b, ⟨-, _, -, rfl⟩ | ⟨-, -, rfl⟩⟩ := System.exec_writeFails he <;>
      exact ⟨fun _ => rfl, rfl⟩

theorem exec_finalize (hi : Inv s) {a : Action} (he : System.exec maxRetries s a = some s')
    (hf : s'.master = .finalize) :
    s.master = .finalize ∨
      System.singletonMode s.orch.singletonRunSummaryPath = true ∧ s.orch.stopRequested = true := by
  cases a with
  | master =>
    change System.masterStep s = some s' at he
    unfold System.masterStep at he
    repeat' split at he
    all_goals first | cases he; done | cases he; cases hf
  | masterHotswap configData constructorRaises =>
    obtain ⟨_, -, rfl⟩ := System.exec_masterHotswap he
    split at hf <;> cases hf
  | masterStart workItems =>
    obtain ⟨_, hm, he⟩ := System.exec_masterStart he
    rcases hi.masterStart_cases hm he with ⟨hstop, rfl⟩ | ⟨r, -, -, -, -, -, rfl⟩
    · split at hf
      · exact .inr ⟨‹_›, hstop⟩
      · cases hf
    · cases hf
  | summaryThread =>
    change System.summaryStep s = some s' at he
    unfold System.summaryStep at he
    repeat' split at he
    all_goals first | cases he; done | cases he; exact .inl hf
  | writeFails writer =>
    obtain ⟨b, ⟨-, r, -, rfl⟩ | ⟨-, -, rfl⟩⟩ := System.exec_writeFails he
    · cases hf
    · exact .inl hf
  | _ => exact .inl ((System.exec_frame he rfl nofun fun _ => nofun).1.symm.trans hf)

theorem exec_stopRequested_true (hi : Inv s) (hstop : s.orch.stopRequested = true) {a : Action}
    (he : System.exec maxRetries s a = some s') : s'.orch.stopRequested = true := by
  by_cases ha : a = .requestStop
  · subst ha
    obtain ⟨-, rfl⟩ := System.exec_requestStop he
    rfl
  · exact ((exec_stopRequested hi he).1 ha).trans hstop

theorem Reachable.finalize (hs : Reachable maxRetries s) :
    s.master = .finalize →
      System.singletonMode s.orch.singletonRunSummaryPath = true ∧ s.orch.stopRequested = true := by
  induction hs with
  | init p lower => exact nofun
  | @step s s' a hs he ih =>
    intro hf
    have h := (exec_finalize hs.inv he hf).elim ih id
    rw [(exec_stopRequested hs.inv he).2]
    exact ⟨h.1, exec_stopRequested_true hs.inv h.2 he⟩

/-- The lock cycle of singleton run-summary mode: the master, in `_master_finalize` under
`_accounting_lock`, waits for `_run_summary_lock`; the run-summary thread holds
`_run_summary_lock` and waits for `_accounting_lock` to take its snapshot. -/
def Deadlocked (s : System) : Prop :=
  s.master = .finalize ∧ s.summary = .summary .snapshot ∧ s.runSummaryLock = some .summary

instance : DecidablePred Deadlocked := fun _ => inferInstanceAs (Decidable (_ ∧ _ ∧ _))

/-- In the lock cycle neither thread can move, and no other thread's step touches them or the
lock. -/
theorem Deadlocked.exec (h : Deadlocked s) {a : Action}
    (he : System.exec maxRetries s a = some s') : Deadlocked s' := by
  obtain ⟨hm, hsu, hl⟩ := h
  cases a with
  | master => simp [System.exec, System.masterStep, hm, hl] at he
  | masterHotswap configData constructorRaises =>
    obtain ⟨_, hm', -⟩ := System.exec_masterHotswap he
    cases hm.symm.trans hm'
  | masterStart workItems =>
    obtain ⟨_, hm', -⟩ := System.exec_masterStart he
    cases hm.symm.trans hm'
  | summaryThread =>
    simp [System.exec, System.summaryStep, hsu, hm, MasterPc.holdsAccounting] at he
  | writeFails writer =>
    obtain ⟨b, ⟨-, r, hm', -⟩ | ⟨-, hsu', -⟩⟩ := System.exec_writeFails he
    · cases hm.symm.trans hm'
    · cases hsu.symm.trans hsu'
  | _ =>
    obtain ⟨hm', hsu', hl'⟩ := System.exec_frame he rfl nofun fun _ => nofun
    exact ⟨hm'.trans hm, hsu'.trans hsu, hl'.trans hl⟩

theorem Deadlocked.execs : ∀ {s s' : System} {l : List Action}, Deadlocked s →
    System.execs maxRetries s l = some s' → Deadlocked s'
  | _, _, [], h, he => by cases he; exact h
  | _, _, a :: l, h, he => by
    simp only [System.execs, Option.bind_eq_some] at he
    obtain ⟨s₁, h₁, h₂⟩ := he
    exact Deadlocked.execs (h.exec h₁) h₂

/-- What a pending stop leaves the master: the completion event is set, and a `None` request is
in the submission queue or already taken, unless the master is past its stop check. -/
def StopReady (s : System) : Prop :=
  s.orch.batchCompletionEvt = true ∧
    (none ∈ s.orch.submissionQue ∨ s.master.pending = some none ∨ s.master.returning = true)

theorem StopReady.requestStop (s : System) : StopReady { s with orch := requestStop s.orch } :=
  ⟨rfl, .inl (List.mem_append_right _ (List.mem_singleton_self none))⟩

theorem StopReady.masterStep (h : StopReady s) (he : System.masterStep s = some s') :
    StopReady s' := by
  obtain ⟨hE, hn⟩ := h
  unfold System.masterStep at he
  repeat' split at he
  all_goals first
    | cases he; done
    | cases he; refine ⟨hE, ?_⟩
      simp_all [MasterPc.pending, MasterPc.returning, @eq_comm _ none, or_comm]
    | cases he
      refine ⟨cancelRunningBatch_batchCompletionEvt _ hE, ?_⟩
      rw [(Orchestrator.SameControl.cancelRunningBatch _).submissionQue]
      simp_all [MasterPc.pending, MasterPc.returning]

theorem StopReady.exec (hi : Inv s) (hstop : s.orch.stopRequested = true) (h : StopReady s)
    {a : Action} (he : System.exec maxRetries s a = some s') : StopReady s' := by
  have hE : (∀ workItems, a ≠ .masterStart workItems) → s'.orch.batchCompletionEvt = true :=
    fun ha => completion_persists hi h.1 ha he
  have hna : ∀ r : Report, ¬accepts s.orch r.manager := fun _ ha => by simp [ha.2] at hstop
  cases a with
  | master => exact h.masterStep he
  | masterHotswap configData constructorRaises =>
    obtain ⟨_, hm, rfl⟩ := System.exec_masterHotswap he
    simp only [hotswap_stopped hstop, if_true]
    exact ⟨h.1, by simpa [MasterPc.pending, MasterPc.returning, hm] using h.2⟩
  | masterStart workItems =>
    obtain ⟨_, hm, he⟩ := System.exec_masterStart he
    rcases hi.masterStart_cases hm he with ⟨-, rfl⟩ | ⟨r, -, hs, -⟩
    · exact ⟨h.1, .inr (.inr (by split <;> rfl))⟩
    · simp [hs] at hstop
  | summaryThread =>
    change System.summaryStep s = some s' at he
    unfold System.summaryStep at he
    repeat' split at he
    all_goals first | cases he; done | cases he; exact h
  | steal m =>
    obtain ⟨-, o, r, hst, rfl⟩ := System.exec_steal he
    rcases Orchestrator.stealWork_cases hst with ⟨rfl, -⟩ | ⟨_, _, -, -, -, hs, -⟩
    · exact h
    · simp [hs] at hstop
  | success r result =>
    obtain ⟨-, rfl⟩ := System.exec_success he
    rw [(report_ignored (hna r) maxRetries result false).1]
    exact h
  | failure r result =>
    obtain ⟨-, rfl⟩ := System.exec_failure he
    rw [(report_ignored (hna r) maxRetries result true).2.1]
    exact h
  | managerStop m =>
    obtain ⟨-, rfl⟩ := System.exec_managerStop he
    exact h
  | hotswap configData constructorRaises =>
    obtain ⟨-, rfl⟩ := System.exec_hotswap he
    simp only [hotswap_stopped hstop, List.append_nil]
    exact h
  | requestStop =>
    obtain ⟨-, rfl⟩ := System.exec_requestStop he
    exact StopReady.requestStop s
  | cancel batchId =>
    obtain ⟨-, rfl⟩ := System.exec_cancel he
    refine ⟨hE nofun, ?_⟩
    rw [(Orchestrator.SameControl.cancelRunningBatch batchId).submissionQue]
    exact h.2
  | submit request =>
    cases he
    exact ⟨h.1, by simpa using h.2⟩
  | delete batchId => cases he; exact h
  | writeFails writer =>
    obtain ⟨b, ⟨-, r, hm, rfl⟩ | ⟨-, -, rfl⟩⟩ := System.exec_writeFails he
    · exact ⟨h.1, by simpa [MasterPc.pending, MasterPc.returning, hm] using h.2⟩
    · exact h

theorem Reachable.stopReady (hs : Reachable maxRetries s) :
    s.orch.stopRequested = true → StopReady s := by
  induction hs with
  | init p lower => exact nofun
  | @step s s' a hs he ih =>
    intro hstop'
    by_cases ha : a = .requestStop
    · subst ha
      obtain ⟨-, rfl⟩ := System.exec_requestStop he
      exact StopReady.requestStop s
    · have hstop := ((exec_stopRequested hs.inv he).1 ha).symm.trans hstop'
      exact (ih hstop).exec hs.inv hstop he

theorem Reachable.execs_stopRequested (hs : Reachable maxRetries s)
    (hstop : s.orch.stopRequested = true) {l : List Action}
    (he : System.execs maxRetries s l = some s') : s'.orch.stopRequested = true := by
  induction l generalizing s with
  | nil => cases he; exact hstop
  | cons a l ih =>
    simp only [System.execs, Option.bind_eq_some] at he
    obtain ⟨s₁, h₁, h₂⟩ := he
    exact ih (Reachable.step a hs h₁) (exec_stopRequested_true hs.inv hstop h₁) h₂

section BatchEnd

/-! The master's path from its wait on the batch to the status change, taken by the master and
the run-summary thread alone: it serves both the shutdown and the completion of a batch. -/

variable {Step : Action → Prop}

theorem Leads.release (hS : Step .summaryThread) {P : System → Prop} {b : Int}
    (hsu : s.summary = .summary (.write b))
    (h : Leads Step maxRetries
      { s with
        runSummaryLock := none
        summary := .loop
        events := .runSummaryWritten .summary b :: s.events } P) :
    Leads Step maxRetries s P :=
  Leads.step hS _ (by simp [System.exec, System.summaryStep, hsu]) h

theorem leads_of_lockFree (hS : Step .summaryThread) {P : System → Prop} (hlk : LockInv s)
    (hacc : s.master.holdsAccounting = false) (hmw : s.master.writing = false)
    (hP : ∀ t : System, t.master = s.master → t.orch = s.orch → t.deleted = s.deleted →
      t.runSummaryLock = none → Leads Step maxRetries t P) :
    Leads Step maxRetries s P := by
  rcases hl : s.runSummaryLock with _ | _ | _
  · exact hP s rfl rfl rfl hl
  · cases hmw.symm.trans (hlk.master.mp hl)
  · rcases hlk.summary_state hl with hsu | ⟨b, hsu⟩
    · exact Leads.step hS { s with summary := .summary (.write s.orch.onBatchId) }
        (by simp [System.exec, System.summaryStep, hsu, hacc])
        (Leads.release hS rfl (hP _ rfl rfl rfl rfl))
    · exact Leads.release hS hsu (hP _ rfl rfl rfl rfl)

def StatusChanged (o : Orchestrator) (deleted : List Int) (request : BatchRequest) (t : System) :
    Prop :=
  t.master = .closeGate ∧ t.orch = o ∧
    t.events.head? = some (if request.batchId ∈ deleted then .batchDeleted request.batchId
      else .statusDone request.batchId)

theorem leads_of_finalStatus (hM : Step .master) {request : BatchRequest}
    (hm : s.master = .finalStatus request) :
    Leads Step maxRetries s (StatusChanged s.orch s.deleted request) :=
  Leads.step hM
    { s with
      master := .closeGate
      events := (if request.batchId ∈ s.deleted then .batchDeleted request.batchId
        else .statusDone request.batchId) :: s.events }
    (by simp [System.exec, System.masterStep, hm]) (Leads.refl ⟨rfl, rfl, rfl⟩)

theorem leads_of_write (hM : Step .master) {request : BatchRequest} {snapBatchId : Int}
    (hm : s.master = .summary request (.write snapBatchId)) :
    Leads Step maxRetries s (StatusChanged s.orch s.deleted request) :=
  Leads.step hM
    { s with
      runSummaryLock := none
      master := .finalStatus request
      events := .runSummaryWritten .master snapBatchId :: s.events }
    (by simp [System.exec, System.masterStep, hm]) (leads_of_finalStatus hM rfl)

theorem leads_of_snapshot (hM : Step .master) {request : BatchRequest}
    (hm : s.master = .summary request .snapshot) :
    Leads Step maxRetries s (StatusChanged s.orch s.deleted request) :=
  Leads.step hM { s with master := .summary request (.write s.orch.onBatchId) }
    (by simp [System.exec, System.masterStep, hm]) (leads_of_write hM rfl)

theorem leads_of_acquire_free (hM : Step .master) {request : BatchRequest}
    (hm : s.master = .summary request .acquire) (hl : s.runSummaryLock = none) :
    Leads Step maxRetries s (StatusChanged s.orch s.deleted request) :=
  Leads.step hM { s with runSummaryLock := some .master, master := .summary request .snapshot }
    (by simp [System.exec, System.masterStep, hm, hl]) (leads_of_snapshot hM rfl)

theorem leads_of_acquire (hM : Step .master) (hS : Step .summaryThread) (hlk : LockInv s)
    {request : BatchRequest} (hm : s.master = .summary request .acquire) :
    Leads Step maxRetries s (StatusChanged s.orch s.deleted request) :=
  leads_of_lockFree hS hlk (by rw [hm]; rfl) (by rw [hm]; rfl) fun t hm' ho hd hl => by
    rw [← ho, ← hd]
    exact leads_of_acquire_free hM (hm'.trans hm) hl

theorem leads_of_wait (hM : Step .master) (hS : Step .summaryThread)
    (hE : s.orch.batchCompletionEvt = true) (hlk : LockInv s) {request : BatchRequest}
    (hm : s.master = .wait request) :
    Leads Step maxRetries s (StatusChanged s.orch s.deleted request) :=
  have hlk' : LockInv { s with master := .summary request .acquire } :=
    hlk.frame rfl (by simp [MasterPc.writing, hm]) rfl
  Leads.step hM _ (by simp [System.exec, System.masterStep, hm, hE])
    (leads_of_acquire hM hS hlk' rfl)

end BatchEnd

section Progress

variable (configData : Option (Dict String EndpointConfig)) (constructorRaises : Bool)

/-- A step the master thread or the run-summary thread takes on its own. The master's hot-swap
reads configuration `configData`; past a stop, the batch-start block builds no work items. -/
def OwnStep (a : Action) : Prop :=
  a = .master ∨ a = .summaryThread ∨ a = .masterHotswap configData constructorRaises ∨
    a = .masterStart []

variable {configData constructorRaises}

theorem OwnStep.master : OwnStep configData constructorRaises .master := .inl rfl

theorem OwnStep.summaryThread : OwnStep configData constructorRaises .summaryThread :=
  .inr (.inl rfl)

def AtStopCheck (s : System) : Prop := ∃ request, s.master = .start request

theorem leads_of_hotswap (hstop : s.orch.stopRequested = true) {request : Option BatchRequest}
    (hm : s.master = .hotswap request) :
    Leads (OwnStep configData constructorRaises) maxRetries s AtStopCheck :=
  Leads.step (.inr (.inr (.inl rfl))) { s with master := .start request }
    (by simp [System.exec, hm, hotswap_stopped hstop]) (Leads.refl ⟨request, rfl⟩)

theorem leads_of_skipDeleted (hstop : s.orch.stopRequested = true) {request : Option BatchRequest}
    (hm : s.master = .skipDeleted request)
    (hget : request ≠ none → ∀ t : System, t.orch = s.orch → t.master = .get →
      Leads (OwnStep configData constructorRaises) maxRetries t AtStopCheck) :
    Leads (OwnStep configData constructorRaises) maxRetries s AtStopCheck := by
  rcases request with _ | r
  · exact Leads.step OwnStep.master { s with master := .hotswap none }
      (by simp [System.exec, System.masterStep, hm]) (leads_of_hotswap hstop rfl)
  by_cases hd : r.batchId ∈ s.deleted
  · exact Leads.step OwnStep.master { s with master := .get }
      (by simp [System.exec, System.masterStep, hm, hd]) (hget nofun _ rfl rfl)
  · exact Leads.step OwnStep.master { s with master := .hotswap (some r) }
      (by simp [System.exec, System.masterStep, hm, hd]) (leads_of_hotswap hstop rfl)

theorem leads_of_get : ∀ (queue : List (Option BatchRequest)) {s : System},
    s.orch.submissionQue = queue → s.orch.stopRequested = true → s.master = .get →
    none ∈ queue → Leads (OwnStep configData constructorRaises) maxRetries s AtStopCheck
  | [], _, _, _, _, hn => absurd hn (List.not_mem_nil _)
  | request :: rest, s, hq, hstop, hm, hn => by
    let o := { s.orch with
      submissionQue := rest
      onBatchType := request.map BatchRequest.batchType }
    refine Leads.step OwnStep.master
      { s with
        orch := { s.orch with submissionQue := rest }
        master := .setType request }
      (by simp [System.exec, System.masterStep, hm, hq]) ?_
    refine Leads.step OwnStep.master { s with orch := o, master := .skipDeleted request }
      (by simp [System.exec, System.masterStep, o]) ?_
    refine leads_of_skipDeleted hstop rfl fun hr t ho hm' => ?_
    exact leads_of_get rest (by rw [ho]) (by rw [ho]; exact hstop) hm'
      (by simpa [Ne.symm hr] using hn)

theorem leads_of_closeGate (hstop : s.orch.stopRequested = true)
    (hn : none ∈ s.orch.submissionQue) (hm : s.master = .closeGate) :
    Leads (OwnStep configData constructorRaises) maxRetries s AtStopCheck :=
  Leads.step OwnStep.master
    { s with orch := { s.orch with runSummaryThreadGate := false }, master := .get }
    (by simp [System.exec, System.masterStep, hm]) (leads_of_get _ rfl hstop rfl hn)

theorem leads_of_statusChanged {o : Orchestrator} {deleted : List Int} {request : BatchRequest}
    (hstop : o.stopRequested = true) (hn : none ∈ o.submissionQue) (t : System)
    (ht : StatusChanged o deleted request t) :
    Leads (OwnStep configData constructorRaises) maxRetries t AtStopCheck := by
  obtain ⟨hm, rfl, -⟩ := ht
  exact leads_of_closeGate hstop hn hm

theorem leads_of_cancel (hstop : s.orch.stopRequested = true) (hn : none ∈ s.orch.submissionQue)
    (hE : s.orch.batchCompletionEvt = true) (hlk : LockInv s) {request : BatchRequest}
    (hm : s.master = .cancel request) :
    Leads (OwnStep configData constructorRaises) maxRetries s AtStopCheck := by
  have hc : Orchestrator.SameControl s.orch (cancelRunningBatch s.orch request.batchId).1 :=
    .cancelRunningBatch _
  refine Leads.step OwnStep.master
    { s with
      orch := (cancelRunningBatch s.orch request.batchId).1
      master := .wait request
      events := if (cancelRunningBatch s.orch request.batchId).2 then
        .batchCanceled request.batchId :: s.events else s.events }
    (by simp [System.exec, System.masterStep, hm])
    ?_
  refine Leads.trans (leads_of_wait OwnStep.master OwnStep.summaryThread ?_ ?_ rfl)
    (leads_of_statusChanged (hc.stopRequested.trans hstop) (hc.submissionQue ▸ hn))
  · exact cancelRunningBatch_batchCompletionEvt _ hE
  · exact hlk.frame rfl (by simp [MasterPc.writing, hm]) rfl

theorem leads_of_markRunning (hstop : s.orch.stopRequested = true)
    (hn : none ∈ s.orch.submissionQue) (hE : s.orch.batchCompletionEvt = true) (hlk : LockInv s)
    {request : BatchRequest} (hm : s.master = .markRunning request) :
    Leads (OwnStep configData constructorRaises) maxRetries s AtStopCheck := by
  by_cases hd : request.batchId ∈ s.deleted
  · exact Leads.step OwnStep.master { s with master := .cancel request }
      (by simp [System.exec, System.masterStep, hm, hd])
      (leads_of_cancel hstop hn hE (hlk.frame rfl (by simp [MasterPc.writing, hm]) rfl) rfl)
  · refine Leads.step OwnStep.master
      { s with master := .wait request, events := .statusRunning request.batchId :: s.events }
      (by simp [System.exec, System.masterStep, hm, hd])
      (Leads.trans (leads_of_wait OwnStep.master OwnStep.summaryThread ?_ ?_ rfl)
        (leads_of_statusChanged hstop hn))
    · exact hE
    · exact hlk.frame rfl (by simp [MasterPc.writing, hm]) rfl

theorem leads_of_stopReady (hstop : s.orch.stopRequested = true) (hr : StopReady s)
    (hlk : LockInv s) (hc : s.master ≠ .crashed) (hf : s.master.returning = false) :
    Leads (OwnStep configData constructorRaises) maxRetries s AtStopCheck := by
  -- unless the master holds the `None` request, it is still queued
  have hq : none ∈ s.orch.submissionQue ∨ s.master.pending = some none :=
    hr.2.imp_right (·.resolve_right (by simp [hf]))
  have hn : ∀ m, s.master = m → m.pending ≠ some none → none ∈ s.orch.submissionQue :=
    fun m hm hp => hq.resolve_right (hm ▸ hp)
  have hget : ∀ request : Option BatchRequest, s.master.pending = some request →
      request ≠ none → ∀ t : System, t.orch.submissionQue = s.orch.submissionQue →
        t.orch.stopRequested = true → t.master = .get →
          Leads (OwnStep configData constructorRaises) maxRetries t AtStopCheck :=
    fun request hp hr' t hq hstop' hm' => leads_of_get _ rfl hstop' hm'
      (hq ▸ hn _ rfl (by simp [hp, hr']))
  -- in the batch's end, the master changes the status first
  have hend : ∀ {request : BatchRequest}, s.master.pending = none →
      Leads (OwnStep configData constructorRaises) maxRetries s
        (StatusChanged s.orch s.deleted request) →
      Leads (OwnStep configData constructorRaises) maxRetries s AtStopCheck :=
    fun hp h => h.trans (leads_of_statusChanged hstop (hn _ rfl (by simp [hp])))
  cases hm : s.master with
  | get => exact leads_of_get _ rfl hstop hm (hn _ hm nofun)
  | setType request =>
    exact Leads.step OwnStep.master
      { s with
        orch := { s.orch with onBatchType := request.map BatchRequest.batchType }
        master := .skipDeleted request }
      (by simp [System.exec, System.masterStep, hm]) (leads_of_skipDeleted hstop rfl
        fun hr' t ho hm' => hget request (by simp [hm, MasterPc.pending]) hr' t (by rw [ho])
          (by rw [ho]; exact hstop) hm')
  | skipDeleted request =>
    exact leads_of_skipDeleted hstop hm fun hr' t ho hm' =>
      hget request (by simp [hm, MasterPc.pending]) hr' t (by rw [ho]) (by rw [ho]; exact hstop) hm'
  | hotswap request => exact leads_of_hotswap hstop hm
  | start request => exact Leads.refl ⟨request, hm⟩
  | markRunning request => exact leads_of_markRunning hstop (hn _ hm nofun) hr.1 hlk hm
  | cancel request => exact leads_of_cancel hstop (hn _ hm nofun) hr.1 hlk hm
  | wait request =>
    exact hend (by rw [hm]; rfl) (leads_of_wait OwnStep.master OwnStep.summaryThread hr.1 hlk hm)
  | summary request w =>
    cases w with
    | acquire =>
      exact hend (by rw [hm]; rfl) (leads_of_acquire OwnStep.master OwnStep.summaryThread hlk hm)
    | snapshot => exact hend (by rw [hm]; rfl) (leads_of_snapshot OwnStep.master hm)
    | write b => exact hend (by rw [hm]; rfl) (leads_of_write OwnStep.master hm)
  | finalStatus request => exact hend (by rw [hm]; rfl) (leads_of_finalStatus OwnStep.master hm)
  | closeGate => exact leads_of_closeGate hstop (hn _ hm nofun) hm
  | finalize | finished => simp [hm, MasterPc.returning] at hf
  | crashed => exact absurd hm hc

theorem leads_of_finalize_free (hm : s.master = .finalize) (hl : s.runSummaryLock = none) :
    Leads (OwnStep configData constructorRaises) maxRetries s (·.master = .finished) :=
  Leads.step OwnStep.master { s with master := .finished }
    (by simp [System.exec, System.masterStep, hm, hl]) (Leads.refl rfl)

theorem leads_of_start_free (hstop : s.orch.stopRequested = true) {request : Option BatchRequest}
    (hm : s.master = .start request) (hl : s.runSummaryLock = none) :
    Leads (OwnStep configData constructorRaises) maxRetries s (·.master = .finished) := by
  cases hsm : System.singletonMode s.orch.singletonRunSummaryPath
  · exact Leads.step (.inr (.inr (.inr rfl))) { s with master := .finished }
      (by simp [System.exec, hm, System.masterStart, hstop, hsm]) (Leads.refl rfl)
  · exact Leads.step (.inr (.inr (.inr rfl))) { s with master := .finalize }
      (by simp [System.exec, hm, System.masterStart, hstop, hsm]) (leads_of_finalize_free rfl hl)

theorem leads_of_start (hstop : s.orch.stopRequested = true) (hlk : LockInv s)
    {request : Option BatchRequest} (hm : s.master = .start request) :
    Leads (OwnStep configData constructorRaises) maxRetries s (·.master = .finished) :=
  leads_of_lockFree OwnStep.summaryThread hlk (by rw [hm]; rfl) (by rw [hm]; rfl)
    fun t hm' ho _ hl => leads_of_start_free (by rw [ho]; exact hstop) (hm'.trans hm) hl

theorem leads_of_finalize (hlk : LockInv s) (hm : s.master = .finalize) (hd : ¬Deadlocked s) :
    Leads (OwnStep configData constructorRaises) maxRetries s (·.master = .finished) := by
  rcases hl : s.runSummaryLock with _ | _ | _
  · exact leads_of_finalize_free hm hl
  · exact absurd (hlk.master.mp hl) (by simp [hm, MasterPc.writing])
  · rcases hlk.summary_state hl with hsu | ⟨b, hsu⟩
    · exact absurd ⟨hm, hsu, hl⟩ hd
    · exact Leads.release OwnStep.summaryThread hsu (leads_of_finalize_free hm rfl)

theorem leads_of_not_deadlocked (hs : Reachable maxRetries s)
    (hstop : s.orch.stopRequested = true) (hd : ¬Deadlocked s) :
    Leads (OwnStep configData constructorRaises) maxRetries s (·.master = .finished) := by
  have hlk := hs.lockInv
  cases hm : s.master with
  | finalize => exact leads_of_finalize hlk hm hd
  | finished => exact Leads.refl hm
  | crashed => exact absurd hm hs.inv.not_crashed
  | _ =>
    have h : Leads (OwnStep configData constructorRaises) maxRetries s AtStopCheck :=
      leads_of_stopReady hstop (hs.stopReady hstop) hlk (by simp [hm])
        (by simp [hm, MasterPc.returning])
    obtain ⟨l, t, hl, he, request, ht⟩ := h
    exact Leads.prepend hl he
      (leads_of_start (hs.execs_stopRequested hstop he) (hs.execs he).lockInv ht)

end Progress

/-- Once a stop is requested, from every reachable state outside the lock cycle of singleton
run-summary mode the master thread and the run-summary thread alone can bring the master to its
return, whatever configuration the master's hot-swap reads. -/
theorem master_returns_unless_deadlocked (hs : Reachable maxRetries s)
    (hstop : s.orch.stopRequested = true) (hd : ¬Deadlocked s)
    (configData : Option (Dict String EndpointConfig)) (constructorRaises : Bool) :
    ∃ l s', (∀ a ∈ l, a = .master ∨ a = .summaryThread ∨
        a = .masterHotswap configData constructorRaises ∨ a = .masterStart []) ∧
      System.execs maxRetries s l = some s' ∧ s'.master = .finished :=
  leads_of_not_deadlocked hs hstop hd

/-- Singleton run-summary mode, path `run_summary.json`: an empty batch starts, the run-summary
thread passes its gate, and a stop arrives while the master waits on the batch. -/
def singletonStopRun : List Action :=
  emptyBatchRun ++ [.summaryThread, .summaryThread, .requestStop]

def afterSingletonStop : System :=
  (System.execs 0 (System.init (some "run_summary.json") asciiLower) singletonStopRun).get (by decide)

theorem master_returns_unless_deadlocked_afterSingletonStop :
    ∃ l s', (∀ a ∈ l, a = .master ∨ a = .summaryThread ∨ a = .masterHotswap none false ∨
        a = .masterStart []) ∧
      System.execs 0 afterSingletonStop l = some s' ∧ s'.master = .finished :=
  master_returns_unless_deadlocked
    ((Reachable.init _ _).execs (Option.eq_some_of_isSome _)) (by decide) (by decide) none false

/-- Once a stop is requested, outside singleton run-summary mode, the master thread and the
run-summary thread alone bring the master to its return, whatever configuration the master's
hot-swap reads: `join()` returns. -/
theorem master_returns_after_stop (hs : Reachable maxRetries s)
    (hstop : s.orch.stopRequested = true)
    (hsingle : System.singletonMode s.orch.singletonRunSummaryPath = false)
    (configData : Option (Dict String EndpointConfig)) (constructorRaises : Bool) :
    ∃ l s', (∀ a ∈ l, a = .master ∨ a = .summaryThread ∨
        a = .masterHotswap configData constructorRaises ∨ a = .masterStart []) ∧
      System.execs maxRetries s l = some s' ∧ s'.master = .finished :=
  leads_of_not_deadlocked hs hstop fun hd => nomatch hsingle.symm.trans (hs.finalize hd.1).1

theorem master_returns_after_stop_whileWriting :
    ∃ l s', (∀ a ∈ l, a = .master ∨ a = .summaryThread ∨ a = .masterHotswap none false ∨
        a = .masterStart []) ∧
      System.execs 0 afterStopWhileWriting l = some s' ∧ s'.master = .finished :=
  master_returns_after_stop (Reachable.execs_getD (by decide)) (by decide) (by decide) none false

section Deadlock

def Action.isReport : Action → Bool
  | .success _ _ | .failure _ _ => true
  | _ => false

theorem exec_maxRetries (m m' : Nat) (s : System) {a : Action} (ha : a.isReport = false) :
    System.exec m s a = System.exec m' s a := by
  cases a with
  | success | failure => cases ha
  | writeFails writer => cases writer <;> rfl
  | _ => rfl

theorem execs_maxRetries (m m' : Nat) : ∀ (s : System) {l : List Action},
    (∀ a ∈ l, a.isReport = false) → System.execs m s l = System.execs m' s l
  | _, [], _ => rfl
  | s, a :: l, hl => by
    simp only [System.execs, exec_maxRetries m m' s (hl a (List.mem_cons_self _ _))]
    rcases System.exec m' s a with _ | t
    · rfl
    · exact execs_maxRetries m m' t fun b hb => hl b (List.mem_cons_of_mem _ hb)

/-- From the stop above: the master writes the batch's summary, and the run-summary thread takes
`_run_summary_lock` before the master reaches `_master_finalize`. -/
def singletonDeadlockRun : List Action :=
  singletonStopRun ++ [.master, .master, .master, .master, .summaryThread, .master, .master,
    .master, .master, .master, .masterHotswap none false, .masterStart []]

def singletonDeadlock : System :=
  (System.execs 0 (System.init (some "run_summary.json") asciiLower) singletonDeadlockRun).get (by decide)

/-- In singleton run-summary mode a stop can hang `join()`: a run reaches the lock cycle with the
stop requested, and from there no interleaving of any threads' steps brings the master to its
return. -/
theorem stop_deadlocks_singleton (maxRetries : Nat) :
    Reachable maxRetries singletonDeadlock ∧ singletonDeadlock.orch.stopRequested = true ∧
      System.singletonMode singletonDeadlock.orch.singletonRunSummaryPath = true ∧
      Deadlocked singletonDeadlock ∧
      ∀ l s', System.execs maxRetries singletonDeadlock l = some s' →
        s'.master ≠ .finished := by
  have hd : Deadlocked singletonDeadlock := by decide
  have hr : System.execs maxRetries (System.init (some "run_summary.json") asciiLower) singletonDeadlockRun =
      some singletonDeadlock :=
    (execs_maxRetries maxRetries 0 _ (by decide)).trans (Option.eq_some_of_isSome _)
  refine ⟨(Reachable.init _ _).execs hr, by decide, by decide, hd, fun l s' he hf => ?_⟩
  cases hf.symm.trans (hd.execs he).1

end Deadlock

end BatchKit
