import BatchKit.Completion

/-!
# Run summaries and the final status

After a batch completes, the master writes its run summary under `_run_summary_lock`, then
changes the batch's status to done, then clears `_run_summary_thread_gate`. The periodic thread
checks the gate before it takes the lock, so it can still write a summary of the batch after the
status change. What the ordering does guarantee is that the master's own attempt at the summary
of the batch comes after the batch started and before its status changes to done. The attempt
can fail: `allow_fail=True` logs the error, and the status still changes to done.
-/

namespace BatchKit

variable {maxRetries : Nat} {s s' : System}

/-- No run summary for a batch is written after its status was changed to done. -/
def NoSummaryAfterDone (events : List Event) : Prop :=
  ∀ pre post b w, events = pre ++ .statusDone b :: post → .runSummaryWritten w b ∉ pre

/-- The batch of `retryRun` completes; the periodic thread passes the gate, the master writes the
summary and marks the batch done, then the periodic thread writes its summary. -/
def lateSummaryRun : List Action :=
  retryRun ++ [.summaryThread, .summaryThread, .master, .master, .master, .master, .master,
    .summaryThread, .summaryThread, .summaryThread]

def afterLateSummary : System :=
  (System.execs 1 (System.init none asciiLower) lateSummaryRun).getD (System.init none asciiLower)

theorem summary_written_after_done :
    Reachable 1 afterLateSummary ∧ ¬NoSummaryAfterDone afterLateSummary.events := by
  refine ⟨Reachable.execs_getD (by decide), fun h => ?_⟩
  have hev : afterLateSummary.events =
      [.runSummaryWritten .summary 1] ++ .statusDone 1 :: afterLateSummary.events.drop 2 := by
    decide
  exact h _ _ 1 .summary hev (List.mem_singleton_self _)

def Event.isMasterSummary (b : Int) : Event → Bool
  | .runSummaryWritten .master b' | .runSummaryFailed .master b' => b' == b
  | _ => false

/-- The master tried to write the run summary of batch `b`, and no batch started since. -/
def MasterAttempted (b : Int) (events : List Event) : Prop :=
  ∃ mid e rest, events = mid ++ e :: rest ∧ e.isMasterSummary b = true ∧
    ∀ e ∈ mid, e.isBatchStart = false

theorem MasterAttempted.append {b : Int} {events : List Event} (h : MasterAttempted b events)
    {evs : List Event} (hevs : ∀ e ∈ evs, e.isBatchStart = false) :
    MasterAttempted b (evs ++ events) := by
  obtain ⟨mid, e, rest, rfl, he, hmid⟩ := h
  refine ⟨evs ++ mid, e, rest, (List.append_assoc _ _ _).symm, he, fun e' he' => ?_⟩
  rcases List.mem_append.mp he' with he' | he'
  · exact hevs e' he'
  · exact hmid e' he'

/-- Every change of a batch's status to done follows the master's attempt to write the run
summary of that batch, with no batch started in between. -/
def MasterSummaryFirst (events : List Event) : Prop :=
  ∀ pre post b, events = pre ++ .statusDone b :: post → MasterAttempted b post

theorem MasterSummaryFirst.cons {events : List Event} (h : MasterSummaryFirst events) {e : Event}
    (he : ∀ b, e ≠ .statusDone b) : MasterSummaryFirst (e :: events) := by
  intro pre post b hsplit
  rcases pre with _ | ⟨e', pre⟩
  · simp only [List.nil_append, List.cons.injEq] at hsplit
    exact absurd hsplit.1 (he b)
  · simp only [List.cons_append, List.cons.injEq] at hsplit
    exact h pre post b hsplit.2

theorem MasterSummaryFirst.done {events : List Event} (h : MasterSummaryFirst events) {b : Int}
    (hw : MasterAttempted b events) : MasterSummaryFirst (.statusDone b :: events) := by
  intro pre post b' hsplit
  rcases pre with _ | ⟨e', pre⟩
  · simp only [List.nil_append, List.cons.injEq, Event.statusDone.injEq] at hsplit
    obtain ⟨rfl, rfl⟩ := hsplit
    exact hw
  · simp only [List.cons_append, List.cons.injEq] at hsplit
    exact h pre post b' hsplit.2

theorem MasterSummaryFirst.append {events : List Event} (h : MasterSummaryFirst events) :
    ∀ {evs : List Event}, (∀ e ∈ evs, ∀ b, e ≠ .statusDone b) → MasterSummaryFirst (evs ++ events)
  | [], _ => h
  | _ :: _, hevs =>
    (MasterSummaryFirst.append h fun e he => hevs e (List.mem_cons_of_mem _ he)).cons
      (hevs _ (List.mem_cons_self _ _))

def Event.isBackground : Event → Bool
  | .batchStarted _ _ | .statusDone _ => false
  | _ => true

theorem Event.isBackground_iff {e : Event} :
    e.isBackground = true ↔ e.isBatchStart = false ∧ ∀ b, e ≠ .statusDone b := by
  cases e <;> simp [Event.isBackground, Event.isBatchStart]

theorem reportEvents_isBackground (o : Orchestrator) (maxRetries : Nat) (filepath : String)
    (manager : EndpointManager) (result : WorkItemResult) (failure : Bool) :
    ∀ e ∈ System.reportEvents o maxRetries filepath manager result failure,
      e.isBackground = true := by
  unfold System.reportEvents
  split_ifs <;> simp [Event.isBackground]

def MasterPc.current : MasterPc → Option BatchRequest
  | .markRunning r | .cancel r | .wait r | .summary r _ | .finalStatus r => some r
  | _ => none

structure SummaryInv (s : System) : Prop where
  batch_id : ∀ r, s.master.current = some r → s.orch.onBatchId = r.batchId
  snapshot : ∀ r b, s.master = .summary r (.write b) → b = r.batchId
  written : ∀ r, s.master = .finalStatus r → MasterAttempted r.batchId s.events
  ordered : MasterSummaryFirst s.events

namespace SummaryInv

theorem init (singletonRunSummaryPath : Option String) (lower : String → String) :
    SummaryInv (System.init singletonRunSummaryPath lower) where
  batch_id := nofun
  snapshot := nofun
  written := nofun
  ordered := fun pre _ _ h => by simp [System.init] at h

theorem of_current_none {t : System} (hc : t.master.current = none)
    (ho : MasterSummaryFirst t.events) : SummaryInv t where
  batch_id := fun _ hr => by simp [hc] at hr
  snapshot := fun _ _ hr => by simp [hr, MasterPc.current] at hc
  written := fun _ hr => by simp [hr, MasterPc.current] at hc
  ordered := ho

theorem frame (h : SummaryInv s) {t : System} (hm : t.master = s.master)
    (hb : t.orch.onBatchId = s.orch.onBatchId)
    (he : ∃ evs, t.events = evs ++ s.events ∧ ∀ e ∈ evs, e.isBackground = true) :
    SummaryInv t := by
  obtain ⟨evs, he, hevs⟩ := he
  exact ⟨fun r hr => hb.trans (h.batch_id r (hm ▸ hr)), fun r b hr => h.snapshot r b (hm ▸ hr),
    fun r hr => he ▸ (h.written r (hm ▸ hr)).append fun e he' =>
      (Event.isBackground_iff.mp (hevs e he')).1,
    he ▸ h.ordered.append fun e he' => (Event.isBackground_iff.mp (hevs e he')).2⟩

theorem masterWrite (h : SummaryInv s) {r : BatchRequest} {b : Int}
    (hm : s.master = .summary r (.write b)) {e : Event} (he : e.isMasterSummary b = true) :
    SummaryInv { s with runSummaryLock := none, master := .finalStatus r, events := e :: s.events } :=
  have hb := h.batch_id r (by rw [hm]; rfl)
  have hsnap := h.snapshot r b hm
  ⟨fun _ hr => by cases hr; exact hb, nofun,
    fun _ hr => by cases hr; exact ⟨[], e, _, rfl, hsnap ▸ he, nofun⟩,
    h.ordered.cons fun b' hb' => by subst hb'; simp [Event.isMasterSummary] at he⟩

theorem masterStep (h : SummaryInv s) (he : System.masterStep s = some s') : SummaryInv s' := by
  unfold System.masterStep at he
  cases hm : s.master with
  | get =>
    simp only [hm] at he
    split at he
    · cases he
    · cases he; exact of_current_none rfl h.ordered
  | setType r =>
    simp only [hm, Option.some.injEq] at he
    subst he
    exact of_current_none rfl h.ordered
  | skipDeleted r =>
    simp only [hm, Option.some.injEq] at he
    subst he
    refine of_current_none ?_ h.ordered
    split <;> [split; skip] <;> rfl
  | markRunning r =>
    have hb := h.batch_id r (by rw [hm]; rfl)
    simp only [hm] at he
    split at he <;> cases he
    · exact ⟨fun _ hr => by cases hr; exact hb, nofun, nofun, h.ordered⟩
    · exact ⟨fun _ hr => by cases hr; exact hb, nofun, nofun, h.ordered.cons nofun⟩
  | cancel r =>
    have hb := h.batch_id r (by rw [hm]; rfl)
    simp only [hm, Option.some.injEq] at he
    subst he
    have hb' := (Orchestrator.SameControl.cancelRunningBatch r.batchId).onBatchId.trans hb
    refine ⟨fun _ hr => by cases hr; exact hb', nofun, nofun, ?_⟩
    split
    · exact h.ordered.cons nofun
    · exact h.ordered
  | wait r =>
    have hb := h.batch_id r (by rw [hm]; rfl)
    simp only [hm] at he
    split at he <;> cases he
    exact ⟨fun _ hr => by cases hr; exact hb, nofun, nofun, h.ordered⟩
  | summary r w =>
    have hb := h.batch_id r (by rw [hm]; rfl)
    cases w with
    | acquire =>
      simp only [hm] at he
      split at he <;> cases he
      exact ⟨fun _ hr => by cases hr; exact hb, nofun, nofun, h.ordered⟩
    | snapshot =>
      simp only [hm, Option.some.injEq] at he
      subst he
      exact ⟨fun _ hr => by cases hr; exact hb, fun _ _ hr => by cases hr; exact hb,
        nofun, h.ordered⟩
    | write b =>
      simp only [hm, Option.some.injEq] at he
      subst he
      exact h.masterWrite hm (by simp [Event.isMasterSummary])
  | finalStatus r =>
    have hw := h.written r hm
    simp only [hm, Option.some.injEq] at he
    subst he
    refine of_current_none rfl ?_
    split
    · exact h.ordered.cons nofun
    · exact h.ordered.done hw
  | closeGate =>
    simp only [hm, Option.some.injEq] at he
    subst he
    exact of_current_none rfl h.ordered
  | hotswap r => simp [hm] at he
  | start r => simp [hm] at he
  | finished => simp [hm] at he
  | finalize =>
    simp only [hm] at he
    split at he
    · cases he; exact of_current_none rfl h.ordered
    · cases he
  | crashed => simp [hm] at he

theorem exec (hi : Inv s) (h : SummaryInv s) {a : Action}
    (he : System.exec maxRetries s a = some s') : SummaryInv s' := by
  have hk := hi.queue.owner_keys
  cases a with
  | master => exact h.masterStep he
  | masterHotswap configData constructorRaises =>
    obtain ⟨_, -, rfl⟩ := System.exec_masterHotswap he
    exact of_current_none (by split <;> rfl) h.ordered
  | masterStart workItems =>
    obtain ⟨_, hm, he⟩ := System.exec_masterStart he
    rcases hi.masterStart_cases hm he with ⟨-, rfl⟩ | ⟨r, rfl, -, -, -, -, rfl⟩
    · exact of_current_none (by split <;> rfl) h.ordered
    · exact ⟨fun _ hr => by cases hr; rfl, nofun, nofun, h.ordered.cons nofun⟩
  | summaryThread =>
    change System.summaryStep s = some s' at he
    unfold System.summaryStep at he
    repeat' split at he
    all_goals first
      | cases he; done
      | cases he; exact h.frame rfl rfl ⟨[], rfl, nofun⟩
      | cases he; exact h.frame rfl rfl ⟨[_], rfl, by simp [Event.isBackground]⟩
  | steal m =>
    obtain ⟨-, o, r, hst, rfl⟩ := System.exec_steal he
    exact h.frame rfl (Orchestrator.SameControl.stealWork hst).onBatchId ⟨[], rfl, nofun⟩
  | success r result =>
    obtain ⟨-, rfl⟩ := System.exec_success he
    exact h.frame rfl (Orchestrator.SameControl.notifyWorkSuccess _ _ _).onBatchId
      ⟨_, rfl, reportEvents_isBackground _ _ _ _ _ _⟩
  | failure r result =>
    obtain ⟨-, rfl⟩ := System.exec_failure he
    exact h.frame rfl (Orchestrator.SameControl.notifyWorkFailure _ _ _ _).onBatchId
      ⟨_, rfl, reportEvents_isBackground _ _ _ _ _ _⟩
  | managerStop m =>
    obtain ⟨-, rfl⟩ := System.exec_managerStop he
    exact h.frame rfl rfl ⟨[], rfl, nofun⟩
  | hotswap configData constructorRaises =>
    obtain ⟨-, rfl⟩ := System.exec_hotswap he
    exact h.frame rfl (hotswap_outcome hk configData constructorRaises).2.2.onBatchId
      ⟨[], rfl, nofun⟩
  | requestStop =>
    obtain ⟨-, rfl⟩ := System.exec_requestStop he
    exact h.frame rfl rfl ⟨[], rfl, nofun⟩
  | cancel batchId =>
    obtain ⟨-, rfl⟩ := System.exec_cancel he
    refine h.frame rfl (Orchestrator.SameControl.cancelRunningBatch batchId).onBatchId ?_
    split
    · exact ⟨[_], rfl, by simp [Event.isBackground]⟩
    · exact ⟨[], rfl, nofun⟩
  | submit request => cases he; exact h.frame rfl rfl ⟨[], rfl, nofun⟩
  | delete batchId => cases he; exact h.frame rfl rfl ⟨[], rfl, nofun⟩
  | writeFails writer =>
    obtain ⟨b, ⟨-, r, hm, rfl⟩ | ⟨-, -, rfl⟩⟩ := System.exec_writeFails he
    · exact h.masterWrite hm (by simp [Event.isMasterSummary])
    · exact h.frame rfl rfl ⟨[_], rfl, by simp [Event.isBackground]⟩

end SummaryInv

theorem Reachable.summaryInv (hs : Reachable maxRetries s) : SummaryInv s := by
  induction hs with
  | init p lower => exact SummaryInv.init p lower
  | step a hs he ih => exact ih.exec hs.inv he

theorem master_summary_before_done (hs : Reachable maxRetries s) : MasterSummaryFirst s.events :=
  hs.summaryInv.ordered

theorem master_summary_before_done_afterLateSummary : MasterSummaryFirst afterLateSummary.events :=
  master_summary_before_done (Reachable.execs_getD (by decide))

end BatchKit
