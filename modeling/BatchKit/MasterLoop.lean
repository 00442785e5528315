import BatchKit.RunSummary
import BatchKit.Lifecycle

/-!
# The master loop against the status store

The master drives one batch at a time through the status store. Read oldest first, the history
the threads leave is accepted by `BatchPhase.step`, the protocol of one batch: a batch starts
only once the previous one has its final status, gets that status exactly once, is marked running
at most once and only before it, and takes accepted reports and the master's run summary,
written or failed, only while it is open. The run-summary thread writes nothing before the first
batch starts, and `cancel_running_batch` succeeds for the latest batch id whatever its phase (`-1`
before any batch). The master itself never dies of an exception.
-/

namespace BatchKit

/-- The phase of the latest batch, as the status store and the summary files see it. -/
inductive BatchPhase where
  | idle
  | started (batchId : Int)
  | running (batchId : Int)
  | closed (batchId : Int)
deriving DecidableEq, Repr

namespace BatchPhase

def batchId : BatchPhase → Int
  | idle => -1
  | started b | running b | closed b => b

def isOpen : BatchPhase → Bool
  | started _ | running _ => true
  | _ => false

/-- The events the protocol allows in phase `p`, and the phase after each. -/
def step (p : BatchPhase) : Event → Option BatchPhase
  | .batchStarted b _ => if p.isOpen then none else some (started b)
  | .statusRunning b => if p = started b then some (running b) else none
  | .statusDone b | .batchDeleted b =>
    if p.isOpen ∧ p.batchId = b then some (closed b) else none
  | .batchCanceled b => if p.batchId = b then some p else none
  | .accepted _ _ _ => if p.isOpen then some p else none
  | .runSummaryWritten .master b | .runSummaryFailed .master b =>
    if p.isOpen ∧ p.batchId = b then some p else none
  | .runSummaryWritten .summary _ | .runSummaryFailed .summary _ => if p = idle then none else some p

def openFor (b : Int) (p : BatchPhase) : Prop := p = started b ∨ p = running b

theorem openFor_iff {b : Int} {p : BatchPhase} : p.openFor b ↔ p.isOpen = true ∧ p.batchId = b := by
  cases p <;> simp [openFor, isOpen, batchId]

end BatchPhase

/-- The phase a history, newest first, leaves; `none` if the protocol refuses it. -/
def statusLog : List Event → Option BatchPhase
  | [] => some .idle
  | e :: events => (statusLog events).bind (·.step e)

theorem statusLog_cons {events : List Event} {p : BatchPhase} (h : statusLog events = some p)
    (e : Event) : statusLog (e :: events) = p.step e := by
  simp [statusLog, h]

/-- Where the master is against the phase: from its batch-start block to its final status change
the batch it holds is open, and `_on_batch_id` is that batch's. -/
def MasterPc.inPhase : MasterPc → BatchPhase → Prop
  | .markRunning r, p | .cancel r, p => p = .started r.batchId
  | .wait r, p | .summary r .acquire, p | .summary r .snapshot, p | .finalStatus r, p =>
    p.openFor r.batchId
  | .summary r (.write b), p => b = r.batchId ∧ p.openFor r.batchId
  | _, p => p.isOpen = false

theorem MasterPc.idle_of_closed {m : MasterPc} {p : BatchPhase} (hin : m.inPhase p)
    (hp : p.isOpen = false) : m.idle ∨ m.returning = true ∨ m = .crashed := by
  cases m with
  | markRunning r | cancel r => simp_all [inPhase, BatchPhase.isOpen]
  | wait r => simp_all [inPhase, BatchPhase.openFor_iff]
  | _ => simp [MasterPc.idle, returning]

theorem MasterPc.inPhase_of_current {m : MasterPc} {p : BatchPhase} (hc : m.current = none)
    (hp : p.isOpen = false) : m.inPhase p := by
  cases m <;> simp_all [current, inPhase]

def SummaryPc.inSummary : SummaryPc → Bool
  | .summary _ => true
  | _ => false

structure StatusInv (s : System) (p : BatchPhase) : Prop where
  log : statusLog s.events = some p
  batch_id : s.orch.onBatchId = p.batchId
  master : s.master.inPhase p
  summary : s.summary.inSummary = true → p ≠ .idle
  returning : s.master.returning = true → s.orch.stopRequested = true

namespace StatusInv

variable {maxRetries : Nat} {s s' : System} {p : BatchPhase}

theorem init (singletonRunSummaryPath : Option String) (lower : String → String) :
    StatusInv (System.init singletonRunSummaryPath lower) .idle where
  log := rfl
  batch_id := rfl
  master := rfl
  summary := by simp [System.init, SummaryPc.inSummary]
  returning := by simp [System.init, MasterPc.returning]

theorem frame (h : StatusInv s p) {t : System} (hev : t.events = s.events)
    (hc : Orchestrator.SameControl s.orch t.orch) (hm : t.master = s.master)
    (hsu : t.summary = s.summary) : StatusInv t p :=
  ⟨hev ▸ h.log, hc.onBatchId ▸ h.batch_id, hm ▸ h.master, hsu ▸ h.summary,
    fun hr => hc.stopRequested ▸ h.returning (hm ▸ hr)⟩

theorem open_of_accepts (hi : Inv s) (h : StatusInv s p) {r : Report} (hr : r ∈ s.outstanding)
    (ha : accepts s.orch r.manager) : p.isOpen = true := by
  by_contra hp
  rcases MasterPc.idle_of_closed h.master (Bool.eq_false_iff.mpr hp) with hidle | hret | hc
  · exact hi.not_accepts hr (hi.quiescent ha.2 (hi.idle hidle)).2 ha
  · exact absurd (h.returning hret) (by simp [ha.2])
  · exact hi.not_crashed hc

theorem report (hi : Inv s) (h : StatusInv s p) {r : Report} (hr : r ∈ s.outstanding)
    {result : WorkItemResult} {failure : Bool} {t : System}
    (hev : t.events = System.reportEvents s.orch maxRetries r.work.filepath r.manager result
      failure ++ s.events)
    (hc : Orchestrator.SameControl s.orch t.orch) (hm : t.master = s.master)
    (hsu : t.summary = s.summary) : StatusInv t p := by
  by_cases ha : accepts s.orch r.manager
  · have hf := h.frame (t := { t with events := s.events }) rfl hc hm hsu
    refine ⟨?_, hf.batch_id, hf.master, hf.summary, hf.returning⟩
    rw [hev, System.reportEvents, if_pos ha, List.singleton_append, statusLog_cons h.log]
    simp [BatchPhase.step, h.open_of_accepts hi hr ha]
  · exact h.frame (by simp [hev, System.reportEvents, ha]) hc hm hsu

theorem between (h : StatusInv s p) (hp : p.isOpen = false) {t : System}
    (hev : t.events = s.events) (hb : t.orch.onBatchId = s.orch.onBatchId)
    (hc : t.master.current = none) (hsu : t.summary = s.summary)
    (hret : t.master.returning = true → t.orch.stopRequested = true) : StatusInv t p :=
  ⟨hev ▸ h.log, hb ▸ h.batch_id, MasterPc.inPhase_of_current hc hp, hsu ▸ h.summary, hret⟩

theorem closed_of_current (h : StatusInv s p) (hc : s.master.current = none) :
    p.isOpen = false := by
  have := h.master
  cases hm : s.master <;> simp_all [MasterPc.current, MasterPc.inPhase]

theorem masterWrite (h : StatusInv s p) {r : BatchRequest} {b : Int}
    (hm : s.master = .summary r (.write b)) {e : Event}
    (he : e = .runSummaryWritten .master b ∨ e = .runSummaryFailed .master b) :
    StatusInv { s with runSummaryLock := none, master := .finalStatus r, events := e :: s.events }
      p := by
  have hin := h.master
  rw [hm] at hin
  obtain ⟨rfl, hin⟩ := hin
  refine ⟨?_, h.batch_id, hin, h.summary, nofun⟩
  rw [statusLog_cons h.log]
  rcases he with rfl | rfl <;> simp [BatchPhase.step, BatchPhase.openFor_iff.mp hin]

theorem summaryWrite (h : StatusInv s p) {b : Int} (hsu : s.summary = .summary (.write b))
    {e : Event} (he : e = .runSummaryWritten .summary b ∨ e = .runSummaryFailed .summary b) :
    StatusInv { s with runSummaryLock := none, summary := .loop, events := e :: s.events } p := by
  have hne := h.summary (by rw [hsu]; rfl)
  refine ⟨?_, h.batch_id, h.master, nofun, h.returning⟩
  rw [statusLog_cons h.log]
  rcases he with rfl | rfl <;> simp [BatchPhase.step, hne]

theorem masterStep (h : StatusInv s p) (he : System.masterStep s = some s') :
    ∃ p', StatusInv s' p' := by
  have hin := h.master
  unfold System.masterStep at he
  cases hm : s.master with
  | get =>
    simp only [hm] at he
    split at he
    · cases he
    · cases he
      exact ⟨p, h.between (h.closed_of_current (by rw [hm]; rfl)) rfl rfl rfl rfl nofun⟩
  | setType r | skipDeleted r | closeGate =>
    simp only [hm, Option.some.injEq] at he
    subst he
    refine ⟨p, h.between (h.closed_of_current (by rw [hm]; rfl)) rfl rfl ?_ rfl ?_⟩ <;>
      (try split) <;> (try split) <;> simp [MasterPc.current, MasterPc.returning]
  | markRunning r =>
    have hin : p = .started r.batchId := by rw [hm] at hin; exact hin
    simp only [hm] at he
    split at he <;> cases he
    · exact ⟨p, h.log, h.batch_id, hin, h.summary, nofun⟩
    · subst hin
      refine ⟨.running r.batchId, ?_, h.batch_id, .inr rfl, fun _ => nofun, nofun⟩
      rw [statusLog_cons h.log]
      simp [BatchPhase.step]
  | cancel r =>
    have hin : p = .started r.batchId := by rw [hm] at hin; exact hin
    simp only [hm, Option.some.injEq] at he
    subst he hin
    have hc := Orchestrator.SameControl.cancelRunningBatch (s := s.orch) r.batchId
    refine ⟨_, ?_, hc.onBatchId ▸ h.batch_id, .inl rfl, h.summary, nofun⟩
    have hb : s.orch.onBatchId = r.batchId := h.batch_id
    rw [Orchestrator.cancelRunningBatch_of_eq hb, if_pos rfl, statusLog_cons h.log]
    simp [BatchPhase.step, BatchPhase.batchId]
  | wait r =>
    rw [hm] at hin
    simp only [hm] at he
    split at he <;> cases he
    exact ⟨p, h.log, h.batch_id, hin, h.summary, nofun⟩
  | summary r w =>
    rw [hm] at hin
    cases w with
    | acquire =>
      simp only [hm] at he
      split at he <;> cases he
      exact ⟨p, h.log, h.batch_id, hin, h.summary, nofun⟩
    | snapshot =>
      simp only [hm, Option.some.injEq] at he
      subst he
      exact ⟨p, h.log, h.batch_id, ⟨h.batch_id.trans (BatchPhase.openFor_iff.mp hin).2, hin⟩,
        h.summary, nofun⟩
    | write b =>
      simp only [hm, Option.some.injEq] at he
      subst he
      exact ⟨p, h.masterWrite hm (.inl rfl)⟩
  | finalStatus r =>
    rw [hm] at hin
    simp only [hm, Option.some.injEq] at he
    subst he
    obtain ⟨ho, hb⟩ := BatchPhase.openFor_iff.mp hin
    refine ⟨.closed r.batchId, ?_, h.batch_id.trans hb, rfl, fun _ => nofun, nofun⟩
    rw [statusLog_cons h.log]
    split <;> simp [BatchPhase.step, ho, hb]
  | finalize =>
    simp only [hm] at he
    split at he <;> cases he
    exact ⟨p, h.between (h.closed_of_current (by rw [hm]; rfl)) rfl rfl rfl rfl
      fun _ => h.returning (by rw [hm]; rfl)⟩
  | hotswap r | start r | finished | crashed => simp [hm] at he

theorem summaryStep (h : StatusInv s p) (he : System.summaryStep s = some s') :
    ∃ p', StatusInv s' p' := by
  unfold System.summaryStep at he
  cases hsu : s.summary with
  | loop =>
    simp only [hsu, Option.some.injEq] at he
    subst he
    exact ⟨p, h.log, h.batch_id, h.master, by split <;> simp [SummaryPc.inSummary], h.returning⟩
  | gate =>
    simp only [hsu] at he
    split at he <;> cases he
    refine ⟨p, h.log, h.batch_id, h.master, ?_, h.returning⟩
    split_ifs with _ hb
    · simp [SummaryPc.inSummary]
    · rintro - rfl
      simp [h.batch_id, BatchPhase.batchId] at hb
    · simp [SummaryPc.inSummary]
  | summary w =>
    have hne := h.summary (by rw [hsu]; rfl)
    cases w with
    | acquire | snapshot =>
      simp only [hsu] at he
      split at he <;> cases he
      exact ⟨p, h.log, h.batch_id, h.master, fun _ => hne, h.returning⟩
    | write b =>
      simp only [hsu, Option.some.injEq] at he
      subst he
      exact ⟨p, h.summaryWrite hsu (.inl rfl)⟩
  | finished => simp [hsu] at he

theorem exec (hi : Inv s) (h : StatusInv s p) {a : Action}
    (he : System.exec maxRetries s a = some s') : ∃ p', StatusInv s' p' := by
  have hk := hi.queue.owner_keys
  have hp : ∀ {m}, s.master = m → m.current = none → p.isOpen = false := fun hm hc =>
    h.closed_of_current (hm ▸ hc)
  cases a with
  | master => exact h.masterStep he
  | masterHotswap cfg cr =>
    obtain ⟨request, hm, rfl⟩ := System.exec_masterHotswap he
    exact ⟨p, h.between (hp hm rfl) rfl (hotswap_outcome hk cfg cr).2.2.onBatchId
      (by split <;> rfl) rfl (by split <;> simp [MasterPc.returning])⟩
  | masterStart workItems =>
    obtain ⟨request, hm, he⟩ := System.exec_masterStart he
    rcases hi.masterStart_cases hm he with ⟨hstop, rfl⟩ | ⟨r, rfl, -, -, -, -, rfl⟩
    · exact ⟨p, h.between (hp hm rfl) rfl rfl (by split <;> rfl) rfl fun _ => hstop⟩
    · refine ⟨.started r.batchId, ?_, rfl, rfl, fun _ => nofun, nofun⟩
      rw [statusLog_cons h.log]
      simp [BatchPhase.step, hp hm rfl]
  | summaryThread => exact h.summaryStep he
  | steal m =>
    obtain ⟨-, o, r, hst, rfl⟩ := System.exec_steal he
    exact ⟨p, h.frame rfl (Orchestrator.SameControl.stealWork hst) rfl rfl⟩
  | success r result =>
    obtain ⟨⟨hr, -⟩, rfl⟩ := System.exec_success he
    exact ⟨p, h.report hi hr rfl (Orchestrator.SameControl.notifyWorkSuccess _ _ _) rfl rfl⟩
  | failure r result =>
    obtain ⟨⟨hr, -⟩, rfl⟩ := System.exec_failure he
    exact ⟨p, h.report hi hr rfl (Orchestrator.SameControl.notifyWorkFailure _ _ _ _) rfl rfl⟩
  | managerStop m =>
    obtain ⟨-, rfl⟩ := System.exec_managerStop he
    exact ⟨p, h.frame rfl ⟨rfl, rfl, rfl, rfl⟩ rfl rfl⟩
  | hotswap cfg cr =>
    obtain ⟨-, rfl⟩ := System.exec_hotswap he
    exact ⟨p, h.frame rfl (hotswap_outcome hk cfg cr).2.2 rfl rfl⟩
  | requestStop =>
    obtain ⟨-, rfl⟩ := System.exec_requestStop he
    exact ⟨p, h.log, h.batch_id, h.master, h.summary, fun _ => rfl⟩
  | cancel b =>
    obtain ⟨-, rfl⟩ := System.exec_cancel he
    have hc := Orchestrator.SameControl.cancelRunningBatch (s := s.orch) b
    refine ⟨p, ?_, hc.onBatchId ▸ h.batch_id, h.master, h.summary,
      fun hr => hc.stopRequested ▸ h.returning hr⟩
    by_cases hb : s.orch.onBatchId = b
    · rw [Orchestrator.cancelRunningBatch_of_eq hb, if_pos rfl, statusLog_cons h.log]
      simp [BatchPhase.step, ← hb, h.batch_id]
    · rw [Orchestrator.cancelRunningBatch_of_ne hb]
      exact h.log
  | submit request => cases he; exact ⟨p, h.log, h.batch_id, h.master, h.summary, h.returning⟩
  | delete b => cases he; exact ⟨p, h.log, h.batch_id, h.master, h.summary, h.returning⟩
  | writeFails writer =>
    obtain ⟨b, ⟨-, r, hm, rfl⟩ | ⟨-, hsu, rfl⟩⟩ := System.exec_writeFails he
    · exact ⟨p, h.masterWrite hm (.inr rfl)⟩
    · exact ⟨p, h.summaryWrite hsu (.inr rfl)⟩

end StatusInv

def Event.startedId : Event → Option Int
  | .batchStarted b _ => some b
  | _ => none

def startedBatches (events : List Event) : List Int := (events.filterMap Event.startedId).reverse

/-- The ids of the requests no batch-start block has taken yet: the one the master holds before
its block, then `_submission_que`, oldest first. The `None` of `request_stop` has none. -/
def pendingBatches (s : System) : List Int :=
  ((s.master.pending.bind id).map (·.batchId)).toList ++
    s.orch.submissionQue.filterMap (·.map (·.batchId))

def Action.submitted : Action → List Int
  | .submit request => [request.batchId]
  | _ => []

/-- Reachable states, with the ids of the batches submitted on the way, oldest first. -/
inductive Submitted (maxRetries : Nat) : System → List Int → Prop
  | init (singletonRunSummaryPath : Option String) (lower : String → String) :
      Submitted maxRetries (System.init singletonRunSummaryPath lower) []
  | step {s s' : System} {subs : List Int} (a : Action) : Submitted maxRetries s subs →
      System.exec maxRetries s a = some s' → Submitted maxRetries s' (subs ++ a.submitted)

section Submission

variable {maxRetries : Nat} {s s' : System} {subs : List Int}

theorem Submitted.reachable (h : Submitted maxRetries s subs) : Reachable maxRetries s := by
  induction h with
  | init p lower => exact .init p lower
  | step a _ he ih => exact .step a ih he

theorem Submitted.execs : ∀ {s s' : System} {subs : List Int} {l : List Action},
    Submitted maxRetries s subs → System.execs maxRetries s l = some s' →
      Submitted maxRetries s' (subs ++ l.flatMap Action.submitted)
  | _, _, _, [], h, he => by cases he; simpa using h
  | _, _, _, a :: l, h, he => by
    simp only [System.execs, Option.bind_eq_some] at he
    obtain ⟨t, ht, hl⟩ := he
    simpa [List.flatMap_cons, List.append_assoc] using (h.step a ht).execs hl

theorem Submitted.execs_getD {p : Option String} {lower : String → String} {l : List Action}
    (h : (System.execs maxRetries (System.init p lower) l).isSome = true) :
    Submitted maxRetries
      ((System.execs maxRetries (System.init p lower) l).getD (System.init p lower))
      (l.flatMap Action.submitted) := by
  cases he : System.execs maxRetries (System.init p lower) l with
  | none => simp [he] at h
  | some s => simpa using (Submitted.init p lower).execs he

theorem startedBatches_append {pre events : List Event}
    (hpre : ∀ e ∈ pre, e.isBatchStart = false) :
    startedBatches (pre ++ events) = startedBatches events := by
  have hnil : pre.filterMap Event.startedId = [] :=
    List.filterMap_eq_nil_iff.mpr fun e he => by
      have := hpre e he
      cases e <;> simp_all [Event.startedId, Event.isBatchStart]
  simp [startedBatches, hnil]

theorem deleted_exec {a : Action} (he : System.exec maxRetries s a = some s') :
    s.deleted ⊆ s'.deleted := by
  cases a with
  | delete b => cases he; exact List.subset_cons_self _ _
  | master | masterStart _ | summaryThread =>
    simp only [System.exec, System.masterStep, System.masterStart, System.summaryStep] at he
    repeat' split at he
    all_goals first
      | cases he; done
      | cases he; exact List.Subset.refl _
  | masterHotswap cfg cr => obtain ⟨_, -, rfl⟩ := System.exec_masterHotswap he; exact fun _ => id
  | steal m => obtain ⟨-, o, r, -, rfl⟩ := System.exec_steal he; exact fun _ => id
  | success r result => obtain ⟨-, rfl⟩ := System.exec_success he; exact fun _ => id
  | failure r result => obtain ⟨-, rfl⟩ := System.exec_failure he; exact fun _ => id
  | managerStop m => obtain ⟨-, rfl⟩ := System.exec_managerStop he; exact fun _ => id
  | hotswap cfg cr => obtain ⟨-, rfl⟩ := System.exec_hotswap he; exact fun _ => id
  | requestStop => obtain ⟨-, rfl⟩ := System.exec_requestStop he; exact fun _ => id
  | cancel b => obtain ⟨-, rfl⟩ := System.exec_cancel he; exact fun _ => id
  | submit request => cases he; exact fun _ => id
  | writeFails writer =>
    obtain ⟨b, ⟨-, _, -, rfl⟩ | ⟨-, -, rfl⟩⟩ := System.exec_writeFails he <;> exact fun _ => id

theorem pendingBatches_congr {t : System} (hm : t.master.pending = s.master.pending)
    (hq : t.orch.submissionQue = s.orch.submissionQue) : pendingBatches t = pendingBatches s := by
  simp only [pendingBatches, hm, hq]

theorem pendingBatches_exec (hi : Inv s) {a : Action} (he : System.exec maxRetries s a = some s')
    (ha : ∀ workItems, a ≠ .masterStart workItems) :
    pendingBatches s' = pendingBatches s ++ a.submitted ∨
      ∃ b ∈ s.deleted, pendingBatches s = b :: pendingBatches s' ∧ a.submitted = [] := by
  have hk := hi.queue.owner_keys
  have same : ∀ {t : System}, t.master.pending = s.master.pending →
      t.orch.submissionQue = s.orch.submissionQue → a.submitted = [] →
      pendingBatches t = pendingBatches s ++ a.submitted := fun hm hq hs => by
    rw [hs, List.append_nil, pendingBatches_congr hm hq]
  cases a with
  | master =>
    change System.masterStep s = some s' at he
    unfold System.masterStep at he
    cases hm : s.master with
    | get =>
      simp only [hm] at he
      split at he
      · cases he
      · rename_i request rest hq
        cases he
        left
        cases request <;> simp [pendingBatches, MasterPc.pending, Action.submitted, hm, hq]
    | skipDeleted request =>
      simp only [hm, Option.some.injEq] at he
      subst he
      rcases request with _ | r
      · exact .inl (same (by simp [MasterPc.pending, hm]) rfl rfl)
      · by_cases hd : r.batchId ∈ s.deleted
        · exact .inr ⟨r.batchId, hd, by simp [pendingBatches, MasterPc.pending, hm, hd], rfl⟩
        · exact .inl (same (by simp [MasterPc.pending, hm, hd]) rfl rfl)
    | cancel r =>
      simp only [hm, Option.some.injEq] at he
      subst he
      exact .inl (same (by simp [MasterPc.pending, hm])
        (Orchestrator.SameControl.cancelRunningBatch _).submissionQue rfl)
    | hotswap r | start r | finished | crashed => simp [hm] at he
    | summary r w =>
      cases w <;> simp only [hm] at he <;> (try split at he) <;> cases he <;>
        exact .inl (same (by simp [MasterPc.pending, hm]) rfl rfl)
    | setType r | markRunning r | wait r | finalStatus r | closeGate | finalize =>
      simp only [hm] at he
      repeat' split at he
      all_goals first
        | cases he; done
        | cases he; exact .inl (same (by simp [MasterPc.pending, hm]) rfl rfl)
  | masterHotswap cfg cr =>
    obtain ⟨_, hm, rfl⟩ := System.exec_masterHotswap he
    rw [(hotswap_outcome hk cfg cr).1, if_pos rfl]
    exact .inl (same (by simp [MasterPc.pending, hm])
      (hotswap_outcome hk cfg cr).2.2.submissionQue rfl)
  | masterStart workItems => exact absurd rfl (ha workItems)
  | summaryThread =>
    change System.summaryStep s = some s' at he
    unfold System.summaryStep at he
    repeat' split at he
    all_goals first
      | cases he; done
      | cases he; exact .inl (same rfl rfl rfl)
  | steal m =>
    obtain ⟨-, o, r, hst, rfl⟩ := System.exec_steal he
    exact .inl (same rfl (Orchestrator.SameControl.stealWork hst).submissionQue rfl)
  | success r result =>
    obtain ⟨-, rfl⟩ := System.exec_success he
    exact .inl (same rfl (Orchestrator.SameControl.notifyWorkSuccess _ _ _).submissionQue rfl)
  | failure r result =>
    obtain ⟨-, rfl⟩ := System.exec_failure he
    exact .inl (same rfl (Orchestrator.SameControl.notifyWorkFailure _ _ _ _).submissionQue rfl)
  | managerStop m =>
    obtain ⟨-, rfl⟩ := System.exec_managerStop he
    exact .inl (same rfl rfl rfl)
  | hotswap cfg cr =>
    obtain ⟨-, rfl⟩ := System.exec_hotswap he
    exact .inl (same rfl (hotswap_outcome hk cfg cr).2.2.submissionQue rfl)
  | requestStop =>
    obtain ⟨-, rfl⟩ := System.exec_requestStop he
    exact .inl (by simp [pendingBatches, BatchKit.requestStop, drain, stopManagers, Action.submitted])
  | cancel b =>
    obtain ⟨-, rfl⟩ := System.exec_cancel he
    exact .inl (same rfl (Orchestrator.SameControl.cancelRunningBatch _).submissionQue rfl)
  | submit request => cases he; exact .inl (by simp [pendingBatches, Action.submitted])
  | delete b => cases he; exact .inl (same rfl rfl rfl)
  | writeFails writer =>
    obtain ⟨b, ⟨-, r, hm, rfl⟩ | ⟨-, -, rfl⟩⟩ := System.exec_writeFails he
    · exact .inl (same (by simp [MasterPc.pending, hm]) rfl rfl)
    · exact .inl (same rfl rfl rfl)

/-- The batches started, then the requests pending, are the submissions in order, less the
requests skipped as deleted and those dropped at a stop. -/
structure SubmissionInv (s : System) (subs : List Int) : Prop where
  ordered : (startedBatches s.events ++ pendingBatches s).Sublist subs
  kept : ∀ b, (startedBatches s.events ++ pendingBatches s).count b = subs.count b ∨
    b ∈ s.deleted ∨ s.orch.stopRequested = true

theorem SubmissionInv.exec (hi : Inv s) (h : SubmissionInv s subs) {a : Action}
    (he : System.exec maxRetries s a = some s') : SubmissionInv s' (subs ++ a.submitted) := by
  have hlost : ∀ b, b ∈ s.deleted ∨ s.orch.stopRequested = true →
      b ∈ s'.deleted ∨ s'.orch.stopRequested = true := fun b hb =>
    hb.imp (deleted_exec he ·) (exec_stopRequested_true hi · he)
  by_cases ha : ∀ workItems, a ≠ .masterStart workItems
  · obtain ⟨pre, hev, hpre⟩ := exec_events he ha
    have hst : startedBatches s'.events = startedBatches s.events := by
      rw [hev, startedBatches_append hpre]
    rcases pendingBatches_exec hi he ha with hp | ⟨b, hb, hp, hsub⟩
    · have heq : startedBatches s'.events ++ pendingBatches s' =
          startedBatches s.events ++ pendingBatches s ++ a.submitted := by
        rw [hst, hp, List.append_assoc]
      refine ⟨heq ▸ h.ordered.append (List.Sublist.refl _), fun x => ?_⟩
      have := h.kept x
      simp only [heq, List.count_append] at this ⊢
      exact this.imp (by omega) (hlost x)
    · have ho := h.ordered
      have hk := h.kept
      rw [hp] at ho hk
      rw [hsub, List.append_nil]
      refine ⟨hst ▸ ((List.sublist_cons_self b _).append_left _).trans ho, fun x => ?_⟩
      by_cases hx : x = b
      · exact .inr (.inl (deleted_exec he (hx ▸ hb)))
      · have := hk x
        have hbx : b ≠ x := Ne.symm hx
        rw [hst]
        simp only [List.count_append, List.count_cons, beq_iff_eq, hbx, if_false] at this ⊢
        exact this.imp (by omega) (hlost x)
  · obtain ⟨workItems, rfl⟩ := not_forall_not.mp ha
    obtain ⟨request, hm, he⟩ := System.exec_masterStart he
    have hq : pendingBatches s = (request.map (·.batchId)).toList ++
        s.orch.submissionQue.filterMap (·.map (·.batchId)) := by
      simp [pendingBatches, hm, MasterPc.pending]
    have hp : ∀ t : System, t.master.pending = none →
        pendingBatches t = t.orch.submissionQue.filterMap (·.map (·.batchId)) := fun t ht => by
      simp [pendingBatches, ht]
    show SubmissionInv s' (subs ++ [])
    rw [List.append_nil]
    rcases hi.masterStart_cases hm he with ⟨hstop, rfl⟩ | ⟨r, rfl, -, -, -, -, rfl⟩
    · have ho := h.ordered
      rw [hq] at ho
      refine ⟨?_, fun _ => .inr (.inr hstop)⟩
      rw [hp _ (by split <;> rfl)]
      exact ((List.sublist_append_right _ _).append_left _).trans ho
    · have heq : startedBatches (.batchStarted r.batchId (workItems.map (·.filepath)) :: s.events) ++
          pendingBatches { s with master := .markRunning r } =
          startedBatches s.events ++ pendingBatches s := by
        rw [hp { s with master := .markRunning r } rfl, hq]
        simp [startedBatches, Event.startedId]
      exact ⟨heq ▸ h.ordered, heq ▸ h.kept⟩

theorem Submitted.submissionInv (h : Submitted maxRetries s subs) : SubmissionInv s subs := by
  induction h with
  | init p lower =>
    exact ⟨by simp [startedBatches, pendingBatches, System.init, Orchestrator.init,
      MasterPc.pending], fun _ => .inl rfl⟩
  | step a hs he ih => exact ih.exec hs.reachable.inv he

end Submission

/-- The master starts batches in the order they were submitted, each no more often than it was
submitted; every submission of a batch is started or still pending, unless the batch was
deleted or a stop was requested. -/
theorem submissions_in_order {maxRetries : Nat} {s : System} {subs : List Int}
    (h : Submitted maxRetries s subs) :
    (startedBatches s.events ++ pendingBatches s).Sublist subs ∧
      ∀ b, (startedBatches s.events ++ pendingBatches s).count b = subs.count b ∨
        b ∈ s.deleted ∨ s.orch.stopRequested = true :=
  ⟨h.submissionInv.ordered, h.submissionInv.kept⟩

theorem submissions_in_order_afterSteal :
    (startedBatches afterSteal.events ++ pendingBatches afterSteal).Sublist
        [oneFileRequest.batchId] ∧
      ∀ b, (startedBatches afterSteal.events ++ pendingBatches afterSteal).count b =
          [oneFileRequest.batchId].count b ∨
        b ∈ afterSteal.deleted ∨ afterSteal.orch.stopRequested = true :=
  submissions_in_order (Submitted.execs_getD (by decide))

end BatchKit
