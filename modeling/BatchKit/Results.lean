import BatchKit.Lifecycle
import BatchKit.Reconcile
import Mathlib.Algebra.Order.BigOperators.Group.List

/-!
# What `_work_results` holds within a batch

The batch-start block sets the entry of each file of the batch to `None` (after clearing the
whole record in per-batch mode, and keeping the other files' entries in singleton mode). From
then on only an accepted report writes the entry, through `_merge_results`. So along any run
that starts no other batch, the entry of a file of the batch is `None` until the first accepted
report for it, and then the most recently accepted result, its `attempts` the sum of the
attempts of every result accepted for the file since the batch start. Reports dropped by an
early return of their method add nothing.
-/

namespace BatchKit

/-- The result a report step hands to `_merge_results` for file `f`: a success or failure report
for `f` that neither early return of its method drops. -/
def acceptedResult (o : Orchestrator) (f : String) : Action → Option WorkItemResult
  | .success r result | .failure r result =>
    if r.work.filepath = f ∧ accepts o r.manager then some result else none
  | _ => none

def acceptedResults (maxRetries : Nat) (f : String) : System → List Action → List WorkItemResult
  | _, [] => []
  | s, a :: l =>
    match System.exec maxRetries s a with
    | none => []
    | some t => (acceptedResult s.orch f a).toList ++ acceptedResults maxRetries f t l

/-- The entry `_merge_results` leaves after the results `rs`, oldest first, on an entry set to
`None`: `None` while there is none, then the most recent one, with the attempts of all. -/
def storedResult (rs : List WorkItemResult) : Option (Option WorkItemResult) :=
  match rs.getLast? with
  | none => some none
  | some r => some (some { r with attempts := (rs.map (·.attempts)).sum })

theorem attemptsOf_storedResult (rs : List WorkItemResult) :
    attemptsOf (storedResult rs) = (rs.map (·.attempts)).sum := by
  unfold storedResult
  split
  · rename_i h
    simp [List.getLast?_eq_none_iff.mp h, attemptsOf]
  · rfl

theorem storedResult_merge {o : Orchestrator} {f : String} {rs : List WorkItemResult}
    (ho : o.workResults.get? f = storedResult rs) (result : WorkItemResult) :
    some (some (mergedResult o f result)) = storedResult (rs ++ [result]) := by
  rw [mergedResult_eq, ho, attemptsOf_storedResult]
  simp [storedResult, add_comm]

section Step

variable {maxRetries : Nat} {s s' : System}

theorem get?_merged {o : Orchestrator} {r : Report} (ha : accepts o r.manager)
    (result : WorkItemResult) (f : String) :
    (o.workResults.insert r.work.filepath (some (mergedResult o r.work.filepath result))).get? f =
      match (if r.work.filepath = f ∧ accepts o r.manager then some result else none) with
      | some result => some (some (mergedResult o f result))
      | none => o.workResults.get? f := by
  rcases eq_or_ne f r.work.filepath with rfl | hf
  · simp [Dict.get?_insert, ha]
  · simp [Dict.get?_insert, hf, hf.symm]

theorem cancelRunningBatch_workResults (o : Orchestrator) (batchId : Int) :
    (cancelRunningBatch o batchId).1.workResults = o.workResults := by
  unfold cancelRunningBatch
  split <;> rfl

theorem hotswap_workResults {o : Orchestrator} (hk : o.inProgressOwner.keys = o.inProgress.keys)
    (cfg : Option (Dict String EndpointConfig)) (constructorRaises : Bool) :
    (hotswapEndpointManagers o cfg constructorRaises).1.state.workResults = o.workResults := by
  rcases cfg with _ | configData
  · rfl
  by_cases hs : o.stopRequested = true
  · rw [hotswap_stopped hs]
  have hs := Bool.eq_false_iff.mpr hs
  by_cases hc : constructorRaises = true ∧ (hotswapDiff o configData).2 ≠ []
  · rw [hotswap_constructorRaises hs hc]
  · rw [hotswap_swap hk hs hc]

theorem epoch_le_exec (hi : Inv s) {a : Action} (he : System.exec maxRetries s a = some s') :
    s.epoch ≤ s'.epoch := by
  by_cases ha : ∀ workItems, a ≠ .masterStart workItems
  · obtain ⟨pre, hpre, hb⟩ := exec_events he ha
    exact (Inv.epoch_of_events hpre hb).ge
  · obtain ⟨workItems, rfl⟩ := not_forall_not.mp ha
    obtain ⟨_, hm, he⟩ := System.exec_masterStart he
    rcases hi.masterStart_cases hm he with ⟨-, rfl⟩ | ⟨r, -, -, -, -, -, rfl⟩
    · exact le_rfl
    · simp [System.epoch, List.countP_cons, Event.isBatchStart]

/-- A step that starts no batch writes `_work_results` only to merge the result it accepts. -/
theorem workResults_exec (hi : Inv s) {a : Action} (he : System.exec maxRetries s a = some s')
    (hb : s'.epoch = s.epoch) (f : String) :
    s'.orch.workResults.get? f = match acceptedResult s.orch f a with
      | some result => some (some (mergedResult s.orch f result))
      | none => s.orch.workResults.get? f := by
  have hk := hi.queue.owner_keys
  cases a with
  | master =>
    change System.masterStep s = some s' at he
    unfold System.masterStep at he
    repeat' split at he
    all_goals first
      | cases he; done
      | cases he; rfl
      | cases he; exact congrArg (·.get? f) (cancelRunningBatch_workResults _ _)
  | masterHotswap cfg cr =>
    obtain ⟨_, -, rfl⟩ := System.exec_masterHotswap he
    exact congrArg (·.get? f) (hotswap_workResults hk cfg cr)
  | masterStart workItems =>
    obtain ⟨_, hm, he⟩ := System.exec_masterStart he
    rcases hi.masterStart_cases hm he with ⟨-, rfl⟩ | ⟨r, -, -, -, -, -, rfl⟩
    · rfl
    · simp [System.epoch, List.countP_cons, Event.isBatchStart] at hb
  | summaryThread =>
    obtain ⟨ho, -⟩ := summaryStep_orch he
    rw [ho]
    rfl
  | steal m =>
    obtain ⟨-, o, r, hst, rfl⟩ := System.exec_steal he
    rcases Orchestrator.stealWork_cases hst with
      ⟨rfl, -⟩ | ⟨_, _, -, -, -, -, ⟨-, -, rfl⟩ | ⟨-, -, rfl⟩⟩ <;> rfl
  | success r result =>
    obtain ⟨⟨hr, -⟩, rfl⟩ := System.exec_success he
    by_cases ha : accepts s.orch r.manager
    · have hf : r.work.filepath ∈ s.orch.inProgress.keys :=
        Dict.mem_keys.mpr ⟨_, (report_owned hi hr ha).2⟩
      rw [Orchestrator.notifyWorkSuccess_of_accepts hk ha hf, Orchestrator.checkBatchCompletion_eq]
      exact get?_merged ha result f
    · simp [notifyWorkSuccess, acceptedResult, ha]
  | failure r result =>
    obtain ⟨⟨hr, -⟩, rfl⟩ := System.exec_failure he
    by_cases ha : accepts s.orch r.manager
    · have hw := (report_owned hi hr ha).2
      by_cases hre : retries s.orch maxRetries r.work.filepath result
      · rw [Orchestrator.notifyWorkFailure_retry hk ha hre hw, Orchestrator.checkBatchCompletion_eq]
        exact get?_merged ha result f
      · rw [Orchestrator.notifyWorkFailure_giveUp hk ha hre (Dict.mem_keys.mpr ⟨_, hw⟩),
          Orchestrator.checkBatchCompletion_eq]
        exact get?_merged ha result f
    · simp [notifyWorkFailure, acceptedResult, ha]
  | managerStop m =>
    obtain ⟨-, rfl⟩ := System.exec_managerStop he
    rfl
  | hotswap cfg cr =>
    obtain ⟨-, rfl⟩ := System.exec_hotswap he
    exact congrArg (·.get? f) (hotswap_workResults hk cfg cr)
  | requestStop =>
    obtain ⟨-, rfl⟩ := System.exec_requestStop he
    rfl
  | cancel batchId =>
    obtain ⟨-, rfl⟩ := System.exec_cancel he
    exact congrArg (·.get? f) (cancelRunningBatch_workResults _ _)
  | submit request => cases he; rfl
  | delete batchId => cases he; rfl
  | writeFails writer =>
    obtain ⟨b, ⟨-, _, -, rfl⟩ | ⟨-, -, rfl⟩⟩ := System.exec_writeFails he <;> rfl

end Step

section Run

variable {maxRetries : Nat} {f : String}

theorem epoch_le_execs : ∀ {s s' : System} {l : List Action}, Reachable maxRetries s →
    System.execs maxRetries s l = some s' → s.epoch ≤ s'.epoch
  | _, _, [], _, h => by cases h; exact le_rfl
  | s, s', a :: l, hs, h => by
    simp only [System.execs, Option.bind_eq_some] at h
    obtain ⟨t, ht, hl⟩ := h
    exact (epoch_le_exec hs.inv ht).trans (epoch_le_execs (Reachable.step a hs ht) hl)

theorem acceptedResults_append {s t : System} {l₁ : List Action} (l₂ : List Action)
    (h : System.execs maxRetries s l₁ = some t) :
    acceptedResults maxRetries f s (l₁ ++ l₂) =
      acceptedResults maxRetries f s l₁ ++ acceptedResults maxRetries f t l₂ := by
  induction l₁ generalizing s with
  | nil => cases h; rfl
  | cons a l₁ ih =>
    simp only [System.execs, Option.bind_eq_some] at h
    obtain ⟨u, hu, hl⟩ := h
    show acceptedResults maxRetries f s (a :: (l₁ ++ l₂)) = _
    simp only [acceptedResults, hu]
    rw [ih hl, List.append_assoc]

theorem workResults_execs : ∀ {s s' : System} {l : List Action} {rs : List WorkItemResult},
    Reachable maxRetries s → System.execs maxRetries s l = some s' → s'.epoch = s.epoch →
    s.orch.workResults.get? f = storedResult rs →
    s'.orch.workResults.get? f = storedResult (rs ++ acceptedResults maxRetries f s l)
  | _, _, [], rs, _, h, _, hr => by cases h; simpa [acceptedResults] using hr
  | s, s', a :: l, rs, hs, h, hb, hr => by
    simp only [System.execs, Option.bind_eq_some] at h
    obtain ⟨t, ht, hl⟩ := h
    have ht' : Reachable maxRetries t := Reachable.step a hs ht
    have hst : s.epoch ≤ t.epoch := epoch_le_exec hs.inv ht
    have hts : t.epoch ≤ s'.epoch := epoch_le_execs ht' hl
    -- the step merges what it accepts
    have hrt : t.orch.workResults.get? f =
        storedResult (rs ++ (acceptedResult s.orch f a).toList) := by
      rw [workResults_exec hs.inv ht (by omega) f]
      cases acceptedResult s.orch f a with
      | none => simpa using hr
      | some result => exact storedResult_merge hr result
    rw [workResults_execs ht' hl (by omega) hrt, acceptedResults, ht, List.append_assoc]

end Run

variable {maxRetries : Nat} {s s₀ s' : System}

theorem work_results_merged (hs : Reachable maxRetries s) (hstop : s.orch.stopRequested = false)
    {workItems : List WorkItemRequest} (hstart : System.exec maxRetries s (.masterStart workItems) = some s₀)
    {l : List Action} (hrun : System.execs maxRetries s₀ l = some s') (hb : s'.epoch = s₀.epoch)
    {f : String} (hf : f ∈ workItems.map (·.filepath)) :
    s'.orch.workResults.get? f = storedResult (acceptedResults maxRetries f s₀ l) ∧
    ∀ l₁ l₂ t, l = l₁ ++ l₂ → System.execs maxRetries s₀ l₁ = some t →
      (∀ r ∈ acceptedResults maxRetries f s₀ l, 0 ≤ r.attempts) →
      attemptsOf (t.orch.workResults.get? f) ≤ attemptsOf (s'.orch.workResults.get? f) := by
  have hs₀ : Reachable maxRetries s₀ := Reachable.step _ hs hstart
  -- the batch-start block sets the entry to `None`
  have h₀ : s₀.orch.workResults.get? f = storedResult [] := by
    obtain ⟨_, hm, he⟩ := System.exec_masterStart hstart
    rcases hs.inv.masterStart_cases hm he with ⟨hst, -⟩ | ⟨r, -, -, -, -, -, rfl⟩
    · simp [hst] at hstop
    · simp [get?_foldl_insert_none, hf, storedResult]
  have hrun' := workResults_execs hs₀ hrun hb h₀
  refine ⟨hrun', fun l₁ l₂ t hl ht hpos => ?_⟩
  subst hl
  have ht' : Reachable maxRetries t := Reachable.execs hs₀ ht
  have hrun₂ : System.execs maxRetries t l₂ = some s' := by
    rw [System.execs_append, ht] at hrun
    exact hrun
  have htb : t.epoch = s₀.epoch :=
    le_antisymm (hb ▸ epoch_le_execs ht' hrun₂) (epoch_le_execs hs₀ ht)
  rw [workResults_execs hs₀ ht htb h₀, hrun', acceptedResults_append l₂ ht,
    attemptsOf_storedResult, attemptsOf_storedResult, List.nil_append, List.nil_append,
    List.map_append, List.sum_append, le_add_iff_nonneg_right]
  rw [acceptedResults_append l₂ ht] at hpos
  exact List.sum_nonneg fun x hx => by
    obtain ⟨r, hr, rfl⟩ := List.mem_map.mp hx
    exact hpos r (List.mem_append_right _ hr)

def beforeStart : System :=
  (System.execs 1 (System.init none asciiLower) (stealRun.take 5)).getD (System.init none asciiLower)

def oneFileStarted : System :=
  (System.exec 1 beforeStart (.masterStart [oneFileItem])).get (by decide)

def resultRun : List Action :=
  [.master, .steal firstManager, .failure stolenReport ⟨1, true⟩, .steal firstManager,
    .success stolenReport ⟨1, false⟩]

def afterResults : System := (System.execs 1 oneFileStarted resultRun).get (by decide)

theorem work_results_merged_afterResults :
    afterResults.orch.workResults.get? "a" =
      storedResult (acceptedResults 1 "a" oneFileStarted resultRun) ∧
    ∀ l₁ l₂ t, resultRun = l₁ ++ l₂ → System.execs 1 oneFileStarted l₁ = some t →
      (∀ r ∈ acceptedResults 1 "a" oneFileStarted resultRun, 0 ≤ r.attempts) →
      attemptsOf (t.orch.workResults.get? "a") ≤
        attemptsOf (afterResults.orch.workResults.get? "a") :=
  work_results_merged (Reachable.execs_getD (by decide)) (by decide)
    (Option.eq_some_of_isSome _) (Option.eq_some_of_isSome _) (by decide) (by decide)

section Scope

/-! Which files `_work_results`, the record the run summaries are written from, holds. -/

def Event.startedFiles : Event → List String
  | .batchStarted _ filepaths => filepaths
  | _ => []

def startedFiles (events : List Event) : List String := events.flatMap Event.startedFiles

/-- The files `_work_results` holds an entry for: those of the latest batch, or those of every
batch started so far when `_singleton_run_summary_path` is set, which the batch-start block tests
with `is None`. -/
def resultFiles (singletonRunSummaryPath : Option String) (events : List Event) : List String :=
  if singletonRunSummaryPath = none then currentFiles events else startedFiles events

theorem currentFiles_subset_resultFiles (p : Option String) :
    ∀ events : List Event, currentFiles events ⊆ resultFiles p events
  | [] => by simp [currentFiles]
  | e :: events => by
    unfold resultFiles
    split
    · exact List.Subset.refl _
    · cases e with
      | batchStarted b filepaths =>
        simp [startedFiles, Event.startedFiles, List.subset_append_left]
      | _ =>
        have ih := currentFiles_subset_resultFiles p events
        simp only [resultFiles, ‹¬p = none›, if_false] at ih
        simpa [startedFiles, Event.startedFiles, Event.isBatchStart] using ih

theorem resultFiles_append {pre : List Event} (hpre : ∀ e ∈ pre, e.isBatchStart = false)
    (p : Option String) (events : List Event) :
    resultFiles p (pre ++ events) = resultFiles p events := by
  have hnil : pre.flatMap Event.startedFiles = [] :=
    List.flatMap_eq_nil_iff.mpr fun e he => by
      have := hpre e he
      cases e <;> simp_all [Event.startedFiles, Event.isBatchStart]
  simp [resultFiles, currentFiles_append _ hpre, startedFiles, hnil]

theorem mem_keys_foldl_insert_none (items : List WorkItemRequest)
    (d : Dict String (Option WorkItemResult)) (f : String) :
    f ∈ (items.foldl (fun d w => d.insert w.filepath none) d).keys ↔
      f ∈ items.map (·.filepath) ∨ f ∈ d.keys := by
  rw [Dict.mem_keys, Dict.mem_keys, get?_foldl_insert_none]
  split_ifs with h <;> simp [h]

variable {maxRetries : Nat} {s s' : System}

theorem mem_inProgress_of_accepted (hi : Inv s) {a : Action}
    (he : System.exec maxRetries s a = some s') {f : String} {result : WorkItemResult}
    (hacc : acceptedResult s.orch f a = some result) : f ∈ s.orch.inProgress.keys := by
  cases a with
  | success r res | failure r res =>
    have hr : r ∈ s.outstanding := by
      first
        | exact (System.exec_success he).1.1
        | exact (System.exec_failure he).1.1
    simp only [acceptedResult] at hacc
    split_ifs at hacc with h
    obtain ⟨rfl, ha⟩ := h
    exact Dict.mem_keys.mpr ⟨_, (report_owned hi hr ha).2⟩
  | _ => simp [acceptedResult] at hacc

theorem workResults_keys_exec (hi : Inv s) (hb : BatchInv maxRetries s)
    (h : ∀ f, f ∈ s.orch.workResults.keys ↔
      f ∈ resultFiles s.orch.singletonRunSummaryPath s.events)
    {a : Action} (he : System.exec maxRetries s a = some s') :
    ∀ f, f ∈ s'.orch.workResults.keys ↔
      f ∈ resultFiles s'.orch.singletonRunSummaryPath s'.events := by
  rw [(exec_stopRequested hi he).2]
  by_cases ha : ∀ workItems, a ≠ .masterStart workItems
  · obtain ⟨pre, hev, hpre⟩ := exec_events he ha
    intro f
    rw [hev, resultFiles_append hpre, ← h f, Dict.mem_keys, Dict.mem_keys,
      workResults_exec hi he (Inv.epoch_of_events hev hpre) f]
    cases hacc : acceptedResult s.orch f a with
    | none => rfl
    | some result =>
      have hf := hb.files f (List.mem_append_right _ (mem_inProgress_of_accepted hi he hacc))
      exact iff_of_true ⟨_, rfl⟩
        (Dict.mem_keys.mp ((h f).mpr (currentFiles_subset_resultFiles _ _ hf)))
  · obtain ⟨workItems, rfl⟩ := not_forall_not.mp ha
    obtain ⟨_, hm, he'⟩ := System.exec_masterStart he
    rcases hi.masterStart_cases hm he' with ⟨-, rfl⟩ | ⟨r, -, -, -, -, -, rfl⟩
    · exact h
    · intro f
      have hk := h f
      by_cases hp : s.orch.singletonRunSummaryPath = none <;>
        simp only [resultFiles, hp, if_true, if_false] at hk ⊢ <;>
        simp [mem_keys_foldl_insert_none, startedFiles, Event.startedFiles, hk]

theorem Reachable.workResults_keys (hs : Reachable maxRetries s) :
    ∀ f, f ∈ s.orch.workResults.keys ↔ f ∈ resultFiles s.orch.singletonRunSummaryPath s.events := by
  induction hs with
  | init p lower => simp [System.init, Orchestrator.init, resultFiles, currentFiles, startedFiles]
  | step a hs he ih => exact workResults_keys_exec hs.inv hs.batchInv ih he

end Scope

/-- `_work_results` holds an entry exactly for the files of the latest batch started, or, when
`_singleton_run_summary_path` is set, for the files of every batch started so far. -/
theorem work_results_scope {maxRetries : Nat} {s : System} (hs : Reachable maxRetries s)
    (f : String) :
    f ∈ s.orch.workResults.keys ↔ f ∈ resultFiles s.orch.singletonRunSummaryPath s.events :=
  hs.workResults_keys f

theorem work_results_scope_afterRetries :
    "a" ∈ afterRetries.orch.workResults.keys ↔
      "a" ∈ resultFiles afterRetries.orch.singletonRunSummaryPath afterRetries.events :=
  work_results_scope (Reachable.execs_getD (by decide)) "a"

end BatchKit
