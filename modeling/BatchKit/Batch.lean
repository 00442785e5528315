import BatchKit.Invariant
import Mathlib.Algebra.Ring.Int.Defs

/-!
# The current batch

The history since the latest batch start says which batch is current and which reports its
files have had. `BatchInv` ties that history to the accounting:

* every queued or in-progress file belongs to the current batch, and until the batch is
  canceled or a stop is requested every file of the batch is queued, in progress or has a
  result;
* the attempts `_work_results` holds for a file of the batch are the sum of the attempts of
  its accepted reports;
* each report that put its file back on the queue came with merged attempts within
  `ORCHESTRATOR_SCOPE_MAX_RETRIES`;
* a report that did not put its file back is the file's last one, and the file is gone.
-/

namespace BatchKit

def Event.isCancel : Event → Bool
  | .batchCanceled _ => true
  | _ => false

def Event.acceptedFor (filepath : String) : Event → Option (Int × Bool)
  | .accepted f attempts requeued => if f = filepath then some (attempts, requeued) else none
  | _ => none

/-- The `attempts` of a `_work_results` entry, 0 for none. -/
def attemptsOf : Option (Option WorkItemResult) → Int
  | some (some r) => r.attempts
  | _ => 0

def sinceStart (events : List Event) : List Event := events.takeWhile (!·.isBatchStart)

def currentFiles (events : List Event) : List String :=
  match events.find? Event.isBatchStart with
  | some (.batchStarted _ filepaths) => filepaths
  | _ => []

/-- The reports accepted for `filepath` since the latest batch start, newest first. -/
def acceptedReports (events : List Event) (filepath : String) : List (Int × Bool) :=
  (sinceStart events).filterMap (Event.acceptedFor filepath)

section History

variable {e : Event} (evs : List Event)

@[simp] theorem sinceStart_cons (he : e.isBatchStart = false) :
    sinceStart (e :: evs) = e :: sinceStart evs := by
  simp [sinceStart, he]

@[simp] theorem currentFiles_cons (he : e.isBatchStart = false) :
    currentFiles (e :: evs) = currentFiles evs := by
  simp [currentFiles, he]

@[simp] theorem acceptedReports_cons (he : e.isBatchStart = false) (filepath : String) :
    acceptedReports (e :: evs) filepath =
      (e.acceptedFor filepath).toList ++ acceptedReports evs filepath := by
  rw [acceptedReports, sinceStart_cons evs he, List.filterMap_cons]
  cases e.acceptedFor filepath <;> rfl

@[simp] theorem sinceStart_batchStarted (batchId : Int) (filepaths : List String) :
    sinceStart (.batchStarted batchId filepaths :: evs) = [] := by
  simp [sinceStart, Event.isBatchStart]

@[simp] theorem currentFiles_batchStarted (batchId : Int) (filepaths : List String) :
    currentFiles (.batchStarted batchId filepaths :: evs) = filepaths := by
  simp [currentFiles, Event.isBatchStart]

theorem currentFiles_append {pre : List Event} (hpre : ∀ e ∈ pre, e.isBatchStart = false) :
    currentFiles (pre ++ evs) = currentFiles evs := by
  induction pre with
  | nil => rfl
  | cons e pre ih =>
    rw [List.cons_append, currentFiles_cons _ (hpre e (List.mem_cons_self _ _))]
    exact ih fun e' he' => hpre e' (List.mem_cons_of_mem _ he')

theorem sinceStart_append {pre : List Event} (hpre : ∀ e ∈ pre, e.isBatchStart = false) :
    sinceStart (pre ++ evs) = pre ++ sinceStart evs :=
  List.takeWhile_append_of_pos fun e he => by simp [hpre e he]

@[simp] theorem acceptedReports_batchStarted (batchId : Int) (filepaths : List String)
    (filepath : String) :
    acceptedReports (.batchStarted batchId filepaths :: evs) filepath = [] := by
  simp [acceptedReports]

end History

theorem mergedResult_eq (o : Orchestrator) (filepath : String) (result : WorkItemResult) :
    mergedResult o filepath result =
      { result with attempts := result.attempts + attemptsOf (o.workResults.get? filepath) } := by
  rcases h : o.workResults.get? filepath with _ | _ | prev <;> simp [mergedResult, h, attemptsOf]

theorem mergedResult_attempts (o : Orchestrator) (filepath : String) (result : WorkItemResult) :
    (mergedResult o filepath result).attempts =
      result.attempts + attemptsOf (o.workResults.get? filepath) := by
  rw [mergedResult_eq]

theorem get?_foldl_insert_none (items : List WorkItemRequest)
    (d : Dict String (Option WorkItemResult)) (filepath : String) :
    (items.foldl (fun d w => d.insert w.filepath none) d).get? filepath =
      if filepath ∈ items.map (·.filepath) then some none else d.get? filepath := by
  induction items generalizing d with
  | nil => simp
  | cons w items ih =>
    simp only [List.foldl_cons, ih, Dict.get?_insert, List.map_cons, List.mem_cons]
    by_cases h₁ : filepath ∈ items.map (·.filepath) <;> by_cases h₂ : filepath = w.filepath <;>
      simp [h₁, h₂]

structure BatchInv (maxRetries : Nat) (s : System) : Prop where
  files : ∀ f ∈ s.orch.fileQueue.map (·.filepath) ++ s.orch.inProgress.keys,
    f ∈ currentFiles s.events
  cover : s.orch.stopRequested = false → (sinceStart s.events).any Event.isCancel = false →
    ∀ f ∈ currentFiles s.events, f ∈ s.orch.fileQueue.map (·.filepath) ∨
      f ∈ s.orch.inProgress.keys ∨ ∃ r, s.orch.workResults.get? f = some (some r)
  attempts : ∀ f ∈ currentFiles s.events,
    attemptsOf (s.orch.workResults.get? f) = ((acceptedReports s.events f).map (·.1)).sum
  requeue_within : ∀ f pre (a : Int) post, acceptedReports s.events f = pre ++ (a, true) :: post →
    a + (post.map (·.1)).sum ≤ maxRetries
  final_gone : ∀ f (a : Int), (a, false) ∈ acceptedReports s.events f →
    f ∉ s.orch.fileQueue.map (·.filepath) ∧ f ∉ s.orch.inProgress.keys
  final_last : ∀ f pre (a : Int) post, acceptedReports s.events f = pre ++ (a, false) :: post → pre = []

namespace BatchInv

variable {maxRetries : Nat} {s s' : System}

theorem init (singletonRunSummaryPath : Option String) (lower : String → String) :
    BatchInv maxRetries (System.init singletonRunSummaryPath lower) where
  files := by simp [System.init, Orchestrator.init, currentFiles]
  cover := by simp [System.init, currentFiles]
  attempts := by simp [System.init, currentFiles]
  requeue_within := by simp [System.init, acceptedReports, sinceStart]
  final_gone := by simp [System.init, acceptedReports, sinceStart]
  final_last := by simp [System.init, acceptedReports, sinceStart]

theorem frame (h : BatchInv maxRetries s) {t : System}
    (hq : ∀ f, f ∈ t.orch.fileQueue.map (·.filepath) ↔ f ∈ s.orch.fileQueue.map (·.filepath))
    (hp : ∀ f, f ∈ t.orch.inProgress.keys ↔ f ∈ s.orch.inProgress.keys)
    (hw : t.orch.workResults = s.orch.workResults)
    (hs : t.orch.stopRequested = s.orch.stopRequested)
    (he : t.events = s.events ∨ ∃ e, t.events = e :: s.events ∧ e.isBatchStart = false ∧
      ∀ f, e.acceptedFor f = none) : BatchInv maxRetries t := by
  have hist : currentFiles t.events = currentFiles s.events ∧
      (∀ f, acceptedReports t.events f = acceptedReports s.events f) ∧
      ((sinceStart t.events).any Event.isCancel = false →
        (sinceStart s.events).any Event.isCancel = false) := by
    rcases he with he | ⟨e, he, hb, ha⟩
    · simp [he]
    · simp only [he, currentFiles_cons _ hb, acceptedReports_cons _ hb, ha, Option.toList_none,
        List.nil_append, implies_true, sinceStart_cons _ hb, List.any_cons, Bool.or_eq_false_iff,
        true_and]
      exact And.right
  obtain ⟨hc, hr, hn⟩ := hist
  exact
    { files := fun f hf => by
        rw [hc]
        apply h.files f
        simp only [List.mem_append, hq, hp] at hf ⊢
        exact hf
      cover := fun hs' hn' => by
        simp only [hq, hp, hw, hc]; exact h.cover (hs ▸ hs') (hn hn')
      attempts := by simp only [hw, hc, hr]; exact h.attempts
      requeue_within := by simp only [hr]; exact h.requeue_within
      final_gone := by simp only [hr, hq, hp]; exact h.final_gone
      final_last := by simp only [hr]; exact h.final_last }

theorem same (h : BatchInv maxRetries s) {t : System} (ho : t.orch.fileQueue = s.orch.fileQueue)
    (hp : t.orch.inProgress = s.orch.inProgress) (hw : t.orch.workResults = s.orch.workResults)
    (hs : t.orch.stopRequested = s.orch.stopRequested)
    (he : t.events = s.events ∨ ∃ e, t.events = e :: s.events ∧ e.isBatchStart = false ∧
      ∀ f, e.acceptedFor f = none) : BatchInv maxRetries t :=
  h.frame (fun _ => by rw [ho]) (fun _ => by rw [hp]) hw hs he

theorem cancel (h : BatchInv maxRetries s) (hq : QueueInv s.orch) (batchId : Int) :
    BatchInv maxRetries { s with
      orch := (cancelRunningBatch s.orch batchId).1,
      events := if (cancelRunningBatch s.orch batchId).2 then
        .batchCanceled batchId :: s.events else s.events } := by
  by_cases hb : s.orch.onBatchId = batchId
  · have hd : s.orch.fileQueue.drop s.orch.fileQueueSize = [] := by simp [hq.size_eq]
    simp only [Orchestrator.cancelRunningBatch_of_eq hb, if_true]
    exact
      { files := by simp [hd]
        cover := fun _ hn => by simp [Event.isCancel, Event.isBatchStart] at hn
        attempts := by simpa [Event.acceptedFor, Event.isBatchStart] using h.attempts
        requeue_within := by simpa [Event.acceptedFor, Event.isBatchStart] using h.requeue_within
        final_gone := by simp [hd]
        final_last := by simpa [Event.acceptedFor, Event.isBatchStart] using h.final_last }
  · simp only [Orchestrator.cancelRunningBatch_of_ne hb, Bool.false_eq_true, if_false]
    exact h.same rfl rfl rfl rfl (.inl rfl)

theorem requestStop (h : BatchInv maxRetries s) (hq : QueueInv s.orch) :
    BatchInv maxRetries { s with orch := requestStop s.orch } := by
  have hd : s.orch.fileQueue.drop s.orch.fileQueueSize = [] := by simp [hq.size_eq]
  exact
    { h with
      files := fun f hf => h.files f (List.mem_append_right _ (by
        simpa [BatchKit.requestStop, drain, stopManagers, hd] using hf))
      cover := fun hs => by simp [BatchKit.requestStop, drain, stopManagers] at hs
      final_gone := fun f a ha =>
        ⟨by simp [BatchKit.requestStop, drain, stopManagers, hd], (h.final_gone f a ha).2⟩ }

theorem masterStep (h : BatchInv maxRetries s) (hq : QueueInv s.orch)
    (he : System.masterStep s = some s') : BatchInv maxRetries s' := by
  unfold System.masterStep at he
  repeat' split at he
  all_goals first
    | cases he; done
    | cases he; exact h.same rfl rfl rfl rfl (.inl rfl)
    | cases he; exact h.same rfl rfl rfl rfl (.inr ⟨_, rfl, rfl, fun _ => rfl⟩)
    | cases he; exact { h.cancel hq _ with }

theorem summaryStep (h : BatchInv maxRetries s) (he : System.summaryStep s = some s') :
    BatchInv maxRetries s' := by
  unfold System.summaryStep at he
  repeat' split at he
  all_goals first
    | cases he; done
    | cases he; exact h.same rfl rfl rfl rfl (.inl rfl)
    | cases he; exact h.same rfl rfl rfl rfl (.inr ⟨_, rfl, rfl, fun _ => rfl⟩)

theorem hotswap (h : BatchInv maxRetries s) (hq : QueueInv s.orch)
    (configData : Option (Dict String EndpointConfig)) (constructorRaises : Bool) :
    BatchInv maxRetries { s with
      orch := (hotswapEndpointManagers s.orch configData constructorRaises).1.state,
      started :=
        s.started ++ (hotswapEndpointManagers s.orch configData constructorRaises).2 } := by
  rcases configData with _ | configData
  · exact h.same rfl rfl rfl rfl (.inl rfl)
  cases hs : s.orch.stopRequested
  swap
  · simp only [hotswap_stopped hs]
    exact h.same rfl rfl rfl rfl (.inl rfl)
  by_cases hc : constructorRaises = true ∧ (hotswapDiff s.orch configData).2 ≠ []
  · simp only [hotswap_constructorRaises hs hc]
    exact h.same rfl rfl rfl rfl (.inl rfl)
  rw [hotswap_swap hq.owner_keys hs hc]
  set mv := s.orch.inProgress.entries.filter
    (moved s.orch.inProgressOwner (hotswapDiff s.orch configData).1)
  -- the moved requests are in progress, each under its own file path
  have hmv : (mv.map Prod.snd).map (·.filepath) = mv.map Prod.fst := by
    rw [List.map_map]
    exact List.map_congr_left fun e he =>
      hq.key_filepath e.1 e.2 (Dict.get?_eq_some.mpr (List.mem_filter.mp he).1)
  have hsub : ∀ f ∈ mv.map Prod.fst, f ∈ s.orch.inProgress.keys :=
    fun f hf => ((List.filter_sublist _).map _).subset hf
  exact
    { h with
      files := fun f hf => by
        simp only [List.map_append, List.mem_append, hmv, Dict.mem_keys_eraseAll] at hf
        apply h.files f
        rcases hf with (hf | hf) | hf
        · exact List.mem_append_left _ hf
        · exact List.mem_append_right _ (hsub f hf)
        · exact List.mem_append_right _ hf.1
      cover := fun hs' hn f hf => by
        simp only [List.map_append, List.mem_append, hmv, Dict.mem_keys_eraseAll]
        rcases h.cover hs' hn f hf with hf | hf | hf
        · exact .inl (.inl hf)
        · by_cases hm : f ∈ mv.map Prod.fst
          · exact .inl (.inr hm)
          · exact .inr (.inl ⟨hf, hm⟩)
        · exact .inr (.inr hf)
      final_gone := fun f a ha => by
        obtain ⟨hfq, hfp⟩ := h.final_gone f a ha
        simp only [List.map_append, List.mem_append, hmv, Dict.mem_keys_eraseAll, not_or, not_and]
        exact ⟨⟨hfq, fun hm => hfp (hsub f hm)⟩, fun hk => absurd hk hfp⟩ }

theorem steal (h : BatchInv maxRetries s) {lower : String → String} {m : EndpointManager}
    {o : Orchestrator} {r : Stolen} (hst : stealWork s.orch lower m = some (o, r))
    (exited : List EndpointManager) (outstanding : List Report) :
    BatchInv maxRetries { s with orch := o, exited := exited, outstanding := outstanding } := by
  rcases Orchestrator.stealWork_cases hst with ⟨rfl, -⟩ |
    ⟨w, rest, hQ, -, -, -, ⟨-, -, rfl⟩ | ⟨-, -, rfl⟩⟩
  · exact h.same rfl rfl rfl rfl (.inl rfl)
  · -- a request for another language goes back on the queue
    exact h.frame (fun f => by simp [put, hQ, or_comm]) (fun _ => Iff.rfl) rfl rfl (.inl rfl)
  · -- the manager takes the request
    have hmem : ∀ f, f ∈ s.orch.fileQueue.map (·.filepath) ↔
        f = w.filepath ∨ f ∈ rest.map (·.filepath) := by simp [hQ]
    exact
      { h with
        files := fun f hf => by
          apply h.files f
          simp only [List.mem_append, Dict.mem_keys_insert, hmem] at hf ⊢
          tauto
        cover := fun hs' hn f hf => by
          simp only [Dict.mem_keys_insert]
          rcases h.cover hs' hn f hf with hf | hf | hf
          · rcases (hmem f).mp hf with hf | hf
            · exact .inr (.inl (.inl hf))
            · exact .inl hf
          · exact .inr (.inl (.inr hf))
          · exact .inr (.inr hf)
        final_gone := fun f a ha => by
          obtain ⟨hfq, hfp⟩ := h.final_gone f a ha
          simp only [hmem, not_or] at hfq
          simp only [Dict.mem_keys_insert, not_or]
          exact ⟨hfq.2, hfq.1, hfp⟩ }

theorem settle (hi : Inv s) (h : BatchInv maxRetries s) {r : Report} (hr : r ∈ s.outstanding)
    (ha : accepts s.orch r.manager) (result : WorkItemResult) (b : Bool)
    (hb : b = true → retries s.orch maxRetries r.work.filepath result)
    (q : List WorkItemRequest) (hq : q = s.orch.fileQueue ++ if b then [r.work] else [])
    (n : Nat) :
    BatchInv maxRetries { s with
      orch := checkBatchCompletion { s.orch with
        fileQueue := q, fileQueueSize := n,
        inProgress := s.orch.inProgress.erase r.work.filepath,
        inProgressOwner := s.orch.inProgressOwner.erase r.work.filepath,
        workResults := s.orch.workResults.insert r.work.filepath
          (some (mergedResult s.orch r.work.filepath result)) }
      outstanding := s.outstanding.erase r
      events := [.accepted r.work.filepath result.attempts b] ++ s.events } := by
  have hf : r.work.filepath ∈ s.orch.inProgress.keys :=
    Dict.mem_keys.mpr ⟨_, (hi.report_owner r hr (Inv.active_iff.mpr ha.1) ha.2).2⟩
  have hfq := hi.queue.not_mem_queue hf
  have hcur : r.work.filepath ∈ currentFiles s.events := h.files _ (List.mem_append_right _ hf)
  -- no report so far left the file for good
  have hnf : ∀ a, (a, false) ∉ acceptedReports s.events r.work.filepath :=
    fun a ha' => (h.final_gone _ a ha').2 hf
  have hrep : ∀ g, acceptedReports (.accepted r.work.filepath result.attempts b :: s.events) g =
      if g = r.work.filepath then (result.attempts, b) :: acceptedReports s.events g
      else acceptedReports s.events g := fun g => by
    by_cases hg : g = r.work.filepath <;>
      simp [Event.acceptedFor, Event.isBatchStart, hg, eq_comm]
  have hmem : ∀ g, g ∈ q.map (·.filepath) ↔
      g ∈ s.orch.fileQueue.map (·.filepath) ∨ (b = true ∧ g = r.work.filepath) := fun g => by
    subst hq; cases b <;> simp [eq_comm]
  have hmerged : (mergedResult s.orch r.work.filepath result).attempts =
      result.attempts + ((acceptedReports s.events r.work.filepath).map (·.1)).sum := by
    rw [mergedResult_attempts, h.attempts _ hcur]
  rw [Orchestrator.checkBatchCompletion_eq]
  simp only [List.singleton_append]
  refine
    { files := fun g hg => ?_
      cover := fun hs hn g hg => ?_
      attempts := fun g hg => ?_
      requeue_within := fun g pre a post hs => ?_
      final_gone := fun g a hg => ?_
      final_last := fun g pre a post hs => ?_ }
  · simp only [List.mem_append, hmem, Dict.mem_keys_erase] at hg
    simp only [currentFiles_cons, Event.isBatchStart]
    rcases hg with (hg | ⟨-, rfl⟩) | ⟨-, hg⟩
    · exact h.files g (List.mem_append_left _ hg)
    · exact hcur
    · exact h.files g (List.mem_append_right _ hg)
  · simp only [sinceStart_cons, Event.isBatchStart, List.any_cons, Event.isCancel,
      Bool.false_or] at hn
    simp only [currentFiles_cons, Event.isBatchStart] at hg
    simp only [hmem, Dict.mem_keys_erase, Dict.get?_insert]
    by_cases hgf : g = r.work.filepath
    · simp [hgf]
    · simpa [hgf] using h.cover hs hn g hg
  · simp only [currentFiles_cons, Event.isBatchStart] at hg
    rw [Dict.get?_insert, hrep]
    by_cases hgf : g = r.work.filepath
    · subst hgf
      simp [attemptsOf, hmerged]
    · simp only [hgf, if_false]
      exact h.attempts g hg
  · rw [hrep] at hs
    split_ifs at hs with hgf
    · subst hgf
      rcases pre with _ | ⟨p, pre⟩
      · simp only [List.nil_append, List.cons.injEq, Prod.mk.injEq] at hs
        obtain ⟨⟨rfl, rfl⟩, rfl⟩ := hs
        have := (hb rfl).2
        omega
      · simp only [List.cons_append, List.cons.injEq] at hs
        exact h.requeue_within _ pre a post hs.2
    · exact h.requeue_within g pre a post hs
  · rw [hrep] at hg
    split_ifs at hg with hgf
    · subst hgf
      rcases List.mem_cons.mp hg with he | he
      · simp only [Prod.mk.injEq] at he
        obtain ⟨-, rfl⟩ := he
        simp [hmem, hfq, Dict.mem_keys_erase]
      · exact absurd he (hnf a)
    · obtain ⟨hg₁, hg₂⟩ := h.final_gone g a hg
      simp only [hmem, Dict.mem_keys_erase, not_or, not_and]
      exact ⟨⟨hg₁, fun _ => hgf⟩, fun _ => hg₂⟩
  · rw [hrep] at hs
    split_ifs at hs with hgf
    · subst hgf
      rcases pre with _ | ⟨p, pre⟩
      · rfl
      · simp only [List.cons_append, List.cons.injEq] at hs
        exact absurd (hs.2 ▸ List.mem_append_right _ (List.mem_cons_self _ _)) (hnf a)
    · exact h.final_last g pre a post hs

theorem success (hi : Inv s) (h : BatchInv maxRetries s) {r : Report} (hr : r ∈ s.outstanding)
    (result : WorkItemResult) :
    BatchInv maxRetries { s with
      orch := (notifyWorkSuccess s.orch r.work.filepath r.manager result).state,
      outstanding := s.outstanding.erase r,
      events := System.reportEvents s.orch maxRetries r.work.filepath r.manager result false ++
        s.events } := by
  by_cases ha : accepts s.orch r.manager
  · have hf : r.work.filepath ∈ s.orch.inProgress.keys :=
      Dict.mem_keys.mpr ⟨_, (hi.report_owner r hr (Inv.active_iff.mpr ha.1) ha.2).2⟩
    rw [Orchestrator.notifyWorkSuccess_of_accepts hi.queue.owner_keys ha hf]
    simp only [System.reportEvents, if_pos ha, Bool.false_and]
    exact h.settle hi hr ha result false nofun _ (by simp) _
  · simp only [notifyWorkSuccess, System.reportEvents, if_neg ha, List.nil_append]
    exact h.same rfl rfl rfl rfl (.inl rfl)

theorem failure (hi : Inv s) (h : BatchInv maxRetries s) {r : Report} (hr : r ∈ s.outstanding)
    (result : WorkItemResult) :
    BatchInv maxRetries { s with
      orch := (notifyWorkFailure s.orch maxRetries r.work.filepath r.manager result).state,
      outstanding := s.outstanding.erase r,
      events := System.reportEvents s.orch maxRetries r.work.filepath r.manager result true ++
        s.events } := by
  by_cases ha : accepts s.orch r.manager
  · have hw := (hi.report_owner r hr (Inv.active_iff.mpr ha.1) ha.2).2
    simp only [System.reportEvents, if_pos ha, Bool.true_and]
    by_cases hre : retries s.orch maxRetries r.work.filepath result
    · rw [Orchestrator.notifyWorkFailure_retry hi.queue.owner_keys ha hre hw, decide_eq_true hre]
      exact h.settle hi hr ha result true (fun _ => hre) (s.orch.fileQueue ++ [r.work]) (by simp)
        (s.orch.fileQueueSize + 1)
    · rw [Orchestrator.notifyWorkFailure_giveUp hi.queue.owner_keys ha hre
        (Dict.mem_keys.mpr ⟨_, hw⟩), decide_eq_false hre]
      exact h.settle hi hr ha result false nofun _ (by simp) _
  · simp only [notifyWorkFailure, System.reportEvents, if_neg ha, List.nil_append]
    exact h.same rfl rfl rfl rfl (.inl rfl)

theorem masterStart (hi : Inv s) (h : BatchInv maxRetries s) {request : Option BatchRequest}
    (hm : s.master = .start request) {workItems : List WorkItemRequest}
    (he : System.masterStart s request workItems = some s') : BatchInv maxRetries s' := by
  rcases Inv.masterStart_cases hi hm he with ⟨-, rfl⟩ | ⟨r, rfl, -, hQ, hK, -, rfl⟩
  · exact h.same rfl rfl rfl rfl (.inl rfl)
  exact
    { files := fun f hf => by simpa [hQ, hK] using hf
      cover := fun _ _ f hf => .inl (by simpa [hQ] using hf)
      attempts := fun f hf => by
        simp only [currentFiles_batchStarted] at hf
        simp [get?_foldl_insert_none, hf, attemptsOf]
      requeue_within := by simp
      final_gone := by simp
      final_last := by simp }

theorem exec (hi : Inv s) (h : BatchInv maxRetries s) {a : Action}
    (he : System.exec maxRetries s a = some s') : BatchInv maxRetries s' := by
  cases a with
  | master => exact h.masterStep hi.queue he
  | masterHotswap configData constructorRaises =>
    obtain ⟨_, -, rfl⟩ := System.exec_masterHotswap he
    exact { h.hotswap hi.queue configData constructorRaises with }
  | masterStart workItems =>
    obtain ⟨_, hm, he⟩ := System.exec_masterStart he
    exact h.masterStart hi hm he
  | summaryThread => exact h.summaryStep he
  | steal m =>
    obtain ⟨-, o, r, hst, rfl⟩ := System.exec_steal he
    exact h.steal hst _ _
  | success r result =>
    obtain ⟨⟨hr, -⟩, rfl⟩ := System.exec_success he
    exact h.success hi hr result
  | failure r result =>
    obtain ⟨⟨hr, -⟩, rfl⟩ := System.exec_failure he
    exact h.failure hi hr result
  | managerStop m =>
    obtain ⟨-, rfl⟩ := System.exec_managerStop he
    exact h.same rfl rfl rfl rfl (.inl rfl)
  | hotswap configData constructorRaises =>
    obtain ⟨-, rfl⟩ := System.exec_hotswap he
    exact h.hotswap hi.queue configData constructorRaises
  | requestStop =>
    obtain ⟨-, rfl⟩ := System.exec_requestStop he
    exact h.requestStop hi.queue
  | cancel batchId =>
    obtain ⟨-, rfl⟩ := System.exec_cancel he
    exact h.cancel hi.queue batchId
  | submit request => cases he; exact h.same rfl rfl rfl rfl (.inl rfl)
  | delete batchId => cases he; exact h.same rfl rfl rfl rfl (.inl rfl)
  | writeFails writer =>
    obtain ⟨b, ⟨-, _, -, rfl⟩ | ⟨-, -, rfl⟩⟩ := System.exec_writeFails he <;>
      exact h.same rfl rfl rfl rfl (.inr ⟨_, rfl, rfl, fun _ => rfl⟩)

end BatchInv

theorem Reachable.batchInv {maxRetries : Nat} {s : System} (hs : Reachable maxRetries s) :
    BatchInv maxRetries s := by
  induction hs with
  | init p lower => exact BatchInv.init p lower
  | step a hs he ih => exact ih.exec hs.inv he

def oneFileRequest : BatchRequest := ⟨1, ⟨"T", "P"⟩⟩

def oneFileItem : WorkItemRequest := ⟨"a", some "EN"⟩

def oneEndpoint : Dict String EndpointConfig :=
  (∅ : Dict String EndpointConfig).insert "e1" ⟨"en", []⟩

def firstManager : EndpointManager := ⟨hotswapName 0 "e1", "e1", ⟨"en", []⟩, "P"⟩

/-- The batch is submitted and started, and the manager takes its file. -/
def stealRun : List Action :=
  [.submit oneFileRequest, .master, .master, .master, .masterHotswap (some oneEndpoint) false,
    .masterStart [oneFileItem], .master, .steal firstManager]

/-- The file then fails twice with a retriable result under a limit of one retry: one requeue,
then a failure that ends it. -/
def retryRun : List Action :=
  stealRun ++ [.failure ⟨firstManager, oneFileItem, 1⟩ ⟨1, true⟩, .steal firstManager,
    .failure ⟨firstManager, oneFileItem, 1⟩ ⟨1, true⟩]

def afterRetries : System :=
  (System.execs 1 (System.init none asciiLower) retryRun).getD (System.init none asciiLower)

/-- The accounting facts: `_file_queue_size` counts the queue, no file is queued twice or both
queued and in progress, the two in-progress maps have the same keys, every owner is a current
unretired manager, and until the current batch is canceled or a stop is requested each of its
files is in exactly one of: queued; in progress with an owner; neither, with a result. -/
def AccountingHolds (s : System) : Prop :=
  s.orch.fileQueueSize = s.orch.fileQueue.length ∧
  (s.orch.fileQueue.map (·.filepath)).Nodup ∧
  (∀ w ∈ s.orch.fileQueue, w.filepath ∉ s.orch.inProgress.keys) ∧
  s.orch.inProgressOwner.keys = s.orch.inProgress.keys ∧
  (∀ f m, s.orch.inProgressOwner.get? f = some m →
    m ∈ s.orch.endpointManagers ∧ m.name ∉ s.orch.oldManagers) ∧
  (s.orch.stopRequested = false → (sinceStart s.events).any Event.isCancel = false →
    ∀ f ∈ currentFiles s.events,
      (f ∈ s.orch.fileQueue.map (·.filepath) ∧ f ∉ s.orch.inProgress.keys) ∨
      (f ∈ s.orch.inProgress.keys ∧ f ∉ s.orch.fileQueue.map (·.filepath) ∧
        ∃ m, s.orch.inProgressOwner.get? f = some m) ∨
      (f ∉ s.orch.fileQueue.map (·.filepath) ∧ f ∉ s.orch.inProgress.keys ∧
        ∃ r, s.orch.workResults.get? f = some (some r)))

theorem accounting_invariant {maxRetries : Nat} {s : System} (hs : Reachable maxRetries s) :
    AccountingHolds s := by
  have hi := hs.inv
  refine ⟨hi.queue.size_eq, hi.queue.queue_nodup, hi.queue.queue_disjoint, hi.queue.owner_keys,
    hi.owner_active, fun hst hn f hf => ?_⟩
  by_cases hq : f ∈ s.orch.fileQueue.map (·.filepath)
  · exact .inl ⟨hq, fun hk => hi.queue.not_mem_queue hk hq⟩
  by_cases hk : f ∈ s.orch.inProgress.keys
  · have hk' : f ∈ s.orch.inProgressOwner.keys := hi.queue.owner_keys ▸ hk
    exact .inr (.inl ⟨hk, hq, Dict.mem_keys.mp hk'⟩)
  · exact .inr (.inr ⟨hq, hk, ((hs.batchInv.cover hst hn f hf).resolve_left hq).resolve_left hk⟩)

theorem accounting_invariant_afterRetries : AccountingHolds afterRetries :=
  accounting_invariant (Reachable.execs_getD (by decide))

section Retries

theorem length_le_sum_attempts : ∀ l : List (Int × Bool), (∀ p ∈ l, 1 ≤ p.1) →
    (l.length : Int) ≤ (l.map (·.1)).sum
  | [], _ => by simp
  | p :: l, h => by
    have ih := length_le_sum_attempts l fun q hq => h q (List.mem_cons_of_mem _ hq)
    have hp := h p (List.mem_cons_self _ _)
    simp only [List.length_cons, List.map_cons, List.sum_cons]
    omega

theorem sum_attempts_of_ones : ∀ l : List (Int × Bool), (∀ p ∈ l, p.1 = 1) →
    (l.map (·.1)).sum = l.length
  | [], _ => by simp
  | p :: l, h => by
    have ih := sum_attempts_of_ones l fun q hq => h q (List.mem_cons_of_mem _ hq)
    simp only [List.map_cons, List.sum_cons, ih, h p (List.mem_cons_self _ _), List.length_cons]
    omega

theorem requeued_le (limit : Nat) : ∀ l : List (Int × Bool), (∀ p ∈ l, 1 ≤ p.1) →
    (∀ pre (a : Int) post, l = pre ++ (a, true) :: post → a + (post.map (·.1)).sum ≤ limit) →
    (l.filter (·.2)).length ≤ limit
  | [], _, _ => by simp
  | (a, b) :: l, hpos, hb => by
    have hl : ∀ q ∈ l, 1 ≤ q.1 := fun q hq => hpos q (List.mem_cons_of_mem _ hq)
    cases b with
    | true =>
      have h₁ := hb [] a l rfl
      have h₂ := length_le_sum_attempts l hl
      have h₃ := hpos (a, true) (List.mem_cons_self _ _)
      have h₄ : (l.filter (·.2)).length ≤ l.length := List.length_filter_le _ _
      simp only [List.filter_cons, if_true, List.length_cons]
      omega
    | false =>
      simp only [List.filter_cons, Bool.false_eq_true, if_false]
      exact requeued_le limit l hl fun pre a' post h =>
        hb ((a, false) :: pre) a' post (by rw [h]; rfl)

theorem final_le_one : ∀ l : List (Int × Bool),
    (∀ pre (a : Int) post, l = pre ++ (a, false) :: post → pre = []) → (l.filter (!·.2)).length ≤ 1
  | [], _ => by simp
  | p :: l, h => by
    have hl : l.filter (!·.2) = [] := List.filter_eq_nil_iff.mpr fun ⟨a, b⟩ hq hb => by
      cases b
      · obtain ⟨pre, post, rfl⟩ := List.append_of_mem hq
        cases h (p :: pre) a post rfl
      · simp at hb
    rw [List.filter_cons]
    split <;> simp [hl]

end Retries

theorem retries_bounded {maxRetries : Nat} {s : System} (hs : Reachable maxRetries s)
    (filepath : String) (hpos : ∀ p ∈ acceptedReports s.events filepath, 1 ≤ p.1) :
    ((acceptedReports s.events filepath).filter (·.2)).length ≤ maxRetries ∧
    (acceptedReports s.events filepath).length ≤ maxRetries + 1 ∧
    (filepath ∈ currentFiles s.events → (∀ p ∈ acceptedReports s.events filepath, p.1 = 1) →
      attemptsOf (s.orch.workResults.get? filepath) ≤ maxRetries + 1) := by
  have h := hs.batchInv
  have hr := requeued_le maxRetries _ hpos (h.requeue_within filepath)
  have hf := final_le_one _ (h.final_last filepath)
  have hl : (acceptedReports s.events filepath).length =
      ((acceptedReports s.events filepath).filter (·.2)).length +
        ((acceptedReports s.events filepath).filter (!·.2)).length :=
    List.length_eq_length_filter_add _
  refine ⟨hr, by omega, fun hc hone => ?_⟩
  rw [h.attempts filepath hc, sum_attempts_of_ones _ hone]
  omega

theorem retries_bounded_afterRetries :
    ((acceptedReports afterRetries.events "a").filter (·.2)).length ≤ 1 ∧
    (acceptedReports afterRetries.events "a").length ≤ 1 + 1 ∧
    ("a" ∈ currentFiles afterRetries.events →
      (∀ p ∈ acceptedReports afterRetries.events "a", p.1 = 1) →
      attemptsOf (afterRetries.orch.workResults.get? "a") ≤ 1 + 1) :=
  retries_bounded (Reachable.execs_getD (by decide)) "a" (by decide)

end BatchKit
