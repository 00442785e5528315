import BatchKit.Accounting
import BatchKit.Naming

/-!
# `hotswap_endpoint_managers`

The hot-swap reconciles the fleet with a configuration: a manager whose endpoint keeps an
equal configuration and processor class, and that was not asked to stop, survives; every
other current manager is retired, the work it had in progress goes back to the queue, and a
new manager named `HotswapGen{gen}_{endpoint_name}` is built for each endpoint that needs one.
`load_configuration` is outside the sources: its result is an argument, `none` standing for
`InvalidConfigurationError`. So is the outcome of the `EndpointManager` constructor, which may
raise on a configuration (`constructorRaises`).
-/

namespace BatchKit

/-- The processor class chosen for the current batch type: `StubWorkItemProcessor` while no
batch has been seen. -/
def workItemProcessorFor : Option BatchType → String
  | none => "StubWorkItemProcessor"
  | some t => t.workItemProcessor

/-- `{em.endpoint_name: em for em in self._endpoint_managers}`. -/
def managersByEndpoint (managers : List EndpointManager) : Dict String EndpointManager :=
  managers.foldl (fun d em => d.insert em.endpointName em) ∅

/-- The condition under which the diff loop keeps the current manager of an endpoint. -/
def preserved (deleted : Dict String EndpointManager) (stopped : List EndpointManager)
    (processor endpointName : String) (endpointConfig : EndpointConfig) : Bool :=
  match deleted.get? endpointName with
  | some em => decide (endpointConfig = em.endpointConfig ∧ em.workItemProcessor = processor ∧
      em ∉ stopped)
  | none => false

/-- One iteration of the diff loop over `config_data.items()`, on `deleted_managers` and
`new_em_objs`. -/
def diffStep (stopped : List EndpointManager) (gen : Nat) (processor : String)
    (acc : Dict String EndpointManager × List EndpointManager) (entry : String × EndpointConfig) :
    Dict String EndpointManager × List EndpointManager :=
  if preserved acc.1 stopped processor entry.1 entry.2 then (acc.1.erase entry.1, acc.2)
  else (acc.1, acc.2 ++ [⟨hotswapName gen entry.1, entry.1, entry.2, processor⟩])

def hotswapDiff (s : Orchestrator) (configData : Dict String EndpointConfig) :
    Dict String EndpointManager × List EndpointManager :=
  configData.entries.foldl
    (diffStep s.stoppedManagers s.endpointGeneration (workItemProcessorFor s.onBatchType))
    (managersByEndpoint s.endpointManagers, [])

/-- The diff loop of `hotswap_endpoint_managers` with the constructor's outcome given per
manager: `raises em` when `EndpointManager(...)` raises on the manager `em` it would build. The
loop stops at the first such manager (`none`); it writes only its locals. -/
def diffLoop (raises : EndpointManager → Bool) (stopped : List EndpointManager) (gen : Nat)
    (processor : String) :
    List (String × EndpointConfig) → Dict String EndpointManager × List EndpointManager →
      Option (Dict String EndpointManager × List EndpointManager)
  | [], acc => some acc
  | entry :: rest, acc =>
    if preserved acc.1 stopped processor entry.1 entry.2 then
      diffLoop raises stopped gen processor rest (acc.1.erase entry.1, acc.2)
    else
      let em : EndpointManager := ⟨hotswapName gen entry.1, entry.1, entry.2, processor⟩
      if raises em then none else diffLoop raises stopped gen processor rest (acc.1, acc.2 ++ [em])

structure Reassign where
  orch : Orchestrator
  workInProgress : Dict String WorkItemRequest
  workInProgressOwner : Dict String EndpointManager

/-- The loop over `self._in_progress.items()`: the work of an owner whose endpoint is deleted
leaves the copies and goes back on the queue. `self._in_progress_owner[filepath]` raises
`KeyError` on a file path it does not hold. -/
def reassign (owners deleted : Dict String EndpointManager) :
    List (String × WorkItemRequest) → Reassign → Reassign × Option PyError
  | [], r => (r, none)
  | (filepath, workItem) :: rest, r =>
    match owners.get? filepath with
    | none => (r, some (.keyError filepath))
    | some owner =>
      if owner.endpointName ∈ deleted.keys then
        reassign owners deleted rest ⟨put r.orch workItem, r.workInProgress.erase filepath,
          r.workInProgressOwner.erase filepath⟩
      else reassign owners deleted rest r

/-- `hotswap_endpoint_managers`, with the managers it starts. -/
def hotswapEndpointManagers (s : Orchestrator) (configData : Option (Dict String EndpointConfig))
    (constructorRaises : Bool) : Outcome × List EndpointManager :=
  match configData with
  | none => (⟨s, none⟩, [])
  | some configData =>
    if s.stopRequested then (⟨s, none⟩, [])
    else
      let deleted := (hotswapDiff s configData).1
      let newEmObjs := (hotswapDiff s configData).2
      let s := { s with endpointGeneration := s.endpointGeneration + 1 }
      if constructorRaises ∧ newEmObjs ≠ [] then (⟨s, none⟩, [])
      else if s.stopRequested then (⟨s, none⟩, [])
      else
        let s := retireManagers s (s.endpointManagers.filter (·.endpointName ∈ deleted.keys))
        let r := reassign s.inProgressOwner deleted s.inProgress.entries
          ⟨s, s.inProgress, s.inProgressOwner⟩
        match r.2 with
        | some e => (⟨r.1.orch, some e⟩, [])
        | none =>
          (⟨{ r.1.orch with
                inProgress := r.1.workInProgress
                inProgressOwner := r.1.workInProgressOwner
                endpointManagers :=
                  s.endpointManagers.filter (·.endpointName ∉ deleted.keys) ++ newEmObjs }, none⟩,
            newEmObjs)

def loopRaises (s : Orchestrator) (raises : EndpointManager → Bool)
    (configData : Dict String EndpointConfig) : Bool :=
  (diffLoop raises s.stoppedManagers s.endpointGeneration (workItemProcessorFor s.onBatchType)
    configData.entries (managersByEndpoint s.endpointManagers, [])).isNone

/-- `hotswap_endpoint_managers` with the constructor's outcome given per manager. -/
def hotswapWith (s : Orchestrator) (cfg : Option (Dict String EndpointConfig))
    (raises : EndpointManager → Bool) : Outcome × List EndpointManager :=
  hotswapEndpointManagers s cfg (cfg.any (loopRaises s raises))

def moved (owners deleted : Dict String EndpointManager) (e : String × WorkItemRequest) : Bool :=
  match owners.get? e.1 with
  | some owner => decide (owner.endpointName ∈ deleted.keys)
  | none => false

def reassignStep (r : Reassign) (e : String × WorkItemRequest) : Reassign :=
  ⟨put r.orch e.2, r.workInProgress.erase e.1, r.workInProgressOwner.erase e.1⟩

theorem reassign_eq (owners deleted : Dict String EndpointManager) :
    ∀ (l : List (String × WorkItemRequest)) (r : Reassign), (∀ e ∈ l, e.1 ∈ owners.keys) →
      reassign owners deleted l r = ((l.filter (moved owners deleted)).foldl reassignStep r, none)
  | [], _, _ => rfl
  | (f, w) :: rest, r, hl => by
    obtain ⟨o, ho⟩ := Dict.mem_keys.mp (hl _ (List.mem_cons_self _ _))
    have ih := reassign_eq owners deleted rest
    have hr : ∀ e ∈ rest, e.1 ∈ owners.keys := fun e he => hl e (List.mem_cons_of_mem _ he)
    simp only [reassign, ho, List.filter_cons, moved]
    by_cases hd : o.endpointName ∈ deleted.keys <;> simp [hd, ih _ hr, reassignStep]

theorem foldl_reassignStep (l : List (String × WorkItemRequest)) (r : Reassign) :
    l.foldl reassignStep r =
      ⟨{ r.orch with fileQueue := r.orch.fileQueue ++ l.map Prod.snd,
                     fileQueueSize := r.orch.fileQueueSize + l.length },
        r.workInProgress.eraseAll (l.map Prod.fst),
        r.workInProgressOwner.eraseAll (l.map Prod.fst)⟩ := by
  induction l generalizing r with
  | nil => simp [Dict.eraseAll]
  | cons e l ih =>
    simp only [List.foldl_cons, ih, reassignStep, put, List.append_assoc, List.singleton_append,
      List.map_cons, List.length_cons, Dict.eraseAll]
    congr 2
    omega

theorem foldl_diffStep (stopped : List EndpointManager) (gen : Nat) (processor : String) :
    ∀ (l : List (String × EndpointConfig))
      (acc : Dict String EndpointManager × List EndpointManager),
      ((l.foldl (diffStep stopped gen processor) acc).2.map (·.endpointName)).Sublist
          (acc.2.map (·.endpointName) ++ l.map Prod.fst) ∧
        ∀ m ∈ (l.foldl (diffStep stopped gen processor) acc).2,
          m ∈ acc.2 ∨ m.name = hotswapName gen m.endpointName
  | [], acc => ⟨by simp, fun m hm => .inl hm⟩
  | e :: l, acc => by
    obtain ⟨ih₁, ih₂⟩ :=
      foldl_diffStep stopped gen processor l (diffStep stopped gen processor acc e)
    simp only [List.foldl_cons, List.map_cons]
    by_cases hp : preserved acc.1 stopped processor e.1 e.2 = true <;>
      simp only [diffStep, hp, if_true, if_false, Bool.false_eq_true] at ih₁ ih₂ ⊢
    · exact ⟨ih₁.trans ((List.sublist_cons_self _ _).append_left _), ih₂⟩
    · refine ⟨by simpa using ih₁, fun m hm => ?_⟩
      rcases ih₂ m hm with h | h
      · rcases List.mem_append.mp h with h | h
        · exact .inl h
        · exact .inr (by simp at h; subst h; rfl)
      · exact .inr h

theorem newManagers_sublist (s : Orchestrator) (configData : Dict String EndpointConfig) :
    ((hotswapDiff s configData).2.map (·.endpointName)).Sublist configData.keys := by
  simpa using (foldl_diffStep _ _ _ configData.entries _).1

theorem newManagers_name (s : Orchestrator) (configData : Dict String EndpointConfig) :
    ∀ m ∈ (hotswapDiff s configData).2, m.name = hotswapName s.endpointGeneration m.endpointName :=
  fun m hm => ((foldl_diffStep _ _ _ configData.entries _).2 m hm).resolve_left (by simp)

section DiffLoop

variable (raises : EndpointManager → Bool) (stopped : List EndpointManager) (gen : Nat)
  (processor : String)

theorem foldl_diffStep_append : ∀ (l : List (String × EndpointConfig))
    (D : Dict String EndpointManager) (N : List EndpointManager),
    l.foldl (diffStep stopped gen processor) (D, N) =
      ((l.foldl (diffStep stopped gen processor) (D, [])).1,
        N ++ (l.foldl (diffStep stopped gen processor) (D, [])).2)
  | [], D, N => by simp
  | e :: l, D, N => by
    simp only [List.foldl_cons, diffStep, List.nil_append]
    split
    · exact foldl_diffStep_append l _ N
    · rw [foldl_diffStep_append l D (N ++ _), foldl_diffStep_append l D [_]]
      simp

theorem diffLoop_eq : ∀ (l : List (String × EndpointConfig))
    (D : Dict String EndpointManager) (N : List EndpointManager),
    diffLoop raises stopped gen processor l (D, N) =
      if ∃ em ∈ (l.foldl (diffStep stopped gen processor) (D, [])).2, raises em = true then none
      else some (l.foldl (diffStep stopped gen processor) (D, N))
  | [], D, N => by simp [diffLoop]
  | e :: l, D, N => by
    simp only [diffLoop, List.foldl_cons, diffStep, List.nil_append]
    split
    · exact diffLoop_eq l _ N
    · rw [foldl_diffStep_append stopped gen processor l D [_]]
      split
      · rename_i hr
        simp [hr]
      · rename_i hr
        simp [hr, diffLoop_eq l D]

end DiffLoop

section Raises

variable {s : Orchestrator} {raises : EndpointManager → Bool}
  {configData : Dict String EndpointConfig}

theorem diffLoop_hotswapDiff :
    diffLoop raises s.stoppedManagers s.endpointGeneration (workItemProcessorFor s.onBatchType)
        configData.entries (managersByEndpoint s.endpointManagers, []) =
      if ∃ em ∈ (hotswapDiff s configData).2, raises em = true then none
      else some (hotswapDiff s configData) :=
  diffLoop_eq raises _ _ _ _ _ _

theorem loopRaises_iff :
    loopRaises s raises configData = true ↔ ∃ em ∈ (hotswapDiff s configData).2, raises em = true := by
  rw [loopRaises, diffLoop_hotswapDiff]
  split <;> simp [*]

end Raises

theorem entries_foldl_insert : ∀ (managers : List EndpointManager)
    (d : Dict String EndpointManager), (managers.map (·.endpointName)).Nodup →
    (∀ em ∈ managers, em.endpointName ∉ d.keys) →
    (managers.foldl (fun d em => d.insert em.endpointName em) d).entries =
      d.entries ++ managers.map fun em => (em.endpointName, em)
  | [], d, _, _ => by simp
  | em :: managers, d, hn, hd => by
    rw [List.map_cons, List.nodup_cons] at hn
    have hem := hd em (List.mem_cons_self _ _)
    have hins : (d.insert em.endpointName em).entries = d.entries ++ [(em.endpointName, em)] := by
      simp [Dict.insert, hem]
    rw [List.foldl_cons, entries_foldl_insert managers _ hn.2 fun em' hem' => ?_, hins]
    · simp
    rw [Dict.mem_keys_insert]
    rintro (h | h)
    · exact hn.1 (h ▸ List.mem_map_of_mem _ hem')
    · exact hd em' (List.mem_cons_of_mem _ hem') h

theorem get?_managersByEndpoint {managers : List EndpointManager}
    (hn : (managers.map (·.endpointName)).Nodup) {e : String} {em : EndpointManager} :
    (managersByEndpoint managers).get? e = some em ↔ em ∈ managers ∧ em.endpointName = e := by
  rw [Dict.get?_eq_some, managersByEndpoint, entries_foldl_insert _ _ hn (by simp)]
  simp only [List.mem_append, List.mem_map, Prod.mk.injEq]
  exact ⟨fun | .inr ⟨_, hm, he, hem⟩ => ⟨hem ▸ hm, hem ▸ he⟩,
    fun ⟨hm, he⟩ => .inr ⟨em, hm, he, rfl⟩⟩

section Fold

variable (stopped : List EndpointManager) (gen : Nat) (processor : String)
  (D : Dict String EndpointManager)

theorem preserved_eraseAll {ks : List String} {e : String} (he : e ∉ ks) (c : EndpointConfig) :
    preserved (D.eraseAll ks) stopped processor e c = preserved D stopped processor e c := by
  simp only [preserved, Dict.get?_eraseAll, he, if_false]

theorem foldl_diffStep_eq : ∀ (l : List (String × EndpointConfig)) (ks : List String)
    (N : List EndpointManager), (l.map Prod.fst).Nodup → (∀ e ∈ l, e.1 ∉ ks) →
    l.foldl (diffStep stopped gen processor) (D.eraseAll ks, N) =
      (D.eraseAll (ks ++ (l.filter fun e => preserved D stopped processor e.1 e.2).map Prod.fst),
        N ++ (l.filter fun e => !preserved D stopped processor e.1 e.2).map
          fun e => ⟨hotswapName gen e.1, e.1, e.2, processor⟩)
  | [], ks, N, _, _ => by simp
  | e :: l, ks, N, hn, hk => by
    rw [List.map_cons, List.nodup_cons] at hn
    have hl : ∀ e' ∈ l, e'.1 ≠ e.1 := fun e' he' h => hn.1 (h ▸ List.mem_map_of_mem _ he')
    have hk' : ∀ e' ∈ l, e'.1 ∉ ks := fun e' he' => hk e' (List.mem_cons_of_mem _ he')
    simp only [List.foldl_cons, diffStep,
      preserved_eraseAll stopped processor D (hk e (List.mem_cons_self _ _))]
    by_cases hp : preserved D stopped processor e.1 e.2 = true
    · have hrec := foldl_diffStep_eq l (ks ++ [e.1]) N hn.2 fun e' he' => by
        simpa [hl e' he'] using hk' e' he'
      have herase : D.eraseAll (ks ++ [e.1]) = (D.eraseAll ks).erase e.1 := by
        simp [Dict.eraseAll, List.foldl_append]
      rw [if_pos hp, ← herase, hrec]
      simp [List.filter_cons, hp]
    · rw [if_neg hp, foldl_diffStep_eq l ks _ hn.2 hk']
      simp [List.filter_cons, hp]

end Fold

theorem hotswapDiff_eq (s : Orchestrator) (configData : Dict String EndpointConfig) :
    hotswapDiff s configData =
      ((managersByEndpoint s.endpointManagers).eraseAll
          ((configData.entries.filter fun e => preserved (managersByEndpoint s.endpointManagers)
            s.stoppedManagers (workItemProcessorFor s.onBatchType) e.1 e.2).map Prod.fst),
        (configData.entries.filter fun e => !preserved (managersByEndpoint s.endpointManagers)
            s.stoppedManagers (workItemProcessorFor s.onBatchType) e.1 e.2).map
          fun e => ⟨hotswapName s.endpointGeneration e.1, e.1, e.2,
            workItemProcessorFor s.onBatchType⟩) := by
  simpa using foldl_diffStep_eq s.stoppedManagers s.endpointGeneration
    (workItemProcessorFor s.onBatchType) (managersByEndpoint s.endpointManagers)
    configData.entries [] [] configData.nodup (by simp)

theorem preserved_managersByEndpoint {managers stopped : List EndpointManager}
    (hn : (managers.map (·.endpointName)).Nodup) (processor endpointName : String)
    (endpointConfig : EndpointConfig) :
    preserved (managersByEndpoint managers) stopped processor endpointName endpointConfig = true ↔
      ∃ em ∈ managers, em.endpointName = endpointName ∧ endpointConfig = em.endpointConfig ∧
        em.workItemProcessor = processor ∧ em ∉ stopped := by
  unfold preserved
  split
  · rename_i em hem
    obtain ⟨hm, rfl⟩ := (get?_managersByEndpoint hn).mp hem
    refine ⟨fun h => ⟨em, hm, rfl, of_decide_eq_true h⟩, fun ⟨em', hm', he, h⟩ => ?_⟩
    obtain rfl := List.inj_on_of_nodup_map hn hm' hm he
    exact decide_eq_true h
  · rename_i hem
    refine ⟨nofun, fun ⟨em, hm, he, _⟩ => ?_⟩
    rw [(get?_managersByEndpoint hn).mpr ⟨hm, he⟩] at hem
    cases hem

section Outcomes

variable {s : Orchestrator} {configData : Dict String EndpointConfig} {constructorRaises : Bool}

theorem hotswap_stopped (hs : s.stopRequested = true) (cfg : Option (Dict String EndpointConfig)) :
    hotswapEndpointManagers s cfg constructorRaises = (⟨s, none⟩, []) := by
  cases cfg <;> simp [hotswapEndpointManagers, hs]

theorem hotswap_constructorRaises (hs : s.stopRequested = false)
    (hc : constructorRaises = true ∧ (hotswapDiff s configData).2 ≠ []) :
    hotswapEndpointManagers s (some configData) constructorRaises =
      (⟨{ s with endpointGeneration := s.endpointGeneration + 1 }, none⟩, []) := by
  simp [hotswapEndpointManagers, hs, hc]

theorem hotswap_swap (hk : s.inProgressOwner.keys = s.inProgress.keys)
    (hs : s.stopRequested = false)
    (hc : ¬(constructorRaises = true ∧ (hotswapDiff s configData).2 ≠ [])) :
    let deleted := (hotswapDiff s configData).1
    let retired := s.endpointManagers.filter (·.endpointName ∈ deleted.keys)
    let mv := s.inProgress.entries.filter (moved s.inProgressOwner deleted)
    hotswapEndpointManagers s (some configData) constructorRaises =
      (⟨{ s with
          endpointGeneration := s.endpointGeneration + 1
          oldManagers := addAll s.oldManagers (retired.map (·.name))
          stoppedManagers := addAll s.stoppedManagers retired
          fileQueue := s.fileQueue ++ mv.map Prod.snd
          fileQueueSize := s.fileQueueSize + mv.length
          inProgress := s.inProgress.eraseAll (mv.map Prod.fst)
          inProgressOwner := s.inProgressOwner.eraseAll (mv.map Prod.fst)
          endpointManagers :=
            s.endpointManagers.filter (·.endpointName ∉ deleted.keys) ++
              (hotswapDiff s configData).2 },
        none⟩, (hotswapDiff s configData).2) := by
  have hl : ∀ e ∈ s.inProgress.entries, e.1 ∈ s.inProgressOwner.keys :=
    fun e he => hk ▸ Dict.mem_keys_of_mem he
  simp only [hotswapEndpointManagers, hs, hc, if_false, Bool.false_eq_true, retireManagers,
    stopManagers]
  rw [reassign_eq _ _ _ _ hl, foldl_reassignStep]

end Outcomes

theorem hotswap_outcome {s : Orchestrator} (hk : s.inProgressOwner.keys = s.inProgress.keys)
    (cfg : Option (Dict String EndpointConfig)) (constructorRaises : Bool) :
    (hotswapEndpointManagers s cfg constructorRaises).1.raised = none ∧
    (hotswapEndpointManagers s cfg constructorRaises).1.state.batchCompletionEvt =
      s.batchCompletionEvt ∧
    Orchestrator.SameControl s (hotswapEndpointManagers s cfg constructorRaises).1.state := by
  rcases cfg with _ | configData
  · exact ⟨rfl, rfl, .refl _⟩
  cases hs : s.stopRequested
  · by_cases hc : constructorRaises = true ∧ (hotswapDiff s configData).2 ≠ []
    · rw [hotswap_constructorRaises hs hc]; exact ⟨rfl, rfl, rfl, rfl, rfl, rfl⟩
    · rw [hotswap_swap hk hs hc]; exact ⟨rfl, rfl, rfl, rfl, rfl, rfl⟩
  · rw [hotswap_stopped hs]; exact ⟨rfl, rfl, .refl _⟩

theorem QueueInv.hotswap {s : Orchestrator} (h : QueueInv s)
    (cfg : Option (Dict String EndpointConfig)) (constructorRaises : Bool) :
    QueueInv (hotswapEndpointManagers s cfg constructorRaises).1.state := by
  rcases cfg with _ | configData
  · exact h
  cases hs : s.stopRequested
  swap
  · rw [hotswap_stopped hs]; exact h
  by_cases hc : constructorRaises = true ∧ (hotswapDiff s configData).2 ≠ []
  · rw [hotswap_constructorRaises hs hc]; exact { h with }
  rw [hotswap_swap h.owner_keys hs hc]
  set mv := s.inProgress.entries.filter (moved s.inProgressOwner (hotswapDiff s configData).1)
  have hmv : ∀ e ∈ mv, e.2.filepath = e.1 := fun e he =>
    h.key_filepath e.1 e.2 (Dict.get?_eq_some.mpr (List.mem_filter.mp he).1)
  have hsub : (mv.map Prod.fst).Sublist s.inProgress.keys := (List.filter_sublist _).map _
  exact
    { size_eq := by simp [h.size_eq]
      queue_nodup := by
        have hfp : mv.map ((·.filepath) ∘ Prod.snd) = mv.map Prod.fst :=
          List.map_congr_left hmv
        rw [List.map_append, List.map_map, hfp]
        exact h.queue_nodup.append (s.inProgress.keys_nodup.sublist hsub)
          fun a ha hb => h.not_mem_queue (hsub.subset hb) ha
      queue_disjoint := fun w hw hk => by
        rcases List.mem_append.mp hw with hw | hw
        · exact h.queue_disjoint w hw (Dict.mem_keys_eraseAll.mp hk).1
        · obtain ⟨e, he, rfl⟩ := List.mem_map.mp hw
          exact (Dict.mem_keys_eraseAll.mp hk).2 (hmv e he ▸ List.mem_map_of_mem _ he)
      owner_keys := by simp only [Dict.keys_eraseAll, h.owner_keys]
      key_filepath := fun f w hw => by
        rw [Dict.get?_eraseAll] at hw
        split at hw
        · cases hw
        · exact h.key_filepath f w hw
      stopped_empty := by simp [hs] }

end BatchKit
