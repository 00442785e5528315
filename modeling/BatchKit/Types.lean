import BatchKit.Dict

/-!
# Work items, results and endpoint managers

The records `orchestrator.py` handles but does not define. Each keeps the fields the
orchestrator reads; the payloads only workers read, and the runtime counters only the debug
loop prints, are left out.
-/

namespace BatchKit

/-- Modelled from the spec: a `WorkItemRequest` of `work_item.py`, its `filepath` (unique
within a batch) and its optional routing `language`. -/
structure WorkItemRequest where
  filepath : String
  language : Option String
deriving DecidableEq, Repr

/-- Modelled from the spec: a `WorkItemResult`, with `attempts` (a Python `int`) and
`can_retry`. -/
structure WorkItemResult where
  attempts : Int
  canRetry : Bool
deriving DecidableEq, Repr

/-- Modelled from the spec: an endpoint's configuration map, compared by value. `language` is
the entry `steal_work` reads; the other settings are opaque and kept in canonical (sorted) key
order, so that equality of the lists is equality of the Python dicts. -/
structure EndpointConfig where
  language : String
  settings : List (String × String)
deriving DecidableEq, Repr

/-- Modelled from the spec: an `EndpointManager` as the orchestrator sees it. The work item
processor is represented by its class, which is all `hotswap_endpoint_managers` compares. -/
structure EndpointManager where
  name : String
  endpointName : String
  endpointConfig : EndpointConfig
  workItemProcessor : String
deriving DecidableEq, Repr

/-- Modelled from the spec: `type(request)` for a `BatchRequest` subclass, with the class of
the processor its `get_work_item_processor()` builds. -/
structure BatchType where
  name : String
  workItemProcessor : String
deriving DecidableEq, Repr

/-- Modelled from the spec: a `BatchRequest`, by its `batch_id` and its type. -/
structure BatchRequest where
  batchId : Int
  batchType : BatchType
deriving DecidableEq, Repr

/-- `str.lower()` on ASCII text, the only text the concrete runs below use. -/
def asciiLower (s : String) : String := ⟨s.data.map Char.toLower⟩

/-- `work.language and manager.endpoint_config["language"].lower() != work.language.lower()`,
with `lower` Python's `str.lower`: an empty or missing language routes anywhere. -/
def languageMismatch (lower : String → String) (manager : EndpointManager)
    (work : WorkItemRequest) : Bool :=
  match work.language with
  | some language =>
    !language.data.isEmpty && lower manager.endpointConfig.language != lower language
  | none => false

theorem languageMismatch_eq_false {lower : String → String} {manager : EndpointManager}
    {work : WorkItemRequest} :
    languageMismatch lower manager work = false ↔
      work.language = none ∨ work.language = some "" ∨
        ∃ language, work.language = some language ∧
          lower manager.endpointConfig.language = lower language := by
  rcases work with ⟨filepath, _ | ⟨language⟩⟩
  · simp [languageMismatch]
  · have he : language.data = [] ↔ language = "" := ⟨fun h => String.ext h, fun h => h ▸ rfl⟩
    by_cases h : language = "" <;> simp [languageMismatch, h, he]

/-- `set.add` over a list of elements; only membership is ever read. -/
def addAll {α : Type} [DecidableEq α] (l xs : List α) : List α := xs.foldl (fun l x => l.insert x) l

theorem mem_addAll {α : Type} [DecidableEq α] {a : α} {l xs : List α} :
    a ∈ addAll l xs ↔ a ∈ l ∨ a ∈ xs := by
  induction xs generalizing l with
  | nil => simp [addAll]
  | cons x xs ih =>
    simp only [addAll, List.foldl_cons] at ih ⊢
    rw [ih, List.mem_insert_iff, List.mem_cons]
    tauto

end BatchKit
