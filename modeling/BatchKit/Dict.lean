import Mathlib.Data.List.Nodup

/-!
# Python dictionaries

The orchestrator keeps its accounting in Python `dict`s keyed by file path or endpoint name.
A `Dict` is the list of its entries in insertion order, each key once: assigning to a present
key keeps its place, a new key goes last, `del` removes the entry. The order is observable:
`hotswap_endpoint_managers` requeues in-progress work in the order of `_in_progress`.
-/

namespace BatchKit

structure Dict (κ ν : Type) where
  entries : List (κ × ν)
  nodup : (entries.map Prod.fst).Nodup

namespace Dict

variable {κ ν : Type}

instance : EmptyCollection (Dict κ ν) := ⟨⟨[], List.nodup_nil⟩⟩

def keys (d : Dict κ ν) : List κ := d.entries.map Prod.fst

def values (d : Dict κ ν) : List ν := d.entries.map Prod.snd

/-- `len(d)`. -/
def size (d : Dict κ ν) : Nat := d.entries.length

@[simp] theorem keys_empty : (∅ : Dict κ ν).keys = [] := rfl

@[simp] theorem size_empty : (∅ : Dict κ ν).size = 0 := rfl

theorem keys_nodup (d : Dict κ ν) : d.keys.Nodup := d.nodup

theorem size_eq_length_keys (d : Dict κ ν) : d.size = d.keys.length := by
  simp [size, keys]

theorem size_eq_zero {d : Dict κ ν} : d.size = 0 ↔ d.keys = [] := by
  simp [size_eq_length_keys]

theorem mem_keys_of_mem {d : Dict κ ν} {k : κ} {v : ν} (h : (k, v) ∈ d.entries) : k ∈ d.keys :=
  List.mem_map_of_mem Prod.fst h

theorem eq_of_mem_entries {d : Dict κ ν} {k : κ} {v w : ν}
    (hv : (k, v) ∈ d.entries) (hw : (k, w) ∈ d.entries) : v = w := by
  have := List.inj_on_of_nodup_map d.nodup hv hw rfl
  simpa using this

variable [DecidableEq κ]

/-- `d.get(k)`: the value stored under `k`, if any. -/
def get? (d : Dict κ ν) (k : κ) : Option ν := (d.entries.find? (·.1 = k)).map Prod.snd

theorem nodup_map_fst_update (l : List (κ × ν)) (k : κ) (v : ν) :
    (l.map (fun e => if e.1 = k then (k, v) else e)).map Prod.fst = l.map Prod.fst := by
  induction l with
  | nil => rfl
  | cons e l ih => by_cases h : e.1 = k <;> simp [h, ih]

/-- `d[k] = v`. -/
def insert (d : Dict κ ν) (k : κ) (v : ν) : Dict κ ν :=
  if h : k ∈ d.keys then
    ⟨d.entries.map (fun e => if e.1 = k then (k, v) else e), by
      rw [nodup_map_fst_update]; exact d.nodup⟩
  else
    ⟨d.entries ++ [(k, v)], by
      simpa using d.nodup.append (List.nodup_singleton k) (List.disjoint_singleton.mpr h)⟩

/-- `del d[k]`, once the caller knows `k` is present; otherwise `d` unchanged. -/
def erase (d : Dict κ ν) (k : κ) : Dict κ ν :=
  ⟨d.entries.filter (fun e => e.1 ≠ k),
    d.nodup.sublist ((List.filter_sublist d.entries).map Prod.fst)⟩

@[simp] theorem get?_empty (k : κ) : (∅ : Dict κ ν).get? k = none := rfl

theorem get?_eq_some {d : Dict κ ν} {k : κ} {v : ν} : d.get? k = some v ↔ (k, v) ∈ d.entries := by
  constructor
  · intro h
    obtain ⟨⟨a, b⟩, he, rfl⟩ := Option.map_eq_some'.mp h
    have ha : a = k := by simpa using List.find?_some he
    exact ha ▸ List.mem_of_find?_eq_some he
  · intro h
    have hs : (d.entries.find? (fun e => decide (e.1 = k))).isSome :=
      List.find?_isSome.mpr ⟨(k, v), h, by simp⟩
    obtain ⟨⟨a, b⟩, he⟩ := Option.isSome_iff_exists.mp hs
    have ha : a = k := by simpa using List.find?_some he
    subst ha
    have hv := eq_of_mem_entries h (List.mem_of_find?_eq_some he)
    simp [get?, he, hv]

theorem mem_keys {d : Dict κ ν} {k : κ} : k ∈ d.keys ↔ ∃ v, d.get? k = some v := by
  simp [get?_eq_some, keys]

theorem get?_eq_none {d : Dict κ ν} {k : κ} : d.get? k = none ↔ k ∉ d.keys := by
  rw [mem_keys]; cases d.get? k <;> simp

theorem keys_insert (d : Dict κ ν) (k : κ) (v : ν) :
    (d.insert k v).keys = if k ∈ d.keys then d.keys else d.keys ++ [k] := by
  unfold insert
  split <;> simp only [keys, nodup_map_fst_update, List.map_append, List.map_cons,
    List.map_nil, *, if_true, if_false]

theorem mem_keys_insert {d : Dict κ ν} {k k' : κ} {v : ν} :
    k' ∈ (d.insert k v).keys ↔ k' = k ∨ k' ∈ d.keys := by
  rw [keys_insert]
  split
  · exact ⟨Or.inr, fun h => h.elim (fun h => h ▸ ‹_›) id⟩
  · simp [or_comm]

theorem mem_entries_insert {d : Dict κ ν} {k k' : κ} {v w : ν} :
    (k', w) ∈ (d.insert k v).entries ↔ (k' = k ∧ w = v) ∨ (k' ≠ k ∧ (k', w) ∈ d.entries) := by
  unfold insert
  split
  · simp only [List.mem_map]
    constructor
    · rintro ⟨⟨a, b⟩, hab, he⟩
      by_cases h : a = k
      · simp only [h, if_true, Prod.mk.injEq] at he; exact .inl ⟨he.1.symm, he.2.symm⟩
      · simp only [h, if_false, Prod.mk.injEq] at he
        obtain ⟨rfl, rfl⟩ := he
        exact .inr ⟨h, hab⟩
    · rintro (⟨rfl, rfl⟩ | ⟨h, hm⟩)
      · obtain ⟨u, hu⟩ := List.mem_map.mp ‹k' ∈ d.keys›
        exact ⟨u, hu.1, by simp [hu.2]⟩
      · exact ⟨(k', w), hm, by simp [h]⟩
  · simp only [List.mem_append, List.mem_singleton, Prod.mk.injEq]
    constructor
    · rintro (hm | ⟨rfl, rfl⟩)
      · exact .inr ⟨fun h => ‹k ∉ d.keys› (h ▸ mem_keys_of_mem hm), hm⟩
      · exact .inl ⟨rfl, rfl⟩
    · rintro (h | h)
      · exact .inr h
      · exact .inl h.2

theorem get?_insert (d : Dict κ ν) (k k' : κ) (v : ν) :
    (d.insert k v).get? k' = if k' = k then some v else d.get? k' := by
  refine Option.ext fun w => ?_
  rw [Option.mem_def, Option.mem_def, get?_eq_some, mem_entries_insert]
  split
  · simp [*, eq_comm]
  · simp [*, get?_eq_some]

theorem keys_erase (d : Dict κ ν) (k : κ) : (d.erase k).keys = d.keys.filter (· ≠ k) := by
  simp [erase, keys, List.filter_map, Function.comp_def]

theorem mem_keys_erase {d : Dict κ ν} {k k' : κ} :
    k' ∈ (d.erase k).keys ↔ k' ≠ k ∧ k' ∈ d.keys := by
  simp [keys_erase, and_comm]

theorem get?_erase (d : Dict κ ν) (k k' : κ) :
    (d.erase k).get? k' = if k' = k then none else d.get? k' := by
  refine Option.ext fun w => ?_
  rw [Option.mem_def, Option.mem_def, get?_eq_some]
  split
  · simp [erase, *]
  · simp [erase, get?_eq_some, *]

theorem mem_entries_erase {d : Dict κ ν} {k : κ} {e : κ × ν} :
    e ∈ (d.erase k).entries ↔ e ∈ d.entries ∧ e.1 ≠ k := by
  simp [erase]

/-- `del d[k]` for each key of `ks` in turn. -/
def eraseAll (d : Dict κ ν) (ks : List κ) : Dict κ ν := ks.foldl erase d

theorem mem_entries_eraseAll {d : Dict κ ν} {ks : List κ} {e : κ × ν} :
    e ∈ (d.eraseAll ks).entries ↔ e ∈ d.entries ∧ e.1 ∉ ks := by
  induction ks generalizing d with
  | nil => simp [eraseAll]
  | cons k ks ih =>
    simp only [eraseAll, List.foldl_cons] at ih ⊢
    rw [ih, mem_entries_erase, List.mem_cons, not_or, and_assoc]

theorem entries_eraseAll (d : Dict κ ν) (ks : List κ) :
    (d.eraseAll ks).entries = d.entries.filter (·.1 ∉ ks) := by
  induction ks generalizing d with
  | nil => simp [eraseAll]
  | cons k ks ih =>
    simp only [eraseAll, List.foldl_cons] at ih ⊢
    rw [ih, erase, List.filter_filter]
    congr 1
    funext e
    simp [Bool.and_comm]

theorem keys_eraseAll (d : Dict κ ν) (ks : List κ) :
    (d.eraseAll ks).keys = d.keys.filter (· ∉ ks) := by
  induction ks generalizing d with
  | nil => simp [eraseAll]
  | cons k ks ih =>
    simp only [eraseAll, List.foldl_cons] at ih ⊢
    rw [ih, keys_erase, List.filter_filter]
    congr 1
    funext x
    simp [Bool.and_comm]

theorem mem_keys_eraseAll {d : Dict κ ν} {ks : List κ} {k : κ} :
    k ∈ (d.eraseAll ks).keys ↔ k ∈ d.keys ∧ k ∉ ks := by
  simp [keys_eraseAll]

theorem get?_eraseAll (d : Dict κ ν) (ks : List κ) (k : κ) :
    (d.eraseAll ks).get? k = if k ∈ ks then none else d.get? k := by
  refine Option.ext fun w => ?_
  rw [Option.mem_def, Option.mem_def, get?_eq_some, mem_entries_eraseAll]
  split <;> simp [*, get?_eq_some]

theorem get?_of_get?_erase {d : Dict κ ν} {k k' : κ} {v : ν} (h : (d.erase k).get? k' = some v) :
    d.get? k' = some v :=
  get?_eq_some.mpr (mem_entries_erase.mp (get?_eq_some.mp h)).1

theorem get?_of_get?_eraseAll {d : Dict κ ν} {ks : List κ} {k : κ} {v : ν}
    (h : (d.eraseAll ks).get? k = some v) : d.get? k = some v :=
  get?_eq_some.mpr (mem_entries_eraseAll.mp (get?_eq_some.mp h)).1

end Dict

end BatchKit
