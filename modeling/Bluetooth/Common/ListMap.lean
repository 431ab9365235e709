import Mathlib.Data.List.Nodup

/-!
# Association lists, and the insertion-ordered map

`common::ListMap` is not part of the sources, so it is modelled from the way `ConfigCache`
uses it: a map that keeps its entries in insertion order and each key once. Its entries are
an association list with unique keys; the list operations below are shared with the LRU
cache.
-/

namespace Bluetooth.Common

variable {K V : Type}

/-! ## Association lists -/

theorem nodup_keys_append {l : List (K × V)} (h : (l.map Prod.fst).Nodup) {k : K}
    (hk : k ∉ l.map Prod.fst) (v : V) : ((l ++ [(k, v)]).map Prod.fst).Nodup := by
  rw [List.map_append]
  exact h.append (List.nodup_singleton k) (List.disjoint_singleton.mpr hk)

theorem forall_append_singleton {p : K → V → Prop} {l : List (K × V)} {k : K} {v : V}
    (h : ∀ e ∈ l, p e.1 e.2) (hk : p k v) : ∀ e ∈ l ++ [(k, v)], p e.1 e.2 :=
  List.forall_mem_append.mpr ⟨h, by simpa using hk⟩

variable [DecidableEq K]

def lookup (l : List (K × V)) (k : K) : Option V :=
  (l.find? fun e => e.1 = k).map Prod.snd

def eraseKey (l : List (K × V)) (k : K) : List (K × V) :=
  l.filter fun e => e.1 ≠ k

def updateKey (l : List (K × V)) (k : K) (f : V → V) : List (K × V) :=
  l.map fun e => if e.1 = k then (e.1, f e.2) else e

theorem mem_of_lookup {l : List (K × V)} {k : K} {v : V} (h : lookup l k = some v) :
    (k, v) ∈ l := by
  obtain ⟨e, he, rfl⟩ := Option.map_eq_some'.mp h
  obtain rfl : e.1 = k := by simpa using List.find?_some he
  exact List.mem_of_find?_eq_some he

theorem lookup_isSome {l : List (K × V)} {k : K} :
    (lookup l k).isSome ↔ k ∈ l.map Prod.fst := by
  simp [lookup, List.find?_isSome]

@[simp] theorem mem_keys_eraseKey {l : List (K × V)} {k x : K} :
    x ∈ (eraseKey l k).map Prod.fst ↔ x ∈ l.map Prod.fst ∧ x ≠ k := by
  simp only [eraseKey, List.mem_map, List.mem_filter, decide_eq_true_eq]
  exact ⟨fun ⟨e, ⟨he, hk⟩, hx⟩ => ⟨⟨e, he, hx⟩, hx ▸ hk⟩,
    fun ⟨⟨e, he, hx⟩, hk⟩ => ⟨e, ⟨he, hx ▸ hk⟩, hx⟩⟩

@[simp] theorem keys_updateKey (l : List (K × V)) (k : K) (f : V → V) :
    (updateKey l k f).map Prod.fst = l.map Prod.fst := by
  simp [updateKey, Function.comp_def, apply_ite]

theorem eraseKey_updateKey (l : List (K × V)) (k : K) (f : V → V) :
    eraseKey (updateKey l k f) k = eraseKey l k := by
  induction l with
  | nil => rfl
  | cons e l ih => by_cases he : e.1 = k <;> simpa [eraseKey, updateKey, he] using ih

theorem nodup_eraseKey {l : List (K × V)} (h : (l.map Prod.fst).Nodup) (k : K) :
    ((eraseKey l k).map Prod.fst).Nodup :=
  h.sublist ((List.filter_sublist l).map Prod.fst)

theorem lookup_updateKey (l : List (K × V)) (k : K) (f : V → V) :
    lookup (updateKey l k f) k = (lookup l k).map f := by
  induction l with
  | nil => rfl
  | cons e l ih =>
    by_cases he : e.1 = k
    · simp [lookup, updateKey, he]
    · simpa [lookup, updateKey, he] using ih

theorem lookup_cons (e : K × V) (l : List (K × V)) (x : K) :
    lookup (e :: l) x = if e.1 = x then some e.2 else lookup l x := by
  by_cases h : e.1 = x <;> simp [lookup, List.find?_cons, h]

theorem lookup_append_singleton (l : List (K × V)) (e : K × V) (x : K) :
    lookup (l ++ [e]) x = (lookup l x).or (if e.1 = x then some e.2 else none) := by
  simp only [lookup, List.find?_append, List.find?_singleton]
  cases List.find? (fun e => decide (e.1 = x)) l <;> by_cases h : e.1 = x <;> simp [h]

theorem lookup_updateKey_of_ne {l : List (K × V)} {k x : K} (f : V → V) (hx : x ≠ k) :
    lookup (updateKey l k f) x = lookup l x := by
  induction l with
  | nil => rfl
  | cons e l ih =>
    simp only [updateKey, List.map_cons, lookup_cons] at ih ⊢
    split_ifs <;> simp_all

theorem lookup_eraseKey_of_ne {l : List (K × V)} {k x : K} (hx : x ≠ k) :
    lookup (eraseKey l k) x = lookup l x := by
  induction l with
  | nil => rfl
  | cons e l ih =>
    have hkx : k ≠ x := Ne.symm hx
    simp only [eraseKey, List.filter_cons] at ih ⊢
    split_ifs <;> simp_all [lookup_cons]

theorem lookup_eq_some_iff {l : List (K × V)} (h : (l.map Prod.fst).Nodup) {k : K} {v : V} :
    lookup l k = some v ↔ (k, v) ∈ l := by
  refine ⟨mem_of_lookup, fun hm => ?_⟩
  induction l with
  | nil => cases hm
  | cons e l ih =>
    obtain ⟨he, hl⟩ := List.nodup_cons.mp h
    rw [lookup_cons]
    rcases List.mem_cons.mp hm with rfl | hm
    · simp
    · rw [if_neg fun (hek : e.1 = k) => he (hek ▸ List.mem_map_of_mem Prod.fst hm)]
      exact ih hl hm

theorem lookup_congr {l₁ l₂ : List (K × V)} (h₁ : (l₁.map Prod.fst).Nodup)
    (h₂ : (l₂.map Prod.fst).Nodup) (h : ∀ e, e ∈ l₁ ↔ e ∈ l₂) (k : K) :
    lookup l₁ k = lookup l₂ k :=
  Option.ext fun v => by simp only [Option.mem_def, lookup_eq_some_iff h₁, lookup_eq_some_iff h₂, h]

theorem forall_updateKey {p : K → V → Prop} {l : List (K × V)} {k : K} {f : V → V}
    (h : ∀ e ∈ l, p e.1 e.2) (hf : ∀ v, p k v → p k (f v)) :
    ∀ e ∈ updateKey l k f, p e.1 e.2 := by
  intro e he
  obtain ⟨e', he', rfl⟩ := List.mem_map.mp he
  by_cases hk : e'.1 = k
  · simpa [hk] using hf _ (hk ▸ h e' he')
  · simpa [hk] using h e' he'

/-! ## ListMap -/

/-- `common::ListMap` as `ConfigCache` uses it: the map that keeps its entries in insertion
order, each key once. -/
@[ext] structure ListMap (K V : Type) where
  entries : List (K × V)
  nodup : (entries.map Prod.fst).Nodup

namespace ListMap

def empty : ListMap K V := ⟨[], List.nodup_nil⟩

def keys (m : ListMap K V) : List K := m.entries.map Prod.fst

/-- `find`: the value under `k`. -/
def find (m : ListMap K V) (k : K) : Option V := lookup m.entries k

/-- `insert_or_assign`: assigns in place under a present key, appends otherwise. -/
def insertOrAssign (m : ListMap K V) (k : K) (v : V) : ListMap K V :=
  if h : k ∈ m.keys then ⟨updateKey m.entries k fun _ => v, by simpa using m.nodup⟩
  else ⟨m.entries ++ [(k, v)], nodup_keys_append m.nodup h v⟩

/-- `try_emplace_back`: appends `(k, v)` unless `k` is present. -/
def tryEmplaceBack (m : ListMap K V) (k : K) (v : V) : ListMap K V :=
  if h : k ∈ m.keys then m else ⟨m.entries ++ [(k, v)], nodup_keys_append m.nodup h v⟩

/-- Writing through the iterator of `k`. -/
def update (m : ListMap K V) (k : K) (f : V → V) : ListMap K V :=
  ⟨updateKey m.entries k f, by simpa using m.nodup⟩

/-- `extract`: the value under `k`, and the map without it. -/
def extract (m : ListMap K V) (k : K) : Option V × ListMap K V :=
  (m.find k, ⟨eraseKey m.entries k, nodup_eraseKey m.nodup k⟩)

def All (p : K → V → Prop) (m : ListMap K V) : Prop := ∀ e ∈ m.entries, p e.1 e.2

variable {m : ListMap K V} {k x : K} {v : V} {p : K → V → Prop}

omit [DecidableEq K] in
@[simp] theorem keys_empty : (empty : ListMap K V).keys = [] := rfl

@[simp] theorem find_empty : (empty : ListMap K V).find k = none := rfl

@[simp] theorem mem_keys_insertOrAssign : x ∈ (m.insertOrAssign k v).keys ↔ x ∈ m.keys ∨ x = k := by
  unfold insertOrAssign
  split
  · simp only [keys, keys_updateKey]
    exact (or_iff_left_of_imp fun h => h ▸ ‹_›).symm
  · simp [keys]

theorem keys_insertOrAssign_of_not_mem (hk : k ∉ m.keys) :
    (m.insertOrAssign k v).keys = m.keys ++ [k] := by
  rw [insertOrAssign, dif_neg hk]
  simp [keys]

@[simp] theorem mem_keys_tryEmplaceBack : x ∈ (m.tryEmplaceBack k v).keys ↔ x ∈ m.keys ∨ x = k := by
  unfold tryEmplaceBack
  split
  · exact (or_iff_left_of_imp fun h => h ▸ ‹_›).symm
  · simp [keys]

@[simp] theorem keys_update (f : V → V) : (m.update k f).keys = m.keys :=
  keys_updateKey _ _ _

@[simp] theorem mem_keys_extract : x ∈ (m.extract k).2.keys ↔ x ∈ m.keys ∧ x ≠ k :=
  mem_keys_eraseKey

theorem find_isSome : (m.find k).isSome ↔ k ∈ m.keys := lookup_isSome

theorem find_update (f : V → V) : (m.update k f).find k = (m.find k).map f :=
  lookup_updateKey _ _ _

theorem find_eq_none (h : k ∉ m.keys) : m.find k = none :=
  Option.not_isSome_iff_eq_none.mp (mt find_isSome.mp h)

theorem mem_keys_of_find (h : m.find k = some v) : k ∈ m.keys :=
  find_isSome.mp (Option.isSome_iff_exists.mpr ⟨v, h⟩)

@[simp] theorem extract_fst : (m.extract k).1 = m.find k := rfl

theorem find_extract_self : (m.extract k).2.find k = none :=
  find_eq_none fun h => (mem_keys_extract.mp h).2 rfl

theorem find_insertOrAssign_self : (m.insertOrAssign k v).find k = some v := by
  unfold insertOrAssign
  split
  · obtain ⟨w, hw⟩ := Option.isSome_iff_exists.mp (find_isSome.mpr ‹_›)
    show (m.update k fun _ => v).find k = some v
    rw [find_update, hw]
    rfl
  · have hn : m.find k = none := find_eq_none ‹_›
    simp only [find, lookup, List.find?_append] at hn ⊢
    simp [Option.map_eq_none'.mp hn]

theorem find_update_of_ne (f : V → V) (hx : x ≠ k) : (m.update k f).find x = m.find x :=
  lookup_updateKey_of_ne f hx

theorem find_extract_of_ne (hx : x ≠ k) : (m.extract k).2.find x = m.find x :=
  lookup_eraseKey_of_ne hx

theorem find_insertOrAssign_of_ne (hx : x ≠ k) : (m.insertOrAssign k v).find x = m.find x := by
  unfold insertOrAssign
  split
  · exact lookup_updateKey_of_ne (fun _ => v) hx
  · simp [find, lookup_append_singleton, Ne.symm hx]

theorem find_tryEmplaceBack_of_ne (hx : x ≠ k) : (m.tryEmplaceBack k v).find x = m.find x := by
  unfold tryEmplaceBack
  split
  · rfl
  · simp [find, lookup_append_singleton, Ne.symm hx]

theorem find_tryEmplaceBack_self : (m.tryEmplaceBack k v).find k = some ((m.find k).getD v) := by
  unfold tryEmplaceBack
  split
  · obtain ⟨w, hw⟩ := Option.isSome_iff_exists.mp (find_isSome.mpr ‹_›)
    simp [hw]
  · simp [find, lookup_append_singleton, find_eq_none ‹_›, show lookup m.entries k = none from
      find_eq_none ‹_›]

theorem extract_update (f : V → V) : ((m.update k f).extract k).2 = (m.extract k).2 :=
  ListMap.ext (eraseKey_updateKey _ _ _)

omit [DecidableEq K] in
theorem all_empty : (empty : ListMap K V).All p := fun _ h => nomatch h

theorem All.insertOrAssign (h : m.All p) (hk : p k v) : (m.insertOrAssign k v).All p := by
  unfold ListMap.insertOrAssign
  split
  exacts [forall_updateKey h fun _ _ => hk, forall_append_singleton h hk]

theorem All.tryEmplaceBack (h : m.All p) (hk : p k v) : (m.tryEmplaceBack k v).All p := by
  unfold ListMap.tryEmplaceBack
  split
  exacts [h, forall_append_singleton h hk]

theorem All.update {f : V → V} (h : m.All p) (hf : ∀ v, p k v → p k (f v)) :
    (m.update k f).All p :=
  forall_updateKey h hf

theorem All.extract (h : m.All p) : (m.extract k).2.All p :=
  fun e he => h e (List.mem_of_mem_filter he)

theorem All.find (h : m.All p) (hv : m.find k = some v) : p k v :=
  h _ (mem_of_lookup hv)

omit [DecidableEq K] in
theorem All.mem_keys (h : m.All p) (hk : k ∈ m.keys) : ∃ v, p k v :=
  let ⟨e, he, hek⟩ := List.mem_map.mp hk
  ⟨e.2, hek ▸ h e he⟩

end ListMap

end Bluetooth.Common
