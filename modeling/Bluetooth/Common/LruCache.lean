import Bluetooth.Common.ListMap

/-!
# The LRU cache

`common::LruCache` is not part of the sources either. It is modelled as `ConfigCache` relies
on it: at most `capacity` entries, each key once, ordered from the most recently used to the
least; finding a key moves it to the front, and inserting a new key into a full cache evicts
the entry at the back. The capacity is positive, as the cache's constructor asserts.
-/

namespace Bluetooth.Common

variable {K V : Type} [DecidableEq K]

theorem length_eraseKey_lt {l : List (K × V)} {k : K} (h : k ∈ l.map Prod.fst) :
    (eraseKey l k).length < l.length := by
  obtain ⟨e, he, rfl⟩ := List.mem_map.mp h
  exact List.length_filter_lt_length_iff_exists.mpr ⟨e, he, by simp⟩

theorem nodup_cons_eraseKey {l : List (K × V)} (h : (l.map Prod.fst).Nodup) (k : K) (v : V) :
    (((k, v) :: eraseKey l k).map Prod.fst).Nodup :=
  List.nodup_cons.mpr ⟨fun h' => (mem_keys_eraseKey.mp h').2 rfl, nodup_eraseKey h k⟩

theorem lookup_dropLast {l : List (K × V)} (h : (l.map Prod.fst).Nodup) (x : K) :
    lookup l.dropLast x = if (l.map Prod.fst).getLast? = some x then none else lookup l x := by
  rcases List.eq_nil_or_concat l with rfl | ⟨l, e, rfl⟩
  · rfl
  · simp only [List.concat_eq_append, List.dropLast_concat, List.map_append, List.map_cons,
      List.map_nil, List.getLast?_concat, Option.some.injEq, lookup_append_singleton] at h ⊢
    split_ifs with hx
    · subst hx
      have hn : e.1 ∉ l.map Prod.fst := List.disjoint_singleton.mp (List.nodup_append.mp h).2.2
      exact Option.not_isSome_iff_eq_none.mp (mt lookup_isSome.mp hn)
    · simp

/-- `common::LruCache` as `ConfigCache` uses it: entries from the most recently used to the
least, at most `capacity` of them, each key once. -/
structure LruCache (K V : Type) where
  capacity : Nat
  entries : List (K × V)
  capacity_pos : 0 < capacity
  nodup : (entries.map Prod.fst).Nodup
  size_le : entries.length ≤ capacity

namespace LruCache

def new (capacity : Nat) (h : 0 < capacity) : LruCache K V :=
  ⟨capacity, [], h, List.nodup_nil, Nat.zero_le _⟩

def keys (c : LruCache K V) : List K := c.entries.map Prod.fst

/-- The value under `k`, read without touching the order. -/
def find (c : LruCache K V) (k : K) : Option V := lookup c.entries k

/-- The reordering done by `find`: the entry of `k`, if any, becomes the most recent. -/
def touch (c : LruCache K V) (k : K) : LruCache K V :=
  match h : lookup c.entries k with
  | some v =>
    have hk : k ∈ c.keys := (lookup_isSome (k := k)).mp (by simp [h])
    ⟨c.capacity, (k, v) :: eraseKey c.entries k, c.capacity_pos, nodup_cons_eraseKey c.nodup k v,
      Nat.succ_le_of_lt (lt_of_lt_of_le (length_eraseKey_lt hk) c.size_le)⟩
  | none => c

/-- Drops the least recently used entry when the list is over capacity. -/
def evict (capacity : Nat) (l : List (K × V)) : List (K × V) :=
  if capacity < l.length then l.dropLast else l

omit [DecidableEq K] in
theorem evict_sublist (capacity : Nat) (l : List (K × V)) : List.Sublist (evict capacity l) l := by
  unfold evict
  split
  exacts [List.dropLast_sublist l, List.Sublist.refl l]

omit [DecidableEq K] in
theorem length_evict_le {capacity : Nat} {l : List (K × V)} (h : l.length ≤ capacity + 1) :
    (evict capacity l).length ≤ capacity := by
  unfold evict
  split
  · rw [List.length_dropLast]; omega
  · omega

/-- The least recently used key of a full cache: the one that inserting a new key evicts. -/
def victim (c : LruCache K V) : Option K :=
  if c.entries.length = c.capacity then (c.entries.map Prod.fst).getLast? else none

/-- Inserts the absent key `k` as the most recent entry, evicting at capacity. -/
def pushFront (c : LruCache K V) (k : K) (v : V) (h : k ∉ c.keys) : LruCache K V :=
  ⟨c.capacity, evict c.capacity ((k, v) :: c.entries), c.capacity_pos,
    (List.nodup_cons.mpr ⟨h, c.nodup⟩).sublist ((evict_sublist _ _).map _),
    length_evict_le (by simpa using c.size_le)⟩

/-- `try_emplace`: a present key is only found; an absent one is inserted. -/
def tryEmplace (c : LruCache K V) (k : K) (v : V) : LruCache K V :=
  if h : k ∈ c.keys then c.touch k else c.pushFront k v h

/-- Writing through the iterator of `k`, which does not touch the order. -/
def update (c : LruCache K V) (k : K) (f : V → V) : LruCache K V :=
  ⟨c.capacity, updateKey c.entries k f, c.capacity_pos, by simpa using c.nodup,
    by simpa [updateKey] using c.size_le⟩

/-- `insert_or_assign`: a present key is found and assigned; an absent one is inserted. -/
def insertOrAssign (c : LruCache K V) (k : K) (v : V) : LruCache K V :=
  if h : k ∈ c.keys then (c.touch k).update k fun _ => v else c.pushFront k v h

/-- `extract`: the value under `k`, and the cache without it. -/
def extract (c : LruCache K V) (k : K) : Option V × LruCache K V :=
  (c.find k, ⟨c.capacity, eraseKey c.entries k, c.capacity_pos, nodup_eraseKey c.nodup k,
    le_trans (List.length_filter_le _ _) c.size_le⟩)

def All (p : K → V → Prop) (c : LruCache K V) : Prop := ∀ e ∈ c.entries, p e.1 e.2

variable {c : LruCache K V} {k x : K} {v : V} {p : K → V → Prop}

omit [DecidableEq K] in
@[simp] theorem keys_new (capacity : Nat) (h : 0 < capacity) :
    (new capacity h : LruCache K V).keys = [] := rfl

omit [DecidableEq K] in
theorem all_new (capacity : Nat) (h : 0 < capacity) : (new capacity h : LruCache K V).All p :=
  fun _ h => nomatch h

theorem mem_touch {e : K × V} : e ∈ (c.touch k).entries ↔ e ∈ c.entries := by
  unfold touch
  split
  · rename_i v hv
    have hkv := mem_of_lookup hv
    simp only [List.mem_cons, eraseKey, List.mem_filter, decide_eq_true_eq]
    constructor
    · rintro (rfl | ⟨he, -⟩)
      exacts [hkv, he]
    · intro he
      by_cases hk : e.1 = k
      · exact .inl (List.inj_on_of_nodup_map c.nodup he hkv hk)
      · exact .inr ⟨he, hk⟩
  · rfl

theorem mem_keys_touch : x ∈ (c.touch k).keys ↔ x ∈ c.keys := by
  simp only [keys, List.mem_map, mem_touch]

omit [DecidableEq K] in
theorem mem_pushFront {h : k ∉ c.keys} {e : K × V} (he : e ∈ (c.pushFront k v h).entries) :
    e = (k, v) ∨ e ∈ c.entries :=
  List.mem_cons.mp ((evict_sublist _ _).subset he)

omit [DecidableEq K] in
theorem pushFront_entries {h : k ∉ c.keys} :
    ∃ rest, (c.pushFront k v h).entries = (k, v) :: rest := by
  show ∃ rest, evict c.capacity ((k, v) :: c.entries) = (k, v) :: rest
  unfold evict
  split
  · rename_i hlt
    have hne : c.entries ≠ [] := fun he => by
      simp only [he, List.length_singleton] at hlt
      exact absurd c.capacity_pos (by omega)
    exact ⟨_, List.dropLast_cons_of_ne_nil hne⟩
  · exact ⟨_, rfl⟩

omit [DecidableEq K] in
theorem mem_keys_pushFront {h : k ∉ c.keys} (hx : x ∈ (c.pushFront k v h).keys) :
    x ∈ c.keys ∨ x = k := by
  obtain ⟨e, he, rfl⟩ := List.mem_map.mp hx
  rcases mem_pushFront he with rfl | he
  exacts [.inr rfl, .inl (List.mem_map_of_mem _ he)]

theorem mem_keys_tryEmplace (hx : x ∈ (c.tryEmplace k v).keys) : x ∈ c.keys ∨ x = k := by
  unfold tryEmplace at hx
  split at hx
  exacts [.inl (mem_keys_touch.mp hx), mem_keys_pushFront hx]

@[simp] theorem keys_update (f : V → V) : (c.update k f).keys = c.keys :=
  keys_updateKey _ _ _

theorem mem_keys_insertOrAssign (hx : x ∈ (c.insertOrAssign k v).keys) : x ∈ c.keys ∨ x = k := by
  unfold insertOrAssign at hx
  split at hx
  exacts [.inl (mem_keys_touch.mp (keys_update (c := c.touch k) _ ▸ hx)), mem_keys_pushFront hx]

@[simp] theorem mem_keys_extract : x ∈ (c.extract k).2.keys ↔ x ∈ c.keys ∧ x ≠ k :=
  mem_keys_eraseKey

theorem find_isSome : (c.find k).isSome ↔ k ∈ c.keys := lookup_isSome

theorem find_update (f : V → V) : (c.update k f).find k = (c.find k).map f :=
  lookup_updateKey _ _ _

theorem find_eq_none (h : k ∉ c.keys) : c.find k = none :=
  Option.not_isSome_iff_eq_none.mp (mt find_isSome.mp h)

theorem mem_keys_of_find (h : c.find k = some v) : k ∈ c.keys :=
  find_isSome.mp (Option.isSome_iff_exists.mpr ⟨v, h⟩)

@[simp] theorem extract_fst : (c.extract k).1 = c.find k := rfl

theorem find_touch : (c.touch k).find x = c.find x :=
  lookup_congr (c.touch k).nodup c.nodup (fun _ => mem_touch) x

theorem find_update_of_ne (f : V → V) (hx : x ≠ k) : (c.update k f).find x = c.find x :=
  lookup_updateKey_of_ne f hx

theorem find_extract_of_ne (hx : x ≠ k) : (c.extract k).2.find x = c.find x :=
  lookup_eraseKey_of_ne hx

omit [DecidableEq K] in
theorem mem_keys_of_victim (h : c.victim = some x) : x ∈ c.keys := by
  unfold victim at h
  split at h
  exacts [List.mem_of_mem_getLast? h, nomatch h]

theorem find_pushFront_of_ne {h : k ∉ c.keys} (hx : x ≠ k) :
    (c.pushFront k v h).find x = if c.victim = some x then none else c.find x := by
  show lookup (evict c.capacity ((k, v) :: c.entries)) x = _
  have hkx : k ≠ x := Ne.symm hx
  unfold evict victim
  by_cases hfull : c.entries.length = c.capacity
  · have hne : c.entries ≠ [] := fun he => by
      have := c.capacity_pos
      simp only [he, List.length_nil] at hfull
      omega
    rw [if_pos (by simp; omega), List.dropLast_cons_of_ne_nil hne, lookup_cons, if_neg hkx,
      lookup_dropLast c.nodup, if_pos hfull]
    rfl
  · have := c.size_le
    rw [if_neg (by simp; omega), lookup_cons, if_neg hkx, if_neg hfull]
    simp [find]

theorem find_pushFront_or {h : k ∉ c.keys} (hx : x ≠ k) :
    (c.pushFront k v h).find x = c.find x ∨ (c.victim = some x ∧ (c.pushFront k v h).find x = none) := by
  rw [find_pushFront_of_ne hx]
  split
  exacts [.inr ⟨‹_›, rfl⟩, .inl rfl]

theorem find_tryEmplace_of_ne (hx : x ≠ k) :
    (c.tryEmplace k v).find x = c.find x ∨
      (k ∉ c.keys ∧ c.victim = some x ∧ (c.tryEmplace k v).find x = none) := by
  unfold tryEmplace
  split
  · exact .inl find_touch
  · exact (find_pushFront_or hx).imp_right (⟨‹_›, ·⟩)

theorem find_insertOrAssign_of_ne (hx : x ≠ k) :
    (c.insertOrAssign k v).find x = c.find x ∨
      (k ∉ c.keys ∧ c.victim = some x ∧ (c.insertOrAssign k v).find x = none) := by
  unfold insertOrAssign
  split
  · exact .inl ((find_update_of_ne _ hx).trans find_touch)
  · exact (find_pushFront_or hx).imp_right (⟨‹_›, ·⟩)

theorem find_tryEmplace_self : (c.tryEmplace k v).find k = some ((c.find k).getD v) := by
  unfold tryEmplace
  split
  · obtain ⟨w, hw⟩ := Option.isSome_iff_exists.mp (find_isSome.mpr ‹_›)
    rw [find_touch, hw]
    rfl
  · rename_i hk
    obtain ⟨rest, he⟩ := pushFront_entries (c := c) (k := k) (v := v) (h := hk)
    rw [find_eq_none (c := c) hk]
    simp [find, lookup, he]

theorem find_insertOrAssign_self : (c.insertOrAssign k v).find k = some v := by
  unfold insertOrAssign
  split
  · obtain ⟨w, hw⟩ := Option.isSome_iff_exists.mp (find_isSome.mpr ‹_›)
    rw [find_update, find_touch, hw]
    rfl
  · obtain ⟨rest, he⟩ := pushFront_entries (c := c) (k := k) (v := v) (h := ‹_›)
    simp [find, lookup, he]

theorem All.touch (h : c.All p) : (c.touch k).All p := fun e he => h e (mem_touch.mp he)

omit [DecidableEq K] in
theorem All.pushFront {h : k ∉ c.keys} (hc : c.All p) (hk : p k v) : (c.pushFront k v h).All p := by
  intro e he
  rcases mem_pushFront he with rfl | he
  exacts [hk, hc e he]

theorem All.tryEmplace (h : c.All p) (hk : p k v) : (c.tryEmplace k v).All p := by
  unfold LruCache.tryEmplace
  split
  exacts [h.touch, h.pushFront hk]

theorem All.update {f : V → V} (h : c.All p) (hf : ∀ v, p k v → p k (f v)) :
    (c.update k f).All p :=
  forall_updateKey h hf

theorem All.insertOrAssign (h : c.All p) (hk : p k v) : (c.insertOrAssign k v).All p := by
  unfold LruCache.insertOrAssign
  split
  exacts [h.touch.update fun _ _ => hk, h.pushFront hk]

theorem All.extract (h : c.All p) : (c.extract k).2.All p :=
  fun e he => h e (List.mem_of_mem_filter he)

theorem All.find (h : c.All p) (hv : c.find k = some v) : p k v :=
  h _ (mem_of_lookup hv)

omit [DecidableEq K] in
theorem All.mem_keys (h : c.All p) (hk : k ∈ c.keys) : ∃ v, p k v :=
  let ⟨e, he, hek⟩ := List.mem_map.mp hk
  ⟨e.2, hek ▸ h e he⟩

end LruCache

end Bluetooth.Common
