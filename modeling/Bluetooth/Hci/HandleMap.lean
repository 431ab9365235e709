import Mathlib.Data.List.Basic
import Mathlib.Data.List.Nodup
import Mathlib.Data.List.Pairwise

/-!
# The connection map of the scheduler

`std::map<uint16_t, acl_queue_handler>` is a list of entries in ascending handle order.
An iterator into it is a node of the map, the header node that `end()` returns, or the
null node of a default-constructed iterator; only a node may be advanced.
-/

namespace Bluetooth.Hci

/-- A `std::map` keyed by a 16-bit connection handle: its entries in ascending key order. -/
structure HandleMap (α : Type) where
  entries : List (UInt16 × α)
  sorted : (entries.map fun e => e.1.toNat).Pairwise (· < ·)

/-- A `std::map<uint16_t, ...>::iterator`. -/
inductive HandleIter
  | node (handle : UInt16)
  | header
  | null
  deriving DecidableEq, Repr

namespace HandleMap

variable {α : Type}

def empty : HandleMap α := ⟨[], List.Pairwise.nil⟩

def keys (m : HandleMap α) : List UInt16 := m.entries.map Prod.fst

def size (m : HandleMap α) : Nat := m.entries.length

def findIn (h : UInt16) : List (UInt16 × α) → Option α
  | [] => none
  | e :: es => if e.1 = h then some e.2 else findIn h es

/-- `find(handle)`, read through the iterator it returns. -/
def find (m : HandleMap α) (h : UInt16) : Option α := findIn h m.entries

/-- `begin()`. -/
def «begin» (m : HandleMap α) : HandleIter :=
  match m.entries with
  | [] => .header
  | e :: _ => .node e.1

/-- `std::next` of the node holding `h`: the first node with a larger handle. -/
def next (m : HandleMap α) (h : UInt16) : HandleIter :=
  match m.entries.find? fun e => h.toNat < e.1.toNat with
  | some e => .node e.1
  | none => .header

/-- `std::next(it)`; advancing `end()` or a null iterator is undefined. -/
def advance (m : HandleMap α) : HandleIter → Option HandleIter
  | .node h => some (m.next h)
  | _ => none

theorem advance_eq_some {m : HandleMap α} {i it : HandleIter} :
    m.advance i = some it ↔ ∃ h, i = .node h ∧ it = m.next h := by
  cases i <;> simp [advance, eq_comm]

theorem map_key_mapEntries (g : UInt16 → α → α) (es : List (UInt16 × α)) :
    (es.map fun e => (e.1, g e.1 e.2)).map (fun e => e.1.toNat) = es.map fun e => e.1.toNat := by
  simp [Function.comp_def]

/-- Rewrite every record in place (`it->second = ...` over all nodes); keys do not move. -/
def mapEntries (m : HandleMap α) (g : UInt16 → α → α) : HandleMap α :=
  ⟨m.entries.map fun e => (e.1, g e.1 e.2), by rw [map_key_mapEntries]; exact m.sorted⟩

/-- `find(h)->second = f(...)`: rewrite the record under `h`. -/
def modify (m : HandleMap α) (h : UInt16) (f : α → α) : HandleMap α :=
  m.mapEntries fun k v => if k = h then f v else v

/-- `erase(handle)`. -/
def erase (m : HandleMap α) (h : UInt16) : HandleMap α :=
  ⟨m.entries.filter (·.1 ≠ h), m.sorted.sublist ((List.filter_sublist _).map _)⟩

def insertSorted (h : UInt16) (v : α) : List (UInt16 × α) → List (UInt16 × α)
  | [] => [(h, v)]
  | e :: es => if h.toNat < e.1.toNat then (h, v) :: e :: es else e :: insertSorted h v es

theorem perm_insertSorted (h : UInt16) (v : α) :
    ∀ es : List (UInt16 × α), (insertSorted h v es).Perm ((h, v) :: es)
  | [] => .refl _
  | e :: es => by
    unfold insertSorted
    split
    · exact .refl _
    · exact ((perm_insertSorted h v es).cons e).trans (.swap _ _ _)

theorem sorted_insertSorted {h : UInt16} {v : α} :
    ∀ {es : List (UInt16 × α)}, (∀ e ∈ es, e.1 ≠ h) →
      (es.map fun e => e.1.toNat).Pairwise (· < ·) →
        ((insertSorted h v es).map fun e => e.1.toNat).Pairwise (· < ·)
  | [], _, _ => by simp [insertSorted]
  | e :: es, hne, hs => by
    obtain ⟨hhd, htl⟩ := List.pairwise_cons.mp hs
    unfold insertSorted
    split
    · rename_i hlt
      exact .cons (List.forall_mem_cons.mpr ⟨hlt, fun x hx => Nat.lt_trans hlt (hhd x hx)⟩) hs
    · have hlt : e.1.toNat < h.toNat := by
        have : e.1.toNat ≠ h.toNat := fun heq => hne e (by simp) (UInt16.toNat.inj heq)
        omega
      refine .cons (fun x hx => ?_) (sorted_insertSorted (fun e' he' => hne e' (by simp [he'])) htl)
      exact List.forall_mem_cons.mpr ⟨hlt, hhd⟩ x (((perm_insertSorted h v es).map _).subset hx)

theorem findIn_eq_none {h : UInt16} : ∀ {es : List (UInt16 × α)},
    findIn h es = none → ∀ e ∈ es, e.1 ≠ h
  | [], _ => by simp
  | e :: es, hf => by
    unfold findIn at hf
    split at hf
    · cases hf
    · exact List.forall_mem_cons.mpr ⟨‹_›, findIn_eq_none hf⟩

/-- `insert({handle, record})`: a no-op when `handle` is already present. -/
def insert (m : HandleMap α) (h : UInt16) (v : α) : HandleMap α :=
  match hf : m.find h with
  | some _ => m
  | none => ⟨insertSorted h v m.entries, sorted_insertSorted (findIn_eq_none hf) m.sorted⟩

theorem findIn_mem {h : UInt16} {v : α} : ∀ {es : List (UInt16 × α)},
    findIn h es = some v → (h, v) ∈ es
  | [], hf => by cases hf
  | e :: es, hf => by
    unfold findIn at hf
    split at hf
    · cases hf; rename_i he; subst he; exact List.mem_cons_self _ _
    · exact List.mem_cons_of_mem _ (findIn_mem hf)

theorem find_mem {m : HandleMap α} {h : UInt16} {v : α} (hf : m.find h = some v) :
    (h, v) ∈ m.entries :=
  findIn_mem hf

theorem mem_mapEntries {m : HandleMap α} {g : UInt16 → α → α} {e : UInt16 × α} :
    e ∈ (m.mapEntries g).entries ↔ ∃ e' ∈ m.entries, (e'.1, g e'.1 e'.2) = e :=
  List.mem_map

theorem findIn_map {β : Type} {h : UInt16} (g : UInt16 → α → β) :
    ∀ es : List (UInt16 × α), findIn h (es.map fun e => (e.1, g e.1 e.2)) = (findIn h es).map (g h)
  | [] => rfl
  | e :: es => by
    simp only [List.map_cons, findIn]
    split <;> rename_i he
    · rw [he]; rfl
    · exact findIn_map g es

theorem find_mapEntries (m : HandleMap α) (g : UInt16 → α → α) (h : UInt16) :
    (m.mapEntries g).find h = (m.find h).map (g h) :=
  findIn_map g m.entries

theorem find_modify (m : HandleMap α) (h : UInt16) (f : α → α) :
    (m.modify h f).find h = (m.find h).map f := by
  simp [modify, find_mapEntries]

theorem find_modify_of_ne (m : HandleMap α) {h x : UInt16} (f : α → α) (hx : x ≠ h) :
    (m.modify h f).find x = m.find x := by
  simp [modify, find_mapEntries, hx]

theorem project_mapEntries {β : Type} (m : HandleMap α) {g : UInt16 → α → α} {p : α → β}
    (hg : ∀ k v, p (g k v) = p v) :
    (m.mapEntries g).entries.map (fun e => (e.1, p e.2)) = m.entries.map fun e => (e.1, p e.2) := by
  simp only [mapEntries, List.map_map, Function.comp_def, hg]

theorem map_find_modify {β : Type} (m : HandleMap α) (h : UInt16) {f : α → α} {p : α → β}
    (hf : ∀ v, p (f v) = p v) (x : UInt16) : ((m.modify h f).find x).map p = (m.find x).map p := by
  simp only [modify, find_mapEntries, Option.map_map]
  congr 1
  funext v
  by_cases hx : x = h <;> simp [hx, hf]

@[simp] theorem keys_mapEntries (m : HandleMap α) (g : UInt16 → α → α) :
    (m.mapEntries g).keys = m.keys := by
  simp [keys, mapEntries, Function.comp_def]

@[simp] theorem keys_modify (m : HandleMap α) (h : UInt16) (f : α → α) :
    (m.modify h f).keys = m.keys :=
  keys_mapEntries _ _

@[simp] theorem size_modify (m : HandleMap α) (h : UInt16) (f : α → α) :
    (m.modify h f).size = m.size := by
  simp [size, modify, mapEntries]

theorem mem_erase {m : HandleMap α} {h : UInt16} {e : UInt16 × α} :
    e ∈ (m.erase h).entries ↔ e ∈ m.entries ∧ e.1 ≠ h := by
  simp [erase]

theorem insert_of_find_some {m : HandleMap α} {h : UInt16} {v r : α} (hf : m.find h = some r) :
    m.insert h v = m := by
  unfold insert; split <;> simp_all

theorem insert_entries_of_find_none {m : HandleMap α} {h : UInt16} {v : α}
    (hf : m.find h = none) : (m.insert h v).entries = insertSorted h v m.entries := by
  unfold insert; split <;> simp_all

theorem mem_insert {m : HandleMap α} {h : UInt16} {v : α} {e : UInt16 × α}
    (he : e ∈ (m.insert h v).entries) : e = (h, v) ∨ e ∈ m.entries := by
  cases hf : m.find h with
  | some r => rw [insert_of_find_some hf] at he; exact .inr he
  | none =>
    rw [insert_entries_of_find_none hf] at he
    exact List.mem_cons.mp ((perm_insertSorted h v _).subset he)

theorem mem_keys_insert {m : HandleMap α} {h k : UInt16} {v : α} (hk : k ∈ m.keys) :
    k ∈ (m.insert h v).keys := by
  obtain ⟨e, he, rfl⟩ := List.mem_map.mp hk
  refine List.mem_map_of_mem _ ?_
  cases hf : m.find h with
  | some r => rwa [insert_of_find_some hf]
  | none =>
    rw [insert_entries_of_find_none hf]
    exact (perm_insertSorted h v _).symm.subset (List.mem_cons_of_mem _ he)

/-! ## Iteration order -/

theorem keys_sorted (m : HandleMap α) : (m.keys.map UInt16.toNat).Pairwise (· < ·) := by
  simpa [keys, Function.comp_def] using m.sorted

theorem keys_nodup (m : HandleMap α) : m.keys.Nodup :=
  m.keys_sorted.of_map _ fun a _ h he => Nat.lt_irrefl a.toNat (by rwa [← he] at h)

theorem find_of_mem {m : HandleMap α} {e : UInt16 × α} (he : e ∈ m.entries) :
    m.find e.1 = some e.2 := by
  cases hf : m.find e.1 with
  | none => exact absurd rfl (findIn_eq_none hf e he)
  | some v => exact congrArg (fun e' => some e'.2) (List.inj_on_of_nodup_map m.keys_nodup (find_mem hf) he rfl)

theorem findIn_insertSorted_of_ne {h x : UInt16} (v : α) (hx : x ≠ h) :
    ∀ es : List (UInt16 × α), findIn x (insertSorted h v es) = findIn x es
  | [] => by simp [insertSorted, findIn, Ne.symm hx]
  | e :: es => by
    unfold insertSorted
    split
    · simp [findIn, Ne.symm hx]
    · simp only [findIn, findIn_insertSorted_of_ne v hx es]

theorem find_insert_of_ne {m : HandleMap α} {h x : UInt16} (v : α) (hx : x ≠ h) :
    (m.insert h v).find x = m.find x := by
  cases hf : m.find h with
  | some r => rw [insert_of_find_some hf]
  | none =>
    exact (congrArg (findIn x) (insert_entries_of_find_none hf)).trans (findIn_insertSorted_of_ne v hx _)

theorem find_insert_self {m : HandleMap α} {h : UInt16} (v : α) (hf : m.find h = none) :
    (m.insert h v).find h = some v :=
  find_of_mem (e := (h, v)) (by
    rw [insert_entries_of_find_none hf]
    exact (perm_insertSorted h v _).symm.subset (List.mem_cons_self _ _))

theorem size_eq (m : HandleMap α) : m.size = m.keys.length := by
  simp [size, keys]

theorem begin_eq (m : HandleMap α) : m.begin = match m.keys with
    | [] => .header
    | k :: _ => .node k := by
  unfold «begin» keys
  cases m.entries <;> rfl

theorem begin_of_keys {m : HandleMap α} {k : UInt16} {ks : List UInt16} (hk : m.keys = k :: ks) :
    m.begin = .node k := by
  rw [begin_eq, hk]

theorem next_ne_null (m : HandleMap α) (a : UInt16) : m.next a ≠ .null := by
  unfold next; split <;> nofun

theorem wrap_eq_node {m : HandleMap α} (hm : m.keys ≠ []) (a : UInt16) :
    ∃ b, (if m.next a = .header then m.begin else m.next a) = .node b := by
  cases hn : m.next a with
  | node b => exact ⟨b, if_neg nofun⟩
  | header =>
    obtain ⟨k, ks, hk⟩ := List.exists_cons_of_ne_nil hm
    exact ⟨k, by rw [if_pos rfl, begin_of_keys hk]⟩
  | null => exact absurd hn (m.next_ne_null a)

theorem mem_keys_insert_self (m : HandleMap α) (h : UInt16) (v : α) : h ∈ (m.insert h v).keys := by
  cases hf : m.find h with
  | some r => rw [insert_of_find_some hf]; exact List.mem_map_of_mem _ (find_mem hf)
  | none => exact List.mem_map_of_mem _ (find_mem (find_insert_self v hf))

theorem size_insert_of_keys_nil {m : HandleMap α} (hm : m.keys = []) (h : UInt16) (v : α) :
    (m.insert h v).size = 1 := by
  have he : m.entries = [] := List.map_eq_nil_iff.mp hm
  have hf : m.find h = none := by unfold find; rw [he]; rfl
  unfold size
  rw [insert_entries_of_find_none hf, he]
  rfl

theorem next_eq (m : HandleMap α) (a : UInt16) :
    m.next a = match m.keys.find? (fun k => a.toNat < k.toNat) with
      | some k => .node k
      | none => .header := by
  unfold next keys
  rw [List.find?_map]
  simp only [Function.comp_def]
  cases m.entries.find? (fun e => a.toNat < e.1.toNat) <;> rfl

theorem next_congr {m m' : HandleMap α} (hk : m'.keys = m.keys) (a : UInt16) :
    m'.next a = m.next a := by
  rw [next_eq, next_eq, hk]

theorem mem_keys_of_begin {m : HandleMap α} {b : UInt16} (hb : m.begin = .node b) : b ∈ m.keys := by
  rw [begin_eq] at hb
  split at hb
  · cases hb
  · rename_i hk
    cases hb
    rw [hk]
    exact List.mem_cons_self _ _

theorem mem_keys_of_next {m : HandleMap α} {a b : UInt16} (hb : m.next a = .node b) : b ∈ m.keys := by
  rw [next_eq] at hb
  split at hb
  · cases hb; exact List.mem_of_find?_eq_some ‹_›
  · cases hb

theorem find?_gt_of_sorted : ∀ {K : List UInt16}, (K.map UInt16.toNat).Pairwise (· < ·) →
    ∀ {i : Nat} (hi : i < K.length), K.find? (fun k => K[i].toNat < k.toNat) = K[i + 1]?
  | [], _, _, hi => absurd hi (by simp)
  | k :: K, hs, 0, _ => by
    obtain ⟨hk, -⟩ := List.pairwise_cons.mp hs
    cases K with
    | nil => simp
    | cons k' K => simp [List.find?_cons, hk k'.toNat (by simp)]
  | k :: K, hs, i + 1, hi => by
    obtain ⟨hk, hK⟩ := List.pairwise_cons.mp hs
    have hi' : i < K.length := by simpa using hi
    have hlt : k.toNat < K[i].toNat := hk _ (List.mem_map_of_mem _ (List.getElem_mem hi'))
    simp only [List.getElem_cons_succ, List.getElem?_cons_succ]
    rw [List.find?_cons_of_neg _ (by simp; omega)]
    exact find?_gt_of_sorted hK hi'

theorem next_getElem (m : HandleMap α) {i : Nat} (hi : i < m.keys.length) :
    m.next m.keys[i] = if h : i + 1 < m.keys.length then .node m.keys[i + 1] else .header := by
  rw [next_eq, find?_gt_of_sorted m.keys_sorted hi]
  split_ifs with h
  · rw [List.getElem?_eq_getElem h]
  · rw [List.getElem?_eq_none (by omega)]

end HandleMap

end Bluetooth.Hci
