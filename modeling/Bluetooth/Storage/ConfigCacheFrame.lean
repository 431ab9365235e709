import Bluetooth.Storage.ConfigCacheInvariants

/-!
# Read after write, and what else a write changes

In a partitioned cache each section lives in one map, so `GetProperty` reads the cache as a
single map from section names to properties (`findSection`). `SetProperty`, `RemoveProperty`
and `RemoveSection` change that map at their own section only, except that a section
inserted into the full LRU cache evicts the least recently used one.
-/

namespace Bluetooth.Storage

open Common

namespace ConfigCache

variable {isValidAddress : String → Bool} {c : ConfigCache} {x : String}

/-- The properties of a section, from the first of the three maps that holds it. -/
def findSection (c : ConfigCache) (s : String) : Option (ListMap String String) :=
  c.informationSections.find s <|> c.persistentDevices.find s <|> c.temporaryDevices.find s

/-- `c'` holds section `x` as `c` does, unless the write inserted a new section into the LRU
cache (`inserts`) and `x` is the section that the full LRU cache of `c` evicted. -/
def KeepsSection (inserts : Prop) (c c' : ConfigCache) (x : String) : Prop :=
  c'.findSection x = c.findSection x ∨
    (inserts ∧ c.temporaryDevices.victim = some x ∧ c'.findSection x = none)

theorem hasProperty_eq_findSection (c : ConfigCache) (s p : String) :
    c.hasProperty s p = ((c.findSection s).bind (·.find p)).isSome := by
  unfold hasProperty findSection
  cases c.informationSections.find s <;> cases c.persistentDevices.find s <;>
    cases c.temporaryDevices.find s <;> rfl

namespace Partition

theorem getProperty_eq (h : Partition isValidAddress c) (s p : String) :
    c.getProperty s p = (c.findSection s).bind (·.find p) := by
  unfold getProperty findSection
  cases hi : c.informationSections.find s with
  | some props =>
    have hv := h.information_invalid (ListMap.mem_keys_of_find hi)
    simp [(h.find_devices_eq_none hv).1, (h.find_devices_eq_none hv).2]
  | none =>
    cases hp : c.persistentDevices.find s with
    | some props => simp [LruCache.find_eq_none (h.disjoint s (ListMap.mem_keys_of_find hp))]
    | none => simp

theorem hasProperty_eq (h : Partition isValidAddress c) (s p : String) :
    c.hasProperty s p = (c.getProperty s p).isSome := by
  rw [hasProperty_eq_findSection, h.getProperty_eq]

theorem hasSection_eq_false (h : Partition isValidAddress c) {s : String}
    (hv : isValidAddress s = true) (hp : s ∉ c.persistentDevices.keys)
    (ht : s ∉ c.temporaryDevices.keys) : c.hasSection s = false := by
  simp only [hasSection, Bool.or_eq_false_iff, decide_eq_false_iff_not]
  exact ⟨⟨fun hi => by simpa [hv] using h.information_invalid hi, hp⟩, ht⟩

theorem keepsSection (h : Partition isValidAddress c) {c' : ConfigCache} {inserts : Prop}
    (hi : c'.informationSections.find x = c.informationSections.find x)
    (hp : c'.persistentDevices.find x = c.persistentDevices.find x)
    (ht : c'.temporaryDevices.find x = c.temporaryDevices.find x ∨
      (inserts ∧ c.temporaryDevices.victim = some x ∧ c'.temporaryDevices.find x = none)) :
    KeepsSection inserts c c' x := by
  rcases ht with ht | ⟨hin, hx, ht⟩
  · exact .inl (by simp only [findSection, hi, hp, ht])
  · -- the victim is a temporary device, so no other map holds it
    have hxt := LruCache.mem_keys_of_victim hx
    refine .inr ⟨hin, hx, ?_⟩
    simp only [findSection, hi, hp, ht, h.find_information_eq_none (h.temporary_valid hxt),
      ListMap.find_eq_none fun hxp => h.disjoint x hxp hxt]
    rfl

theorem findSection_storeProperty (h : Partition isValidAddress c) (s p v : String) :
    (c.storeProperty isValidAddress s p v).findSection s =
      some (((c.findSection s).getD .empty).insertOrAssign p v) := by
  rcases storeProperty_cases c s p v with ⟨hv, he⟩ | ⟨hv, hs, he⟩ | ⟨hv, hs, -, he⟩ |
    ⟨hv, hs, -, he⟩ <;> rw [he] <;> unfold findSection
  · simp [ListMap.find_update, ListMap.find_tryEmplaceBack_self, h.find_devices_eq_none hv]
  · obtain ⟨w, hw⟩ := Option.isSome_iff_exists.mp (ListMap.find_isSome.mpr hs)
    simp [h.find_information_eq_none hv, ListMap.find_update, hw]
  · simp [h.find_information_eq_none hv, ListMap.find_eq_none hs, find_temporaryWith_self,
      ListMap.find_insertOrAssign_self]
  · simp [h.find_information_eq_none hv, ListMap.find_eq_none hs, find_temporaryWith_self]

theorem getProperty_storeProperty_of_ne (h : Partition isValidAddress c) {s p p' : String}
    (v : String) (hp' : p' ≠ p) :
    (c.storeProperty isValidAddress s p v).getProperty s p' = c.getProperty s p' := by
  rw [(h.storeProperty s p v).getProperty_eq, h.getProperty_eq, h.findSection_storeProperty]
  cases c.findSection s <;> simp [ListMap.find_insertOrAssign_of_ne hp']

theorem find_temporaryWith_or_evicts (h : Partition isValidAddress c) {s p v : String}
    (hv : isValidAddress s = true) (hs : s ∉ c.persistentDevices.keys) (hx : x ≠ s) :
    (c.temporaryWith s p v).find x = c.temporaryDevices.find x ∨
      ((isValidAddress s = true ∧ c.hasSection s = false) ∧
        c.temporaryDevices.victim = some x ∧ (c.temporaryWith s p v).find x = none) :=
  (find_temporaryWith_of_ne c hx).imp_right fun ⟨ht, hvx, hf⟩ =>
    ⟨⟨hv, h.hasSection_eq_false hv hs ht⟩, hvx, hf⟩

theorem keepsSection_storeProperty (h : Partition isValidAddress c) {s p v : String}
    (hx : x ≠ s) :
    KeepsSection (isValidAddress s = true ∧ c.hasSection s = false) c
      (c.storeProperty isValidAddress s p v) x := by
  rcases storeProperty_cases c s p v with ⟨-, he⟩ | ⟨-, -, he⟩ | ⟨hv, hs, -, he⟩ |
    ⟨hv, hs, -, he⟩ <;> rw [he]
  · exact h.keepsSection ((ListMap.find_update_of_ne _ hx).trans
      (ListMap.find_tryEmplaceBack_of_ne hx)) rfl (.inl rfl)
  · exact h.keepsSection rfl (ListMap.find_update_of_ne _ hx) (.inl rfl)
  · -- the section moves on to the persistent map
    refine h.keepsSection rfl (ListMap.find_insertOrAssign_of_ne hx) ?_
    simpa only [LruCache.find_extract_of_ne hx] using h.find_temporaryWith_or_evicts hv hs hx
  · exact h.keepsSection rfl rfl (h.find_temporaryWith_or_evicts hv hs hx)

theorem findSection_removeProperty (h : Partition isValidAddress c) (s p : String) :
    (c.removeProperty s p).1.findSection s =
      (c.findSection s).map fun props => (props.extract p).2 := by
  rcases removeProperty_cases c s p with ⟨hi, hp, ht, he⟩ | ⟨props, hi, he⟩ |
    ⟨props, hp, -, he⟩ | ⟨props, hp, he⟩ | ⟨props, ht, he⟩ <;> rw [he] <;> unfold findSection
  · simp [hi, hp, ht]
  · have hv := h.information_invalid (ListMap.mem_keys_of_find hi)
    simp [ListMap.find_update, hi, h.find_devices_eq_none hv]
  · have hs := ListMap.mem_keys_of_find hp
    simp [h.find_information_eq_none (h.persistent_valid hs), ListMap.find_update, hp,
      LruCache.find_eq_none (h.disjoint s hs)]
  · -- the section moves on to the LRU cache
    have hs := ListMap.mem_keys_of_find hp
    simp [h.find_information_eq_none (h.persistent_valid hs), ListMap.find_extract_self,
      LruCache.find_insertOrAssign_self, hp]
  · have hs := LruCache.mem_keys_of_find ht
    simp [h.find_information_eq_none (h.temporary_valid hs),
      ListMap.find_eq_none fun hp => h.disjoint s hp hs, LruCache.find_update,
      LruCache.find_touch, ht]

theorem getProperty_removeProperty_of_ne (h : Partition isValidAddress c) {s p p' : String}
    (hp' : p' ≠ p) : (c.removeProperty s p).1.getProperty s p' = c.getProperty s p' := by
  rw [(h.removeProperty s p).getProperty_eq, h.getProperty_eq, h.findSection_removeProperty]
  cases c.findSection s <;> simp [ListMap.find_extract_of_ne hp']

theorem keepsSection_removeProperty (h : Partition isValidAddress c) {s p : String}
    (hx : x ≠ s) :
    KeepsSection (s ∈ c.getPersistentDevices ∧ s ∉ (c.removeProperty s p).1.getPersistentDevices)
      c (c.removeProperty s p).1 x := by
  rcases removeProperty_cases c s p with ⟨-, -, -, he⟩ | ⟨_, -, he⟩ | ⟨_, -, -, he⟩ |
    ⟨_, hp, he⟩ | ⟨_, -, he⟩ <;> rw [he]
  · exact .inl rfl
  · exact h.keepsSection (ListMap.find_update_of_ne _ hx) rfl (.inl rfl)
  · exact h.keepsSection rfl (ListMap.find_update_of_ne _ hx) (.inl rfl)
  · -- the section leaves the persistent map for the LRU cache
    have hunpaired : s ∉ (c.persistentDevices.extract s).2.keys :=
      fun hs => (ListMap.mem_keys_extract.mp hs).2 rfl
    exact h.keepsSection rfl (ListMap.find_extract_of_ne hx)
      ((LruCache.find_insertOrAssign_of_ne hx).imp_right fun ⟨_, hvx, hf⟩ =>
        ⟨⟨ListMap.mem_keys_of_find hp, hunpaired⟩, hvx, hf⟩)
  · exact h.keepsSection rfl rfl (.inl ((LruCache.find_update_of_ne _ hx).trans LruCache.find_touch))

end Partition

theorem findSection_removeSection_of_ne (s : String) (hx : x ≠ s) :
    (c.removeSection s).1.findSection x = c.findSection x := by
  rcases removeSection_cases c s with ⟨-, -, -, he⟩ | ⟨-, he⟩ | ⟨-, he⟩ | ⟨-, he⟩ <;> rw [he]
    <;> simp [findSection, ListMap.find_extract_of_ne hx, LruCache.find_extract_of_ne hx]

theorem KeepsSection.getProperty {c' : ConfigCache} {inserts : Prop}
    (hk : KeepsSection inserts c c' x) (h : Partition isValidAddress c)
    (h' : Partition isValidAddress c') (p : String) :
    c'.getProperty x p = c.getProperty x p ∨
      (inserts ∧ c.temporaryDevices.victim = some x ∧ c'.getProperty x p = none) := by
  rw [h.getProperty_eq, h'.getProperty_eq]
  rcases hk with hk | ⟨hin, hx, hk⟩
  · exact .inl (by rw [hk])
  · exact .inr ⟨hin, hx, by rw [hk]; rfl⟩

theorem getProperty_frame (h : Partition isValidAddress c) {c' : ConfigCache}
    (h' : Partition isValidAddress c') {s p : String} {inserts : Prop}
    (hkeep : ∀ x, x ≠ s → KeepsSection inserts c c' x)
    (hself : ∀ p', p' ≠ p → c'.getProperty s p' = c.getProperty s p') (s' p' : String)
    (hne : (s', p') ≠ (s, p)) :
    c'.getProperty s' p' = c.getProperty s' p' ∨
      (s' ≠ s ∧ inserts ∧ c.temporaryDevices.victim = some s' ∧ c'.getProperty s' p' = none) := by
  by_cases hs' : s' = s
  · subst hs'
    exact .inl (hself p' fun hpp => hne (hpp ▸ rfl))
  · exact ((hkeep s' hs').getProperty h h' p').imp_right fun hx => ⟨hs', hx⟩

/-! ## Read after write -/

variable (isValidAddress) in
/-- What `GetProperty` and `HasSection` read after a write to section `s` of `c`: the write
itself, and every other property as before, except those of the section that a full LRU cache
evicts when the write inserts a new section into it: a `SetProperty` that creates a device
section, or a `RemoveProperty` that unpairs the device. -/
structure ReadAfterWrite (c : ConfigCache) (s p v : String) : Prop where
  getProperty_setProperty : (c.setProperty isValidAddress s p v).getProperty s p = some v
  getProperty_removeProperty : (c.removeProperty s p).1.getProperty s p = none
  hasSection_removeSection : (c.removeSection s).1.hasSection s = false
  setProperty_frame : ∀ s' p', (s', p') ≠ (s, p) →
    (c.setProperty isValidAddress s p v).getProperty s' p' = c.getProperty s' p' ∨
      (s' ≠ s ∧ (isValidAddress s = true ∧ c.hasSection s = false) ∧
        c.temporaryDevices.victim = some s' ∧
        (c.setProperty isValidAddress s p v).getProperty s' p' = none)
  removeProperty_frame : ∀ s' p', (s', p') ≠ (s, p) →
    (c.removeProperty s p).1.getProperty s' p' = c.getProperty s' p' ∨
      (s' ≠ s ∧ (s ∈ c.getPersistentDevices ∧ s ∉ (c.removeProperty s p).1.getPersistentDevices) ∧
        c.temporaryDevices.victim = some s' ∧
        (c.removeProperty s p).1.getProperty s' p' = none)
  removeSection_frame : ∀ s' p', s' ≠ s →
    (c.removeSection s).1.getProperty s' p' = c.getProperty s' p'

/-- In every cache reached from an empty one, with newline-free arguments, `GetProperty` reads
back what `SetProperty` wrote and nothing after `RemoveProperty`, `HasSection` is false after
`RemoveSection`, and each of them leaves every other property as it was, also the other
properties of a section that moves between the persistent map and the LRU cache, except the
properties of the section that the full LRU cache evicts, which only a `SetProperty` creating a
device section or a `RemoveProperty` unpairing one can do. -/
theorem readAfterWrite_of_reachable (hr : Reachable isValidAddress c) {s p v : String}
    (hs : NoNewline s) (hp : NoNewline p) (hv : NoNewline v) :
    ReadAfterWrite isValidAddress c s p v := by
  have h := hr.partition
  have hset := setProperty_of_noNewline (c := c) isValidAddress hs hp hv
  exact ⟨hset ▸ h.getProperty_storeProperty s p v, h.getProperty_removeProperty s p,
    h.hasSection_removeSection s,
    hset ▸ getProperty_frame h (h.storeProperty s p v) (fun _ => h.keepsSection_storeProperty)
      fun _ => h.getProperty_storeProperty_of_ne v,
    getProperty_frame h (h.removeProperty s p) (fun _ => h.keepsSection_removeProperty)
      fun _ => h.getProperty_removeProperty_of_ne,
    fun s' p' hne => by
      rw [(h.removeSection s).getProperty_eq, h.getProperty_eq, findSection_removeSection_of_ne s hne]⟩

theorem readAfterWrite_of_reachable_pairedCache :
    Reachable (fun s => s.length == 17) pairedCache ∧ NoNewline "AA:BB:CC:DD:EE:FF" ∧
      NoNewline "Name" ∧ NoNewline "Phone" ∧
      ReadAfterWrite (fun s => s.length == 17) pairedCache "AA:BB:CC:DD:EE:FF" "Name" "Phone" :=
  have hr : Reachable (fun s => s.length == 17) pairedCache := .apply _ (.new 1 Nat.one_pos)
  ⟨hr, by decide, by decide, by decide, readAfterWrite_of_reachable hr (by decide) (by decide)
    (by decide)⟩

/-! ## Paired devices under writes -/

theorem getPersistentDevices_storeProperty (c : ConfigCache) (s p v : String) :
    (c.storeProperty isValidAddress s p v).getPersistentDevices =
      if isValidAddress s = true ∧ s ∉ c.getPersistentDevices ∧ isLinkKeyProperty p = true then
        c.getPersistentDevices ++ [s]
      else c.getPersistentDevices := by
  rcases storeProperty_cases c s p v with ⟨hv, he⟩ | ⟨-, hs, he⟩ | ⟨hv, hs, hl, he⟩ |
    ⟨-, -, hl, he⟩ <;> rw [he] <;> unfold getPersistentDevices
  · simp [hv]
  · simp [hs]
  · simp [ListMap.keys_insertOrAssign_of_not_mem hs, hv, hs, hl]
  · simp [hl]

theorem Partition.getProperty_storeProperty_of_paired (h : Partition isValidAddress c)
    {s p v x q : String} (hx : x ∈ c.getPersistentDevices) (hne : (x, q) ≠ (s, p)) :
    (c.storeProperty isValidAddress s p v).getProperty x q = c.getProperty x q := by
  by_cases hxs : x = s
  · subst hxs
    exact h.getProperty_storeProperty_of_ne v fun hq => hne (hq ▸ rfl)
  · rcases (h.keepsSection_storeProperty hxs).getProperty h (h.storeProperty s p v) q with
      he | ⟨-, hv, -⟩
    · exact he
    · exact absurd (LruCache.mem_keys_of_victim hv) (h.disjoint x hx)

/-- In every cache reached from an empty one, `SetProperty` never unpairs a device, however
full the LRU cache is: `GetPersistentDevices` afterwards lists the devices it listed before,
in the same order, followed by the written section when the write pairs it (a device section
not yet paired, written with a link key); and every property of a device listed before reads
as before, except the one written. -/
theorem setProperty_keeps_paired (hr : Reachable isValidAddress c) (s p v : String) :
    let arguments := trimArguments s p v
    (c.setProperty isValidAddress s p v).getPersistentDevices =
      (if isValidAddress arguments.1 = true ∧ arguments.1 ∉ c.getPersistentDevices ∧
          isLinkKeyProperty arguments.2.1 = true then c.getPersistentDevices ++ [arguments.1]
        else c.getPersistentDevices) ∧
    ∀ x ∈ c.getPersistentDevices, ∀ q, (x, q) ≠ (arguments.1, arguments.2.1) →
      (c.setProperty isValidAddress s p v).getProperty x q = c.getProperty x q := by
  rw [setProperty_eq]
  exact ⟨getPersistentDevices_storeProperty c _ _ _,
    fun x hx q hne => hr.partition.getProperty_storeProperty_of_paired hx hne⟩

theorem setProperty_keeps_paired_pairedCache :
    Reachable (fun s => s.length == 17) pairedCache ∧
    let arguments := trimArguments "11:22:33:44:55:66" "Name" "Phone"
    (pairedCache.setProperty (fun s => s.length == 17) "11:22:33:44:55:66" "Name"
        "Phone").getPersistentDevices =
      (if (arguments.1.length == 17) = true ∧ arguments.1 ∉ pairedCache.getPersistentDevices ∧
          isLinkKeyProperty arguments.2.1 = true then pairedCache.getPersistentDevices ++ [arguments.1]
        else pairedCache.getPersistentDevices) ∧
    ∀ x ∈ pairedCache.getPersistentDevices, ∀ q, (x, q) ≠ (arguments.1, arguments.2.1) →
      (pairedCache.setProperty (fun s => s.length == 17) "11:22:33:44:55:66" "Name"
        "Phone").getProperty x q = pairedCache.getProperty x q :=
  have hr : Reachable (fun s => s.length == 17) pairedCache := .apply _ (.new 1 Nat.one_pos)
  ⟨hr, setProperty_keeps_paired hr "11:22:33:44:55:66" "Name" "Phone"⟩

/-! ## Reads of the whole cache -/

/-- In every cache reached from an empty one, `HasProperty` answers whether `GetProperty`
finds a value, although the one stops at the first map that holds the section and the other
reads on through the rest; and `GetPersistentDevices` lists each paired device once, each
with a link key that `HasProperty` finds. -/
theorem hasProperty_agrees_of_reachable (hr : Reachable isValidAddress c) :
    (∀ s p, c.hasProperty s p = (c.getProperty s p).isSome) ∧ c.getPersistentDevices.Nodup ∧
      ∀ s ∈ c.getPersistentDevices, ∃ p ∈ kLinkKeyPropertyNames, c.hasProperty s p = true := by
  have h := hr.partition
  refine ⟨h.hasProperty_eq, c.persistentDevices.nodup, fun s hs => ?_⟩
  obtain ⟨props, hp⟩ := Option.isSome_iff_exists.mp (ListMap.find_isSome.mpr hs)
  obtain ⟨q, hq, hl⟩ := h.linkKeys.find hp
  refine ⟨q, by simpa [isLinkKeyProperty] using hl, ?_⟩
  simp [hasProperty_eq_findSection, findSection, h.find_information_eq_none (h.persistent_valid hs),
    hp, ListMap.find_isSome.mpr hq]

theorem hasProperty_agrees_of_reachable_pairedCache :
    Reachable (fun s => s.length == 17) pairedCache ∧
    (∀ s p, pairedCache.hasProperty s p = (pairedCache.getProperty s p).isSome) ∧
      pairedCache.getPersistentDevices.Nodup ∧
      ∀ s ∈ pairedCache.getPersistentDevices, ∃ p ∈ kLinkKeyPropertyNames,
        pairedCache.hasProperty s p = true :=
  have hr : Reachable (fun s => s.length == 17) pairedCache := .apply _ (.new 1 Nat.one_pos)
  ⟨hr, hasProperty_agrees_of_reachable hr⟩

end ConfigCache

end Bluetooth.Storage
