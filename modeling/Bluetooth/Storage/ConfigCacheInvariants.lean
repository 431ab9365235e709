import Bluetooth.Storage.ConfigCache

/-!
# What the configuration cache keeps

Each section lives in exactly one of the three maps: information sections are not device
addresses, device sections are, a paired device holds a link key, and no device is both
paired and temporary. Every operation keeps this, so every cache reached from an empty one
satisfies it. In such a cache `GetProperty` reads back what `SetProperty` stored,
`RemoveSection` removes the section although it extracts it from one map only, and no section
name holds a newline.
-/

namespace Bluetooth.Storage

open Common

namespace ConfigCache

variable {isValidAddress : String → Bool} {c : ConfigCache}

/-! ## What each operation can do -/

theorem storeProperty_cases (c : ConfigCache) (s p v : String) :
    (isValidAddress s = false ∧ c.storeProperty isValidAddress s p v =
      { c with informationSections :=
        (c.informationSections.tryEmplaceBack s .empty).update s (·.insertOrAssign p v) }) ∨
    (isValidAddress s = true ∧ s ∈ c.persistentDevices.keys ∧ c.storeProperty isValidAddress s p v =
      { c with persistentDevices := c.persistentDevices.update s (·.insertOrAssign p v) }) ∨
    (isValidAddress s = true ∧ s ∉ c.persistentDevices.keys ∧ isLinkKeyProperty p = true ∧
      c.storeProperty isValidAddress s p v =
      { c with temporaryDevices := ((c.temporaryWith s p v).extract s).2,
               persistentDevices := c.persistentDevices.insertOrAssign s
                 (((c.temporaryWith s p v).extract s).1.getD .empty) }) ∨
    (isValidAddress s = true ∧ s ∉ c.persistentDevices.keys ∧ isLinkKeyProperty p = false ∧
      c.storeProperty isValidAddress s p v = { c with temporaryDevices := c.temporaryWith s p v }) := by
  unfold storeProperty isDeviceSection
  cases hv : isValidAddress s
  · exact .inl ⟨rfl, by simp⟩
  · by_cases hs : s ∈ c.persistentDevices.keys
    · exact .inr (.inl ⟨rfl, hs, by simp [hs]⟩)
    · cases hl : isLinkKeyProperty p
      · exact .inr (.inr (.inr ⟨rfl, hs, rfl, by simp [hs, hl]⟩))
      · exact .inr (.inr (.inl ⟨rfl, hs, rfl, by simp [hs, hl]⟩))

theorem removeSection_cases (c : ConfigCache) (s : String) :
    (s ∉ c.informationSections.keys ∧ s ∉ c.persistentDevices.keys ∧
      s ∉ c.temporaryDevices.keys ∧ (c.removeSection s).1 = c) ∨
    (s ∈ c.informationSections.keys ∧
      (c.removeSection s).1 = { c with informationSections := (c.informationSections.extract s).2 }) ∨
    (s ∈ c.persistentDevices.keys ∧
      (c.removeSection s).1 = { c with persistentDevices := (c.persistentDevices.extract s).2 }) ∨
    (s ∈ c.temporaryDevices.keys ∧
      (c.removeSection s).1 = { c with temporaryDevices := (c.temporaryDevices.extract s).2 }) := by
  unfold removeSection
  split <;> rename_i hi
  · exact .inr (.inl ⟨ListMap.mem_keys_of_find (congrArg Prod.fst hi), by rw [hi]⟩)
  have hi : c.informationSections.find s = none := congrArg Prod.fst hi
  split <;> rename_i hp
  · exact .inr (.inr (.inl ⟨ListMap.mem_keys_of_find (congrArg Prod.fst hp), by rw [hp]⟩))
  have hp : c.persistentDevices.find s = none := congrArg Prod.fst hp
  split <;> rename_i ht
  · exact .inr (.inr (.inr ⟨LruCache.mem_keys_of_find (congrArg Prod.fst ht), by rw [ht]⟩))
  have ht : c.temporaryDevices.find s = none := congrArg Prod.fst ht
  exact .inl ⟨fun h => by simpa [hi] using ListMap.find_isSome.mpr h,
    fun h => by simpa [hp] using ListMap.find_isSome.mpr h,
    fun h => by simpa [ht] using LruCache.find_isSome.mpr h, rfl⟩

theorem removeProperty_cases (c : ConfigCache) (s p : String) :
    (c.informationSections.find s = none ∧ c.persistentDevices.find s = none ∧
      c.temporaryDevices.find s = none ∧ (c.removeProperty s p).1 = c) ∨
    (∃ props, c.informationSections.find s = some props ∧ (c.removeProperty s p).1 =
      { c with informationSections := c.informationSections.update s fun _ => (props.extract p).2 }) ∨
    (∃ props, c.persistentDevices.find s = some props ∧
      ¬ ((props.find p).isSome ∧ isLinkKeyProperty p = true) ∧ (c.removeProperty s p).1 =
        { c with persistentDevices := c.persistentDevices.update s fun _ => (props.extract p).2 }) ∨
    (∃ props, c.persistentDevices.find s = some props ∧ (c.removeProperty s p).1 =
      { c with persistentDevices := (c.persistentDevices.extract s).2,
               temporaryDevices := c.temporaryDevices.insertOrAssign s (props.extract p).2 }) ∨
    (∃ props, c.temporaryDevices.find s = some props ∧ (c.removeProperty s p).1 =
      { c with temporaryDevices :=
        (c.temporaryDevices.touch s).update s fun _ => (props.extract p).2 }) := by
  unfold removeProperty
  split
  · exact .inr (.inl ⟨_, ‹_›, rfl⟩)
  · split
    · rename_i props hp
      dsimp only
      split
      · -- a removed link key moves the section
        refine .inr (.inr (.inr (.inl ⟨props, hp, ?_⟩)))
        simp only [ListMap.extract_update, ListMap.extract_fst, ListMap.find_update, hp,
          Option.map_some', Option.getD_some]
      · rename_i hkeep
        exact .inr (.inr (.inl ⟨props, hp, by simpa using hkeep, rfl⟩))
    · split
      · exact .inr (.inr (.inr (.inr ⟨_, ‹_›, rfl⟩)))
      · exact .inl ⟨‹_›, ‹_›, ‹_›, rfl⟩

/-! ## Runs -/

section Preserved

variable {P : ConfigCache → Prop}
  (hset : ∀ c s p v, P c → P (c.setProperty isValidAddress s p v))
  (hsec : ∀ c s, P c → P (c.removeSection s).1) (hprop : ∀ c s p, P c → P (c.removeProperty s p).1)
include hset hsec hprop

theorem commit_preserves (entries : List MutationEntry) :
    ∀ c, P c → P (c.commit isValidAddress entries) := by
  induction entries with
  | nil => exact fun _ h => h
  | cons entry entries ih =>
    intro c h
    refine ih _ ?_
    unfold commitEntry
    split_ifs
    exacts [hset _ _ _ _ h, hsec _ _ h, hprop _ _ _ h]

theorem Reachable.preserves (hnew : ∀ n hn, P (ConfigCache.new n hn)) (hr : Reachable isValidAddress c) :
    P c := by
  induction hr with
  | new => exact hnew _ _
  | apply op _ ih =>
    cases op with
    | setProperty s p v => exact hset _ _ _ _ ih
    | removeProperty s p => exact hprop _ _ _ ih
    | removeSection s => exact hsec _ _ ih
    | commit entries => exact commit_preserves hset hsec hprop entries _ ih
    | clear => exact hnew _ _

end Preserved

/-! ## Section names -/

/-- The section names of the information map satisfy `qi`, those of the two device maps
`qd`. -/
structure SectionNames (qi qd : String → Prop) (c : ConfigCache) : Prop where
  information : c.informationSections.All fun s _ => qi s
  persistent : c.persistentDevices.All fun s _ => qd s
  temporary : c.temporaryDevices.All fun s _ => qd s

namespace SectionNames

variable {qi qd : String → Prop}

theorem storeProperty (h : SectionNames qi qd c) {s p v : String}
    (hi : isValidAddress s = false → qi s) (hd : isValidAddress s = true → qd s) :
    SectionNames qi qd (c.storeProperty isValidAddress s p v) := by
  rcases storeProperty_cases c s p v with ⟨hv, he⟩ | ⟨hv, -, he⟩ | ⟨hv, -, -, he⟩ | ⟨hv, -, -, he⟩
    <;> rw [he]
  · exact ⟨(h.information.tryEmplaceBack (hi hv)).update fun _ => id, h.persistent, h.temporary⟩
  · exact ⟨h.information, h.persistent.update fun _ => id, h.temporary⟩
  · exact ⟨h.information, h.persistent.insertOrAssign (hd hv),
      ((h.temporary.tryEmplace (hd hv)).update fun _ => id).extract⟩
  · exact ⟨h.information, h.persistent, (h.temporary.tryEmplace (hd hv)).update fun _ => id⟩

theorem removeSection (h : SectionNames qi qd c) (s : String) :
    SectionNames qi qd (c.removeSection s).1 := by
  rcases removeSection_cases c s with ⟨-, -, -, he⟩ | ⟨-, he⟩ | ⟨-, he⟩ | ⟨-, he⟩ <;> rw [he]
  exacts [h, ⟨h.information.extract, h.persistent, h.temporary⟩,
    ⟨h.information, h.persistent.extract, h.temporary⟩,
    ⟨h.information, h.persistent, h.temporary.extract⟩]

theorem removeProperty (h : SectionNames qi qd c) (s p : String) :
    SectionNames qi qd (c.removeProperty s p).1 := by
  rcases removeProperty_cases c s p with ⟨-, -, -, he⟩ | ⟨_, -, he⟩ | ⟨_, -, -, he⟩ | ⟨_, hp, he⟩ |
    ⟨_, -, he⟩ <;> rw [he]
  · exact h
  · exact ⟨h.information.update fun _ => id, h.persistent, h.temporary⟩
  · exact ⟨h.information, h.persistent.update fun _ => id, h.temporary⟩
  · exact ⟨h.information, h.persistent.extract, h.temporary.insertOrAssign (h.persistent.find hp)⟩
  · exact ⟨h.information, h.persistent, h.temporary.touch.update fun _ => id⟩

theorem new (n : Nat) (hn : 0 < n) : SectionNames qi qd (ConfigCache.new n hn) :=
  ⟨ListMap.all_empty, ListMap.all_empty, LruCache.all_new _ _⟩

end SectionNames

/-! ## The partition of sections -/

def HasLinkKey (properties : ListMap String String) : Prop :=
  ∃ p ∈ properties.keys, isLinkKeyProperty p = true

theorem HasLinkKey.insertOrAssign {properties : ListMap String String} (h : HasLinkKey properties)
    (p v : String) : HasLinkKey (properties.insertOrAssign p v) :=
  let ⟨q, hq, hl⟩ := h
  ⟨q, ListMap.mem_keys_insertOrAssign.mpr (.inl hq), hl⟩

theorem hasLinkKey_insertOrAssign_self (properties : ListMap String String) {p : String}
    (hp : isLinkKeyProperty p = true) (v : String) : HasLinkKey (properties.insertOrAssign p v) :=
  ⟨p, ListMap.mem_keys_insertOrAssign.mpr (.inr rfl), hp⟩

theorem HasLinkKey.extract {properties : ListMap String String} (h : HasLinkKey properties)
    {p : String} (hp : ¬ ((properties.find p).isSome ∧ isLinkKeyProperty p = true)) :
    HasLinkKey (properties.extract p).2 := by
  obtain ⟨q, hq, hl⟩ := h
  refine ⟨q, ListMap.mem_keys_extract.mpr ⟨hq, fun hqp => hp ⟨?_, hqp ▸ hl⟩⟩, hl⟩
  exact ListMap.find_isSome.mpr (hqp ▸ hq)

theorem find_temporaryWith_self (c : ConfigCache) (s p v : String) :
    (c.temporaryWith s p v).find s =
      some (((c.temporaryDevices.find s).getD .empty).insertOrAssign p v) := by
  rw [temporaryWith, LruCache.find_update, LruCache.find_tryEmplace_self]
  rfl

theorem find_temporaryWith (c : ConfigCache) (s p v : String) :
    ∃ properties : ListMap String String,
      (c.temporaryWith s p v).find s = some (properties.insertOrAssign p v) :=
  ⟨_, find_temporaryWith_self c s p v⟩

theorem find_temporaryWith_of_ne (c : ConfigCache) {s p v x : String} (hx : x ≠ s) :
    (c.temporaryWith s p v).find x = c.temporaryDevices.find x ∨
      (s ∉ c.temporaryDevices.keys ∧ c.temporaryDevices.victim = some x ∧
        (c.temporaryWith s p v).find x = none) := by
  rw [temporaryWith, LruCache.find_update_of_ne _ hx]
  exact LruCache.find_tryEmplace_of_ne hx

theorem mem_keys_temporaryWith {c : ConfigCache} {s p v x : String}
    (hx : x ∈ (c.temporaryWith s p v).keys) : x ∈ c.temporaryDevices.keys ∨ x = s :=
  LruCache.mem_keys_tryEmplace (by simpa [temporaryWith] using hx)

variable (isValidAddress) in
/-- Each section lives in one map: information sections are not device addresses and device
sections are, every paired device holds a link key, and no device is both paired and
temporary. -/
structure Partition (c : ConfigCache) : Prop where
  names : SectionNames (isValidAddress · = false) (isValidAddress · = true) c
  linkKeys : c.persistentDevices.All fun _ properties => HasLinkKey properties
  disjoint : ∀ s ∈ c.persistentDevices.keys, s ∉ c.temporaryDevices.keys

namespace Partition

theorem storeProperty (h : Partition isValidAddress c) (s p v : String) :
    Partition isValidAddress (c.storeProperty isValidAddress s p v) := by
  have hn := h.names.storeProperty (s := s) (p := p) (v := v) id id
  rcases storeProperty_cases c s p v with ⟨-, he⟩ | ⟨-, -, he⟩ | ⟨-, hs, hl, he⟩ | ⟨-, hs, -, he⟩
    <;> rw [he] at hn ⊢
  · exact ⟨hn, h.linkKeys, h.disjoint⟩
  · exact ⟨hn, h.linkKeys.update fun _ hk => hk.insertOrAssign p v, by simpa using h.disjoint⟩
  · -- a link key moves the section to the persistent map
    obtain ⟨w, hw⟩ := find_temporaryWith c s p v
    refine ⟨hn, h.linkKeys.insertOrAssign ?_, fun x hx hxt => ?_⟩
    · rw [show ((c.temporaryWith s p v).extract s).1 = _ from hw]
      exact hasLinkKey_insertOrAssign_self w hl v
    · obtain ⟨hxt, hxs⟩ := LruCache.mem_keys_extract.mp hxt
      have hx := (ListMap.mem_keys_insertOrAssign.mp hx).resolve_right hxs
      exact h.disjoint x hx ((mem_keys_temporaryWith hxt).resolve_right hxs)
  · refine ⟨hn, h.linkKeys, fun x hx hxt => ?_⟩
    rcases mem_keys_temporaryWith hxt with hxt | rfl
    exacts [h.disjoint x hx hxt, hs hx]

theorem setProperty (h : Partition isValidAddress c) (s p v : String) :
    Partition isValidAddress (c.setProperty isValidAddress s p v) := by
  rw [setProperty_eq]
  exact h.storeProperty _ _ _

theorem removeSection (h : Partition isValidAddress c) (s : String) :
    Partition isValidAddress (c.removeSection s).1 := by
  have hn := h.names.removeSection s
  rcases removeSection_cases c s with ⟨-, -, -, he⟩ | ⟨-, he⟩ | ⟨-, he⟩ | ⟨-, he⟩
    <;> rw [he] at hn ⊢
  · exact h
  · exact ⟨hn, h.linkKeys, h.disjoint⟩
  · exact ⟨hn, h.linkKeys.extract, fun x hx => h.disjoint x (ListMap.mem_keys_extract.mp hx).1⟩
  · exact ⟨hn, h.linkKeys, fun x hx hxt => h.disjoint x hx (LruCache.mem_keys_extract.mp hxt).1⟩

theorem removeProperty (h : Partition isValidAddress c) (s p : String) :
    Partition isValidAddress (c.removeProperty s p).1 := by
  have hn := h.names.removeProperty s p
  rcases removeProperty_cases c s p with ⟨-, -, -, he⟩ | ⟨_, -, he⟩ | ⟨props, hp, hkeep, he⟩ |
    ⟨_, -, he⟩ | ⟨_, -, he⟩ <;> rw [he] at hn ⊢
  · exact h
  · exact ⟨hn, h.linkKeys, h.disjoint⟩
  · exact ⟨hn, h.linkKeys.update fun _ _ => (h.linkKeys.find hp).extract hkeep,
      by simpa using h.disjoint⟩
  · -- a removed link key moves the section to the LRU cache
    refine ⟨hn, h.linkKeys.extract, fun x hx hxt => ?_⟩
    obtain ⟨hx, hxs⟩ := ListMap.mem_keys_extract.mp hx
    exact h.disjoint x hx ((LruCache.mem_keys_insertOrAssign hxt).resolve_right hxs)
  · exact ⟨hn, h.linkKeys, fun x hx hxt => h.disjoint x hx
      (LruCache.mem_keys_touch.mp (by simpa using hxt))⟩

theorem information_invalid (h : Partition isValidAddress c) {s : String}
    (hs : s ∈ c.informationSections.keys) : isValidAddress s = false :=
  (h.names.information.mem_keys hs).elim fun _ h => h

theorem persistent_valid (h : Partition isValidAddress c) {s : String}
    (hs : s ∈ c.persistentDevices.keys) : isValidAddress s = true :=
  (h.names.persistent.mem_keys hs).elim fun _ h => h

theorem temporary_valid (h : Partition isValidAddress c) {s : String}
    (hs : s ∈ c.temporaryDevices.keys) : isValidAddress s = true :=
  (h.names.temporary.mem_keys hs).elim fun _ h => h

theorem new (n : Nat) (hn : 0 < n) : Partition isValidAddress (ConfigCache.new n hn) :=
  ⟨SectionNames.new n hn, ListMap.all_empty, fun _ h => nomatch h⟩

end Partition

theorem Reachable.partition (hr : Reachable isValidAddress c) : Partition isValidAddress c :=
  hr.preserves (fun _ _ _ _ h => h.setProperty _ _ _) (fun _ _ h => h.removeSection _)
    (fun _ _ _ h => h.removeProperty _ _) Partition.new

/-- In every cache reached from an empty one, no section is in two of the three maps, the
information map holds only sections that are not device addresses and the other two only
device addresses, and every paired device holds a property named in
`kLinkKeyPropertyNames`. -/
theorem reachable_sections_partitioned (hr : Reachable isValidAddress c) :
    (∀ s ∈ c.informationSections.keys, s ∉ c.persistentDevices.keys) ∧
    (∀ s ∈ c.informationSections.keys, s ∉ c.temporaryDevices.keys) ∧
    (∀ s ∈ c.persistentDevices.keys, s ∉ c.temporaryDevices.keys) ∧
    (∀ s ∈ c.informationSections.keys, isValidAddress s = false) ∧
    (∀ s ∈ c.persistentDevices.keys, isValidAddress s = true) ∧
    (∀ s ∈ c.temporaryDevices.keys, isValidAddress s = true) ∧
    ∀ s properties, c.persistentDevices.find s = some properties →
      ∃ p ∈ properties.keys, p ∈ kLinkKeyPropertyNames := by
  have h := hr.partition
  refine ⟨fun s hs hs' => ?_, fun s hs hs' => ?_, h.disjoint, fun _ => h.information_invalid,
    fun _ => h.persistent_valid, fun _ => h.temporary_valid, fun s props hs => ?_⟩
  · simpa [h.information_invalid hs] using h.persistent_valid hs'
  · simpa [h.information_invalid hs] using h.temporary_valid hs'
  · obtain ⟨q, hq, hl⟩ := h.linkKeys.find hs
    exact ⟨q, hq, by simpa [isLinkKeyProperty] using hl⟩

/-- A paired device: a link key set on a fresh cache with room for one temporary device, with
device addresses told by their length. -/
def pairedCache : ConfigCache :=
  (new 1 Nat.one_pos).apply (fun s => s.length == 17)
    (.setProperty "AA:BB:CC:DD:EE:FF" "LinkKey" "0")

theorem reachable_sections_partitioned_pairedCache :
    Reachable (fun s => s.length == 17) pairedCache ∧
    (∀ s ∈ pairedCache.informationSections.keys, s ∉ pairedCache.persistentDevices.keys) ∧
    (∀ s ∈ pairedCache.informationSections.keys, s ∉ pairedCache.temporaryDevices.keys) ∧
    (∀ s ∈ pairedCache.persistentDevices.keys, s ∉ pairedCache.temporaryDevices.keys) ∧
    (∀ s ∈ pairedCache.informationSections.keys, (s.length == 17) = false) ∧
    (∀ s ∈ pairedCache.persistentDevices.keys, (s.length == 17) = true) ∧
    (∀ s ∈ pairedCache.temporaryDevices.keys, (s.length == 17) = true) ∧
    ∀ s properties, pairedCache.persistentDevices.find s = some properties →
      ∃ p ∈ properties.keys, p ∈ kLinkKeyPropertyNames :=
  have hr : Reachable (fun s => s.length == 17) pairedCache := .apply _ (.new 1 Nat.one_pos)
  ⟨hr, reachable_sections_partitioned hr⟩

/-! ## Reading back, and newlines -/

theorem Partition.find_information_eq_none (h : Partition isValidAddress c) {s : String}
    (hv : isValidAddress s = true) : c.informationSections.find s = none := by
  cases hf : c.informationSections.find s with
  | none => rfl
  | some _ => simpa [hv] using h.names.information.find hf

theorem Partition.getProperty_storeProperty (h : Partition isValidAddress c) (s p v : String) :
    (c.storeProperty isValidAddress s p v).getProperty s p = some v := by
  rcases storeProperty_cases c s p v with ⟨-, he⟩ | ⟨hv, hs, he⟩ | ⟨hv, -, -, he⟩ | ⟨hv, hs, -, he⟩
    <;> rw [he] <;> unfold getProperty <;> dsimp only
  · have hs : s ∈ (c.informationSections.tryEmplaceBack s .empty).keys :=
      ListMap.mem_keys_tryEmplaceBack.mpr (.inr rfl)
    obtain ⟨w, hw⟩ := Option.isSome_iff_exists.mp (ListMap.find_isSome.mpr hs)
    simp [ListMap.find_update, hw, ListMap.find_insertOrAssign_self]
  · obtain ⟨w, hw⟩ := Option.isSome_iff_exists.mp (ListMap.find_isSome.mpr hs)
    simp [h.find_information_eq_none hv, ListMap.find_update, hw, ListMap.find_insertOrAssign_self]
  · obtain ⟨w, hw⟩ := find_temporaryWith c s p v
    rw [show ((c.temporaryWith s p v).extract s).1 = _ from hw]
    simp [h.find_information_eq_none hv, ListMap.find_insertOrAssign_self]
  · obtain ⟨w, hw⟩ := find_temporaryWith c s p v
    simp [h.find_information_eq_none hv, ListMap.find_eq_none hs, hw,
      ListMap.find_insertOrAssign_self]

theorem Partition.find_devices_eq_none (h : Partition isValidAddress c) {s : String}
    (hv : isValidAddress s = false) :
    c.persistentDevices.find s = none ∧ c.temporaryDevices.find s = none :=
  ⟨ListMap.find_eq_none fun hp => by simpa [hv] using h.persistent_valid hp,
    LruCache.find_eq_none fun ht => by simpa [hv] using h.temporary_valid ht⟩

theorem Partition.getProperty_removeProperty (h : Partition isValidAddress c) (s p : String) :
    (c.removeProperty s p).1.getProperty s p = none := by
  have hgone : ∀ props : ListMap String String, (props.extract p).2.find p = none :=
    fun _ => ListMap.find_extract_self
  rcases removeProperty_cases c s p with ⟨hi, hp, ht, he⟩ | ⟨props, hi, he⟩ |
    ⟨props, hp, -, he⟩ | ⟨props, hp, he⟩ | ⟨props, ht, he⟩ <;> rw [he] <;> unfold getProperty
  · simp [hi, hp, ht]
  · -- an information section is in neither device map
    have hv := h.information_invalid (ListMap.mem_keys_of_find hi)
    simp [ListMap.find_update, hi, hgone, h.find_devices_eq_none hv]
  · have hs := ListMap.mem_keys_of_find hp
    have ht : c.temporaryDevices.find s = none := LruCache.find_eq_none (h.disjoint s hs)
    simp [h.find_information_eq_none (h.persistent_valid hs), ListMap.find_update, hp, hgone, ht]
  · -- the section moved to the LRU cache without the property
    have hs := ListMap.mem_keys_of_find hp
    simp [h.find_information_eq_none (h.persistent_valid hs), ListMap.find_extract_self,
      LruCache.find_insertOrAssign_self, hgone]
  · have hs := LruCache.mem_keys_of_find ht
    have hp : c.persistentDevices.find s = none :=
      ListMap.find_eq_none fun hp => h.disjoint s hp hs
    simp [h.find_information_eq_none (h.temporary_valid hs), hp, LruCache.find_update,
      LruCache.find_touch, ht, hgone]

theorem Partition.hasSection_removeSection (h : Partition isValidAddress c) (s : String) :
    (c.removeSection s).1.hasSection s = false := by
  rcases removeSection_cases c s with ⟨hi, hp, ht, he⟩ | ⟨hi, he⟩ | ⟨hp, he⟩ | ⟨ht, he⟩ <;>
    rw [he] <;> simp only [hasSection, Bool.or_eq_false_iff, decide_eq_false_iff_not]
  · exact ⟨⟨hi, hp⟩, ht⟩
  · have hv := h.information_invalid hi
    exact ⟨⟨by simp, fun hp => by simpa [hv] using h.persistent_valid hp⟩,
      fun ht => by simpa [hv] using h.temporary_valid ht⟩
  · exact ⟨⟨fun hi => by simpa [h.information_invalid hi] using h.persistent_valid hp, by simp⟩,
      h.disjoint s hp⟩
  · exact ⟨⟨fun hi => by simpa [h.information_invalid hi] using h.temporary_valid ht,
      fun hp => h.disjoint s hp ht⟩, by simp⟩

/-- A section whose name, property names and values hold no newline. -/
def CleanSection (s : String) (properties : ListMap String String) : Prop :=
  NoNewline s ∧ properties.All fun p v => NoNewline p ∧ NoNewline v

/-- No section name, property name or value stored in the cache holds a newline. -/
def NewlineFree (c : ConfigCache) : Prop :=
  c.informationSections.All CleanSection ∧ c.persistentDevices.All CleanSection ∧
    c.temporaryDevices.All CleanSection

theorem NewlineFree.getProperty (h : c.NewlineFree) {s p v : String}
    (hg : c.getProperty s p = some v) : NoNewline p ∧ NoNewline v := by
  unfold ConfigCache.getProperty at hg
  rcases (Option.orElse_eq_some _ _ _).mp hg with hg | ⟨-, hg⟩
  · obtain ⟨props, hs, hp⟩ := Option.bind_eq_some.mp hg
    exact (h.1.find hs).2.find hp
  rcases (Option.orElse_eq_some _ _ _).mp hg with hg | ⟨-, hg⟩
  · obtain ⟨props, hs, hp⟩ := Option.bind_eq_some.mp hg
    exact (h.2.1.find hs).2.find hp
  · obtain ⟨props, hs, hp⟩ := Option.bind_eq_some.mp hg
    exact (h.2.2.find hs).2.find hp

/-- `SetProperty` trims only the first argument that holds a newline: on an empty cache, with
newlines in both the section and the property name, the property keeps its newline and
`GetProperty` finds it under that name. -/
theorem setProperty_keeps_property_newline (isValidAddress : String → Bool) :
    ((new 1 Nat.one_pos).setProperty isValidAddress "A\n" "B\n" "C").getProperty "A" "B\n" =
      some "C" ∧
    ¬ ((new 1 Nat.one_pos).setProperty isValidAddress "A\n" "B\n" "C").NewlineFree := by
  have hget : ((new 1 Nat.one_pos).setProperty isValidAddress "A\n" "B\n" "C").getProperty
      "A" "B\n" = some "C" := by
    rw [setProperty_eq, show trimArguments "A\n" "B\n" "C" = ("A", "B\n", "C") by decide]
    exact (Partition.new 1 Nat.one_pos).getProperty_storeProperty _ _ _
  exact ⟨hget, fun h => (h.getProperty hget).1 (by decide)⟩

end ConfigCache

end Bluetooth.Storage
