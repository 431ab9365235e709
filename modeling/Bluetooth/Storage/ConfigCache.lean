import Bluetooth.Common.LruCache
import Mathlib.Data.List.Basic

/-!
# The configuration cache

`ConfigCache` (config_cache.cc) maps section names to their properties in three maps:
`information_sections_` for sections whose name is not a device address,
`persistent_devices_` for devices with a link key, and `temporary_devices_`, an LRU cache,
for the other devices. `hci::Address::IsValidAddress` is not part of the sources, so the
model takes it as the parameter `isValidAddress`.
-/

namespace Bluetooth.Storage

open Common

/-- `TrimAfterNewLine`: whether `value` holds a newline, and `value` cut at its first one. -/
def trimAfterNewLine (value : String) : Bool × String :=
  if '\n' ∈ value.data then (true, ⟨value.data.takeWhile (· ≠ '\n')⟩) else (false, value)

def NoNewline (s : String) : Prop := '\n' ∉ s.data

instance (s : String) : Decidable (NoNewline s) := inferInstanceAs (Decidable (_ ∉ _))

/-- The arguments of `SetProperty` after the condition
`TrimAfterNewLine(section) || TrimAfterNewLine(property) || TrimAfterNewLine(value)`, whose
evaluation stops at the first call that trims. -/
def trimArguments (sectionName property value : String) : String × String × String :=
  match trimAfterNewLine sectionName with
  | (true, sectionName) => (sectionName, property, value)
  | (false, sectionName) =>
    match trimAfterNewLine property with
    | (true, property) => (sectionName, property, value)
    | (false, property) => (sectionName, property, (trimAfterNewLine value).2)

theorem trimArguments_of_noNewline {sectionName property value : String}
    (hs : NoNewline sectionName) (hp : NoNewline property) (hv : NoNewline value) :
    trimArguments sectionName property value = (sectionName, property, value) := by
  simp only [trimArguments, trimAfterNewLine, if_neg hs, if_neg hp, if_neg hv]

def kLinkKeyPropertyNames : List String :=
  ["LinkKey", "LE_KEY_PENC", "LE_KEY_PID", "LE_KEY_PCSRK", "LE_KEY_LENC", "LE_KEY_LCSRK"]

def isLinkKeyProperty (property : String) : Bool := property ∈ kLinkKeyPropertyNames

structure ConfigCache where
  informationSections : ListMap String (ListMap String String)
  persistentDevices : ListMap String (ListMap String String)
  temporaryDevices : LruCache String (ListMap String String)

/-- An entry of `Mutation` (storage/mutation.h is not under src/), with the fields that
`Commit` reads. -/
structure MutationEntry where
  isAdd : Bool
  sectionName : String
  property : String
  value : String

namespace ConfigCache

variable (isValidAddress : String → Bool)

/-- `ConfigCache(temp_device_capacity)`. -/
def new (tempDeviceCapacity : Nat) (h : 0 < tempDeviceCapacity) : ConfigCache :=
  ⟨.empty, .empty, .new tempDeviceCapacity h⟩

/-- `Clear`. -/
def clear (c : ConfigCache) : ConfigCache :=
  ⟨.empty, .empty, .new c.temporaryDevices.capacity c.temporaryDevices.capacity_pos⟩

def isDeviceSection (sectionName : String) : Bool := isValidAddress sectionName

/-- The LRU cache once `SetProperty` has found or emplaced the section there and written the
property through the section's iterator. -/
def temporaryWith (c : ConfigCache) (sectionName property value : String) :
    LruCache String (ListMap String String) :=
  (c.temporaryDevices.tryEmplace sectionName .empty).update sectionName
    (·.insertOrAssign property value)

/-- The body of `SetProperty`, on trimmed arguments. -/
def storeProperty (c : ConfigCache) (sectionName property value : String) : ConfigCache :=
  if !isDeviceSection isValidAddress sectionName then
    { c with
      informationSections := (c.informationSections.tryEmplaceBack sectionName .empty).update
        sectionName (·.insertOrAssign property value) }
  else if sectionName ∈ c.persistentDevices.keys then
    { c with
      persistentDevices := c.persistentDevices.update sectionName (·.insertOrAssign property value) }
  else
    let temporary := c.temporaryWith sectionName property value
    if isLinkKeyProperty property then
      -- move paired devices; the section is present, so `getD` never takes its default
      let (sectionProperties, temporary) := temporary.extract sectionName
      { c with
        temporaryDevices := temporary
        persistentDevices :=
          c.persistentDevices.insertOrAssign sectionName (sectionProperties.getD .empty) }
    else { c with temporaryDevices := temporary }

/-- `SetProperty`. -/
def setProperty (c : ConfigCache) (sectionName property value : String) : ConfigCache :=
  let (sectionName, property, value) := trimArguments sectionName property value
  c.storeProperty isValidAddress sectionName property value

theorem setProperty_eq (c : ConfigCache) (sectionName property value : String) :
    c.setProperty isValidAddress sectionName property value =
      let arguments := trimArguments sectionName property value
      c.storeProperty isValidAddress arguments.1 arguments.2.1 arguments.2.2 := by
  unfold setProperty
  generalize trimArguments sectionName property value = arguments
  obtain ⟨_, _, _⟩ := arguments
  rfl

theorem setProperty_of_noNewline {c : ConfigCache} {sectionName property value : String}
    (hs : NoNewline sectionName) (hp : NoNewline property) (hv : NoNewline value) :
    c.setProperty isValidAddress sectionName property value =
      c.storeProperty isValidAddress sectionName property value := by
  rw [setProperty_eq, trimArguments_of_noNewline hs hp hv]

/-- `RemoveSection`: sections are unique among the three maps, so it removes from the first
map that holds the section. -/
def removeSection (c : ConfigCache) (sectionName : String) : ConfigCache × Bool :=
  match c.informationSections.extract sectionName with
  | (some _, informationSections) => ({ c with informationSections := informationSections }, true)
  | (none, _) =>
    match c.persistentDevices.extract sectionName with
    | (some _, persistentDevices) => ({ c with persistentDevices := persistentDevices }, true)
    | (none, _) =>
      match c.temporaryDevices.extract sectionName with
      | (some _, temporaryDevices) => ({ c with temporaryDevices := temporaryDevices }, true)
      | (none, _) => (c, false)

/-- `RemoveProperty`. -/
def removeProperty (c : ConfigCache) (sectionName property : String) : ConfigCache × Bool :=
  match c.informationSections.find sectionName with
  | some properties =>
    let (value, properties) := properties.extract property
    ({ c with informationSections := c.informationSections.update sectionName fun _ => properties },
      value.isSome)
  | none =>
    match c.persistentDevices.find sectionName with
    | some properties =>
      let (value, properties) := properties.extract property
      let persistentDevices := c.persistentDevices.update sectionName fun _ => properties
      if value.isSome && isLinkKeyProperty property then
        -- move unpaired device
        let (sectionProperties, persistentDevices) := persistentDevices.extract sectionName
        ({ c with
          persistentDevices := persistentDevices
          temporaryDevices :=
            c.temporaryDevices.insertOrAssign sectionName (sectionProperties.getD .empty) }, true)
      else ({ c with persistentDevices := persistentDevices }, value.isSome)
    | none =>
      match c.temporaryDevices.find sectionName with
      | some properties =>
        let (value, properties) := properties.extract property
        ({ c with
          temporaryDevices := (c.temporaryDevices.touch sectionName).update sectionName
            fun _ => properties }, value.isSome)
      | none => (c, false)

/-- `HasSection`. -/
def hasSection (c : ConfigCache) (sectionName : String) : Bool :=
  sectionName ∈ c.informationSections.keys || sectionName ∈ c.persistentDevices.keys ||
    sectionName ∈ c.temporaryDevices.keys

/-- `GetProperty`: the first of the three maps whose section holds the property. -/
def getProperty (c : ConfigCache) (sectionName property : String) : Option String :=
  (c.informationSections.find sectionName >>= (·.find property)) <|>
    (c.persistentDevices.find sectionName >>= (·.find property)) <|>
    (c.temporaryDevices.find sectionName >>= (·.find property))

/-- `HasProperty`: whether the first of the three maps that holds the section holds the
property in it. -/
def hasProperty (c : ConfigCache) (sectionName property : String) : Bool :=
  match c.informationSections.find sectionName with
  | some properties => (properties.find property).isSome
  | none =>
    match c.persistentDevices.find sectionName with
    | some properties => (properties.find property).isSome
    | none =>
      match c.temporaryDevices.find sectionName with
      | some properties => (properties.find property).isSome
      | none => false

/-- `GetPersistentDevices`: the paired devices, in the order of `persistent_devices_`. -/
def getPersistentDevices (c : ConfigCache) : List String := c.persistentDevices.keys

/-- One entry of `Commit`: a set, or the removal of a section (empty value) or a property. -/
def commitEntry (c : ConfigCache) (entry : MutationEntry) : ConfigCache :=
  if entry.isAdd then c.setProperty isValidAddress entry.sectionName entry.property entry.value
  else if entry.value.isEmpty then (c.removeSection entry.sectionName).1
  else (c.removeProperty entry.sectionName entry.property).1

/-- `Commit`: the mutation's entries, in order. -/
def commit (c : ConfigCache) (entries : List MutationEntry) : ConfigCache :=
  entries.foldl (commitEntry isValidAddress) c

/-! ## Runs -/

inductive Operation
  | setProperty (sectionName property value : String)
  | removeProperty (sectionName property : String)
  | removeSection (sectionName : String)
  | commit (entries : List MutationEntry)
  | clear

def apply (c : ConfigCache) : Operation → ConfigCache
  | .setProperty sectionName property value => c.setProperty isValidAddress sectionName property value
  | .removeProperty sectionName property => (c.removeProperty sectionName property).1
  | .removeSection sectionName => (c.removeSection sectionName).1
  | .commit entries => c.commit isValidAddress entries
  | .clear => c.clear

/-- The caches reached from an empty one by a sequence of operations. -/
inductive Reachable : ConfigCache → Prop
  | new (tempDeviceCapacity : Nat) (h : 0 < tempDeviceCapacity) : Reachable (new tempDeviceCapacity h)
  | apply {c : ConfigCache} (op : Operation) : Reachable c → Reachable (c.apply isValidAddress op)

end ConfigCache

end Bluetooth.Storage
