import Bluetooth.Fault
import Mathlib.Data.Finset.Basic
import Mathlib.Logic.Relation

/-!
# The module registry

`ModuleRegistry` (module.cc) over module factories of any type with decidable equality; each
factory's `ListDependencies` is fixed, `deps m`. `Start` recurses into the dependencies of a
module before recording it, so the model runs it on fuel, and running out of fuel stands for
a run that does not end. A module's own `Start` step fetches its dependencies through
`GetDependency`; the model lets it fetch every module it declared.
-/

namespace Bluetooth

/-- The registry: the keys of `started_modules_`, `start_order_`, and the factories whose
`ctor_` has run since the registry was last emptied. -/
structure ModuleRegistry (F : Type) where
  startedModules : Finset F
  startOrder : List F
  constructed : List F

namespace ModuleRegistry

variable {F : Type} [DecidableEq F]

def empty : ModuleRegistry F := ⟨∅, [], []⟩

/-- `Get`: the started instance of `module`. -/
def get (r : ModuleRegistry F) (module : F) : Except Fault Unit :=
  if module ∈ r.startedModules then .ok ()
  else .error (.assertion "instance != started_modules_.end()")

/-- `GetDependency`, called from the instance of a module that declared `dependencies`. -/
def getDependency (dependencies : List F) (r : ModuleRegistry F) (module : F) :
    Except Fault Unit :=
  if module ∈ dependencies then r.get module
  else .error (.assertion "Module was not listed as a dependency in ListDependencies")

/-- The `Start` step of an instance that declared `dependencies`. -/
def startInstance (dependencies : List F) (r : ModuleRegistry F) : Except Fault Unit :=
  forM dependencies (r.getDependency dependencies)

/-- `Start(const ModuleFactory*)`, with `fuel` bounding the depth of its recursion. -/
def start (deps : F → List F) : Nat → F → ModuleRegistry F → Except Fault (ModuleRegistry F)
  | 0, _, _ => .error .outOfFuel
  | fuel + 1, module, r =>
    if module ∈ r.startedModules then .ok r
    else do
      let constructed := { r with constructed := r.constructed ++ [module] }
      let r ← (deps module).foldlM (fun r m => start deps fuel m r) constructed
      startInstance (deps module) r
      return { r with startOrder := r.startOrder ++ [module],
                      startedModules := insert module r.startedModules }

/-- `Start(ModuleList*)`: start each module of the list in turn. -/
def startList (deps : F → List F) (fuel : Nat) (modules : List F) (r : ModuleRegistry F) :
    Except Fault (ModuleRegistry F) :=
  modules.foldlM (fun r m => start deps fuel m r) r

/-- The loop of `StopAll` over a suffix of `start_order_` reversed: each module's instance is
found, stopped and erased. Returns what is left of `started_modules_` and the modules whose
`Stop` ran, in order. -/
def stopEach : List F → Finset F → Except Fault (Finset F × List F)
  | [], started => .ok (started, [])
  | m :: ms, started =>
    if m ∈ started then
      (fun (rest, stopped) => (rest, m :: stopped)) <$> stopEach ms (started.erase m)
    else .error (.assertion "instance != started_modules_.end()")

/-- `StopAll`: the emptied registry and the modules whose `Stop` ran, in order. -/
def stopAll (r : ModuleRegistry F) : Except Fault (ModuleRegistry F × List F) := do
  let (started, stopped) ← stopEach r.startOrder.reverse r.startedModules
  if started = ∅ then return (.empty, stopped)
  else throw (.assertion "started_modules_.empty()")

end ModuleRegistry

end Bluetooth
