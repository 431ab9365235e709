import Mathlib.Logic.Basic

/-!
# Faults

The code stops on a failed `ASSERT` and may do something undefined; a recursion that the
model runs on fuel may also run out of it. Members of the model return `Except Fault`.
-/

namespace Bluetooth

/-- What stops a run: a failed `ASSERT(condition)`, undefined behaviour, or a recursion that
did not finish within its fuel. -/
inductive Fault
  | assertion (condition : String)
  | undefined (operation : String)
  | outOfFuel
  deriving DecidableEq, Repr

theorem bind_eq_ok {ε α β : Type} {x : Except ε α} {f : α → Except ε β} {b : β} :
    x >>= f = .ok b ↔ ∃ a, x = .ok a ∧ f a = .ok b := by
  cases x <;> simp [bind, Except.bind]

theorem ok_bind {ε α β : Type} (a : α) (f : α → Except ε β) :
    (Except.ok a : Except ε α) >>= f = f a :=
  rfl

end Bluetooth
