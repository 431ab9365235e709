import Bluetooth.ModuleStart

/-!
# Stopping the registry

`StopAll` walks `start_order_` backwards. Under the registry invariant each module it meets
is still started, so neither `ASSERT` fires, every started module is stopped exactly once,
and each module is stopped before its dependencies; the registry it leaves is empty.
-/

namespace Bluetooth

namespace ModuleRegistry

variable {F : Type} {deps : F → List F}

/-! ## StopAll -/

theorem Invariant.reverse_ordered {r : ModuleRegistry F} (hr : Invariant deps r) :
    ∀ l₁ m l₂, r.startOrder.reverse = l₁ ++ m :: l₂ → ∀ d ∈ deps m, d ∈ l₂ := by
  intro l₁ m l₂ h d hd
  have ho : r.startOrder = l₂.reverse ++ m :: l₁.reverse := by
    rw [← List.reverse_reverse r.startOrder, h]
    simp
  simpa using hr.ordered _ _ _ ho d hd

variable [DecidableEq F]

theorem stopEach_of_nodup : ∀ {l : List F} {started : Finset F}, l.Nodup →
    (∀ m, m ∈ started ↔ m ∈ l) → stopEach l started = .ok (∅, l)
  | [], started, _, h => by
    have : started = ∅ := Finset.eq_empty_of_forall_not_mem fun m hm => by simpa using (h m).mp hm
    rw [stopEach, this]
  | m :: ms, started, hn, h => by
    have hm : m ∈ started := (h m).mpr (List.mem_cons_self m ms)
    have hrest : ∀ x, x ∈ started.erase m ↔ x ∈ ms := fun x => by
      rw [Finset.mem_erase, h x, List.mem_cons]
      exact ⟨fun ⟨hx, h⟩ => h.resolve_left hx,
        fun hx => ⟨fun he => (List.nodup_cons.mp hn).1 (he ▸ hx), .inr hx⟩⟩
    rw [stopEach, if_pos hm, stopEach_of_nodup (List.nodup_cons.mp hn).2 hrest]
    rfl

/-- `StopAll` on a registry that satisfies the invariant passes both `ASSERT`s, stops the
modules in exactly the reverse of `start_order_` (each started module once, and each before
its dependencies), and leaves the registry empty. -/
theorem stopAll_tears_down {r : ModuleRegistry F} (hr : Invariant deps r) :
    stopAll r = .ok (empty, r.startOrder.reverse) ∧ r.startOrder.reverse.Nodup ∧
      (∀ m, m ∈ r.startOrder.reverse ↔ m ∈ r.startedModules) ∧
      ∀ l₁ m l₂, r.startOrder.reverse = l₁ ++ m :: l₂ → ∀ d ∈ deps m, d ∈ l₂ := by
  have hkeys : ∀ m, m ∈ r.startedModules ↔ m ∈ r.startOrder.reverse := by
    simpa only [List.mem_reverse] using hr.keys
  refine ⟨?_, List.nodup_reverse.mpr hr.nodup, fun m => (hkeys m).symm, hr.reverse_ordered⟩
  simp only [stopAll, stopEach_of_nodup (List.nodup_reverse.mpr hr.nodup) hkeys]
  rfl

/-- The registry after starting the diamond from `0`. -/
def diamondStarted : ModuleRegistry (Fin 4) := ⟨{0, 1, 2, 3}, [3, 1, 2, 0], []⟩

theorem invariant_diamondStarted : Invariant diamond diamondStarted := by
  have h₀ : Invariant diamond (empty : ModuleRegistry (Fin 4)) := invariant_empty
  have h := (((h₀.record (m := 3) (by decide) (by decide)).record (m := 1) (by decide)
    (by decide)).record (m := 2) (by decide) (by decide)).record (m := 0) (by decide) (by decide)
  convert h using 2
  decide

theorem stopAll_tears_down_diamondStarted :
    Invariant diamond diamondStarted ∧
    stopAll diamondStarted = .ok (empty, diamondStarted.startOrder.reverse) ∧
      diamondStarted.startOrder.reverse.Nodup ∧
      (∀ m, m ∈ diamondStarted.startOrder.reverse ↔ m ∈ diamondStarted.startedModules) ∧
      ∀ l₁ m l₂, diamondStarted.startOrder.reverse = l₁ ++ m :: l₂ → ∀ d ∈ diamond m, d ∈ l₂ :=
  ⟨invariant_diamondStarted, stopAll_tears_down invariant_diamondStarted⟩

theorem stopAll_registry {r r' : ModuleRegistry F} {stopped : List F}
    (h : stopAll r = .ok (r', stopped)) : r' = empty := by
  obtain ⟨⟨started, l⟩, -, h⟩ := bind_eq_ok.mp h
  dsimp only at h
  split at h
  · cases h; rfl
  · cases h

end ModuleRegistry

end Bluetooth
