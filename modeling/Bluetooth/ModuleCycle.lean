import Bluetooth.ModuleStop

/-!
# Start on a dependency cycle never returns

`Start` records a module only after the recursive `Start` of its dependencies has returned,
so a module on a cycle of declared dependencies is met again, still unrecorded, inside its
own `Start`: in the code the recursion overflows the stack, in the model every fuel runs
out. Under the registry invariant no started module lies on a cycle (each is recorded above
its dependencies in `start_order_`), so from such a registry `Start(modules)` never returns
exactly when a cycle is reachable from `modules`, the converse of `startList_settles`.

Along the way: every `Start` that returns keeps the invariant, acyclic or not, and `Start`
never fails an `ASSERT` of `GetDependency`, from any registry. So the invariant holds over
the whole lifetime of a registry on any dependency graph, finite or not: a client need not
keep the graph acyclic, since a `Start` that meets a cycle never returns.
-/

namespace Bluetooth

namespace ModuleRegistry

open Relation

/-! ## Folds that fail -/

section Folds

variable {σ α ε : Type} {f : σ → α → Except ε σ}

theorem foldlM_ne_ok (Φ : σ → Prop) {d : α} {l : List α}
    (hstep : ∀ a ∈ l, ∀ s s', Φ s → f s a = .ok s' → Φ s')
    (hfail : ∀ s, Φ s → ∀ s', f s d ≠ .ok s') (hd : d ∈ l) :
    ∀ s, Φ s → ∀ s', l.foldlM f s ≠ .ok s' := by
  induction l with
  | nil => cases hd
  | cons a l ih =>
    intro s hs s' h
    obtain ⟨s₁, h₁, h₂⟩ := bind_eq_ok.mp h
    rcases List.mem_cons.mp hd with rfl | hd
    · exact hfail s hs s₁ h₁
    · exact ih (fun b hb => hstep b (List.mem_cons_of_mem a hb)) hd s₁
        (hstep a (List.mem_cons_self a l) s s₁ hs h₁) s' h₂

theorem foldlM_error {p : ε → Prop} (hstep : ∀ s a e, f s a = .error e → p e) :
    ∀ (l : List α) s e, l.foldlM f s = .error e → p e
  | [], _, _, h => by cases h
  | a :: l, s, e, h => by
    rw [List.foldlM_cons] at h
    cases h₁ : f s a with
    | error e₁ =>
      rw [h₁] at h
      cases h
      exact hstep s a _ h₁
    | ok s₁ =>
      rw [h₁] at h
      exact foldlM_error hstep l s₁ e h

end Folds

variable {F : Type} [DecidableEq F] {deps : F → List F}

/-! ## What a returning Start leaves -/

theorem foldlM_start_started {fuel : Nat}
    (hstart : ∀ m r r', start deps fuel m r = .ok r' →
      m ∈ r'.startedModules ∧ r.startedModules ⊆ r'.startedModules) :
    ∀ (ds : List F) r r', ds.foldlM (fun r m => start deps fuel m r) r = .ok r' →
      (∀ d ∈ ds, d ∈ r'.startedModules) ∧ r.startedModules ⊆ r'.startedModules
  | [], _, _, h => by cases h; exact ⟨nofun, subset_refl _⟩
  | d :: ds, r, r', h => by
    obtain ⟨r₁, h₁, h₂⟩ := bind_eq_ok.mp h
    obtain ⟨hd, hsub₁⟩ := hstart d r r₁ h₁
    obtain ⟨hds, hsub₂⟩ := foldlM_start_started hstart ds r₁ r' h₂
    exact ⟨List.forall_mem_cons.mpr ⟨hsub₂ hd, hds⟩, hsub₁.trans hsub₂⟩

theorem start_started :
    ∀ (fuel : Nat) (m : F) (r r' : ModuleRegistry F), start deps fuel m r = .ok r' →
      m ∈ r'.startedModules ∧ r.startedModules ⊆ r'.startedModules
  | 0, _, _, _, h => by cases h
  | fuel + 1, m, r, r', h => by
    unfold start at h
    split_ifs at h with hs
    · cases h
      exact ⟨hs, subset_refl _⟩
    · obtain ⟨r₁, h₁, h₂⟩ := bind_eq_ok.mp h
      obtain ⟨-, -, h₃⟩ := bind_eq_ok.mp h₂
      cases h₃
      have hsub := (foldlM_start_started (start_started fuel) _ _ _ h₁).2
      exact ⟨Finset.mem_insert_self m _, hsub.trans (Finset.subset_insert m _)⟩

theorem start_fault : ∀ (fuel : Nat) (m : F) (r : ModuleRegistry F) (e : Fault),
    start deps fuel m r = .error e → e = .outOfFuel
  | 0, _, _, _, h => by cases h; rfl
  | fuel + 1, m, r, e, h => by
    unfold start at h
    split_ifs at h with hs
    dsimp only at h
    cases hfold : (deps m).foldlM (fun r d => start deps fuel d r)
        { r with constructed := r.constructed ++ [m] } with
    | error e₁ =>
      rw [hfold] at h
      cases h
      exact foldlM_error (fun r d e => start_fault fuel d r e) _ _ _ hfold
    | ok r₁ =>
      have hdep := (foldlM_start_started (start_started fuel) _ _ _ hfold).1
      rw [hfold, ok_bind, startInstance_ok hdep] at h
      cases h

/-! ## Returning Starts keep the invariant -/

omit [DecidableEq F] in
theorem Invariant.construct {r : ModuleRegistry F} (hr : Invariant deps r) (m : F) :
    Invariant deps { r with constructed := r.constructed ++ [m] } :=
  ⟨hr.nodup, hr.keys, hr.ordered⟩

theorem Invariant.indexOf_lt {r : ModuleRegistry F} (hr : Invariant deps r) {m d : F}
    (hm : m ∈ r.startedModules) (hd : d ∈ deps m) :
    r.startOrder.indexOf d < r.startOrder.indexOf m := by
  obtain ⟨l₁, l₂, hl⟩ := List.append_of_mem ((hr.keys m).mp hm)
  have hd₁ : d ∈ l₁ := hr.ordered l₁ m l₂ hl d hd
  have hm₁ : m ∉ l₁ := ((List.nodup_middle.mp (hl ▸ hr.nodup)).not_mem).imp
    (List.mem_append_left l₂)
  rw [hl, List.indexOf_append_of_mem hd₁, List.indexOf_append_of_not_mem hm₁,
    List.indexOf_cons_self]
  exact Nat.lt_add_right _ (List.indexOf_lt_length.mpr hd₁)

theorem Invariant.not_onCycle {r : ModuleRegistry F} (hr : Invariant deps r) {m : F}
    (hm : m ∈ r.startedModules) : ¬ TransGen (DependsOn deps) m m := by
  have hdown : ∀ a b, TransGen (DependsOn deps) a b → a ∈ r.startedModules →
      b ∈ r.startedModules ∧ r.startOrder.indexOf b < r.startOrder.indexOf a := by
    intro a b hab ha
    induction hab with
    | single hd => exact ⟨hr.closed ha hd, hr.indexOf_lt ha hd⟩
    | tail _ hd ih => exact ⟨hr.closed ih.1 hd, (hr.indexOf_lt ih.1 hd).trans ih.2⟩
  exact fun hc => lt_irrefl _ (hdown m m hc hm).2

theorem fold_keeps {fuel : Nat}
    (hstart : ∀ y r r', Invariant deps r → start deps fuel y r = .ok r' →
      Invariant deps r' ∧ Extends (ReflTransGen (DependsOn deps) y) r r') :
    ∀ (ds : List F) r r', Invariant deps r → ds.foldlM (fun r m => start deps fuel m r) r = .ok r' →
      Invariant deps r' ∧ Extends (fun x => ∃ d ∈ ds, ReflTransGen (DependsOn deps) d x) r r'
  | [], r, _, hr, h => by cases h; exact ⟨hr, Extends.refl _ r⟩
  | d :: ds, r, r', hr, h => by
    obtain ⟨r₁, h₁, h₂⟩ := bind_eq_ok.mp h
    obtain ⟨hr₁, he₁⟩ := hstart d r r₁ hr h₁
    obtain ⟨hr₂, he₂⟩ := fold_keeps hstart ds r₁ r' hr₁ h₂
    refine ⟨hr₂, (he₁.trans he₂ hr₂.nodup).mono fun x hx => ?_⟩
    rcases hx with h | ⟨d', hd', h⟩
    exacts [⟨d, List.mem_cons_self d ds, h⟩, ⟨d', List.mem_cons_of_mem d hd', h⟩]

theorem start_keeps : ∀ (fuel : Nat) (y : F) (r r' : ModuleRegistry F), Invariant deps r →
    start deps fuel y r = .ok r' →
      Invariant deps r' ∧ Extends (ReflTransGen (DependsOn deps) y) r r'
  | 0, _, _, _, _, h => by cases h
  | fuel + 1, y, r, r', hr, h => by
    unfold start at h
    split_ifs at h with hs
    · cases h
      exact ⟨hr, Extends.refl _ r⟩
    · obtain ⟨r₁, h₁, h₂⟩ := bind_eq_ok.mp h
      obtain ⟨-, -, h₃⟩ := bind_eq_ok.mp h₂
      cases h₃
      obtain ⟨hr₁, he⟩ := fold_keeps (start_keeps fuel) (deps y) _ _ (hr.construct y) h₁
      have hdep := (foldlM_start_started (start_started fuel) _ _ _ h₁).1
      have hy : y ∉ r₁.startOrder := fun hy => by
        by_cases hp : ∃ d ∈ deps y, ReflTransGen (DependsOn deps) d y
        · obtain ⟨d, hd, hdy⟩ := hp
          exact hr₁.not_onCycle ((hr₁.keys y).mpr hy) (.head' hd hdy)
        · exact he.not_mem (fun h => hs ((hr.keys y).mpr h)) hp hy
      refine ⟨hr₁.record hy fun d hd => (hr₁.keys d).mp (hdep d hd),
        (he.record hy).mono fun x hx => ?_⟩
      rcases hx with ⟨d, hd, hdx⟩ | rfl
      exacts [.head hd hdx, .refl]

/-! ## Cycles -/

theorem start_stuck : ∀ (fuel : Nat) {x c : F} {r r' : ModuleRegistry F}, Invariant deps r →
    ReflTransGen (DependsOn deps) x c → TransGen (DependsOn deps) c c →
      start deps fuel x r ≠ .ok r'
  | 0, _, _, _, _, _, _, _, h => by cases h
  | fuel + 1, x, c, r, r', hr, hxc, hc, h => by
    have hx : x ∉ r.startedModules := fun hx => hr.not_onCycle (hr.closure hx hxc) hc
    obtain ⟨d, hd, hdc⟩ := TransGen.head'_iff.mp (TransGen.trans_right hxc hc)
    unfold start at h
    rw [if_neg hx] at h
    obtain ⟨r₁, h₁, -⟩ := bind_eq_ok.mp h
    exact foldlM_ne_ok (Invariant deps) (fun a _ s s' hs h => (start_keeps fuel a s s' hs h).1)
      (fun s hs _ => start_stuck fuel hs hdc hc) hd _ (hr.construct x) r₁ h₁

/-- `Start(modules)`, from a registry that satisfies the invariant over finitely many
factories, never returns exactly when a cycle of dependencies is reachable from `modules`:
then every fuel runs out, and no `ASSERT` fails on the way; with no cycle reachable it
returns, in one registry, for every fuel from some bound on. -/
theorem startList_diverges_iff_cyclic [Finite F] {modules : List F} {r : ModuleRegistry F}
    (hr : Invariant deps r) :
    (¬ Acyclic deps modules → ∀ fuel, startList deps fuel modules r = .error .outOfFuel) ∧
      (Acyclic deps modules →
        ∃ r', ∃ n, ∀ fuel ≥ n, startList deps fuel modules r = .ok r') := by
  refine ⟨fun hcyc fuel => ?_, fun hacyc => ?_⟩
  · obtain ⟨c, ⟨root, hroot, hrc⟩, hc⟩ : ∃ c, Closure deps modules c ∧ TransGen (DependsOn deps) c c := by
      simpa [Acyclic] using hcyc
    cases h : startList deps fuel modules r with
    | ok r' =>
      exact absurd h (foldlM_ne_ok (Invariant deps)
        (fun a _ s s' hs h => (start_keeps fuel a s s' hs h).1)
        (fun s hs _ => start_stuck fuel hs hrc hc) hroot r hr r')
    | error e => rw [foldlM_error (fun r m e => start_fault fuel m r e) _ _ _ h]
  · obtain ⟨r', hrun, -⟩ := startList_settles hacyc r hr
    exact ⟨r', hrun⟩

/-! ## Lifetime of a registry, on any dependency graph -/

variable (deps) in
/-- The registries reached from the empty one by `StopAll` and by `Start(modules)` calls that
return, on any dependency graph. -/
inductive Returned : ModuleRegistry F → Prop
  | empty : Returned empty
  | start {r r' : ModuleRegistry F} {modules : List F} {fuel : Nat} : Returned r →
      startList deps fuel modules r = .ok r' → Returned r'
  | stopAll {r r' : ModuleRegistry F} {stopped : List F} : Returned r →
      stopAll r = .ok (r', stopped) → Returned r'

/-- Every registry reached by `Start` and `StopAll` calls that return satisfies the invariant,
and since it was last emptied the constructor of each started module ran exactly once and no
other ran: no finiteness or acyclicity of the dependency graph is needed. -/
theorem returned_keeps_invariant {r : ModuleRegistry F} (h : Returned deps r) :
    Invariant deps r ∧ Constructed r := by
  induction h with
  | empty => exact ⟨invariant_empty, constructed_empty⟩
  | @start r r' modules fuel _ hrun ih =>
    obtain ⟨hr', he⟩ := fold_keeps (start_keeps fuel) modules r r' ih.1 hrun
    exact ⟨hr', ih.2.extends ih.1 hr' he⟩
  | stopAll _ hstop =>
    rw [stopAll_registry hstop]
    exact ⟨invariant_empty, constructed_empty⟩

theorem returned_keeps_invariant_diamond :
    ∃ r, Returned diamond r ∧ r.startOrder = [3, 1, 2, 0] ∧ Invariant diamond r ∧ Constructed r :=
  have hrun : startList diamond 3 [0] empty = .ok _ := rfl
  have h := Returned.start .empty hrun
  ⟨_, h, rfl, returned_keeps_invariant h⟩

/-- Two modules that depend on each other. -/
def twoCycle : Fin 2 → List (Fin 2)
  | 0 => [1]
  | 1 => [0]

theorem startList_diverges_iff_cyclic_twoCycle :
    Invariant twoCycle (empty : ModuleRegistry (Fin 2)) ∧ ¬ Acyclic twoCycle [0] ∧
      ∀ fuel, startList twoCycle fuel [0] empty = .error .outOfFuel :=
  have hcyc : ¬ Acyclic twoCycle [0] := fun h =>
    h 0 ⟨0, List.mem_singleton_self 0, .refl⟩
      (.tail (.single (List.mem_singleton_self 1)) (List.mem_singleton_self 0))
  ⟨invariant_empty, hcyc, (startList_diverges_iff_cyclic invariant_empty).1 hcyc⟩

end ModuleRegistry

end Bluetooth
