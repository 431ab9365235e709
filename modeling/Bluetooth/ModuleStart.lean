import Bluetooth.Module
import Mathlib.Data.Fintype.Card

/-!
# Start establishes the registry invariant

Over finitely many factories whose dependency graph, from the started list, has no cycle,
`Start` finishes and leaves a registry where `start_order_` lists each started module once,
after all its dependencies. The proof is an induction along the dependency graph, which is
well founded because it is finite and acyclic.
-/

namespace Bluetooth

namespace ModuleRegistry

variable {F : Type} (deps : F → List F)

def DependsOn (m d : F) : Prop := d ∈ deps m

/-- The factories reachable from `modules` through declared dependencies. -/
def Closure (modules : List F) (m : F) : Prop :=
  ∃ root ∈ modules, Relation.ReflTransGen (DependsOn deps) root m

/-- No factory reachable from `modules` depends on itself through a chain of dependencies. -/
def Acyclic (modules : List F) : Prop :=
  ∀ m, Closure deps modules m → ¬ Relation.TransGen (DependsOn deps) m m

/-- The registry invariant: `start_order_` has no duplicates, its elements are the keys of
`started_modules_`, and each module's declared dependencies occur before it. -/
structure Invariant (r : ModuleRegistry F) : Prop where
  nodup : r.startOrder.Nodup
  keys : ∀ m, m ∈ r.startedModules ↔ m ∈ r.startOrder
  ordered : ∀ l₁ m l₂, r.startOrder = l₁ ++ m :: l₂ → ∀ d ∈ deps m, d ∈ l₁

/-- `r'` extends `r` by the modules `new`, each satisfying `p`, appended to `start_order_`;
the constructors that ran meanwhile are theirs, once each. -/
def Extends (p : F → Prop) (r r' : ModuleRegistry F) : Prop :=
  ∃ new ctors, r'.startOrder = r.startOrder ++ new ∧ r'.constructed = r.constructed ++ ctors ∧
    ctors.Nodup ∧ (∀ x, x ∈ ctors ↔ x ∈ new) ∧ ∀ x ∈ new, p x

variable {deps}

theorem Closure.step {modules : List F} {m d : F} (hm : Closure deps modules m)
    (hd : d ∈ deps m) : Closure deps modules d :=
  let ⟨root, hroot, h⟩ := hm
  ⟨root, hroot, h.tail hd⟩

variable (deps) in
def Below (modules : List F) (d m : F) : Prop :=
  Closure deps modules m ∧ Relation.TransGen (DependsOn deps) m d

theorem below_wf [Finite F] {modules : List F} (h : Acyclic deps modules) :
    WellFounded (Below deps modules) := by
  haveI : IsTrans F (Below deps modules) := ⟨fun _ _ _ hab hbc => ⟨hbc.1, hbc.2.trans hab.2⟩⟩
  haveI : IsIrrefl F (Below deps modules) := ⟨fun a ha => h a ha.1 ha.2⟩
  exact Finite.wellFounded_of_trans_of_irrefl _

theorem Invariant.closed {r : ModuleRegistry F} (hr : Invariant deps r) {m d : F}
    (hm : m ∈ r.startedModules) (hd : d ∈ deps m) : d ∈ r.startedModules := by
  obtain ⟨l₁, l₂, hl⟩ := List.append_of_mem ((hr.keys m).mp hm)
  exact (hr.keys d).mpr (hl ▸ List.mem_append_left _ (hr.ordered l₁ m l₂ hl d hd))

theorem Invariant.closure {r : ModuleRegistry F} (hr : Invariant deps r) {root m : F}
    (hroot : root ∈ r.startedModules) (h : Relation.ReflTransGen (DependsOn deps) root m) :
    m ∈ r.startedModules := by
  induction h with
  | refl => exact hroot
  | tail _ hd ih => exact hr.closed ih hd

theorem acyclic_of_rank (rank : F → Nat) (h : ∀ m, ∀ d ∈ deps m, rank d < rank m)
    (modules : List F) : Acyclic deps modules := by
  have hlt : ∀ a b, Relation.TransGen (DependsOn deps) a b → rank b < rank a := by
    intro a b hab
    induction hab with
    | single hd => exact h _ _ hd
    | tail _ hd ih => exact lt_trans (h _ _ hd) ih
  exact fun m _ hc => lt_irrefl _ (hlt m m hc)

theorem invariant_empty : Invariant deps (empty : ModuleRegistry F) :=
  ⟨List.nodup_nil, by simp [empty], by simp [empty]⟩

theorem Extends.refl (p : F → Prop) (r : ModuleRegistry F) : Extends p r r :=
  ⟨[], [], by simp, by simp, List.nodup_nil, by simp, by simp⟩

theorem Extends.trans {p q : F → Prop} {r₁ r₂ r₃ : ModuleRegistry F} (h₁ : Extends p r₁ r₂)
    (h₂ : Extends q r₂ r₃) (hn : r₃.startOrder.Nodup) : Extends (fun x => p x ∨ q x) r₁ r₃ := by
  obtain ⟨new₁, ctors₁, ho₁, hc₁, hn₁, he₁, hp₁⟩ := h₁
  obtain ⟨new₂, ctors₂, ho₂, hc₂, hn₂, he₂, hp₂⟩ := h₂
  rw [ho₂, ho₁, List.append_assoc] at hn
  have hdisj := (List.nodup_append.mp (List.nodup_append.mp hn).2.1).2.2
  refine ⟨new₁ ++ new₂, ctors₁ ++ ctors₂, by rw [ho₂, ho₁, List.append_assoc],
    by rw [hc₂, hc₁, List.append_assoc], ?_, fun x => by simp [he₁, he₂], fun x hx => ?_⟩
  · exact hn₁.append hn₂ fun _ h₁ h₂ => hdisj ((he₁ _).mp h₁) ((he₂ _).mp h₂)
  · rcases List.mem_append.mp hx with hx | hx
    exacts [.inl (hp₁ x hx), .inr (hp₂ x hx)]

theorem Extends.mono {p q : F → Prop} {r r' : ModuleRegistry F} (h : Extends p r r')
    (hpq : ∀ x, p x → q x) : Extends q r r' := by
  obtain ⟨new, ctors, ho, hc, hn, he, hp⟩ := h
  exact ⟨new, ctors, ho, hc, hn, he, fun x hx => hpq x (hp x hx)⟩

theorem Extends.started {p : F → Prop} {r r' : ModuleRegistry F} (hr : Invariant deps r)
    (hr' : Invariant deps r') (h : Extends p r r') {m : F} (hm : m ∈ r.startedModules) :
    m ∈ r'.startedModules := by
  obtain ⟨new, -, ho, -⟩ := h
  exact (hr'.keys m).mpr (ho ▸ List.mem_append_left _ ((hr.keys m).mp hm))

theorem Extends.not_mem {p : F → Prop} {r r' : ModuleRegistry F} (h : Extends p r r') {m : F}
    (hm : m ∉ r.startOrder) (hp : ¬ p m) : m ∉ r'.startOrder := by
  obtain ⟨new, -, ho, -, -, -, hnew⟩ := h
  rw [ho, List.mem_append]
  exact fun h => h.elim hm fun h => hp (hnew m h)

theorem Extends.fresh {p : F → Prop} {r r' : ModuleRegistry F} (hr : Invariant deps r)
    (hr' : Invariant deps r') (h : Extends p r r') :
    ∃ fresh, r'.constructed = r.constructed ++ fresh ∧ fresh.Nodup ∧
      ∀ m, m ∈ fresh ↔ m ∈ r'.startedModules ∧ m ∉ r.startedModules := by
  obtain ⟨new, ctors, ho, hc, hnd, hce, -⟩ := h
  refine ⟨ctors, hc, hnd, fun m => ?_⟩
  have hdisj := (List.nodup_append.mp (ho ▸ hr'.nodup)).2.2
  rw [hce, hr'.keys, hr.keys, ho, List.mem_append]
  exact ⟨fun h => ⟨.inr h, fun h' => hdisj h' h⟩, fun h => h.1.resolve_left h.2⟩

/-- Since the registry was last emptied, the constructor of each started module ran exactly
once and no other constructor ran. -/
structure Constructed (r : ModuleRegistry F) : Prop where
  nodup : r.constructed.Nodup
  started : ∀ m, m ∈ r.constructed ↔ m ∈ r.startedModules

theorem constructed_empty : Constructed (empty : ModuleRegistry F) :=
  ⟨List.nodup_nil, by simp [empty]⟩

theorem Constructed.extends {p : F → Prop} {r r' : ModuleRegistry F} (hc : Constructed r)
    (hr : Invariant deps r) (hr' : Invariant deps r') (h : Extends p r r') : Constructed r' := by
  obtain ⟨fresh, he, hn, hf⟩ := h.fresh hr hr'
  refine ⟨he ▸ hc.nodup.append hn fun m h₁ h₂ => ((hf m).mp h₂).2 ((hc.started m).mp h₁),
    fun m => ?_⟩
  rw [he, List.mem_append, hf, hc.started]
  by_cases hm : m ∈ r.startedModules
  · exact ⟨fun _ => h.started hr hr' hm, fun _ => .inl hm⟩
  · exact ⟨fun h => h.resolve_left hm |>.1, fun h => .inr ⟨h, hm⟩⟩

variable [DecidableEq F]

theorem Invariant.record {r : ModuleRegistry F} (hr : Invariant deps r) {m : F}
    (hm : m ∉ r.startOrder) (hd : ∀ d ∈ deps m, d ∈ r.startOrder) :
    Invariant deps { r with startOrder := r.startOrder ++ [m],
                            startedModules := insert m r.startedModules } where
  nodup := hr.nodup.append (List.nodup_singleton m) (by simpa using hm)
  keys x := by simp [hr.keys x, or_comm]
  ordered l₁ x l₂ h := by
    rcases List.eq_nil_or_concat l₂ with rfl | ⟨L, b, rfl⟩
    · obtain ⟨rfl, h'⟩ := List.append_inj' h rfl
      cases h'
      exact hd
    · change r.startOrder ++ [m] = _ at h
      rw [List.concat_eq_append, ← List.cons_append, ← List.append_assoc] at h
      obtain ⟨h', -⟩ := List.append_inj' h rfl
      exact hr.ordered l₁ x L h'

theorem startInstance_ok {dependencies : List F} {r : ModuleRegistry F}
    (h : ∀ d ∈ dependencies, d ∈ r.startedModules) : startInstance dependencies r = .ok () := by
  suffices ∀ l ⊆ dependencies, forM l (r.getDependency dependencies) = .ok () from
    this _ (List.Subset.refl _)
  intro l hl
  induction l with
  | nil => rfl
  | cons d l ih =>
    have hd : d ∈ dependencies := hl (List.mem_cons_self d l)
    simp only [List.forM_cons, getDependency, get, hd, h d hd, if_true]
    exact ih (fun x hx => hl (List.mem_cons_of_mem d hx))

theorem Extends.record {p : F → Prop} {r r₁ : ModuleRegistry F} {m : F}
    (h : Extends p { r with constructed := r.constructed ++ [m] } r₁) (hm : m ∉ r₁.startOrder) :
    Extends (fun x => p x ∨ x = m) r
      { r₁ with startOrder := r₁.startOrder ++ [m], startedModules := insert m r₁.startedModules } := by
  obtain ⟨new, ctors, ho, hc, hnd, hce, hp⟩ := h
  refine ⟨new ++ [m], m :: ctors, by simp [ho], by simp [hc], ?_, fun x => by simp [hce, or_comm],
    fun x hx => ?_⟩
  · exact List.nodup_cons.mpr ⟨fun h => hm (ho ▸ List.mem_append_right _ ((hce m).mp h)), hnd⟩
  · rcases List.mem_append.mp hx with hx | hx
    exacts [.inl (hp x hx), .inr (List.mem_singleton.mp hx)]

theorem start_succ_of_foldlM {fuel : Nat} {m : F} {r r₁ : ModuleRegistry F}
    (hs : m ∉ r.startedModules)
    (hfold : (deps m).foldlM (fun r d => start deps fuel d r)
      { r with constructed := r.constructed ++ [m] } = .ok r₁)
    (hdep : ∀ d ∈ deps m, d ∈ r₁.startedModules) :
    start deps (fuel + 1) m r =
      .ok { r₁ with startOrder := r₁.startOrder ++ [m], startedModules := insert m r₁.startedModules } := by
  simp only [start, hs, if_false, hfold, startInstance_ok hdep, bind, Except.bind, pure, Except.pure]

variable (deps) in
/-- From `r`, `run fuel` succeeds for every fuel from some bound on, and always in the same
registry: one that keeps the invariant, has every module of `done` started, and extends `r`
by modules satisfying `p`. -/
def Settles (run : Nat → ModuleRegistry F → Except Fault (ModuleRegistry F)) (done p : F → Prop)
    (r : ModuleRegistry F) : Prop :=
  ∃ r', (∃ n, ∀ fuel ≥ n, run fuel r = .ok r') ∧ Invariant deps r' ∧
    (∀ x, done x → x ∈ r'.startedModules) ∧ Extends p r r'

theorem fold_settles {ds : List F} {p : F → F → Prop}
    (hds : ∀ d ∈ ds, ∀ r, Invariant deps r → Settles deps (fun fuel r => start deps fuel d r) (· = d) (p d) r) :
    ∀ r, Invariant deps r → Settles deps (fun fuel r => ds.foldlM (fun r m => start deps fuel m r) r)
      (· ∈ ds) (fun x => ∃ d ∈ ds, p d x) r := by
  induction ds with
  | nil => exact fun r hr => ⟨r, ⟨0, fun _ _ => rfl⟩, hr, by simp, Extends.refl _ r⟩
  | cons d ds ih =>
    intro r hr
    obtain ⟨r₁, ⟨n₁, hn₁⟩, hr₁, hd₁, he₁⟩ := hds d (List.mem_cons_self d ds) r hr
    obtain ⟨r₂, ⟨n₂, hn₂⟩, hr₂, hd₂, he₂⟩ :=
      ih (fun d' hd' => hds d' (List.mem_cons_of_mem d hd')) r₁ hr₁
    refine ⟨r₂, ⟨max n₁ n₂, fun fuel hf => ?_⟩, hr₂, fun x hx => ?_, ?_⟩
    · simp only [List.foldlM_cons, hn₁ fuel (le_of_max_le_left hf), bind, Except.bind]
      exact hn₂ fuel (le_of_max_le_right hf)
    · rcases List.mem_cons.mp hx with rfl | hx
      · exact he₂.started hr₁ hr₂ (hd₁ x rfl)
      · exact hd₂ x hx
    · refine (he₁.trans he₂ hr₂.nodup).mono fun x hx => ?_
      rcases hx with h | ⟨d', hd', h⟩
      exacts [⟨d, List.mem_cons_self d ds, h⟩, ⟨d', List.mem_cons_of_mem d hd', h⟩]

theorem start_settles [Finite F] {modules : List F} (hacyc : Acyclic deps modules) (m : F)
    (hm : Closure deps modules m) (r : ModuleRegistry F) (hr : Invariant deps r) :
    Settles deps (fun fuel r => start deps fuel m r) (· = m)
      (Relation.ReflTransGen (DependsOn deps) m) r := by
  induction m using (below_wf hacyc).induction generalizing r with
  | _ m ih =>
  by_cases hs : m ∈ r.startedModules
  · refine ⟨r, ⟨1, fun fuel hf => ?_⟩, hr, fun x hx => hx ▸ hs, Extends.refl _ r⟩
    obtain ⟨k, rfl⟩ : ∃ k, fuel = k + 1 := ⟨fuel - 1, by omega⟩
    simp [start, hs]
  · have hr₀ : Invariant deps { r with constructed := r.constructed ++ [m] } :=
      ⟨hr.nodup, hr.keys, hr.ordered⟩
    obtain ⟨r₁, ⟨n₁, hn₁⟩, hr₁, hdep, he⟩ :=
      fold_settles (fun d hd r hr => ih d ⟨hm, .single hd⟩ (hm.step hd) r hr) _ hr₀
    have hm₁ : m ∉ r₁.startOrder := he.not_mem (fun h => hs ((hr.keys m).mpr h))
      fun ⟨d, hd, hdm⟩ => hacyc m hm (.head' hd hdm)
    refine ⟨_, ⟨n₁ + 1, fun fuel hf => ?_⟩, hr₁.record hm₁ fun d hd => (hr₁.keys d).mp (hdep d hd),
      fun x hx => by simp [hx], (he.record hm₁).mono fun x hx => ?_⟩
    · obtain ⟨k, rfl⟩ : ∃ k, fuel = k + 1 := ⟨fuel - 1, by omega⟩
      exact start_succ_of_foldlM hs (hn₁ k (by omega)) hdep
    · rcases hx with ⟨d, hd, hdx⟩ | rfl
      exacts [.head hd hdx, .refl]

theorem startList_settles [Finite F] {modules : List F} (hacyc : Acyclic deps modules)
    (r : ModuleRegistry F) (hr : Invariant deps r) :
    Settles deps (fun fuel r => startList deps fuel modules r) (· ∈ modules)
      (Closure deps modules) r :=
  fold_settles (fun root hroot r hr => start_settles hacyc root ⟨root, hroot, .refl⟩ r hr) r hr

/-- `Start(modules)` on a finite dependency graph with no cycle reachable from `modules`,
from any registry that satisfies the invariant: for all fuel from some bound on it returns,
without failing an `ASSERT` (so every module's `Start` step found each of its dependencies
started), one registry. That registry satisfies the invariant and has the whole closure
of `modules` started, and the constructors that ran are those of the modules it newly
started, each once, so that no constructor has run twice since the registry was emptied if
none had before. -/
theorem start_establishes_invariant [Finite F] {modules : List F} {r : ModuleRegistry F}
    (hacyc : Acyclic deps modules) (hr : Invariant deps r) :
    ∃ r', (∃ n, ∀ fuel ≥ n, startList deps fuel modules r = .ok r') ∧ Invariant deps r' ∧
      (∀ m, Closure deps modules m → m ∈ r'.startedModules) ∧
      (Constructed r → Constructed r') ∧
      ∃ fresh, r'.constructed = r.constructed ++ fresh ∧ fresh.Nodup ∧
        ∀ m, m ∈ fresh ↔ m ∈ r'.startedModules ∧ m ∉ r.startedModules := by
  obtain ⟨r', hrun, hr', hroots, he⟩ := startList_settles hacyc r hr
  exact ⟨r', hrun, hr', fun m ⟨root, hroot, h⟩ => hr'.closure (hroots root hroot) h,
    fun hc => hc.extends hr hr' he, he.fresh hr hr'⟩

/-- The dependency diamond `0 → {1, 2} → 3`. -/
def diamond : Fin 4 → List (Fin 4)
  | 0 => [1, 2]
  | 1 => [3]
  | 2 => [3]
  | 3 => []

theorem start_establishes_invariant_on_diamond :
    Acyclic diamond [0] ∧ Invariant diamond (empty : ModuleRegistry (Fin 4)) ∧
    ∃ r', (∃ n, ∀ fuel ≥ n, startList diamond fuel [0] empty = .ok r') ∧ Invariant diamond r' ∧
      (∀ m, Closure diamond [0] m → m ∈ r'.startedModules) ∧
      (Constructed (empty : ModuleRegistry (Fin 4)) → Constructed r') ∧
      ∃ fresh, r'.constructed = empty.constructed ++ fresh ∧ fresh.Nodup ∧
        ∀ m, m ∈ fresh ↔ m ∈ r'.startedModules ∧ m ∉ (empty : ModuleRegistry (Fin 4)).startedModules :=
  have hacyc := acyclic_of_rank (fun i => 3 - i.val) (by decide) [0]
  ⟨hacyc, invariant_empty, start_establishes_invariant hacyc invariant_empty⟩

end ModuleRegistry

end Bluetooth
