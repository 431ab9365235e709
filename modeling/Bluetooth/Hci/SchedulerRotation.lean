import Bluetooth.Hci.Fragmentation
import Mathlib.Data.List.Chain
import Mathlib.Data.List.Nodup
import Mathlib.Data.Nat.ModEq

/-!
# The rotation of the starting point

A `StartRoundRobin` run that gets past its two early returns registers the dequeues in a pass
that begins at `starting_point_`, or at `begin()` when the map has one node or the cursor is
at `end()`, and then advances the cursor by one node. Only `Register` and `Unregister` change
the connections or move the cursor otherwise, so between them successive passes begin at
successive connections in ascending handle order, the largest followed through `end()` by the
smallest, and any `n` consecutive passes over `n` connections begin at `n` different ones.
-/

namespace Bluetooth.Hci

/-! ## Passes -/

namespace RoundRobinScheduler

variable {s s' u : RoundRobinScheduler}

/-- The connection a `StartRoundRobin` run on `s` begins its registration pass at; `none` when
it returns before the pass. -/
def loopStart (s : RoundRobinScheduler) : Option UInt16 :=
  if s.aclPacketCredits = 0 ∧ s.leAclPacketCredits = 0 then none
  else if s.fragmentsToSend ≠ [] then none
  else match s.passStart with
    | .node a => some a
    | _ => none

/-- The state on which `IncomingAclCredits` calls `StartRoundRobin`, if it does. -/
def incomingAclCreditsRestart (s : RoundRobinScheduler) (handle credits : UInt16) :
    Option RoundRobinScheduler :=
  match s.aclQueueHandlers.find handle with
  | none => none
  | some r =>
    if r.isDisconnected then none
    else
      match (({ s with aclQueueHandlers := s.aclQueueHandlers.modify handle fun r =>
          { r with numberOfSentPackets := r.numberOfSentPackets - credits } }).addCredits
            r.connectionType credits).checkCredits with
      | .ok returned =>
        if returned.aclPacketCredits = credits ∨ returned.leAclPacketCredits = credits then
          some returned
        else none
      | .error _ => none

theorem passStart_congr (hk : u.aclQueueHandlers.keys = s.aclQueueHandlers.keys)
    (hc : u.startingPoint = s.startingPoint) : u.passStart = s.passStart := by
  simp only [passStart, HandleMap.size_eq, HandleMap.begin_eq, hk, hc]

theorem registerDequeues_keys {m m' : HandleMap AclQueueHandler} {count : Nat} {it : HandleIter}
    (h : registerDequeues m count it = .ok m') : m'.keys = m.keys := by
  induction count generalizing m it with
  | zero => cases h; rfl
  | succ count ih =>
    cases it with
    | node a =>
      unfold registerDequeues at h
      rw [ih h, HandleMap.keys_modify]
    | header => cases h
    | null => cases h

theorem startRoundRobin_rotation (h : s.startRoundRobin = .ok s') :
    s'.aclQueueHandlers.keys = s.aclQueueHandlers.keys ∧
    ((s.loopStart = none ∧ s'.startingPoint = s.startingPoint) ∨
      ∃ a, s.loopStart = some a ∧ s.passStart = .node a ∧
        s'.startingPoint = s.aclQueueHandlers.next a) := by
  unfold startRoundRobin at h
  unfold loopStart
  split_ifs at h ⊢
  · cases h; exact ⟨rfl, .inl ⟨rfl, rfl⟩⟩
  · cases h; exact ⟨rfl, .inl ⟨rfl, rfl⟩⟩
  · obtain ⟨m, hm, h⟩ := bind_eq_ok.mp h
    have hk := registerDequeues_keys hm
    split at h
    · rename_i it hit
      cases h
      obtain ⟨a, hp, rfl⟩ := HandleMap.advance_eq_some.mp hit
      exact ⟨hk, .inr ⟨a, by rw [hp], hp, HandleMap.next_congr hk a⟩⟩
    · cases h

theorem incomingAclCredits_restart {handle credits : UInt16}
    (h : s.incomingAclCredits handle credits = .ok s') :
    (s.incomingAclCreditsRestart handle credits = none ∧
      s'.aclQueueHandlers.keys = s.aclQueueHandlers.keys ∧
      s'.startingPoint = s.startingPoint) ∨
    ∃ u, s.incomingAclCreditsRestart handle credits = some u ∧
      u.aclQueueHandlers.keys = s.aclQueueHandlers.keys ∧ u.startingPoint = s.startingPoint ∧
      u.startRoundRobin = .ok s' := by
  unfold incomingAclCredits at h
  unfold incomingAclCreditsRestart
  cases hr : s.aclQueueHandlers.find handle with
  | none => rw [hr] at h; cases h; exact .inl ⟨rfl, rfl, rfl⟩
  | some r =>
    rw [hr] at h
    dsimp only at h ⊢
    by_cases hd : r.isDisconnected
    · rw [if_pos hd] at h ⊢
      cases h; exact .inl ⟨rfl, rfl, rfl⟩
    · rw [if_neg hd] at h ⊢
      obtain ⟨c, hc, h⟩ := bind_eq_ok.mp h
      rw [hc]
      have hcs : c.aclQueueHandlers.keys = s.aclQueueHandlers.keys ∧
          c.startingPoint = s.startingPoint := by
        rw [checkCredits_eq hc]
        unfold addCredits
        split <;> exact ⟨HandleMap.keys_modify _ _ _, rfl⟩
      dsimp only
      split_ifs at h ⊢
      · exact .inr ⟨c, rfl, hcs.1, hcs.2, h⟩
      · cases h; exact .inl ⟨rfl, hcs⟩

theorem afterPop_startingPoint : (afterPop s).startingPoint = s.startingPoint := by
  unfold afterPop; split
  · rfl
  · dsimp only; split <;> rfl

theorem passStart_after {K : List UInt16} {i : Nat} {a : UInt16}
    (hK : s.aclQueueHandlers.keys = K) (ha : K[i]? = some a)
    (hc : s.startingPoint = s.aclQueueHandlers.next a) :
    ∃ b, K[(i + 1) % K.length]? = some b ∧ s.passStart = .node b := by
  subst hK
  obtain ⟨hi, rfl⟩ := List.getElem?_eq_some_iff.mp ha
  rw [HandleMap.next_getElem _ hi] at hc
  unfold passStart
  rw [HandleMap.size_eq, hc]
  by_cases hnext : i + 1 < s.aclQueueHandlers.keys.length
  · -- the cursor is on the next connection
    have hnot : ¬ (s.aclQueueHandlers.keys.length = 1 ∨
        HandleIter.node s.aclQueueHandlers.keys[i + 1] = .header) := by
      rintro (h | h)
      · omega
      · cases h
    rw [dif_pos hnext, if_neg hnot, Nat.mod_eq_of_lt hnext]
    exact ⟨_, List.getElem?_eq_getElem hnext, rfl⟩
  · -- the cursor is at `end()`: the pass begins at `begin()`
    have hlast : (i + 1) % s.aclQueueHandlers.keys.length = 0 := by
      rw [show i + 1 = s.aclQueueHandlers.keys.length by omega, Nat.mod_self]
    rw [dif_neg hnext, if_pos (.inr rfl), hlast, HandleMap.begin_eq]
    cases hk : s.aclQueueHandlers.keys with
    | nil => simp [hk] at hi
    | cons k ks => exact ⟨k, by simp, rfl⟩

/-- The cursor is `null`, `end()`, or the node of a connection. -/
def CursorValid (s : RoundRobinScheduler) : Prop :=
  ∀ a, s.startingPoint = .node a → a ∈ s.aclQueueHandlers.keys

theorem CursorValid.passStart_mem (hv : s.CursorValid) {a : UInt16} (ha : s.passStart = .node a) :
    a ∈ s.aclQueueHandlers.keys := by
  unfold passStart at ha
  split at ha
  exacts [HandleMap.mem_keys_of_begin ha, hv a ha]

theorem CursorValid.of_moved (hv : s.CursorValid)
    (hk : s'.aclQueueHandlers.keys = s.aclQueueHandlers.keys)
    (hc : s'.startingPoint = s.startingPoint ∨ ∃ a, s'.startingPoint = s.aclQueueHandlers.next a) :
    s'.CursorValid := by
  intro a ha
  rw [hk]
  rcases hc with hc | ⟨b, hc⟩
  · exact hv a (hc ▸ ha)
  · exact HandleMap.mem_keys_of_next (hc ▸ ha)

end RoundRobinScheduler

/-! ## Passes along a run -/

def Event.changesConnections : Event → Bool
  | .register _ _ => true
  | .unregister _ => true
  | _ => false

namespace World

open RoundRobinScheduler

/-- The connection at which event `e` makes a registration pass, if it makes one. -/
def passOf (w : World) : Event → Option UInt16
  | .register t h =>
    let inserted := { w.scheduler with
      aclQueueHandlers := w.scheduler.aclQueueHandlers.insert h { connectionType := t } }
    if inserted.fragmentsToSend = [] then inserted.loopStart else none
  | .startRoundRobin =>
    { w.scheduler with postedStartRoundRobin := w.scheduler.postedStartRoundRobin - 1 }.loopStart
  | .incomingAclCredits h n => (w.scheduler.incomingAclCreditsRestart h n).bind loopStart
  | _ => none

/-- The passes of a run, as `World.run` makes it: each with the connection it began at and the
cursor it left. -/
def passLog (w : World) : List Event → List (UInt16 × HandleIter)
  | [] => []
  | e :: es =>
    if w.Allowed e then
      match w.step e with
      | .ok w' => ((w.passOf e).map fun a => (a, w'.scheduler.startingPoint)).toList ++ w'.passLog es
      | .error _ => []
    else []

variable {w w' : World} {e : Event}

theorem step_rotation (he : e.changesConnections = false) (hs : w.step e = .ok w') :
    w'.scheduler.aclQueueHandlers.keys = w.scheduler.aclQueueHandlers.keys ∧
    ((w.passOf e = none ∧ w'.scheduler.startingPoint = w.scheduler.startingPoint) ∨
      ∃ a, w.passOf e = some a ∧ w.scheduler.passStart = .node a ∧
        w'.scheduler.startingPoint = w.scheduler.aclQueueHandlers.next a) := by
  cases e with
  | register => cases he
  | unregister => cases he
  | setDisconnect h =>
    obtain ⟨s, hs', hw⟩ := bind_eq_ok.mp hs
    cases hw
    unfold RoundRobinScheduler.setDisconnect at hs'
    split at hs'
    · cases hs'
    · cases hs'
      obtain ⟨a, b, hab⟩ := addCredits_eq (s := w.scheduler) _ _
      rw [hab]
      exact ⟨rfl, .inl ⟨rfl, rfl⟩⟩
  | bufferPacket h p =>
    obtain ⟨s, hs', hw⟩ := bind_eq_ok.mp hs
    cases hw
    cases hr : w.scheduler.aclQueueHandlers.find h with
    | none => simp [RoundRobinScheduler.bufferPacket, hr] at hs'
    | some r =>
      obtain ⟨s'', hs'', -, -, hk, hc⟩ := bufferPacket_spec hr p
      rw [hs''] at hs'
      cases hs'
      exact ⟨hk, .inl ⟨rfl, hc⟩⟩
  | handleEnqueueNextFragment =>
    obtain ⟨⟨f, s⟩, hs', hw⟩ := bind_eq_ok.mp hs
    cases hw
    unfold RoundRobinScheduler.handleEnqueueNextFragment at hs'
    split at hs'
    · cases hs'
    · obtain ⟨c, hc, hpop⟩ := bind_eq_ok.mp hs'
      cases hpop
      obtain ⟨a, b, rfl⟩ := takeCredit_eq hc
      exact ⟨congrArg HandleMap.keys afterPop_aclQueueHandlers, .inl ⟨rfl, afterPop_startingPoint⟩⟩
  | startRoundRobin =>
    obtain ⟨s, hs', hw⟩ := bind_eq_ok.mp hs
    cases hw
    unfold runPostedStartRoundRobin at hs'
    obtain ⟨hk, hcases⟩ := startRoundRobin_rotation hs'
    exact ⟨hk, hcases⟩
  | incomingAclCredits h n =>
    obtain ⟨s, hs', hw⟩ := bind_eq_ok.mp hs
    cases hw
    rcases incomingAclCredits_restart hs' with ⟨hnone, hk, hc⟩ | ⟨u, hu, hk, hc, hsu⟩
    · exact ⟨hk, .inl ⟨by simp [passOf, hnone], hc⟩⟩
    · obtain ⟨hk', hcases⟩ := startRoundRobin_rotation hsu
      refine ⟨hk'.trans hk, ?_⟩
      rcases hcases with ⟨hl, hc'⟩ | ⟨a, hl, hp, hc'⟩
      · exact .inl ⟨by simp [passOf, hu, hl], hc'.trans hc⟩
      · exact .inr ⟨a, by simp [passOf, hu, hl], (passStart_congr hk hc).symm.trans hp,
          hc'.trans (HandleMap.next_congr hk a)⟩

theorem step_cursorValid (hv : w.scheduler.CursorValid) (hs : w.step e = .ok w') :
    w'.scheduler.CursorValid := by
  cases e with
  | register t h =>
    obtain ⟨s, hs', hw⟩ := bind_eq_ok.mp hs
    cases hw
    have hins : ({ w.scheduler with aclQueueHandlers :=
        w.scheduler.aclQueueHandlers.insert h { connectionType := t } } : RoundRobinScheduler).CursorValid :=
      fun a ha => HandleMap.mem_keys_insert (hv a ha)
    unfold RoundRobinScheduler.register at hs'
    dsimp only at hs'
    split at hs'
    · obtain ⟨hk, hcases⟩ := startRoundRobin_rotation hs'
      exact hins.of_moved hk (hcases.imp And.right fun ⟨b, _, _, hc⟩ => ⟨b, hc⟩)
    · cases hs'; exact hins
  | unregister h =>
    obtain ⟨s, hs', hw⟩ := bind_eq_ok.mp hs
    cases hw
    unfold RoundRobinScheduler.unregister at hs'
    split at hs'
    · cases hs'
    · cases hs'
      exact fun a ha => HandleMap.mem_keys_of_begin ha
  | _ =>
    obtain ⟨hk, hcases⟩ := step_rotation (by rfl) hs
    exact hv.of_moved hk (hcases.imp And.right fun ⟨b, _, _, hc⟩ => ⟨b, hc⟩)

theorem Reachable.cursorValid (h : w.Reachable) : w.scheduler.CursorValid := by
  induction h with
  | init => intro a ha; cases ha
  | step _ _ hs ih => exact step_cursorValid ih hs

/-- `b` follows `a` among `keys`: the next key in the list, the last followed by the first. -/
def FollowsCyclically (keys : List UInt16) (a b : UInt16) : Prop :=
  ∃ i, keys[i]? = some a ∧ keys[(i + 1) % keys.length]? = some b

theorem passLog_rotation {K : List UInt16} {m₀ : HandleMap AclQueueHandler} (hK : m₀.keys = K) :
    ∀ {es : List Event} {w w' : World}, w.Reachable → w.scheduler.aclQueueHandlers.keys = K →
      (∀ e ∈ es, e.changesConnections = false) → w.run es = some w' →
      (∀ p ∈ w.passLog es, p.1 ∈ K ∧ p.2 = m₀.next p.1) ∧
      ((w.passLog es).map Prod.fst).Chain' (FollowsCyclically K) ∧
      ∀ a ∈ ((w.passLog es).map Prod.fst).head?, w.scheduler.passStart = .node a
  | [], _, _, _, _, _, _ => by simp [passLog]
  | e :: es, w, w', hw, hwK, hes, hrun => by
    simp only [run] at hrun
    split_ifs at hrun with ha
    split at hrun
    · rename_i w₁ hs
      have he := hes e (List.mem_cons_self _ _)
      obtain ⟨hk, hcases⟩ := step_rotation he hs
      obtain ⟨ih₁, ih₂, ih₃⟩ := passLog_rotation hK (hw.step ha hs) (hk.trans hwK)
        (fun e' he' => hes e' (List.mem_cons_of_mem _ he')) hrun
      simp only [passLog, if_pos ha, hs]
      rcases hcases with ⟨hp, hc⟩ | ⟨a, hp, hstart, hc⟩
      · -- no pass: the passes of the rest begin where the cursor still says
        rw [hp]
        refine ⟨ih₁, ih₂, fun a ha' => ?_⟩
        rw [← ih₃ a ha', passStart_congr hk hc]
      · obtain ⟨i, hi⟩ := List.getElem?_of_mem (hwK ▸ hw.cursorValid.passStart_mem hstart)
        have hc₀ : w₁.scheduler.startingPoint = m₀.next a := by
          rw [hc, HandleMap.next_congr (hK.trans hwK.symm)]
        obtain ⟨b, hb, hnext⟩ := passStart_after (hk.trans hwK) hi
          (hc.trans (HandleMap.next_congr hk a).symm)
        simp only [hp, Option.map_some', Option.toList_some, List.singleton_append, List.mem_cons,
          forall_eq_or_imp, List.map_cons]
        refine ⟨⟨⟨hwK ▸ hw.cursorValid.passStart_mem hstart, hc₀⟩, ih₁⟩, ?_,
          fun a' ha' => by simpa [hstart] using ha'⟩
        cases hl : (w₁.passLog es).map Prod.fst with
        | nil => exact List.chain'_singleton a
        | cons b' l =>
          rw [hl] at ih₂ ih₃
          have hb' : b' = b := by simpa [hnext] using (ih₃ b' rfl).symm
          subst hb'
          exact List.Chain'.cons ⟨i, hi, hb⟩ ih₂
    · cases hrun

/-! ## Consecutive passes -/

theorem getElem?_inj_of_nodup {K : List UInt16} (hK : K.Nodup) {i j : Nat} {a : UInt16}
    (hi : K[i]? = some a) (hj : K[j]? = some a) : i = j := by
  obtain ⟨hi, rfl⟩ := List.getElem?_eq_some_iff.mp hi
  obtain ⟨hj, hij⟩ := List.getElem?_eq_some_iff.mp hj
  exact ((hK.getElem_inj_iff).mp hij).symm

theorem getElem?_of_chain {K : List UInt16} (hK : K.Nodup) :
    ∀ {L : List UInt16} {i : Nat}, L.Chain' (FollowsCyclically K) → i < K.length →
      L.head? = K[i]? → ∀ t < L.length, L[t]? = K[(i + t) % K.length]?
  | [], _, _, _, _, t, ht => absurd ht (by simp)
  | a :: L, i, hL, hi, hhead, t, ht => by
    cases t with
    | zero => simpa [Nat.mod_eq_of_lt hi] using hhead
    | succ t =>
      cases L with
      | nil => simp at ht
      | cons b L =>
        obtain ⟨⟨j, hj, hb⟩, hL⟩ := List.chain'_cons.mp hL
        have hji : j = i := getElem?_inj_of_nodup hK hj (by simpa using hhead.symm)
        subst hji
        have := getElem?_of_chain hK hL (Nat.mod_lt _ (by omega)) (by simpa using hb.symm) t
          (by simpa using ht)
        rw [List.getElem?_cons_succ, this, Nat.mod_add_mod, Nat.add_right_comm, Nat.add_assoc]

theorem mod_add_ne {n a t₁ t₂ : Nat} (h₁ : t₁ < t₂) (h₂ : t₂ < n) : (a + t₁) % n ≠ (a + t₂) % n := by
  intro h
  have := Nat.ModEq.add_left_cancel' a h
  rw [Nat.ModEq, Nat.mod_eq_of_lt (by omega), Nat.mod_eq_of_lt h₂] at this
  omega

theorem nodup_window_of_chain {K L : List UInt16} (hK : K.Nodup)
    (hL : L.Chain' (FollowsCyclically K)) (j : Nat) : ((L.drop j).take K.length).Nodup := by
  have hL' := hL.drop j
  generalize L.drop j = L' at hL' ⊢
  match L', hL' with
  | [], _ => simp
  | [a], _ => exact (List.take_sublist _ _).nodup (List.nodup_singleton a)
  | a :: b :: L'', hL' =>
    obtain ⟨i, hi, -⟩ := (List.chain'_cons.mp hL').1
    have hlt := (List.getElem?_eq_some_iff.mp hi).1
    have hget := getElem?_of_chain hK hL' hlt (by simpa using hi.symm)
    refine List.nodup_iff_getElem?_ne_getElem?.mpr fun t₁ t₂ h₁₂ h₂ heq => ?_
    rw [List.length_take] at h₂
    obtain ⟨hK₂, hL₂⟩ := Nat.lt_min.mp h₂
    rw [List.getElem?_take, List.getElem?_take, if_pos (by omega), if_pos hK₂,
      hget t₁ (by omega), hget t₂ hL₂] at heq
    obtain ⟨v, h₁⟩ : ∃ v, K[(i + t₁) % K.length]? = some v :=
      ⟨_, List.getElem?_eq_getElem (Nat.mod_lt _ (by omega))⟩
    exact mod_add_ne h₁₂ hK₂ (getElem?_inj_of_nodup hK h₁ (heq ▸ h₁))

/-- Over any run from a reachable world without `Register` and `Unregister`: the connections'
handles are in ascending order, every registration pass begins at a connection and leaves
`starting_point_` one node further (`end()` after the largest handle), each pass begins at the
connection that follows the previous pass's in ascending handle order, the smallest after the
largest, and any `n` consecutive passes over the `n` connections begin at different ones. -/
theorem startRoundRobin_rotates_starting_point {w w' : World} {es : List Event}
    (hw : w.Reachable) (hes : ∀ e ∈ es, e.changesConnections = false) (hrun : w.run es = some w') :
    (w.scheduler.aclQueueHandlers.keys.map UInt16.toNat).Pairwise (· < ·) ∧
    (∀ p ∈ w.passLog es, p.1 ∈ w.scheduler.aclQueueHandlers.keys ∧
      p.2 = w.scheduler.aclQueueHandlers.next p.1) ∧
    ((w.passLog es).map Prod.fst).Chain' (FollowsCyclically w.scheduler.aclQueueHandlers.keys) ∧
    ∀ j, ((((w.passLog es).map Prod.fst).drop j).take
      w.scheduler.aclQueueHandlers.keys.length).Nodup := by
  obtain ⟨h₁, h₂, -⟩ := passLog_rotation rfl hw rfl hes hrun
  have hnodup : w.scheduler.aclQueueHandlers.keys.Nodup :=
    List.Nodup.of_map _ (w.scheduler.aclQueueHandlers.keys_sorted.imp (ne_of_lt))
  exact ⟨w.scheduler.aclQueueHandlers.keys_sorted, h₁, h₂, nodup_window_of_chain hnodup h₂⟩

/-- Each of three classic connections hands over one payload, which goes out, and the posted
`StartRoundRobin` runs a pass. -/
def threePayloads : List Event :=
  [.bufferPacket 3 [0], .handleEnqueueNextFragment, .startRoundRobin,
    .bufferPacket 1 [0], .handleEnqueueNextFragment, .startRoundRobin,
    .bufferPacket 2 [0], .handleEnqueueNextFragment, .startRoundRobin]

theorem startRoundRobin_rotates_starting_point_threePayloads :
    ∃ w w', (World.init 10 27 0 27).run [.register .CLASSIC 1, .register .CLASSIC 2,
        .register .CLASSIC 3] = some w ∧ w.Reachable ∧
      (∀ e ∈ threePayloads, e.changesConnections = false) ∧ w.run threePayloads = some w' ∧
      ((w.passLog threePayloads).map Prod.fst = [3, 1, 2]) ∧
      (w.scheduler.aclQueueHandlers.keys.map UInt16.toNat).Pairwise (· < ·) ∧
      (∀ p ∈ w.passLog threePayloads, p.1 ∈ w.scheduler.aclQueueHandlers.keys ∧
        p.2 = w.scheduler.aclQueueHandlers.next p.1) ∧
      ((w.passLog threePayloads).map Prod.fst).Chain'
        (FollowsCyclically w.scheduler.aclQueueHandlers.keys) ∧
      ∀ j, ((((w.passLog threePayloads).map Prod.fst).drop j).take
        w.scheduler.aclQueueHandlers.keys.length).Nodup := by
  obtain ⟨w, hw⟩ : ∃ w, (World.init 10 27 0 27).run [.register .CLASSIC 1, .register .CLASSIC 2,
      .register .CLASSIC 3] = some w := ⟨_, rfl⟩
  obtain ⟨w', hw'⟩ : ∃ w', w.run threePayloads = some w' := by cases hw; exact ⟨_, rfl⟩
  have hes : ∀ e ∈ threePayloads, e.changesConnections = false := by decide
  exact ⟨w, w', hw, (Reachable.init 10 27 0 27).run hw, hes, hw', by cases hw; rfl,
    startRoundRobin_rotates_starting_point ((Reachable.init 10 27 0 27).run hw) hes hw'⟩

end World

end Bluetooth.Hci
