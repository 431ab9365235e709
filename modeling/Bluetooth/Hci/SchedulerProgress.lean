import Bluetooth.Hci.SchedulerCredits
import Bluetooth.Hci.SchedulerRotation

/-!
# Which events can fail

A member function of the scheduler fails at an `ASSERT` or at undefined behaviour. In a run
without `SetDisconnect` only one of these is left: the credit `ASSERT` of
`HandleEnqueueNextFragment`. The ledger keeps both pools within their maxima, so the two
`ASSERT`s of `IncomingAclCredits` hold, and no connection is ever erased, so every
`StartRoundRobin` that makes a pass finds a connection to begin it at.
-/

namespace Bluetooth.Hci

namespace RoundRobinScheduler

variable {s s' : RoundRobinScheduler}

theorem registerDequeues_ok {m : HandleMap AclQueueHandler} (hm : m.keys ≠ []) (count : Nat) :
    ∀ a, ∃ m', registerDequeues m count (.node a) = .ok m' := by
  induction count generalizing m with
  | zero => exact fun _ => ⟨m, rfl⟩
  | succ count ih =>
    intro a
    have hm' : (m.modify a fun r => { r with dequeueIsRegistered := true }).keys ≠ [] := by
      rwa [HandleMap.keys_modify]
    obtain ⟨b, hb⟩ := HandleMap.wrap_eq_node hm' a
    unfold registerDequeues
    dsimp only
    rw [hb]
    exact ih hm' b

theorem eq_zero_of_le_zero {a b : UInt16} (h : a ≤ b) (hb : b = 0) : a = 0 := by
  subst hb
  have : a.toNat ≤ 0 := h
  exact UInt16.toNat.inj (show a.toNat = 0 by omega)

theorem checkCredits_of_withinMaxima (h : s.WithinMaxima) : s.checkCredits = .ok s := by
  unfold checkCredits
  rw [if_neg (not_not.mpr h.1), if_neg (not_not.mpr h.2)]

theorem startRoundRobin_ok (hw : s.WithinMaxima)
    (hm : s.aclQueueHandlers.keys ≠ [])
    (hnull : s.startingPoint = .null → s.aclQueueHandlers.size = 1 ∨
      (s.maxAclPacketCredits = 0 ∧ s.leMaxAclPacketCredits = 0)) :
    ∃ s', s.startRoundRobin = .ok s' := by
  unfold startRoundRobin
  split_ifs with hp
  · exact ⟨_, rfl⟩
  · exact ⟨_, rfl⟩
  · -- the pass begins at a node
    obtain ⟨a, ha⟩ : ∃ a, s.passStart = .node a := by
      unfold passStart
      split_ifs with h1
      · obtain ⟨k, ks, hk⟩ := List.exists_cons_of_ne_nil hm
        exact ⟨k, HandleMap.begin_of_keys hk⟩
      · cases hsp : s.startingPoint with
        | node a => exact ⟨a, rfl⟩
        | header => exact absurd (.inr hsp) h1
        | null =>
          rcases hnull hsp with h | ⟨h₁, h₂⟩
          · exact absurd (.inl h) h1
          · exact absurd ⟨eq_zero_of_le_zero hw.1 h₁, eq_zero_of_le_zero hw.2 h₂⟩ hp
    obtain ⟨m, hm'⟩ := registerDequeues_ok hm s.aclQueueHandlers.size a
    rw [ha, hm']
    exact ⟨_, rfl⟩

theorem startRoundRobin_moves (h : s.startRoundRobin = .ok s')
    (hp : ¬ (s.aclPacketCredits = 0 ∧ s.leAclPacketCredits = 0)) (hq : s.fragmentsToSend = []) :
    s'.startingPoint ≠ .null := by
  unfold startRoundRobin at h
  rw [if_neg hp, if_neg (not_not.mpr hq)] at h
  obtain ⟨m, -, h⟩ := bind_eq_ok.mp h
  split at h
  · cases h
    rename_i it hit
    obtain ⟨a, -, rfl⟩ := HandleMap.advance_eq_some.mp hit
    exact HandleMap.next_ne_null _ _
  · cases h

theorem returnCredits_startingPoint {handle n : UInt16} {r : AclQueueHandler} :
    (s.returnCredits handle n r).startingPoint = s.startingPoint := by
  unfold returnCredits addCredits; split <;> rfl

theorem startRoundRobin_returnCredits_ok {handle n : UInt16} {r : AclQueueHandler}
    (hr : s.aclQueueHandlers.find handle = some r) (hw : (s.returnCredits handle n r).WithinMaxima)
    (hnull : s.startingPoint = .null → s.aclQueueHandlers.size = 1 ∨
      (s.maxAclPacketCredits = 0 ∧ s.leMaxAclPacketCredits = 0)) :
    ∃ s', (s.returnCredits handle n r).startRoundRobin = .ok s' := by
  refine startRoundRobin_ok hw ?_ fun hn₀ => ?_
  · rw [returnCredits_aclQueueHandlers, HandleMap.keys_modify]
    exact List.ne_nil_of_mem (List.mem_map_of_mem _ (HandleMap.find_mem hr))
  · rw [returnCredits_startingPoint] at hn₀
    rw [returnCredits_aclQueueHandlers, HandleMap.size_modify]
    exact (hnull hn₀).imp_right fun ⟨h₁, h₂⟩ =>
      ⟨(returnCredits_maxCredits .CLASSIC).trans h₁, (returnCredits_maxCredits .LE).trans h₂⟩

/-- Where a run without `Unregister` leaves the cursor and the posted tasks: the cursor is
null only before the first connection or when the controller has no buffers, and a
`StartRoundRobin` is posted only once there is a connection. -/
structure Started (s : RoundRobinScheduler) : Prop where
  cursor : s.startingPoint = .null →
    s.aclQueueHandlers.keys = [] ∨ (s.maxAclPacketCredits = 0 ∧ s.leMaxAclPacketCredits = 0)
  posted : s.aclQueueHandlers.keys = [] → s.postedStartRoundRobin = 0

end RoundRobinScheduler

namespace World

open RoundRobinScheduler

variable {w w' : World} {e : Event}

namespace Ledger

theorem kinds_of_keys_nil (hk : w.scheduler.aclQueueHandlers.keys = []) : w.scheduler.kinds = [] := by
  unfold kinds
  rw [List.map_eq_nil_iff.mp hk]
  rfl

theorem credits_of_keys_nil (hl : w.Ledger) (hk : w.scheduler.aclQueueHandlers.keys = [])
    (t : ConnectionType) : w.scheduler.credits t = w.scheduler.maxCredits t := by
  have hp := hl.pool t
  unfold unreportedOf at hp
  rw [kinds_of_keys_nil hk] at hp
  exact UInt16.toNat.inj hp

theorem queue_of_keys_nil (hl : w.Ledger) (hk : w.scheduler.aclQueueHandlers.keys = []) :
    w.scheduler.fragmentsToSend = [] :=
  List.eq_nil_iff_forall_not_mem.mpr fun f hf => by
    simpa [kinds_of_keys_nil hk] using hl.tagged f hf

end Ledger

theorem Started.init (a : UInt16) (b : Nat) (c : UInt16) (d : Nat) :
    (World.init a b c d).scheduler.Started :=
  ⟨fun _ => .inl rfl, fun _ => rfl⟩

theorem find_of_dequeueRegistered {handle : UInt16} (ha : w.dequeueRegistered handle = true) :
    ∃ r, w.scheduler.aclQueueHandlers.find handle = some r ∧ r.dequeueIsRegistered = true := by
  unfold dequeueRegistered at ha
  cases hf : w.scheduler.aclQueueHandlers.find handle with
  | none => rw [hf] at ha; cases ha
  | some r => rw [hf] at ha; exact ⟨r, rfl, ha⟩

theorem keys_ne_nil_of_find {handle : UInt16} {r : AclQueueHandler}
    (hr : w.scheduler.aclQueueHandlers.find handle = some r) :
    w.scheduler.aclQueueHandlers.keys ≠ [] :=
  List.ne_nil_of_mem (List.mem_map_of_mem _ (HandleMap.find_mem hr))

theorem posted_of_keys_nil (hl : w.Ledger) (hst : w.scheduler.Started) (ha : w.Allowed e)
    (he : e.changesConnections = false) (hs : w.step e = .ok w')
    (hk : w.scheduler.aclQueueHandlers.keys = []) : w'.scheduler.postedStartRoundRobin = 0 := by
  cases e with
  | register => cases he
  | unregister => cases he
  | setDisconnect h =>
    obtain ⟨r, hr⟩ := Option.isSome_iff_exists.mp ha.2
    exact absurd hk (keys_ne_nil_of_find hr)
  | bufferPacket h p =>
    obtain ⟨r, hr, -⟩ := find_of_dequeueRegistered ha
    exact absurd hk (keys_ne_nil_of_find hr)
  | handleEnqueueNextFragment =>
    obtain ⟨⟨f, s⟩, hs', -⟩ := bind_eq_ok.mp hs
    obtain ⟨⟨t, hq⟩, -⟩ := handleEnqueueNextFragment_queue hs'
    rw [hl.queue_of_keys_nil hk] at hq
    cases hq
  | startRoundRobin =>
    have ha : 0 < w.scheduler.postedStartRoundRobin := ha
    rw [hst.posted hk] at ha
    cases ha
  | incomingAclCredits h n =>
    obtain ⟨s, hs', hw⟩ := bind_eq_ok.mp hs
    cases hw
    have hr : w.scheduler.aclQueueHandlers.find h = none := by
      unfold HandleMap.find; rw [List.map_eq_nil_iff.mp hk]; rfl
    unfold RoundRobinScheduler.incomingAclCredits at hs'
    rw [hr] at hs'
    cases hs'
    exact hst.posted hk

theorem Started.step (hl : w.Ledger) (hst : w.scheduler.Started) (ha : w.Allowed e)
    (hs : w.step e = .ok w') : w'.scheduler.Started := by
  have hmax : w'.scheduler.maxAclPacketCredits = w.scheduler.maxAclPacketCredits ∧
      w'.scheduler.leMaxAclPacketCredits = w.scheduler.leMaxAclPacketCredits :=
    ⟨maxCredits_of_limits (step_queue hs).2 .CLASSIC, maxCredits_of_limits (step_queue hs).2 .LE⟩
  cases e with
  | register t h =>
    obtain ⟨s, hs', hw⟩ := bind_eq_ok.mp hs
    cases hw
    have hins := List.ne_nil_of_mem (HandleMap.mem_keys_insert_self w.scheduler.aclQueueHandlers h
      { connectionType := t })
    unfold RoundRobinScheduler.register at hs'
    dsimp only at hs'
    split_ifs at hs' with hq
    · obtain ⟨hk, hc⟩ := startRoundRobin_rotation hs'
      refine ⟨fun hnull => .inr ?_, fun hk' => absurd (hk'.symm.trans hk).symm hins⟩
      rw [hmax.1, hmax.2]
      rcases hc with ⟨-, hc⟩ | ⟨a, -, -, hc⟩
      · -- the cursor stayed null: there are no buffers, or the pass would have moved it
        rcases hst.cursor (hc.symm.trans hnull) with hk₀ | hz
        · by_contra hz
          have hpools : ¬ (w.scheduler.aclPacketCredits = 0 ∧ w.scheduler.leAclPacketCredits = 0) :=
            fun ⟨h₁, h₂⟩ => hz ⟨(hl.credits_of_keys_nil hk₀ .CLASSIC).symm.trans h₁,
              (hl.credits_of_keys_nil hk₀ .LE).symm.trans h₂⟩
          exact startRoundRobin_moves hs' hpools hq hnull
        · exact hz
      · exact absurd (hc.symm.trans hnull) (HandleMap.next_ne_null _ _)
    · cases hs'
      exact ⟨fun hnull => .inr ((hst.cursor hnull).resolve_left fun hk => hq (hl.queue_of_keys_nil hk)),
        fun hk => absurd hk hins⟩
  | unregister h => exact absurd ha.1 (by rw [hl.disconnected]; exact List.not_mem_nil h)
  | _ =>
    obtain ⟨hk, hcases⟩ := step_rotation (by rfl) hs
    refine ⟨fun hnull => ?_, fun hk' => posted_of_keys_nil hl hst ha (by rfl) hs (hk ▸ hk')⟩
    rcases hcases with ⟨-, hc⟩ | ⟨a, -, -, hc⟩
    · rw [hk, hmax.1, hmax.2]
      exact hst.cursor (hc.symm.trans hnull)
    · exact absurd (hc.symm.trans hnull) (HandleMap.next_ne_null _ _)

theorem Started.run {w w' : World} (hw : w.Reachable) (hl : w.Ledger) (hst : w.scheduler.Started) :
    ∀ {es : List Event}, w.run es = some w' → (∀ e ∈ es, ∀ h, e ≠ .setDisconnect h) →
      (∀ e ∈ es, e.Fits w.scheduler) → w'.scheduler.Started
  | [], hrun, _, _ => by cases hrun; exact hst
  | e :: es, hrun, hd, hfit => by
    unfold World.run at hrun
    split_ifs at hrun with ha
    cases hs : w.step e with
    | error => rw [hs] at hrun; cases hrun
    | ok w₁ =>
      rw [hs] at hrun
      exact Started.run (.step hw ha hs)
        (hl.step hw.registrations ha (hd e (List.mem_cons_self _ _))
          (hfit e (List.mem_cons_self _ _)) hs)
        (Started.step hl hst ha hs) hrun (fun e' he' => hd e' (List.mem_cons_of_mem _ he'))
        (fun e' he' => (hfit e' (List.mem_cons_of_mem _ he')).of_limits (step_queue hs).2)

theorem step_ok (hl : w.Ledger) (hst : w.scheduler.Started) (ha : w.Allowed e)
    (he : e ≠ .handleEnqueueNextFragment) : ∃ w', w.step e = .ok w' := by
  have hw := hl.withinMaxima
  cases e with
  | register t h =>
    suffices ∃ s, w.scheduler.register t h = .ok s by
      obtain ⟨s, hs⟩ := this; exact ⟨_, by simp only [World.step, hs]; rfl⟩
    unfold RoundRobinScheduler.register
    dsimp only
    split_ifs
    · refine startRoundRobin_ok hw
        (List.ne_nil_of_mem (HandleMap.mem_keys_insert_self _ h _)) fun hnull => ?_
      rcases hst.cursor hnull with hk | hz
      · exact .inl (HandleMap.size_insert_of_keys_nil hk h _)
      · exact .inr hz
    · exact ⟨_, rfl⟩
  | unregister h => exact absurd ha.1 (by rw [hl.disconnected]; exact List.not_mem_nil h)
  | setDisconnect h =>
    obtain ⟨r, hr⟩ := Option.isSome_iff_exists.mp ha.2
    exact ⟨_, by simp only [World.step, RoundRobinScheduler.setDisconnect, hr]; rfl⟩
  | bufferPacket h p =>
    obtain ⟨r, hr, -⟩ := find_of_dequeueRegistered ha
    obtain ⟨s, hs, -⟩ := bufferPacket_spec hr p
    exact ⟨_, by simp only [World.step, hs]; rfl⟩
  | handleEnqueueNextFragment => exact absurd rfl he
  | startRoundRobin =>
    have hk : w.scheduler.aclQueueHandlers.keys ≠ [] := fun hk =>
      absurd (hst.posted hk) (Nat.pos_iff_ne_zero.mp ha)
    obtain ⟨s, hs⟩ := startRoundRobin_ok
      (s := { w.scheduler with postedStartRoundRobin := w.scheduler.postedStartRoundRobin - 1 })
      hw hk fun hnull => .inr ((hst.cursor hnull).resolve_left hk)
    exact ⟨_, by simp only [World.step, runPostedStartRoundRobin, hs]; rfl⟩
  | incomingAclCredits h n =>
    suffices ∃ s, w.scheduler.incomingAclCredits h n = .ok s by
      obtain ⟨s, hs⟩ := this; exact ⟨_, by simp only [World.step, hs]; rfl⟩
    cases hr : w.scheduler.aclQueueHandlers.find h with
    | none => exact ⟨w.scheduler, by unfold RoundRobinScheduler.incomingAclCredits; rw [hr]⟩
    | some r =>
      have hwm : (w.scheduler.returnCredits h n r).WithinMaxima := (hl.returnCredits hr ha).withinMaxima
      rw [incomingAclCredits_of_find hr (hl.sent h r hr).2, checkCredits_of_withinMaxima hwm, ok_bind]
      split_ifs
      · exact startRoundRobin_returnCredits_ok hr hwm fun hnull =>
          .inr ((hst.cursor hnull).resolve_left (keys_ne_nil_of_find hr))
      · exact ⟨_, rfl⟩

end World

end Bluetooth.Hci
