import Bluetooth.Hci.SchedulerRuns

/-!
# What every member function keeps

One lemma per member function says what it can do to the queue of fragments, to the
enqueue flag and to the dequeue flags. From them, every reachable scheduler registers a
connection's dequeue only while no fragment waits, and the HCI enqueue only while one does.
-/

namespace Bluetooth.Hci

namespace RoundRobinScheduler

variable {s s' : RoundRobinScheduler}

theorem startRoundRobin_cases (h : s.startRoundRobin = .ok s') :
    s' = s ∨ (s.fragmentsToSend ≠ [] ∧ s' = s.sendNextFragment) ∨
      (s.fragmentsToSend = [] ∧ ∃ m it, s' = { s with aclQueueHandlers := m, startingPoint := it }) := by
  unfold startRoundRobin at h
  split_ifs at h with h1 h2
  · exact .inl (Except.ok.inj h).symm
  · exact .inr (.inl ⟨h2, (Except.ok.inj h).symm⟩)
  · refine .inr (.inr ⟨not_not.mp h2, ?_⟩)
    cases hr : registerDequeues s.aclQueueHandlers s.aclQueueHandlers.size s.passStart with
    | error => simp [hr, bind, Except.bind] at h
    | ok m =>
      simp only [hr, bind, Except.bind] at h
      split at h
      · exact ⟨m, _, (Except.ok.inj h).symm⟩
      · cases h

theorem registerDequeues_sent {m m' : HandleMap AclQueueHandler} {count : Nat} {it : HandleIter}
    (h : registerDequeues m count it = .ok m') (x : UInt16) :
    (m'.find x).map (·.numberOfSentPackets) = (m.find x).map (·.numberOfSentPackets) := by
  induction count generalizing m it with
  | zero => cases h; rfl
  | succ count ih =>
    cases it with
    | node a =>
      unfold registerDequeues at h
      rw [ih h]
      exact HandleMap.map_find_modify _ _ (by exact fun _ => rfl) x
    | header => cases h
    | null => cases h

theorem startRoundRobin_sent (h : s.startRoundRobin = .ok s') :
    s'.aclPacketCredits = s.aclPacketCredits ∧ s'.leAclPacketCredits = s.leAclPacketCredits ∧
    ∀ x, (s'.aclQueueHandlers.find x).map (·.numberOfSentPackets) =
      (s.aclQueueHandlers.find x).map (·.numberOfSentPackets) := by
  unfold startRoundRobin at h
  split_ifs at h
  · cases h; exact ⟨rfl, rfl, fun _ => rfl⟩
  · cases h; exact ⟨rfl, rfl, fun _ => rfl⟩
  · obtain ⟨m, hm, h⟩ := bind_eq_ok.mp h
    split at h
    · cases h; exact ⟨rfl, rfl, registerDequeues_sent hm⟩
    · cases h

theorem takeCredit_eq {t : ConnectionType} (h : s.takeCredit t = .ok s') :
    ∃ a b, s' = { s with aclPacketCredits := a, leAclPacketCredits := b } := by
  unfold takeCredit at h
  split_ifs at h <;> cases h
  exacts [⟨_, _, rfl⟩, ⟨_, _, rfl⟩]

theorem addCredits_eq (t : ConnectionType) (n : UInt16) :
    ∃ a b, s.addCredits t n = { s with aclPacketCredits := a, leAclPacketCredits := b } := by
  unfold addCredits
  split
  exacts [⟨_, _, rfl⟩, ⟨_, _, rfl⟩]

theorem checkCredits_eq (h : s.checkCredits = .ok s') : s' = s := by
  unfold checkCredits at h
  split_ifs at h
  exact (Except.ok.inj h).symm

theorem afterPop_aclQueueHandlers : (afterPop s).aclQueueHandlers = s.aclQueueHandlers := by
  unfold afterPop; split
  · rfl
  · dsimp only; split <;> rfl

theorem afterPop_fragmentsToSend : (afterPop s).fragmentsToSend = s.fragmentsToSend := by
  unfold afterPop; split
  · rfl
  · dsimp only; split <;> rfl

theorem afterPop_enqueueRegistered (h : (afterPop s).enqueueRegistered) :
    s.fragmentsToSend ≠ [] := by
  unfold afterPop at h
  split at h
  · cases h
  · simp [*]

def Quiet (m : HandleMap AclQueueHandler) : Prop :=
  ∀ e ∈ m.entries, e.2.dequeueIsRegistered = false

theorem quiet_mapEntries {m : HandleMap AclQueueHandler}
    {g : UInt16 → AclQueueHandler → AclQueueHandler}
    (hg : ∀ k r, (g k r).dequeueIsRegistered = r.dequeueIsRegistered) (hq : Quiet m) :
    Quiet (m.mapEntries g) := by
  intro e he
  obtain ⟨e', he', rfl⟩ := HandleMap.mem_mapEntries.mp he
  rw [hg]
  exact hq e' he'

theorem quiet_unregisterAllConnections : Quiet s.unregisterAllConnections.aclQueueHandlers := by
  intro e he
  obtain ⟨e', -, rfl⟩ := HandleMap.mem_mapEntries.mp he
  rfl

/-- A dequeue is registered only while no fragment waits, and the HCI enqueue only while
one does. -/
structure Registrations (s : RoundRobinScheduler) : Prop where
  dequeue : s.fragmentsToSend ≠ [] → Quiet s.aclQueueHandlers
  enqueue : s.enqueueRegistered → s.fragmentsToSend ≠ []

namespace Registrations

theorem pools (hi : Registrations s) (a b : UInt16) :
    Registrations { s with aclPacketCredits := a, leAclPacketCredits := b } :=
  ⟨hi.dequeue, hi.enqueue⟩

theorem mapEntries (hi : Registrations s) {g : UInt16 → AclQueueHandler → AclQueueHandler}
    (hg : ∀ k r, (g k r).dequeueIsRegistered = r.dequeueIsRegistered) :
    Registrations { s with aclQueueHandlers := s.aclQueueHandlers.mapEntries g } :=
  ⟨fun hf => quiet_mapEntries hg (hi.dequeue hf), hi.enqueue⟩

theorem modify (hi : Registrations s) {handle : UInt16} {f : AclQueueHandler → AclQueueHandler}
    (hf : ∀ r, (f r).dequeueIsRegistered = r.dequeueIsRegistered) :
    Registrations { s with aclQueueHandlers := s.aclQueueHandlers.modify handle f } :=
  hi.mapEntries fun _ _ => by split <;> simp [hf]

theorem addCredits (hi : Registrations s) (t : ConnectionType) (n : UInt16) :
    Registrations (s.addCredits t n) := by
  obtain ⟨a, b, he⟩ := addCredits_eq (s := s) t n
  rw [he]
  exact hi.pools a b

theorem startRoundRobin (hi : Registrations s) (h : s.startRoundRobin = .ok s') :
    Registrations s' := by
  rcases startRoundRobin_cases h with rfl | ⟨hf, rfl⟩ | ⟨hf, m, it, rfl⟩
  · exact hi
  · exact ⟨hi.dequeue, fun _ => hf⟩
  · exact ⟨fun h => absurd hf h, fun he => absurd hf (hi.enqueue he)⟩

theorem register (hi : Registrations s) {t : ConnectionType} {handle : UInt16}
    (h : s.register t handle = .ok s') : Registrations s' := by
  have hins : Registrations
      { s with aclQueueHandlers := s.aclQueueHandlers.insert handle { connectionType := t } } := by
    refine ⟨fun hf e he => ?_, hi.enqueue⟩
    rcases HandleMap.mem_insert he with rfl | he
    · rfl
    · exact hi.dequeue hf e he
  unfold RoundRobinScheduler.register at h
  dsimp only at h
  split at h
  · exact hins.startRoundRobin h
  · cases h; exact hins

theorem unregister (hi : Registrations s) {handle : UInt16} (h : s.unregister handle = .ok s') :
    Registrations s' := by
  unfold RoundRobinScheduler.unregister at h
  split at h
  · cases h
  · cases h
    exact ⟨fun hf e he => hi.dequeue hf e (HandleMap.mem_erase.mp he).1, hi.enqueue⟩

theorem setDisconnect (hi : Registrations s) {handle : UInt16}
    (h : s.setDisconnect handle = .ok s') : Registrations s' := by
  unfold RoundRobinScheduler.setDisconnect at h
  split at h
  · cases h
  · cases h; exact hi.addCredits _ _

theorem bufferPacket {handle : UInt16} {p : List UInt8} (h : s.bufferPacket handle p = .ok s') :
    Registrations s' := by
  unfold RoundRobinScheduler.bufferPacket at h
  dsimp only at h
  split at h
  · cases h
  · split at h
    · cases h
    · cases h
      refine ⟨fun _ => quiet_mapEntries (fun _ _ => ?_) quiet_unregisterAllConnections,
        fun _ => ‹_›⟩
      dsimp only; split <;> rfl

theorem handleEnqueueNextFragment (hi : Registrations s) {f : AclPacketBuilder}
    (h : s.handleEnqueueNextFragment = .ok (f, s')) : Registrations s' := by
  unfold RoundRobinScheduler.handleEnqueueNextFragment at h
  split at h
  · cases h
  · rename_i t frag rest hs
    obtain ⟨c, hc, hpop⟩ := bind_eq_ok.mp h
    cases hpop
    obtain ⟨a, b, rfl⟩ := takeCredit_eq hc
    have hq : Quiet s.aclQueueHandlers := hi.dequeue (by simp [hs])
    refine ⟨fun _ => ?_, fun he => ?_⟩
    · rw [afterPop_aclQueueHandlers]; exact hq
    · rw [afterPop_fragmentsToSend]; exact afterPop_enqueueRegistered he

theorem incomingAclCredits (hi : Registrations s) {handle n : UInt16}
    (h : s.incomingAclCredits handle n = .ok s') : Registrations s' := by
  unfold RoundRobinScheduler.incomingAclCredits at h
  split at h
  · cases h; exact hi
  · split at h
    · cases h; exact hi
    · obtain ⟨c, hc, hs⟩ := bind_eq_ok.mp h
      have hc' : Registrations c := by
        rw [checkCredits_eq hc]
        exact (hi.modify (f := fun r => { r with numberOfSentPackets := r.numberOfSentPackets - n })
          fun _ => rfl).addCredits _ _
      split at hs
      · exact hc'.startRoundRobin hs
      · cases hs; exact hc'

theorem runPostedStartRoundRobin (hi : Registrations s)
    (h : s.runPostedStartRoundRobin = .ok s') : Registrations s' := by
  unfold RoundRobinScheduler.runPostedStartRoundRobin at h
  exact Registrations.startRoundRobin
    (s := { s with postedStartRoundRobin := s.postedStartRoundRobin - 1 }) ⟨hi.dequeue, hi.enqueue⟩ h

end Registrations

end RoundRobinScheduler

namespace World

open RoundRobinScheduler

theorem step_registrations {w w' : World} {e : Event} (hi : w.scheduler.Registrations)
    (h : w.step e = .ok w') : w'.scheduler.Registrations := by
  cases e <;> simp only [World.step] at h
  case handleEnqueueNextFragment =>
    obtain ⟨⟨f, s⟩, hs, hw⟩ := bind_eq_ok.mp h
    cases hw
    exact hi.handleEnqueueNextFragment hs
  all_goals
    obtain ⟨s, hs, hw⟩ := bind_eq_ok.mp h
    cases hw
  · exact hi.register hs
  · exact hi.unregister hs
  · exact hi.setDisconnect hs
  · exact Registrations.bufferPacket hs
  · exact hi.runPostedStartRoundRobin hs
  · exact hi.incomingAclCredits hs

theorem Reachable.registrations {w : World} (h : Reachable w) : w.scheduler.Registrations := by
  induction h with
  | init => exact ⟨fun h => absurd rfl h, fun h => by cases h⟩
  | step _ _ hs ih => exact step_registrations ih hs

end World

end Bluetooth.Hci
