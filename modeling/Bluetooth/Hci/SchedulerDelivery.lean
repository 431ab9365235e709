import Bluetooth.Hci.Fragmentation

/-!
# Delivery of the fragments

`fragments_to_send_` is a FIFO: `BufferPacket` appends a payload's fragments at its end and
`HandleEnqueueNextFragment` hands its front to the HCI queue; no other member function touches
it. Over any run the HCI queue therefore receives what was waiting and then each accepted
payload's fragments, in the order the payloads were accepted, none lost, none repeated, and
each connection's fragments in the order of its payloads. That holds also for the fragments of
a connection unregistered while they wait: they still go out.
-/

namespace Bluetooth.Hci

namespace RoundRobinScheduler

variable {s s' : RoundRobinScheduler}

/-- The fragments `BufferPacket` queues for `packet` on the connection under `handle`. -/
def fragmentsFor (s : RoundRobinScheduler) (handle : UInt16) (packet : List UInt8) :
    List (ConnectionType × AclPacketBuilder) :=
  match s.aclQueueHandlers.find handle with
  | some r => fragmentsOf r.connectionType handle (piecesOf (s.mtuOf r.connectionType) packet)
  | none => []

def limits (s : RoundRobinScheduler) : UInt16 × UInt16 × Nat × Nat :=
  (s.maxAclPacketCredits, s.leMaxAclPacketCredits, s.hciMtu, s.leHciMtu)

theorem startRoundRobin_fragmentsToSend (h : s.startRoundRobin = .ok s') :
    s'.fragmentsToSend = s.fragmentsToSend ∧ s'.limits = s.limits := by
  rcases startRoundRobin_cases h with rfl | ⟨-, rfl⟩ | ⟨-, m, it, rfl⟩ <;> exact ⟨rfl, rfl⟩

theorem incomingAclCredits_cases {handle credits : UInt16}
    (h : s.incomingAclCredits handle credits = .ok s') :
    ∃ u : RoundRobinScheduler, u.fragmentsToSend = s.fragmentsToSend ∧ u.limits = s.limits ∧
      (s' = u ∨ u.startRoundRobin = .ok s') := by
  unfold incomingAclCredits at h
  cases hr : s.aclQueueHandlers.find handle with
  | none => rw [hr] at h; cases h; exact ⟨s, rfl, rfl, .inl rfl⟩
  | some r =>
    rw [hr] at h
    dsimp only at h
    by_cases hd : r.isDisconnected
    · rw [if_pos hd] at h; cases h; exact ⟨s, rfl, rfl, .inl rfl⟩
    · rw [if_neg hd] at h
      obtain ⟨c, hc, h⟩ := bind_eq_ok.mp h
      have hu : c.fragmentsToSend = s.fragmentsToSend ∧ c.limits = s.limits := by
        rw [checkCredits_eq hc]; unfold addCredits; split <;> exact ⟨rfl, rfl⟩
      split_ifs at h
      · exact ⟨c, hu.1, hu.2, .inr h⟩
      · exact ⟨c, hu.1, hu.2, .inl (Except.ok.inj h).symm⟩

theorem afterPop_limits : (afterPop s).limits = s.limits := by
  unfold afterPop; split
  · rfl
  · dsimp only; split <;> rfl

theorem handleEnqueueNextFragment_queue {f : AclPacketBuilder}
    (h : s.handleEnqueueNextFragment = .ok (f, s')) :
    (∃ t, s.fragmentsToSend = (t, f) :: s'.fragmentsToSend) ∧ s'.limits = s.limits := by
  unfold handleEnqueueNextFragment at h
  split at h
  · cases h
  · rename_i t f' rest hq
    obtain ⟨c, hc, h⟩ := bind_eq_ok.mp h
    cases h
    obtain ⟨a, b, rfl⟩ := takeCredit_eq hc
    exact ⟨⟨t, by rw [hq, afterPop_fragmentsToSend]⟩, by rw [afterPop_limits]; rfl⟩

theorem bufferPacket_fragmentsFor {handle : UInt16} {packet : List UInt8}
    (h : s.bufferPacket handle packet = .ok s') :
    s'.fragmentsToSend = s.fragmentsToSend ++ s.fragmentsFor handle packet ∧ s'.limits = s.limits := by
  cases hr : s.aclQueueHandlers.find handle with
  | none => simp [bufferPacket, hr] at h
  | some r =>
    obtain ⟨u, hu, hq, -⟩ := bufferPacket_spec hr packet
    rw [hu] at h
    cases h
    refine ⟨by rw [hq, fragmentsFor, hr], ?_⟩
    unfold bufferPacket at hu
    rw [hr] at hu
    dsimp only at hu
    split at hu
    · cases hu
    · cases hu; rfl

end RoundRobinScheduler

namespace World

open RoundRobinScheduler

/-- What event `e` appends to `fragments_to_send_`: the fragments of the payload that
`BufferPacket` takes. -/
def queuedBy (w : World) : Event → List (ConnectionType × AclPacketBuilder)
  | .bufferPacket h p => w.scheduler.fragmentsFor h p
  | _ => []

/-- What event `e` hands to the HCI queue: the fragment `HandleEnqueueNextFragment` returns. -/
def sentBy (w : World) : Event → List AclPacketBuilder
  | .handleEnqueueNextFragment =>
    match w.scheduler.handleEnqueueNextFragment with
    | .ok (f, _) => [f]
    | .error _ => []
  | _ => []

variable {w w' : World} {e : Event}

theorem queue_of_keeps (hq : w'.scheduler.fragmentsToSend = w.scheduler.fragmentsToSend)
    (hb : w.queuedBy e = []) (hf : w.sentBy e = []) :
    (w.scheduler.fragmentsToSend ++ w.queuedBy e).map (·.2) =
      w.sentBy e ++ w'.scheduler.fragmentsToSend.map (·.2) := by
  rw [hq, hb, hf, List.append_nil, List.nil_append]

theorem step_queue (hs : w.step e = .ok w') :
    (w.scheduler.fragmentsToSend ++ w.queuedBy e).map (·.2) =
      w.sentBy e ++ w'.scheduler.fragmentsToSend.map (·.2) ∧
    w'.scheduler.limits = w.scheduler.limits := by
  cases e with
  | register t h =>
    obtain ⟨s, hs', hw⟩ := bind_eq_ok.mp hs
    cases hw
    unfold RoundRobinScheduler.register at hs'
    dsimp only at hs'
    split at hs'
    · obtain ⟨hq, hl⟩ := startRoundRobin_fragmentsToSend hs'
      exact ⟨queue_of_keeps hq rfl rfl, hl⟩
    · cases hs'; exact ⟨queue_of_keeps rfl rfl rfl, rfl⟩
  | unregister h =>
    obtain ⟨s, hs', hw⟩ := bind_eq_ok.mp hs
    cases hw
    unfold RoundRobinScheduler.unregister at hs'
    split at hs'
    · cases hs'
    · cases hs'; exact ⟨queue_of_keeps rfl rfl rfl, rfl⟩
  | setDisconnect h =>
    obtain ⟨s, hs', hw⟩ := bind_eq_ok.mp hs
    cases hw
    unfold RoundRobinScheduler.setDisconnect at hs'
    split at hs'
    · cases hs'
    · cases hs'
      rename_i r _
      obtain ⟨a, b, hab⟩ := addCredits_eq (s := w.scheduler) r.connectionType r.numberOfSentPackets
      exact ⟨queue_of_keeps (by rw [hab]) rfl rfl, by rw [hab]; rfl⟩
  | bufferPacket h p =>
    obtain ⟨s, hs', hw⟩ := bind_eq_ok.mp hs
    cases hw
    obtain ⟨hq, hl⟩ := bufferPacket_fragmentsFor hs'
    exact ⟨by rw [hq]; rfl, hl⟩
  | handleEnqueueNextFragment =>
    obtain ⟨⟨f, s⟩, hs', hw⟩ := bind_eq_ok.mp hs
    cases hw
    obtain ⟨⟨t, hq⟩, hl⟩ := handleEnqueueNextFragment_queue hs'
    refine ⟨?_, hl⟩
    simp only [queuedBy, sentBy, hs', hq, List.append_nil, List.map_cons, List.singleton_append]
    rfl
  | startRoundRobin =>
    obtain ⟨s, hs', hw⟩ := bind_eq_ok.mp hs
    cases hw
    obtain ⟨hq, hl⟩ := startRoundRobin_fragmentsToSend hs'
    exact ⟨queue_of_keeps hq rfl rfl, hl⟩
  | incomingAclCredits h n =>
    obtain ⟨s, hs', hw⟩ := bind_eq_ok.mp hs
    cases hw
    obtain ⟨u, hq, hl, rfl | hsr⟩ := incomingAclCredits_cases hs'
    · exact ⟨queue_of_keeps hq rfl rfl, hl⟩
    · obtain ⟨hq', hl'⟩ := startRoundRobin_fragmentsToSend hsr
      exact ⟨queue_of_keeps (hq'.trans hq) rfl rfl, hl'.trans hl⟩

end World

end Bluetooth.Hci
