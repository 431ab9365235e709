import Bluetooth.Hci.SchedulerInvariants

/-!
# Fragmentation in `BufferPacket`

`BufferPacket` cuts the payload a connection gives up into pieces of at most the MTU of the
connection's kind, queues them as fragments flagged first and continuing, and adds the length
of the whole queue to the connection's `number_of_sent_packets_`. In a reachable scheduler a
dequeue fires only on an empty queue, so that length is the number of pieces; the count is a
`uint16_t`, so the addition wraps once it reaches 2^16.
-/

namespace Bluetooth.Hci

/-! ## Cutting a payload -/

theorem max_one_ceil_of_le {m a : Nat} (hm : 0 < m) (h : a ≤ m) :
    max 1 ((a + m - 1) / m) = 1 := by
  have : (a + m - 1) / m < 2 := (Nat.div_lt_iff_lt_mul hm).mpr (by omega)
  omega

theorem max_one_ceil_of_lt {m a : Nat} (hm : 0 < m) (h : m < a) :
    max 1 ((a + m - 1) / m) = max 1 ((a - m + m - 1) / m) + 1 := by
  have h1 : a + m - 1 = (a - m + m - 1) + m := by omega
  have h2 : 1 ≤ (a - m + m - 1) / m := (Nat.le_div_iff_mul_le hm).mpr (by omega)
  rw [h1, Nat.add_div_right _ hm]
  omega

section Pieces

variable {mtu : Nat}

theorem flatten_go : ∀ (n : Nat) (p : List UInt8), (aclFragmenter.go mtu n p).flatten = p
  | 0, p => by simp [aclFragmenter.go]
  | n + 1, p => by
    unfold aclFragmenter.go
    split
    · simp
    · simp [flatten_go n]

theorem go_ne_nil : ∀ (n : Nat) (p : List UInt8), aclFragmenter.go mtu n p ≠ []
  | 0, _ => by simp [aclFragmenter.go]
  | n + 1, p => by unfold aclFragmenter.go; split <;> simp

theorem length_go_le : ∀ (n : Nat) (p : List UInt8), (aclFragmenter.go mtu n p).length ≤ n + 1
  | 0, _ => by simp [aclFragmenter.go]
  | n + 1, p => by
    unfold aclFragmenter.go
    split
    · simp
    · simpa using length_go_le n (p.drop mtu)

variable (hmtu : 0 < mtu)
include hmtu

theorem length_le_of_mem_go : ∀ (n : Nat) (p : List UInt8), p.length ≤ n + mtu →
    ∀ q ∈ aclFragmenter.go mtu n p, q.length ≤ mtu
  | 0, p, hp, q, hq => by
    unfold aclFragmenter.go at hq
    rw [List.mem_singleton.mp hq]
    omega
  | n + 1, p, hp, q, hq => by
    unfold aclFragmenter.go at hq
    split at hq
    · rwa [List.mem_singleton.mp hq]
    · rcases List.mem_cons.mp hq with rfl | hq
      · exact List.length_take_le _ _
      · exact length_le_of_mem_go n _ (by simp; omega) q hq

theorem length_go : ∀ (n : Nat) (p : List UInt8), p.length ≤ n + mtu →
    (aclFragmenter.go mtu n p).length = max 1 ((p.length + mtu - 1) / mtu)
  | 0, p, hp => by
    rw [max_one_ceil_of_le hmtu (by omega)]
    rfl
  | n + 1, p, hp => by
    unfold aclFragmenter.go
    split
    · rw [max_one_ceil_of_le hmtu ‹_›]
      rfl
    · rw [List.length_cons, length_go n _ (by simp; omega), List.length_drop,
        max_one_ceil_of_lt (a := p.length) hmtu (by omega)]

end Pieces

namespace RoundRobinScheduler

theorem flatten_piecesOf (mtu : Nat) (packet : List UInt8) : (piecesOf mtu packet).flatten = packet := by
  unfold piecesOf
  split
  · simp
  · exact flatten_go _ _

theorem piecesOf_ne_nil (mtu : Nat) (packet : List UInt8) : piecesOf mtu packet ≠ [] := by
  unfold piecesOf
  split
  · simp
  · exact go_ne_nil _ _

theorem length_piecesOf_le (mtu : Nat) (packet : List UInt8) :
    (piecesOf mtu packet).length ≤ packet.length + 1 := by
  unfold piecesOf
  split
  · simp
  · exact length_go_le _ _

variable {mtu : Nat} (hmtu : 0 < mtu)
include hmtu

theorem length_le_of_mem_piecesOf {packet q : List UInt8} (hq : q ∈ piecesOf mtu packet) :
    q.length ≤ mtu := by
  unfold piecesOf at hq
  split at hq
  · rwa [List.mem_singleton.mp hq]
  · exact length_le_of_mem_go hmtu _ _ (by omega) q hq

theorem length_piecesOf (packet : List UInt8) :
    (piecesOf mtu packet).length = max 1 ((packet.length + mtu - 1) / mtu) := by
  unfold piecesOf
  split
  · rw [max_one_ceil_of_le hmtu ‹_›]
    rfl
  · exact length_go hmtu _ _ (by omega)

end RoundRobinScheduler

/-! ## The fragments of a payload -/

/-- `frags` are the fragments of `packet` on connection `handle` of kind `connectionType`, at
MTU `mtu`: `max 1 ⌈|packet| / mtu⌉` of them, each tagged with the kind, the handle and
`POINT_TO_POINT` and at most `mtu` long, whose payloads concatenate to `packet`, the first
flagged `FIRST_AUTOMATICALLY_FLUSHABLE` and every later one `CONTINUING_FRAGMENT`. -/
structure FragmentsOfPayload (connectionType : ConnectionType) (handle : UInt16) (mtu : Nat)
    (packet : List UInt8) (frags : List (ConnectionType × AclPacketBuilder)) : Prop where
  count : frags.length = max 1 ((packet.length + mtu - 1) / mtu)
  tagged : ∀ f ∈ frags, f.1 = connectionType ∧ f.2.handle = handle ∧
    f.2.broadcastFlag = .POINT_TO_POINT ∧ f.2.payload.length ≤ mtu
  payloads : (frags.map (·.2.payload)).flatten = packet
  flags : frags.map (·.2.packetBoundaryFlag) =
    .FIRST_AUTOMATICALLY_FLUSHABLE :: List.replicate (frags.length - 1) .CONTINUING_FRAGMENT

section Fragments

variable (connectionType : ConnectionType) (handle : UInt16)

theorem length_fragmentsOf : ∀ ps : List (List UInt8),
    (fragmentsOf connectionType handle ps).length = ps.length
  | [] => rfl
  | _ :: _ => by simp [fragmentsOf]

theorem payloads_fragmentsOf : ∀ ps : List (List UInt8),
    (fragmentsOf connectionType handle ps).map (·.2.payload) = ps
  | [] => rfl
  | _ :: _ => by simp [fragmentsOf, Function.comp_def]

theorem mem_fragmentsOf {ps : List (List UInt8)} {f : ConnectionType × AclPacketBuilder}
    (hf : f ∈ fragmentsOf connectionType handle ps) :
    f.1 = connectionType ∧ f.2.handle = handle ∧ f.2.broadcastFlag = .POINT_TO_POINT ∧
      f.2.payload ∈ ps := by
  cases ps with
  | nil => cases hf
  | cons p ps =>
    rcases List.mem_cons.mp hf with rfl | hf
    · exact ⟨rfl, rfl, rfl, List.mem_cons_self _ _⟩
    · obtain ⟨q, hq, rfl⟩ := List.mem_map.mp hf
      exact ⟨rfl, rfl, rfl, List.mem_cons_of_mem _ hq⟩

theorem flags_fragmentsOf {ps : List (List UInt8)} (hps : ps ≠ []) :
    (fragmentsOf connectionType handle ps).map (·.2.packetBoundaryFlag) =
      .FIRST_AUTOMATICALLY_FLUSHABLE ::
        List.replicate ((fragmentsOf connectionType handle ps).length - 1) .CONTINUING_FRAGMENT := by
  cases ps with
  | nil => exact absurd rfl hps
  | cons p ps => simp [fragmentsOf, Function.comp_def, List.map_const']

theorem fragmentsOf_piecesOf {mtu : Nat} (hmtu : 0 < mtu) (packet : List UInt8) :
    FragmentsOfPayload connectionType handle mtu packet
      (fragmentsOf connectionType handle (RoundRobinScheduler.piecesOf mtu packet)) := by
  refine ⟨by rw [length_fragmentsOf, RoundRobinScheduler.length_piecesOf hmtu], fun f hf => ?_,
    by rw [payloads_fragmentsOf, RoundRobinScheduler.flatten_piecesOf],
    flags_fragmentsOf connectionType handle (RoundRobinScheduler.piecesOf_ne_nil _ _)⟩
  obtain ⟨ht, hh, hb, hp⟩ := mem_fragmentsOf connectionType handle hf
  exact ⟨ht, hh, hb, RoundRobinScheduler.length_le_of_mem_piecesOf hmtu hp⟩

end Fragments

/-! ## `BufferPacket` -/

namespace RoundRobinScheduler

variable {s : RoundRobinScheduler} {handle : UInt16} {r : AclQueueHandler}

theorem bufferPacket_spec (hr : s.aclQueueHandlers.find handle = some r) (packet : List UInt8) :
    ∃ s', s.bufferPacket handle packet = .ok s' ∧
      s'.fragmentsToSend = s.fragmentsToSend ++
        fragmentsOf r.connectionType handle (piecesOf (s.mtuOf r.connectionType) packet) ∧
      s'.aclQueueHandlers.find handle = some
        { r with
          dequeueIsRegistered := false
          numberOfSentPackets := r.numberOfSentPackets + UInt16.ofNat s'.fragmentsToSend.length } ∧
      s'.aclQueueHandlers.keys = s.aclQueueHandlers.keys ∧ s'.startingPoint = s.startingPoint := by
  have hne : s.fragmentsToSend ++ fragmentsOf r.connectionType handle
      (piecesOf (s.mtuOf r.connectionType) packet) ≠ [] := by
    obtain ⟨p, ps, hps⟩ := List.exists_cons_of_ne_nil (piecesOf_ne_nil (s.mtuOf r.connectionType) packet)
    simp [hps, fragmentsOf]
  unfold bufferPacket
  rw [hr]
  dsimp only
  rw [if_neg hne]
  refine ⟨_, rfl, rfl, ?_, by simp [countSent, unregisterAllConnections, sendNextFragment], rfl⟩
  simp [countSent, unregisterAllConnections, sendNextFragment, HandleMap.find_modify,
    HandleMap.find_mapEntries, hr]

theorem Registrations.queue_empty (hi : Registrations s) (hr : s.aclQueueHandlers.find handle = some r)
    (hd : r.dequeueIsRegistered = true) : s.fragmentsToSend = [] := by
  by_contra hne
  simpa [hd] using hi.dequeue hne _ (HandleMap.find_mem hr)

end RoundRobinScheduler

namespace World

open RoundRobinScheduler

/-- In every reachable world, a payload `P` that the connection under `h` gives up is queued
as exactly its fragments at the MTU of the connection's kind, on an empty queue, and the
connection's `uint16_t` count grows by their number. -/
theorem bufferPacket_fragments_exactly {w : World} (hw : w.Reachable) {h : UInt16}
    {P : List UInt8} {r : AclQueueHandler} (ha : w.Allowed (.bufferPacket h P))
    (hr : w.scheduler.aclQueueHandlers.find h = some r)
    (hM : 0 < w.scheduler.mtuOf r.connectionType) :
    ∃ w', w.step (.bufferPacket h P) = .ok w' ∧ w.scheduler.fragmentsToSend = [] ∧
      FragmentsOfPayload r.connectionType h (w.scheduler.mtuOf r.connectionType) P
        w'.scheduler.fragmentsToSend ∧
      (w'.scheduler.aclQueueHandlers.find h).map (·.numberOfSentPackets) =
        some (r.numberOfSentPackets + UInt16.ofNat w'.scheduler.fragmentsToSend.length) := by
  have hd : r.dequeueIsRegistered = true := by simpa [Allowed, dequeueRegistered, hr] using ha
  have hq := hw.registrations.queue_empty hr hd
  obtain ⟨s', hs, hfr, hrec, -, -⟩ := bufferPacket_spec hr P
  refine ⟨{ w with scheduler := s' }, by simp [step, hs], hq, ?_, by simp [hrec]⟩
  rw [show s'.fragmentsToSend = _ from hfr, hq, List.nil_append]
  exact fragmentsOf_piecesOf _ _ hM P

theorem bufferPacket_fragments_exactly_sixtyBytes :
    ∃ w, (World.init 2 27 0 27).run [.register .CLASSIC 1] = some w ∧ w.Reachable ∧
      w.Allowed (.bufferPacket 1 (List.replicate 60 0)) ∧
      w.scheduler.aclQueueHandlers.find 1 =
        some { connectionType := .CLASSIC, dequeueIsRegistered := true } ∧
      0 < w.scheduler.mtuOf .CLASSIC ∧
      ∃ w', w.step (.bufferPacket 1 (List.replicate 60 0)) = .ok w' ∧
        w.scheduler.fragmentsToSend = [] ∧
        FragmentsOfPayload .CLASSIC 1 (w.scheduler.mtuOf .CLASSIC) (List.replicate 60 0)
          w'.scheduler.fragmentsToSend ∧
        (w'.scheduler.aclQueueHandlers.find 1).map (·.numberOfSentPackets) =
          some (0 + UInt16.ofNat w'.scheduler.fragmentsToSend.length) := by
  obtain ⟨w, hrun⟩ : ∃ w, (World.init 2 27 0 27).run [.register .CLASSIC 1] = some w := ⟨_, rfl⟩
  have hw : w.Reachable := (Reachable.init 2 27 0 27).run hrun
  have hr : w.scheduler.aclQueueHandlers.find 1 =
      some { connectionType := .CLASSIC, dequeueIsRegistered := true } := by
    cases hrun; rfl
  have ha : w.Allowed (.bufferPacket 1 (List.replicate 60 0)) := by cases hrun; decide
  have hM : 0 < w.scheduler.mtuOf .CLASSIC := by cases hrun; decide
  exact ⟨w, hrun, hw, ha, hr, hM, bufferPacket_fragments_exactly hw ha hr hM⟩

/-- One fragment per byte at MTU 1: a payload of 2^16 bytes queues 2^16 fragments, and the
count of the fresh connection, a `uint16_t`, stays 0. -/
theorem bufferPacket_wraps_sent_count :
    ∃ w, (World.init 1 1 0 1).run [.register .CLASSIC 1] = some w ∧
      w.Allowed (.bufferPacket 1 (List.replicate 65536 0)) ∧
      (w.scheduler.aclQueueHandlers.find 1).map (·.numberOfSentPackets) = some 0 ∧
      ∃ w', w.step (.bufferPacket 1 (List.replicate 65536 0)) = .ok w' ∧
        w'.scheduler.fragmentsToSend.length = 65536 ∧
        (w'.scheduler.aclQueueHandlers.find 1).map (·.numberOfSentPackets) = some 0 := by
  obtain ⟨w, hrun⟩ : ∃ w, (World.init 1 1 0 1).run [.register .CLASSIC 1] = some w := ⟨_, rfl⟩
  have hr : w.scheduler.aclQueueHandlers.find 1 =
      some { connectionType := .CLASSIC, dequeueIsRegistered := true } := by
    cases hrun; rfl
  have hM : w.scheduler.mtuOf .CLASSIC = 1 := by cases hrun; rfl
  have hq : w.scheduler.fragmentsToSend = [] := by cases hrun; rfl
  obtain ⟨s', hs, hfr, hrec, -, -⟩ := bufferPacket_spec hr (List.replicate 65536 0)
  have hlen : s'.fragmentsToSend.length = 65536 := by
    rw [hfr, hq, List.nil_append, length_fragmentsOf, hM, length_piecesOf Nat.one_pos,
      List.length_replicate]
    rfl
  refine ⟨w, hrun, by cases hrun; decide, by rw [hr]; rfl, { w with scheduler := s' },
    by simp only [step, hs]; rfl, hlen, ?_⟩
  rw [hrec, hlen]
  rfl

end World

end Bluetooth.Hci
