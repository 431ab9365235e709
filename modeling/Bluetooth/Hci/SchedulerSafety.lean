import Bluetooth.Hci.SchedulerInvariants

/-!
# Credit safety of the scheduler

The credit laws the scheduler is meant to keep, each as a predicate on its state, and for
each a run of allowed events that ends where the law fails. Three slips in the source
decide them: `SetDisconnect` writes to a copy of the record and does not restart the
round robin; `StartRoundRobin` looks at the credit pools only together, both when it
registers dequeues and when it resumes the HCI enqueue; and it advances the cursor
without checking that the map has a node.
-/

namespace Bluetooth.Hci

namespace RoundRobinScheduler

variable (s : RoundRobinScheduler)

/-- The pool of one kind: `acl_packet_credits_` or `le_acl_packet_credits_`. -/
def credits : ConnectionType → UInt16
  | .CLASSIC => s.aclPacketCredits
  | .LE => s.leAclPacketCredits

/-- `max_acl_packet_credits_` or `le_max_acl_packet_credits_`. -/
def maxCredits : ConnectionType → UInt16
  | .CLASSIC => s.maxAclPacketCredits
  | .LE => s.leMaxAclPacketCredits

def sentOf (t : ConnectionType) : Nat :=
  (s.aclQueueHandlers.entries.filter fun e => e.2.connectionType = t).foldr
    (fun e n => e.2.numberOfSentPackets.toNat + n) 0

def queuedOf (t : ConnectionType) : Nat :=
  (s.fragmentsToSend.filter fun f => f.1 = t).length

def frontHasCredit : Bool :=
  match s.fragmentsToSend with
  | [] => false
  | (t, _) :: _ => 0 < s.credits t

/-- Conservation of credits of kind `t`: available plus outstanding is the maximum plus
what is queued. -/
def Conserves (t : ConnectionType) : Prop :=
  (s.credits t).toNat + s.sentOf t = (s.maxCredits t).toNat + s.queuedOf t

instance (t : ConnectionType) : Decidable (s.Conserves t) := inferInstanceAs (Decidable (_ = _))

/-- One classic fragment of handle 1 goes out, then `SetDisconnect(1)`: the pool takes the
credit back while the record, written through a copy, keeps counting it. -/
theorem setDisconnect_breaks_conservation :
    ∃ w, (World.init 2 27 0 27).run [.register .CLASSIC 1, .bufferPacket 1 [0],
        .handleEnqueueNextFragment, .setDisconnect 1] = some w ∧
      ¬ w.scheduler.Conserves .CLASSIC :=
  ⟨_, rfl, by decide⟩

/-- No dispatch without credit: while the enqueue is registered, a fragment waits and its
pool is positive. -/
def DispatchCovered : Prop := s.enqueueRegistered → s.frontHasCredit

instance : Decidable s.DispatchCovered := inferInstanceAs (Decidable (_ → _))

/-- The classic pool runs dry while the LE pool has credit; the posted `StartRoundRobin`
registers the classic connection anyway, its next payload resumes the enqueue over a
classic fragment, and the dispatch fails its `ASSERT`. -/
theorem dispatch_without_credit :
    ∃ w, (World.init 1 27 1 27).run [.register .CLASSIC 1, .bufferPacket 1 [0],
        .handleEnqueueNextFragment, .startRoundRobin, .bufferPacket 1 [0]] = some w ∧
      ¬ w.scheduler.DispatchCovered ∧ w.Allowed .handleEnqueueNextFragment ∧
      w.step .handleEnqueueNextFragment = .error (.assertion "acl_packet_credits_ > 0") :=
  ⟨_, rfl, by decide, by decide, rfl⟩

/-- Neither pool exceeds its maximum. -/
def WithinMaxima : Prop :=
  s.aclPacketCredits ≤ s.maxAclPacketCredits ∧ s.leAclPacketCredits ≤ s.leMaxAclPacketCredits

instance : Decidable s.WithinMaxima := inferInstanceAs (Decidable (_ ∧ _))

/-- Handle 2 has a fragment at the controller when handle 1 queues a two-fragment payload
and is disconnected: `SetDisconnect(1)` returns both queued fragments' credits at once, the
pool passes its maximum, and the controller's report for handle 2 fails the `ASSERT`. -/
theorem setDisconnect_overfills_pool :
    ∃ w, (World.init 2 27 0 27).run [.register .CLASSIC 1, .register .CLASSIC 2,
        .bufferPacket 2 [0], .handleEnqueueNextFragment, .startRoundRobin,
        .bufferPacket 1 (List.replicate 28 0), .setDisconnect 1] = some w ∧
      ¬ w.scheduler.WithinMaxima ∧ w.Allowed (.incomingAclCredits 2 1) ∧
      w.step (.incomingAclCredits 2 1) =
        .error (.assertion "acl_packet_credits_ <= max_acl_packet_credits_") :=
  ⟨_, rfl, by decide, by decide, rfl⟩

/-- A credit report for `handle` that moves exactly `credits` from the handle's count of sent
packets to the pool of its kind, with no wrap: both sums are taken in `Nat`. -/
def ReportsExactly (handle credits : UInt16) (s' : RoundRobinScheduler) : Prop :=
  ∀ r ∈ s.aclQueueHandlers.find handle, ∃ r' ∈ s'.aclQueueHandlers.find handle,
    r'.numberOfSentPackets.toNat + credits.toNat = r.numberOfSentPackets.toNat ∧
    (s'.credits r.connectionType).toNat = (s.credits r.connectionType).toNat + credits.toNat

instance (handle credits : UInt16) (s' : RoundRobinScheduler) :
    Decidable (s.ReportsExactly handle credits s') :=
  inferInstanceAs (Decidable (∀ _ ∈ _, _))

theorem toNat_sub_of_toNat_le {a b : UInt16} (h : b.toNat ≤ a.toNat) :
    (a - b).toNat = a.toNat - b.toNat :=
  UInt16.toNat_sub_of_le a b h

theorem toNat_add_of_lt {a b : UInt16} (h : a.toNat + b.toNat < UInt16.size) :
    (a + b).toNat = a.toNat + b.toNat :=
  Nat.mod_eq_of_lt h

theorem credits_addCredits (t : ConnectionType) (n : UInt16) :
    (s.addCredits t n).credits t = s.credits t + n := by
  cases t <;> rfl

theorem ReportsExactly.startRoundRobin {s u s' : RoundRobinScheduler} {handle credits : UInt16}
    (he : s.ReportsExactly handle credits u) (h : u.startRoundRobin = .ok s') :
    s.ReportsExactly handle credits s' := by
  obtain ⟨ha, hl, hf⟩ := startRoundRobin_sent h
  have hc : ∀ t, s'.credits t = u.credits t := fun t => by cases t <;> assumption
  intro r hr
  obtain ⟨r', hr', hsent, hpool⟩ := he r hr
  obtain ⟨r'', hr'', hr''sent⟩ :=
    Option.map_eq_some'.mp ((hf handle).trans (congrArg (Option.map _) hr'))
  exact ⟨r'', hr'', hr''sent ▸ hsent, hc _ ▸ hpool⟩

/-- Two reports the scheduler absorbs through a 16-bit wrap. Handle 1 has one fragment out
and reports two while handle 2's fragment keeps the pool low: the pool stays within its
maximum and the count of sent packets wraps to 65535. And once `SetDisconnect(1)`, through
its copy, has let handle 1's credit come back twice, the pool is full while handle 2 still
owes one: handle 2's honest report wraps the pool to 0. -/
theorem incomingAclCredits_absorbs_wrapped_report :
    (∃ w s', (World.init 2 27 0 27).run [.register .CLASSIC 1, .register .CLASSIC 2,
        .bufferPacket 1 [0], .handleEnqueueNextFragment, .startRoundRobin,
        .bufferPacket 2 [0], .handleEnqueueNextFragment] = some w ∧
      (w.scheduler.aclQueueHandlers.find 1).map (·.isDisconnected) = some false ∧
      w.scheduler.incomingAclCredits 1 2 = .ok s' ∧
      (s'.aclQueueHandlers.find 1).map (·.numberOfSentPackets) = some 65535 ∧
      s'.aclPacketCredits = 2 ∧ s' ≠ w.scheduler ∧ ¬ w.scheduler.ReportsExactly 1 2 s') ∧
    (∃ w w', (World.init 65535 27 0 27).run [.register .CLASSIC 1, .register .CLASSIC 2,
        .bufferPacket 1 [0], .handleEnqueueNextFragment, .startRoundRobin,
        .bufferPacket 2 [0], .handleEnqueueNextFragment, .setDisconnect 1,
        .incomingAclCredits 1 1] = some w ∧
      (w.scheduler.aclQueueHandlers.find 2).map (·.isDisconnected) = some false ∧
      w.Allowed (.incomingAclCredits 2 1) ∧ w.step (.incomingAclCredits 2 1) = .ok w' ∧
      w.scheduler.aclPacketCredits = 65535 ∧ w'.scheduler.aclPacketCredits = 0 ∧
      w'.scheduler ≠ w.scheduler ∧ ¬ w.scheduler.ReportsExactly 2 1 w'.scheduler) :=
  ⟨⟨_, _, rfl, rfl, rfl, rfl, rfl,
      fun h => absurd (congrArg aclPacketCredits h) (by decide), by decide⟩,
    ⟨_, _, rfl, rfl, by decide, rfl, rfl, rfl,
      fun h => absurd (congrArg aclPacketCredits h) (by decide), by decide⟩⟩

/-- No stall: with no `StartRoundRobin` posted, a waiting fragment that has credit has the
enqueue registered, and with nothing queued every connection whose pool is positive has
its dequeue registered. -/
def Progressing : Prop :=
  s.postedStartRoundRobin = 0 →
    (s.frontHasCredit → s.enqueueRegistered) ∧
    (s.fragmentsToSend = [] → ∀ e ∈ s.aclQueueHandlers.entries,
      0 < s.credits e.2.connectionType → e.2.dequeueIsRegistered)

instance : Decidable s.Progressing := inferInstanceAs (Decidable (_ → _))

/-- Two classic connections share one credit. Handle 1 spends it, the posted
`StartRoundRobin` finds both pools empty, and `SetDisconnect(1)` returns the credit without
restarting the round robin: handle 2's dequeue stays unregistered with nothing pending. -/
theorem setDisconnect_leaves_credit_idle :
    ∃ w, (World.init 1 27 0 27).run [.register .CLASSIC 1, .register .CLASSIC 2,
        .bufferPacket 1 [0], .handleEnqueueNextFragment, .startRoundRobin,
        .setDisconnect 1] = some w ∧
      ¬ w.scheduler.Progressing :=
  ⟨_, rfl, by decide⟩

/-- A dequeue is registered only while no fragment waits and the connection's pool is
positive. -/
def DequeueGuarded : Prop :=
  ∀ e ∈ s.aclQueueHandlers.entries, e.2.dequeueIsRegistered →
    s.fragmentsToSend = [] ∧ 0 < s.credits e.2.connectionType

instance : Decidable s.DequeueGuarded := inferInstanceAs (Decidable (∀ _ ∈ _, _))

/-- The posted `StartRoundRobin` after handle 1's only classic credit went out sees LE
credit and registers the classic connection's dequeue. -/
theorem dequeue_registered_without_credit :
    ∃ w, (World.init 1 27 1 27).run [.register .CLASSIC 1, .bufferPacket 1 [0],
        .handleEnqueueNextFragment, .startRoundRobin] = some w ∧
      ¬ w.scheduler.DequeueGuarded :=
  ⟨_, rfl, by decide⟩

/-- A `StartRoundRobin` on this state that passes both early returns finds a node in the
map, so its final `std::next` advances a node. -/
def CursorAdvanceSafe : Prop :=
  ¬ (s.aclPacketCredits = 0 ∧ s.leAclPacketCredits = 0) → s.fragmentsToSend = [] →
    s.aclQueueHandlers.entries ≠ []

instance : Decidable s.CursorAdvanceSafe := inferInstanceAs (Decidable (_ → _))

/-- The last connection is unregistered while its `StartRoundRobin` is posted: the posted
run passes both early returns over an empty map and advances `end()`. -/
theorem posted_startRoundRobin_advances_end :
    ∃ w, (World.init 2 27 0 27).run [.register .CLASSIC 1, .bufferPacket 1 [0],
        .handleEnqueueNextFragment, .setDisconnect 1, .unregister 1] = some w ∧
      w.Allowed .startRoundRobin ∧ ¬ w.scheduler.CursorAdvanceSafe ∧
      w.step .startRoundRobin = .error (.undefined "std::next(starting_point_) on end()") :=
  ⟨_, rfl, by decide, by decide, rfl⟩

end RoundRobinScheduler

end Bluetooth.Hci
