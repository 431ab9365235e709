import Bluetooth.Hci.RoundRobinScheduler

/-!
# Runs of the scheduler

The scheduler lives on one handler, so a run is a sequence of events: calls from the ACL
manager, callbacks of the connection queues and of the HCI queue, posted `StartRoundRobin`
tasks, and completion reports from the controller. `World` adds what the environment keeps:
the handles registered so far, the handles passed to `SetDisconnect`, and per handle the
fragments the controller has received and not yet reported.
-/

namespace Bluetooth.Hci

inductive Event
  | register (connectionType : ConnectionType) (handle : UInt16)
  | unregister (handle : UInt16)
  | setDisconnect (handle : UInt16)
  | bufferPacket (handle : UInt16) (packet : List UInt8)
  | handleEnqueueNextFragment
  | startRoundRobin
  | incomingAclCredits (handle credits : UInt16)
  deriving DecidableEq, Repr

structure World where
  scheduler : RoundRobinScheduler
  registered : List UInt16
  disconnected : List UInt16
  unreported : UInt16 → Nat

namespace World

def init (numAclPacketBuffers : UInt16) (aclPacketLength : Nat) (totalNumLePackets : UInt16)
    (leDataPacketLength : Nat) : World :=
  ⟨.new numAclPacketBuffers aclPacketLength totalNumLePackets leDataPacketLength, [], [],
    fun _ => 0⟩

/-- Whether the connection under `handle` has its dequeue callback registered. -/
def dequeueRegistered (w : World) (handle : UInt16) : Bool :=
  match w.scheduler.aclQueueHandlers.find handle with
  | some r => r.dequeueIsRegistered
  | none => false

/-- When the environment may deliver an event: `Register` of a fresh handle, `SetDisconnect`
at most once per registered handle, `Unregister` only after it, a queue callback only while
registered, a posted task only when one is pending, and a completion report only of
fragments the controller has received and not yet reported. -/
def Allowed (w : World) : Event → Prop
  | .register _ h => h ∉ w.registered
  | .unregister h => h ∈ w.disconnected ∧ (w.scheduler.aclQueueHandlers.find h).isSome
  | .setDisconnect h => h ∉ w.disconnected ∧ (w.scheduler.aclQueueHandlers.find h).isSome
  | .bufferPacket h _ => w.dequeueRegistered h
  | .handleEnqueueNextFragment => w.scheduler.enqueueRegistered
  | .startRoundRobin => 0 < w.scheduler.postedStartRoundRobin
  | .incomingAclCredits h n => n.toNat ≤ w.unreported h

instance (w : World) : (e : Event) → Decidable (w.Allowed e)
  | .register _ h => inferInstanceAs (Decidable (h ∉ w.registered))
  | .unregister _ => inferInstanceAs (Decidable (_ ∧ _))
  | .setDisconnect _ => inferInstanceAs (Decidable (_ ∧ _))
  | .bufferPacket h _ => inferInstanceAs (Decidable (w.dequeueRegistered h = true))
  | .handleEnqueueNextFragment => inferInstanceAs (Decidable (_ = true))
  | .startRoundRobin => inferInstanceAs (Decidable (0 < _))
  | .incomingAclCredits _ _ => inferInstanceAs (Decidable (_ ≤ _))

/-- The controller receives one more fragment of `handle`. -/
def receive (w : World) (handle : UInt16) : World :=
  { w with unreported := Function.update w.unreported handle (w.unreported handle + 1) }

/-- The controller reports `n` fragments of `handle` completed. -/
def report (w : World) (handle : UInt16) (n : Nat) : World :=
  { w with unreported := Function.update w.unreported handle (w.unreported handle - n) }

/-- One event, as the scheduler's member function and the environment's bookkeeping. -/
def step (w : World) : Event → Except Fault World
  | .register t h => do
    let s ← w.scheduler.register t h
    return { w with scheduler := s, registered := h :: w.registered }
  | .unregister h => do
    let s ← w.scheduler.unregister h
    return { w with scheduler := s }
  | .setDisconnect h => do
    let s ← w.scheduler.setDisconnect h
    return { w with scheduler := s, disconnected := h :: w.disconnected }
  | .bufferPacket h p => do
    let s ← w.scheduler.bufferPacket h p
    return { w with scheduler := s }
  | .handleEnqueueNextFragment => do
    let (f, s) ← w.scheduler.handleEnqueueNextFragment
    return { w with scheduler := s }.receive f.handle
  | .startRoundRobin => do
    let s ← w.scheduler.runPostedStartRoundRobin
    return { w with scheduler := s }
  | .incomingAclCredits h n => do
    let s ← w.scheduler.incomingAclCredits h n
    return { w with scheduler := s }.report h n.toNat

/-- The worlds a scheduler built from some controller reaches by allowed events. -/
inductive Reachable : World → Prop
  | init (a : UInt16) (b : Nat) (c : UInt16) (d : Nat) : Reachable (init a b c d)
  | step {w w' : World} {e : Event} : Reachable w → w.Allowed e → w.step e = .ok w' →
      Reachable w'

/-- A run of allowed events; `none` at the first event that is not allowed or faults. -/
def run (w : World) : List Event → Option World
  | [] => some w
  | e :: es =>
    if w.Allowed e then
      match w.step e with
      | .ok w' => run w' es
      | .error _ => none
    else none

theorem Reachable.run {w w' : World} (hw : Reachable w) :
    ∀ {es : List Event}, w.run es = some w' → Reachable w'
  | [], h => by cases h; exact hw
  | e :: es, h => by
    unfold World.run at h
    split at h
    · split at h
      · exact Reachable.run (.step hw ‹_› ‹_›) h
      · cases h
    · cases h

end World

end Bluetooth.Hci
