import Bluetooth.Fault
import Bluetooth.Hci.HandleMap

/-!
# The round-robin ACL scheduler

`RoundRobinScheduler` (hci/round_robin_scheduler.h, its members in btaa/hci_processor.h):
a state record and one function per member function. A member returns `.error` where the
source fails an `ASSERT` or does something undefined, and the run stops there.
-/

namespace Bluetooth.Hci

inductive ConnectionType
  | CLASSIC
  | LE
  deriving DecidableEq, Repr

inductive PacketBoundaryFlag
  | FIRST_AUTOMATICALLY_FLUSHABLE
  | CONTINUING_FRAGMENT
  deriving DecidableEq, Repr

inductive BroadcastFlag
  | POINT_TO_POINT
  deriving DecidableEq, Repr

/-- An ACL fragment as `AclPacketBuilder::Create` builds it. -/
structure AclPacketBuilder where
  handle : UInt16
  packetBoundaryFlag : PacketBoundaryFlag
  broadcastFlag : BroadcastFlag
  payload : List UInt8
  deriving DecidableEq, Repr

/-- `acl_queue_handler`, without its `queue_down_end_` pointer. -/
structure AclQueueHandler where
  connectionType : ConnectionType
  dequeueIsRegistered : Bool := false
  numberOfSentPackets : UInt16 := 0
  isDisconnected : Bool := false
  deriving DecidableEq, Repr

structure RoundRobinScheduler where
  aclQueueHandlers : HandleMap AclQueueHandler
  fragmentsToSend : List (ConnectionType × AclPacketBuilder)
  maxAclPacketCredits : UInt16
  aclPacketCredits : UInt16
  leMaxAclPacketCredits : UInt16
  leAclPacketCredits : UInt16
  hciMtu : Nat
  leHciMtu : Nat
  enqueueRegistered : Bool
  startingPoint : HandleIter
  /-- `StartRoundRobin` tasks posted to `handler_` and not yet run. -/
  postedStartRoundRobin : Nat

/-- Modelled from the spec: `AclFragmenter(mtu, packet).GetFragments()` (hci/acl_fragmenter.cc
is not under src/) splits the payload "into MTU-sized pieces", in order. -/
def aclFragmenter (mtu : Nat) (packet : List UInt8) : List (List UInt8) :=
  go packet.length packet
where
  go : Nat → List UInt8 → List (List UInt8)
    | 0, p => [p]
    | n + 1, p => if p.length ≤ mtu then [p] else p.take mtu :: go n (p.drop mtu)

/-- The fragments `BufferPacket` queues for the pieces of one payload: the first flagged
`FIRST_AUTOMATICALLY_FLUSHABLE`, every later one `CONTINUING_FRAGMENT`. -/
def fragmentsOf (connectionType : ConnectionType) (handle : UInt16) :
    List (List UInt8) → List (ConnectionType × AclPacketBuilder)
  | [] => []
  | p :: ps =>
    (connectionType, ⟨handle, .FIRST_AUTOMATICALLY_FLUSHABLE, .POINT_TO_POINT, p⟩) ::
      ps.map fun q => (connectionType, ⟨handle, .CONTINUING_FRAGMENT, .POINT_TO_POINT, q⟩)

namespace RoundRobinScheduler

/-- The constructor: both pools start full, at the controller's buffer counts. -/
def new (numAclPacketBuffers : UInt16) (aclPacketLength : Nat) (totalNumLePackets : UInt16)
    (leDataPacketLength : Nat) : RoundRobinScheduler where
  aclQueueHandlers := .empty
  fragmentsToSend := []
  maxAclPacketCredits := numAclPacketBuffers
  aclPacketCredits := numAclPacketBuffers
  leMaxAclPacketCredits := totalNumLePackets
  leAclPacketCredits := totalNumLePackets
  hciMtu := aclPacketLength
  leHciMtu := leDataPacketLength
  enqueueRegistered := false
  startingPoint := .null
  postedStartRoundRobin := 0

variable (s : RoundRobinScheduler)

/-- `SendNextFragment`: register the enqueue callback unless it is registered. -/
def sendNextFragment : RoundRobinScheduler := { s with enqueueRegistered := true }

/-- `UnregisterAllConnections`. -/
def unregisterAllConnections : RoundRobinScheduler :=
  { s with aclQueueHandlers := s.aclQueueHandlers.mapEntries fun _ r =>
      { r with dequeueIsRegistered := false } }

/-- The loop of `StartRoundRobin`: `count` nodes from `it`, wrapping from `end()` to
`begin()`, each left with its dequeue registered. -/
def registerDequeues (m : HandleMap AclQueueHandler) :
    Nat → HandleIter → Except Fault (HandleMap AclQueueHandler)
  | 0, _ => .ok m
  | count + 1, .node h =>
    let m := m.modify h fun r => { r with dequeueIsRegistered := true }
    let it := m.next h
    registerDequeues m count (if it = .header then m.begin else it)
  | _ + 1, _ => .error (.undefined "acl_queue_handler->second through end()")

/-- Where the registration pass of `StartRoundRobin` begins: `begin()` when the map has one
node or the cursor is at `end()`, the cursor otherwise. -/
def passStart : HandleIter :=
  if s.aclQueueHandlers.size = 1 ∨ s.startingPoint = .header then s.aclQueueHandlers.begin
  else s.startingPoint

/-- `StartRoundRobin`. -/
def startRoundRobin : Except Fault RoundRobinScheduler :=
  if s.aclPacketCredits = 0 ∧ s.leAclPacketCredits = 0 then .ok s
  else if s.fragmentsToSend ≠ [] then .ok s.sendNextFragment
  else do
    let m ← registerDequeues s.aclQueueHandlers s.aclQueueHandlers.size s.passStart
    match m.advance s.passStart with
    | some it => .ok { s with aclQueueHandlers := m, startingPoint := it }
    | none => .error (.undefined "std::next(starting_point_) on end()")

/-- `hci_mtu_` or `le_hci_mtu_`, by connection kind. -/
def mtuOf (connectionType : ConnectionType) : Nat :=
  if connectionType = .CLASSIC then s.hciMtu else s.leHciMtu

/-- The pieces `BufferPacket` cuts a payload into: the payload itself when it fits in the
MTU, the fragmenter's pieces otherwise. -/
def piecesOf (mtu : Nat) (packet : List UInt8) : List (List UInt8) :=
  if packet.length ≤ mtu then [packet] else aclFragmenter mtu packet

/-- `number_of_sent_packets_ += n` on the record under `handle`, in `uint16_t`. -/
def countSent (handle : UInt16) (n : Nat) : RoundRobinScheduler :=
  { s with aclQueueHandlers := s.aclQueueHandlers.modify handle fun r =>
      { r with numberOfSentPackets := r.numberOfSentPackets + UInt16.ofNat n } }

/-- `BufferPacket`, called by the queue end of the connection under `handle` with the
payload `packet` it gave up. -/
def bufferPacket (handle : UInt16) (packet : List UInt8) : Except Fault RoundRobinScheduler :=
  match s.aclQueueHandlers.find handle with
  | none => .error (.undefined "BufferPacket through an erased iterator")
  | some r =>
    let pieces := piecesOf (s.mtuOf r.connectionType) packet
    let queued := { s with fragmentsToSend :=
      s.fragmentsToSend ++ fragmentsOf r.connectionType handle pieces }
    if queued.fragmentsToSend = [] then .error (.assertion "fragments_to_send_.size() > 0")
    else
      let unregistered := queued.unregisterAllConnections
      .ok (unregistered.countSent handle unregistered.fragmentsToSend.length).sendNextFragment

/-- The credit a dispatched fragment of kind `connectionType` takes from its pool, under the
`ASSERT` that the pool is positive. -/
def takeCredit (connectionType : ConnectionType) : Except Fault RoundRobinScheduler :=
  if connectionType = .CLASSIC then
    if 0 < s.aclPacketCredits then .ok { s with aclPacketCredits := s.aclPacketCredits - 1 }
    else .error (.assertion "acl_packet_credits_ > 0")
  else
    if 0 < s.leAclPacketCredits then .ok { s with leAclPacketCredits := s.leAclPacketCredits - 1 }
    else .error (.assertion "le_acl_packet_credits_ > 0")

/-- After a pop: with the queue empty, unregister the enqueue and post `StartRoundRobin`;
otherwise unregister it when the next fragment's pool is empty. -/
def afterPop : RoundRobinScheduler :=
  match s.fragmentsToSend with
  | [] => { s with enqueueRegistered := false, postedStartRoundRobin := s.postedStartRoundRobin + 1 }
  | (nextConnectionType, _) :: _ =>
    let classicBufferFull := nextConnectionType = .CLASSIC ∧ s.aclPacketCredits = 0
    let leBufferFull := nextConnectionType = .LE ∧ s.leAclPacketCredits = 0
    if classicBufferFull ∨ leBufferFull then { s with enqueueRegistered := false } else s

/-- `HandleEnqueueNextFragment`: the fragment handed to the HCI queue, and the new state. -/
def handleEnqueueNextFragment : Except Fault (AclPacketBuilder × RoundRobinScheduler) :=
  match s.fragmentsToSend with
  | [] => .error (.undefined "fragments_to_send_.front() on an empty queue")
  | (connectionType, fragment) :: rest => do
    let charged ← s.takeCredit connectionType
    return (fragment, afterPop { charged with fragmentsToSend := rest })

/-- Add `credits` to the pool of `connectionType`, in `uint16_t`. -/
def addCredits (connectionType : ConnectionType) (credits : UInt16) : RoundRobinScheduler :=
  if connectionType = .CLASSIC then { s with aclPacketCredits := s.aclPacketCredits + credits }
  else { s with leAclPacketCredits := s.leAclPacketCredits + credits }

/-- The two `ASSERT`s that end `IncomingAclCredits`. -/
def checkCredits : Except Fault RoundRobinScheduler :=
  if ¬ s.aclPacketCredits ≤ s.maxAclPacketCredits then
    .error (.assertion "acl_packet_credits_ <= max_acl_packet_credits_")
  else if ¬ s.leAclPacketCredits ≤ s.leMaxAclPacketCredits then
    .error (.assertion "le_acl_packet_credits_ <= le_max_acl_packet_credits_")
  else .ok s

/-- `IncomingAclCredits`: the controller reports `credits` completed fragments of `handle`.
Reports for unknown or disconnected handles are dropped. -/
def incomingAclCredits (handle credits : UInt16) : Except Fault RoundRobinScheduler :=
  match s.aclQueueHandlers.find handle with
  | none => .ok s
  | some r =>
    if r.isDisconnected then .ok s
    else do
      let returned ← ({ s with aclQueueHandlers := s.aclQueueHandlers.modify handle fun r =>
        { r with numberOfSentPackets := r.numberOfSentPackets - credits } }).addCredits
          r.connectionType credits |>.checkCredits
      if returned.aclPacketCredits = credits ∨ returned.leAclPacketCredits = credits then
        returned.startRoundRobin
      else .ok returned

/-- `SetDisconnect`. The source binds `auto acl_queue_handler = find(handle)->second`, a
copy: its writes to `is_disconnected_` and `number_of_sent_packets_` are lost, and only the
credit pool changes. -/
def setDisconnect (handle : UInt16) : Except Fault RoundRobinScheduler :=
  match s.aclQueueHandlers.find handle with
  | none => .error (.undefined "find(handle)->second on end()")
  | some r => .ok (s.addCredits r.connectionType r.numberOfSentPackets)

/-- `Register`: `std::map::insert` keeps an existing record under `handle`. -/
def register (connectionType : ConnectionType) (handle : UInt16) :
    Except Fault RoundRobinScheduler :=
  let inserted := { s with aclQueueHandlers :=
    s.aclQueueHandlers.insert handle { connectionType := connectionType } }
  if inserted.fragmentsToSend = [] then inserted.startRoundRobin else .ok inserted

/-- `Unregister`: the queue end's dequeue is dropped with the record, and the cursor is
reset to `begin()`. -/
def unregister (handle : UInt16) : Except Fault RoundRobinScheduler :=
  match s.aclQueueHandlers.find handle with
  | none => .error (.assertion "acl_queue_handlers_.count(handle) == 1")
  | some _ =>
    let m := s.aclQueueHandlers.erase handle
    .ok { s with aclQueueHandlers := m, startingPoint := m.begin }

/-- The handler runs one posted `StartRoundRobin`. -/
def runPostedStartRoundRobin : Except Fault RoundRobinScheduler :=
  startRoundRobin { s with postedStartRoundRobin := s.postedStartRoundRobin - 1 }

end RoundRobinScheduler

end Bluetooth.Hci
