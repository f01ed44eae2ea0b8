import Dpn.ActEffects
import Dpn.AddressCodec
import Dpn.System

/-!
# Peers that send to each other

Any number of peers of one process act in any order.  What a peer sends is in
flight until ZMQ queues it on the port it is addressed to, and packages of
different senders may overtake each other on the way.  Between two ports all
this is one first-in first-out channel.
-/

namespace Dpn

variable {ι : Type*}

/-- The peers of a process, with the packages that no port has queued yet. -/
structure Network (ι : Type*) where
  heap : Heap (Addr ι)
  peers : ι → Peer ι
  inFlight : List (Parcel ι)

/-- The routing IDs of the port that sends and of the port that receives. -/
structure Channel where
  source : SocketID
  dest : SocketID
  deriving DecidableEq, Repr

namespace Parcel

/-- The routing ID in the first frame, by which ZMQ finds the receiver. -/
def address (parcel : Parcel ι) : SocketID :=
  match parcel.record.frames with
  | [] => []
  | frame :: _ => frame.bytes

def channel (parcel : Parcel ι) : Channel :=
  ⟨parcel.source, parcel.address⟩

def wire (parcel : Parcel ι) : List (WireFrame (Addr ι)) :=
  deliver parcel.source parcel.record.frames

def content (parcel : Parcel ι) : List (FrameData (Addr ι)) :=
  parcel.record.frames.tail.map SentFrame.data

end Parcel

namespace Network

inductive Step (ι : Type*) where
  | act (peer : ι) (single : Peer.Act ι)
  | deliver (index : ℕ) (peer : ι) (portID : PortID)

def world (network : Network ι) (peer : ι) : World ι :=
  ⟨network.heap, network.peers peer, []⟩

/-- The packages that ZMQ took of what was sent through the ports of a hub. -/
def launched (peer : ι) (hub : Hub (Addr ι)) (trace : List (Event ι)) :
    List (Parcel ι) :=
  ((trace.filterMap Event.sent?).filter fun record =>
    !record.frames.isEmpty).map fun record =>
      ⟨peer, System.routingID hub record.localPort, record⟩

variable [DecidableEq ι]

def after (network : Network ι) (peer : ι) (final : World ι) : Network ι where
  heap := final.heap
  peers := Function.update network.peers peer final.peer
  inFlight := network.inFlight ++
    launched peer (network.peers peer).hub final.trace

/-- ZMQ queues a package on the open port it is addressed to.  It may take any
package that is the first one of its channel. -/
def step : Step ι → Network ι → Outcome Exn (Network ι)
  | .act peer single, network =>
      (Peer.act single (network.world peer)).map (network.after peer)
  | .deliver index peer portID, network =>
      match network.inFlight[index]?,
        (network.peers peer).hub.findPort portID with
      | some parcel, some port =>
          if port.closed = false ∧
              parcel.address =
                portNameToSocketID port.portName port.transport ∧
              ∀ other ∈ network.inFlight.take index,
                other.channel ≠ parcel.channel then
            .ok { network with
              peers := Function.update network.peers peer
                ((network.world peer).arrive portID parcel.wire).peer
              inFlight := network.inFlight.eraseIdx index }
          else .ok network
      | _, _ => .ok network

/-- The packages that a step brings on their way. -/
def launches : Step ι → Network ι → List (Parcel ι)
  | .act peer single, network =>
      match (Peer.act single (network.world peer)).state? with
      | none => []
      | some final => launched peer (network.peers peer).hub final.trace
  | .deliver _ _ _, _ => []

section Observed

variable {β : Type*}

/-- What the receiver sees of the package that a step takes. -/
def receives (read : Heap (Addr ι) → List (FrameData (Addr ι)) → β) :
    Step ι → Network ι → List (FifoQueues.Move Channel β)
  | .act peer (.poll ready _), network =>
      match Peer.polledMultipart ready (network.world peer) with
      | some (portID, identity :: content) =>
          [.take ⟨identity.bytes network.heap,
            System.routingID (network.peers peer).hub portID⟩
            (read network.heap content)]
      | _ => []
  | _, _ => []

/-- What a step puts on a channel or takes from one. -/
def moves (sent : Parcel ι → β)
    (read : Heap (Addr ι) → List (FrameData (Addr ι)) → β) (single : Step ι)
    (network : Network ι) : List (FifoQueues.Move Channel β) :=
  (launches single network).map (fun parcel => .put parcel.channel (sent parcel))
    ++ receives read single network

end Observed

end Network

/-! ## What is on its way -/

/-- The port has the name and the transport that its hub gives it. -/
structure Port.Named (peerID : PeerID) (portID : PortID)
    (port : Port (Addr ι)) : Prop where
  portName : port.portName = PortSpecification.getPortName
    ⟨peerIDtoHubName peerID, portID⟩
  transport : port.transport = .inproc

/-- A package as it was sent: by the port that the label names as its source to
the one it names as its destination, and short enough to be read at once. -/
structure Parcel.Sound (peerIDs : ι → PeerID) (parcel : Parcel ι) : Prop where
  wire : parcel.wire = toWire (.owned parcel.source :: parcel.content)
  length : parcel.content.length + 1 ≤ messageVecSize
  sender : parcel.record.written.src.peerID = peerIDs parcel.sender
  source : parcel.source = peerSocketID parcel.record.written.src.peerID
    parcel.record.written.src.portID
  address : parcel.address = peerSocketID parcel.record.written.dest.peerID
    parcel.record.written.dest.portID

theorem Port.Named.socketID {peerID : PeerID} {portID : PortID}
    {port : Port (Addr ι)} (h : port.Named peerID portID) :
    portNameToSocketID port.portName port.transport =
      peerSocketID peerID portID := by
  rw [h.portName, h.transport, peerSocketID]

theorem peerSocketID_inj {peerID other : PeerID} {portID otherPort : PortID} :
    peerSocketID peerID portID = peerSocketID other otherPort ↔
      peerID = other ∧ portID = otherPort := by
  rw [peerSocketID, peerSocketID, PortSpecification.socketID_inj,
    PortSpecification.mk.injEq, peerIDtoHubName, peerIDtoHubName, toString_inj,
    UInt16.toNat_inj]

namespace Network

/-- The queues of the ports hold the waiting packages that are addressed to
them, in order. -/
structure Carries (peerIDs : ι → PeerID) (waiting : List (Parcel ι))
    (network : Network ι) : Prop where
  self : ∀ peer, (network.peers peer).self = peer
  peerID : ∀ peer, (network.peers peer).peerID = peerIDs peer
  shape : ∀ peer, (network.world peer).LabelShape
  named : ∀ peer portID port,
    (network.peers peer).hub.findPort portID = some port →
    port.Named (peerIDs peer) portID
  queued : ∀ peer portID, (network.peers peer).hub.incomingAt portID =
    (FifoQueues.byKey Parcel.address waiting
      (peerSocketID (peerIDs peer) portID)).flatMap Parcel.wire
  held : ∀ parcel ∈ waiting, ∃ peer portID,
    parcel.address = peerSocketID (peerIDs peer) portID
  sound : ∀ parcel ∈ waiting ++ network.inFlight, parcel.Sound peerIDs

variable {peerIDs : ι → PeerID} {waiting : List (Parcel ι)}
  {network : Network ι}

theorem Carries.queuesWhole (h : Carries peerIDs waiting network) (peer : ι) :
    Peer.QueuesWhole (network.peers peer).hub := by
  intro portID
  refine ⟨(FifoQueues.byKey Parcel.address waiting
    (peerSocketID (peerIDs peer) portID)).map fun parcel =>
      .owned parcel.source :: parcel.content, ?_, ?_⟩
  · rw [h.queued, List.flatMap_map]
    apply List.flatMap_congr
    intro parcel hparcel
    exact (h.sound parcel (List.mem_append_left _
      (List.mem_of_mem_filter hparcel))).wire
  · intro frames hframes
    obtain ⟨parcel, hparcel, rfl⟩ := List.mem_map.mp hframes
    have hsound := h.sound parcel (List.mem_append_left _
      (List.mem_of_mem_filter hparcel))
    exact ⟨List.cons_ne_nil _ _, hsound.length⟩

/-- A package has at most seven messages, so that it is read at once, and whoever
manages the ports of a peer keeps their names and what they are to receive.
Nothing comes from outside the network. -/
def Step.Lossless : Step ι → Network ι → Prop
  | .act _ (.send _ package), _ => package.length + 3 ≤ messageVecSize
  | .act peer (.managePorts hub), network =>
      (∀ portID, hub.incomingAt portID =
        (network.peers peer).hub.incomingAt portID) ∧
      ∀ portID port, hub.findPort portID = some port →
        port.Named (network.peers peer).peerID portID
  | .act _ single, _ => single.Local
  | .deliver _ _ _, _ => True

instance (peerID : PeerID) (portID : PortID) (port : Port (Addr ι)) :
    Decidable (port.Named peerID portID) :=
  decidable_of_iff (_ ∧ _) ⟨fun h => ⟨h.1, h.2⟩, fun h => ⟨h.1, h.2⟩⟩

theorem forall_incomingAt_iff {α : Type*} {hub other : Hub α} :
    (∀ portID ∈ hub.ports.keys ++ other.ports.keys,
        hub.incomingAt portID = other.incomingAt portID) ↔
      ∀ portID, hub.incomingAt portID = other.incomingAt portID := by
  refine ⟨fun h portID => ?_, fun h portID _ => h portID⟩
  by_cases hmem : portID ∈ hub.ports.keys ++ other.ports.keys
  · exact h portID hmem
  · rw [List.mem_append, not_or] at hmem
    have hnone : hub.findPort portID = none :=
      AList.lookup_eq_none.mpr hmem.1
    have hother : other.findPort portID = none :=
      AList.lookup_eq_none.mpr hmem.2
    rw [Hub.incomingAt, Hub.incomingAt, hnone, hother]

theorem forall_findPort_iff {α : Type*} {hub : Hub α}
    {p : PortID → Port α → Prop} :
    (∀ entry ∈ hub.ports.entries, p entry.1 entry.2) ↔
      ∀ portID port, hub.findPort portID = some port → p portID port :=
  ⟨fun h _ _ hport => h _ (AList.mem_lookup_iff.mp hport),
    fun h _ hentry => h _ _ (AList.mem_lookup_iff.mpr hentry)⟩

instance (single : Peer.Act ι) : Decidable single.Local :=
  match single with
  | .arrive _ _ => .isFalse id
  | .remote _ _ => .isFalse id
  | .send _ _ | .poll _ _ | .receipts _ _ | .subscribe _ | .called _ _ _
  | .resize _ _ _ | .reset _ | .write _ _ _ | .changePackage _
  | .managePorts _ => .isTrue trivial

instance [DecidableEq ι] (single : Step ι) (network : Network ι) :
    Decidable (single.Lossless network) :=
  match single with
  | .deliver _ _ _ => .isTrue trivial
  | .act _ (.send _ _) => inferInstanceAs (Decidable (_ ≤ _))
  | .act peer (.managePorts hub) =>
      have : Decidable (∀ portID, hub.incomingAt portID =
          (network.peers peer).hub.incomingAt portID) :=
        @decidable_of_iff _ _ forall_incomingAt_iff (List.decidableBAll _ _)
      decidable_of_iff (_ ∧ _) (and_congr_right fun _ => forall_findPort_iff)
  | .act _ (.arrive _ _) | .act _ (.remote _ _) => .isFalse id
  | .act _ (.poll _ _) | .act _ (.receipts _ _) | .act _ (.subscribe _)
  | .act _ (.called _ _ _) | .act _ (.resize _ _ _) | .act _ (.reset _)
  | .act _ (.write _ _ _) | .act _ (.changePackage _) => .isTrue trivial

theorem Step.Lossless.act_local {peer : ι} {single : Peer.Act ι}
    (h : (Step.act peer single).Lossless network) : single.Local := by
  cases single with
  | send label package => trivial
  | managePorts hub => trivial
  | poll ready package => exact h
  | receipts topic receipts => exact h
  | subscribe label => exact h
  | called interfaceID label view => exact h
  | resize message size offset => exact h
  | reset message => exact h
  | write message position source => exact h
  | changePackage package => exact h
  | arrive portID frames => exact h
  | remote peer labelMessage => exact h

end Network

end Dpn
