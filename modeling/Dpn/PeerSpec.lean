import Dpn.Peer
import Dpn.Storage

/-!
# Sending and receiving as seen from a peer

One lemma for each of the two functions that touch the label buffer says all
that a call does: what it hands to ZMQ or takes from it, and what the messages
and the label buffer are afterwards.
-/

namespace Dpn

open TextStream ByteBuffer

namespace Peer

variable {ι : Type*}

/-! ## Sending -/

def stamped (label : Label) (world : World ι) : Label :=
  label.setPeerID world.peer.peerID .src

/-- The label a send writes into the label buffer. -/
def written (label : Label) (world : World ι) : Contents :=
  { (stamped label world).contents with
    messageID := world.peer.messageID + 1 }

def destPortName (label : Label) : PortName :=
  PortSpecification.getPortName
    ⟨peerIDtoHubName (label.getPeerID .dest), label.getPortID .dest⟩

/-- The local port of the label has a pipe to its destination. -/
def Reaches (label : Label) (world : World ι) : Prop :=
  ∃ port, world.peer.hub.findPort (label.getPortID .src) = some port ∧
    port.closed = false ∧
    portNameToSocketID (destPortName label) port.transport ∈ port.routes

end Peer

namespace World

variable {ι : Type*}

/-- The label buffer as the constructor of the peer allocates it. -/
structure LabelShape (world : World ι) : Prop where
  offset : world.labelMessage.offset = 0
  capacity : world.labelMessage.capacity = contentsSizeof

structure Labelled (contents : Contents) (world : World ι)
    (heap : Heap (Addr ι)) : Prop where
  bytes : (heap (.label world.peer.self)).bytes = contents.encode
  size : (heap (.label world.peer.self)).size = world.labelMessage.size
  offset : (heap (.label world.peer.self)).offset = 0
  capacity : (heap (.label world.peer.self)).capacity = contentsSizeof
  contentsSize : (heap (.label world.peer.self)).contentsSize =
    world.labelMessage.contentsSize
  others : ∀ address, address ≠ .label world.peer.self →
    heap address = world.heap address

theorem LabelShape.length_bytes {world : World ι} (h : world.LabelShape) :
    world.labelMessage.bytes.length = contentsSizeof := by
  rw [world.labelMessage.bytes_length, h.capacity]

theorem LabelShape.heap_offset {world : World ι} (h : world.LabelShape) :
    (world.heap (.label world.peer.self)).offset = 0 :=
  h.offset

theorem LabelShape.heap_capacity {world : World ι} (h : world.LabelShape) :
    (world.heap (.label world.peer.self)).capacity = contentsSizeof :=
  h.capacity

end World

namespace Peer

variable {ι : Type*} [DecidableEq ι]

/-- All that a call of `SendMessages` does. -/
structure SendSpec (label : Label) (package : Package) (world : World ι)
    (result : Label × World ι) (heap : Heap (Addr ι))
    (frames : List (SentFrame (Addr ι))) : Prop where
  stamp : result.1 = stamped label world
  labelled : world.Labelled (written label world) heap
  peer : result.2.peer =
    { world.peer with messageID := world.peer.messageID + 1 }
  trace : result.2.trace = world.trace ++
    [.sent ⟨label.getPortID .src, destPortName label, written label world,
      frames⟩]
  unreached : ¬Reaches label world → frames = [] ∧ result.2.heap = heap
  reached : Reaches label world →
    result.2.heap = emptyAll (world.tempPackage package) heap ∧
    ∃ address, frames = ⟨.owned address, address, true⟩ ::
      ⟨.owned [], [], true⟩ :: handOver (world.tempPackage package) heap

theorem exists_labelled {world : World ι} (hshape : world.LabelShape)
    (contents : Contents) :
    ∃ labelMessage, (world.heap (.label world.peer.self)).memcpy 0
        contents.encode contentsSizeof = some labelMessage ∧
      world.Labelled contents
        (Function.update world.heap (.label world.peer.self)
          labelMessage) := by
  have hlabel : world.heap (.label world.peer.self) = world.labelMessage := rfl
  have hlength : contents.encode.length = contentsSizeof := length_encode contents
  have hsome : (world.heap (.label world.peer.self)).memcpy 0 contents.encode
      contentsSizeof ≠ none := by
    rw [Ne, Message.memcpy_eq_none (by rw [hlength]), hlabel, hshape.offset,
      hshape.capacity]
    omega
  obtain ⟨labelMessage, hmemcpy⟩ := Option.ne_none_iff_exists'.mp hsome
  refine ⟨labelMessage, hmemcpy, ?_⟩
  rw [Message.memcpy, if_pos (by rw [hlength]), ← hlength, List.take_length,
    hlabel, hshape.offset] at hmemcpy
  obtain ⟨-, hsize, hoffset, hcapacity, hcontents, hbytes⟩ :=
    Message.write_eq_some.mp hmemcpy
  constructor
  · rw [Function.update_self, hbytes, overwrite_full]
    rw [hlength, hshape.length_bytes]
  · rw [Function.update_self, hsize]
  · rw [Function.update_self, hoffset, hshape.offset]
  · rw [Function.update_self, hcapacity, hshape.capacity]
  · rw [Function.update_self, hcontents]
  · intro address hne
    exact Function.update_of_ne hne _ _

/-- What the caller of `SendMessages` sees of a send of its hub. -/
def afterSend (label : Label) (world : World ι)
    (result : SendState (Addr ι)) : Label × World ι :=
  (stamped label world,
    { heap := result.heap
      peer := { world.peer with messageID := world.peer.messageID + 1 }
      trace := world.trace ++ [.sent ⟨label.getPortID .src,
        destPortName label, written label world, result.sent⟩] })

theorem sendMessages_eq_hub_send {label : Label} {package : Package}
    {world : World ι} (hshape : world.LabelShape) :
    ∃ heap, world.Labelled (written label world) heap ∧
      sendMessages label package world =
        (world.peer.hub.send (label.getPortID .src)
          ⟨peerIDtoHubName (label.getPeerID .dest), label.getPortID .dest⟩
          (world.tempPackage package) heap).map (afterSend label world) := by
  obtain ⟨labelMessage, hmemcpy, hlabelled⟩ :=
    exists_labelled hshape (written label world)
  refine ⟨Function.update world.heap (.label world.peer.self) labelMessage,
    hlabelled, ?_⟩
  simp only [sendMessages]
  split
  · rename_i hnone
    exact absurd (hnone.symm.trans hmemcpy) (by simp)
  · rename_i other hother
    obtain rfl : labelMessage = other :=
      Option.some.inj (hmemcpy.symm.trans hother)
    rfl

/-- The hub sends to a port it reaches, warns if the local port is missing, and
lets the exception of ZMQ through otherwise. -/
theorem hub_send_cases (label : Label) (world : World ι)
    (messages : List (Addr ι)) (heap : Heap (Addr ι)) :
    (Reaches label world ∧ ∃ address,
      world.peer.hub.send (label.getPortID .src)
          ⟨peerIDtoHubName (label.getPeerID .dest), label.getPortID .dest⟩
          messages heap =
        .ok ⟨emptyAll messages heap, ⟨.owned address, address, true⟩ ::
          ⟨.owned [], [], !messages.isEmpty⟩ :: handOver messages heap⟩) ∨
    (¬Reaches label world ∧
      world.peer.hub.findPort (label.getPortID .src) = none ∧
      world.peer.hub.send (label.getPortID .src)
          ⟨peerIDtoHubName (label.getPeerID .dest), label.getPortID .dest⟩
          messages heap = .ok ⟨heap, []⟩) ∨
    (¬Reaches label world ∧
      (∃ port, world.peer.hub.findPort (label.getPortID .src) = some port) ∧
      world.peer.hub.send (label.getPortID .src)
          ⟨peerIDtoHubName (label.getPeerID .dest), label.getPortID .dest⟩
          messages heap = .throw .zmqError ⟨heap, []⟩) := by
  rw [Hub.send]
  cases hport : world.peer.hub.findPort (label.getPortID .src) with
  | none =>
      refine Or.inr (Or.inl ⟨?_, rfl, rfl⟩)
      rintro ⟨port, hfound, -⟩
      simp [hport] at hfound
  | some port =>
      by_cases hroute : port.closed = false ∧
          portNameToSocketID (destPortName label) port.transport ∈ port.routes
      · exact Or.inl ⟨⟨port, hport, hroute⟩, _,
          send_of_reachable hroute.1 hroute.2⟩
      · refine Or.inr (Or.inr ⟨?_, ⟨port, rfl⟩, send_of_unreachable hroute⟩)
        rintro ⟨other, hfound, hother⟩
        obtain rfl : port = other := Option.some.inj (hport.symm.trans hfound)
        exact hroute hother

/-- A send returns, or ZMQ refuses the address; in a reachable state it
returns. -/
theorem sendMessages_spec {label : Label} {package : Package}
    {world : World ι} (hshape : world.LabelShape) :
    ∃ result heap frames, SendSpec label package world result heap frames ∧
      (sendMessages label package world = .ok result ∨
        sendMessages label package world = .throw .zmqError result) ∧
      (Reaches label world → sendMessages label package world = .ok result) := by
  obtain ⟨heap, hlabelled, hsend⟩ :=
    @sendMessages_eq_hub_send ι _ label package world hshape
  have hunsent : ¬Reaches label world →
      SendSpec label package world (afterSend label world ⟨heap, []⟩) heap [] :=
    fun hunreached => ⟨rfl, hlabelled, rfl, rfl, fun _ => ⟨rfl, rfl⟩,
      fun h => absurd h hunreached⟩
  rw [hsend]
  rcases hub_send_cases label world (world.tempPackage package) heap with
    ⟨hreaches, address, hdone⟩ | ⟨hunreached, -, hdone⟩ |
      ⟨hunreached, -, hdone⟩
  · rw [hdone]
    exact ⟨_, heap, _, ⟨rfl, hlabelled, rfl, rfl, fun h => absurd hreaches h,
      fun _ => ⟨rfl, address, rfl⟩⟩, Or.inl rfl, fun _ => rfl⟩
  · rw [hdone]
    exact ⟨_, heap, _, hunsent hunreached, Or.inl rfl, fun _ => rfl⟩
  · rw [hdone]
    exact ⟨_, heap, _, hunsent hunreached, Or.inr rfl,
      fun h => absurd h hunreached⟩

theorem sendMessages_holds {label : Label} {package : Package}
    {world : World ι} {p : Label × World ι → Prop} (hshape : world.LabelShape)
    (hp : ∀ result heap frames,
      SendSpec label package world result heap frames → p result) :
    (sendMessages label package world).Holds p := by
  obtain ⟨result, heap, frames, hspec, hok | hthrow, -⟩ :=
    @sendMessages_spec ι _ label package world hshape
  · rw [hok]
    exact hp result heap frames hspec
  · rw [hthrow]
    exact hp result heap frames hspec

theorem sendSpec_of_ok {label : Label} {package : Package} {world : World ι}
    {result : Label × World ι} (hshape : world.LabelShape)
    (hok : sendMessages label package world = .ok result) :
    ∃ heap frames, SendSpec label package world result heap frames := by
  obtain ⟨sent, heap, frames, hspec, hdone | hthrow, -⟩ :=
    @sendMessages_spec ι _ label package world hshape
  · obtain rfl := Outcome.ok.inj (hdone.symm.trans hok)
    exact ⟨heap, frames, hspec⟩
  · exact absurd (hthrow.symm.trans hok) (by simp)

/-- The label buffer after a send: its frame is empty if the send succeeded. -/
structure SentLabel (label : Label) (world : World ι) (next : World ι) :
    Prop where
  bytes : next.labelMessage.bytes = (written label world).encode
  shape : next.LabelShape
  reached : Reaches label world → next.labelMessage.contentsSize = 0
  unreached : ¬Reaches label world →
    next.labelMessage.contentsSize = world.labelMessage.contentsSize

theorem SendSpec.sentLabel {label : Label} {package : Package}
    {world : World ι} {result : Label × World ι} {heap : Heap (Addr ι)}
    {frames : List (SentFrame (Addr ι))}
    (h : SendSpec label package world result heap frames) :
    SentLabel label world result.2 := by
  have hself : result.2.peer.self = world.peer.self := by rw [h.peer]
  have hmessage : result.2.labelMessage =
      result.2.heap (.label world.peer.self) := by
    rw [World.labelMessage, hself]
  by_cases hreaches : Reaches label world
  · have hempty : result.2.labelMessage =
        (heap (.label world.peer.self)).emptied := by
      rw [hmessage, (h.reached hreaches).1]
      simp [emptyAll, World.tempPackage]
    constructor
    · rw [hempty, Message.emptied_bytes, h.labelled.bytes]
    · constructor
      · rw [hempty, Message.emptied_offset, h.labelled.offset]
      · rw [hempty, Message.emptied_capacity, h.labelled.capacity]
    · intro _
      rw [hempty, Message.emptied_contentsSize]
    · exact fun hnot => absurd hreaches hnot
  · have hsame : result.2.labelMessage = heap (.label world.peer.self) := by
      rw [hmessage, (h.unreached hreaches).2]
    constructor
    · rw [hsame, h.labelled.bytes]
    · constructor
      · rw [hsame, h.labelled.offset]
      · rw [hsame, h.labelled.capacity]
    · exact fun hyes => absurd hyes hreaches
    · intro _
      rw [hsame, h.labelled.contentsSize]

/-! ## Receiving -/

/-- What stops a call after the multipart is stored: a sender name without a
port number, or a hub name that is no number. -/
def senderError (portName : PortName) (labelContents : Contents) :
    Option Exn :=
  match (⟨[], 0⟩ : PortSpecification).setPortName portName with
  | .ok spec =>
      match checkSource labelContents spec with
      | .ok _ => none
      | .error error => some (Exn.ofStoi error)
  | .throw error _ => some error
  | .stuck _ => none

def afterReceive (destPortID : PortID) (package : Package)
    (port : Port (Addr ι)) (frames : List (FrameData (Addr ι)))
    (world : World ι) (heap : Heap (Addr ι)) : World ι where
  heap := heap
  peer := { world.peer with
    hub := world.peer.hub.setPort destPortID port.consume }
  trace := world.trace ++ [.received destPortID package
    (frames.map fun frame => frame.bytes world.heap)]

theorem receiveMessages_of_next {destPortID : PortID} {package : Package}
    {world : World ι} {port : Port (Addr ι)}
    {frames : List (FrameData (Addr ι))}
    (hport : world.peer.hub.findPort destPortID = some port)
    (hnext : port.nextMultipart = some frames) :
    receiveMessages destPortID package world =
      match distribute (world.tempPackage package)
        (packageFrames world.heap frames) world.heap with
      | .ok heap =>
          let received := afterReceive destPortID package port frames world heap
          match senderError (senderName world.heap frames)
            received.labelContents with
          | none => .ok received
          | some error => .throw error received
      | .throw error heap =>
          .throw error (afterReceive destPortID package port frames world heap)
      | .stuck reason => .stuck reason := by
  have hlogged : world.logReceived destPortID package =
      world.log (.received destPortID package
        (frames.map fun frame => frame.bytes world.heap)) := by
    simp only [World.logReceived, hport, Option.bind_some, hnext]
  simp only [receiveMessages, hport, Hub.receive, receive_of_next hnext, hlogged]
  cases distribute (world.tempPackage package)
    (packageFrames world.heap frames) world.heap with
  | ok heap =>
      simp only [Outcome.map_ok, Outcome.andThen_ok]
      unfold senderError
      cases hspec : (⟨[], 0⟩ : PortSpecification).setPortName
          (senderName world.heap frames) with
      | ok spec =>
          simp only [Outcome.map_ok, Outcome.andThen_ok]
          change (match checkSource (afterReceive destPortID package port
            frames world heap).labelContents spec with
            | .ok _ => _
            | .error error => _) = _
          cases checkSource (afterReceive destPortID package port frames world
            heap).labelContents spec <;> rfl
      | throw error spec => rfl
      | stuck reason =>
          exact absurd hspec (PortSpecification.setPortName_ne_stuck _ _ _)
  | throw error heap => rfl
  | stuck reason => rfl

/-- All that a call of `ReceiveMessages` does, whether it returns or throws. -/
structure ReceiveSpec (destPortID : PortID) (package : Package)
    (world final : World ι) : Prop where
  peer : final.peer = { world.peer with hub := final.peer.hub }
  stored : (final.heap = world.heap ∧ final.trace = world.trace) ∨
    ∃ port frames, world.peer.hub.findPort destPortID = some port ∧
      port.nextMultipart = some frames ∧
      distribute (world.tempPackage package)
        (packageFrames world.heap frames) world.heap = .ok final.heap ∧
      final.trace = world.trace ++ [.received destPortID package
        (frames.map fun frame => frame.bytes world.heap)]

theorem receiveMessages_stores {destPortID : PortID} {package : Package}
    {world : World ι} {port : Port (Addr ι)}
    {frames : List (FrameData (Addr ι))}
    (hport : world.peer.hub.findPort destPortID = some port)
    (hnext : port.nextMultipart = some frames) :
    (receiveMessages destPortID package world).Holds fun final =>
      ReceiveSpec destPortID package world final ∧
        distribute (world.tempPackage package)
          (packageFrames world.heap frames) world.heap = .ok final.heap := by
  rw [receiveMessages_of_next hport hnext]
  cases hstore : distribute (world.tempPackage package)
    (packageFrames world.heap frames) world.heap with
  | ok heap =>
      have hspec : ReceiveSpec destPortID package world
          (afterReceive destPortID package port frames world heap) :=
        ⟨rfl, Or.inr ⟨port, frames, hport, hnext, hstore, rfl⟩⟩
      dsimp only
      split
      · exact ⟨hspec, rfl⟩
      · exact ⟨hspec, rfl⟩
  | throw error heap =>
      rcases distribute_ok_or_undefined (.label world.peer.self)
        (package.map .message) (packageFrames world.heap frames)
        world.heap with ⟨final, hok⟩ | hstuck
      · exact absurd (hstore.symm.trans hok) (by simp)
      · exact absurd (hstore.symm.trans hstuck) (by simp)
  | stuck reason => trivial

/-- Without a whole multipart of at most ten frames, nothing is stored. -/
theorem receiveMessages_of_no_next {destPortID : PortID} {package : Package}
    {world : World ι} {port : Port (Addr ι)}
    (hport : world.peer.hub.findPort destPortID = some port)
    (hnext : port.nextMultipart = none) :
    (∃ error consumed, receiveMessages destPortID package world =
        .throw error
          (world.withHub (world.peer.hub.setPort destPortID consumed))) ∨
      receiveMessages destPortID package world = .stuck .blocked := by
  have hlogged : world.logReceived destPortID package = world := by
    simp [World.logReceived, hport, hnext]
  simp only [receiveMessages, hport, Hub.receive, hlogged]
  rcases @receive_of_no_next _ _ (world.tempPackage package) port world.heap
      hnext with ⟨error, consumed, hthrow⟩ | hstuck
  · rw [hthrow]
    exact Or.inl ⟨error, consumed, rfl⟩
  · rw [hstuck]
    exact Or.inr rfl

theorem receiveMessages_spec (destPortID : PortID) (package : Package)
    (world : World ι) :
    (receiveMessages destPortID package world).Holds
      (ReceiveSpec destPortID package world) := by
  cases hport : world.peer.hub.findPort destPortID with
  | none => simp [receiveMessages, hport]
  | some port =>
      cases hnext : port.nextMultipart with
      | some frames =>
          exact (receiveMessages_stores hport hnext).mono
            fun final hfinal => hfinal.1
      | none =>
          rcases @receiveMessages_of_no_next _ _ _ package _ _ hport hnext with
            ⟨error, consumed, hthrow⟩ | hstuck
          · rw [hthrow]
            exact ⟨rfl, Or.inl ⟨rfl, rfl⟩⟩
          · rw [hstuck]
            trivial

/-- The frames that end up in the label buffer: the first one, or all of them
if there is no message behind the label. -/
def labelFrames (package : Package) (heap : Heap (Addr ι))
    (frames : List (FrameData (Addr ι))) : List (FrameData (Addr ι)) :=
  share (package.length + 1) (packageFrames heap frames) 0

omit [DecidableEq ι] in
theorem labelFrames_of_packageFrames (package : Package)
    {heap : Heap (Addr ι)} {frames : List (FrameData (Addr ι))}
    {first : FrameData (Addr ι)} {rest : List (FrameData (Addr ι))}
    (hframes : packageFrames heap frames = first :: rest) :
    ∃ others, labelFrames package heap frames = first :: others := by
  rw [labelFrames, hframes]
  by_cases hpackage : package = []
  · exact ⟨rest, by simp [share, hpackage]⟩
  · have hpos := List.length_pos_iff.mpr hpackage
    exact ⟨[], by simp [share, hpos]⟩

/-- A frame as long as a label fills the buffer, whatever is laid behind it. -/
theorem take_lay_label {world : World ι} (hshape : world.LabelShape)
    {first : FrameData (Addr ι)} (hwhole : first.Whole world.heap)
    (hlength : (first.bytes world.heap).length = contentsSizeof)
    (others : List (FrameData (Addr ι))) :
    (lay (.label world.peer.self) world.heap (first :: others) 0
      world.labelMessage.bytes).take contentsSizeof =
        first.bytes world.heap := by
  have hcpy : cpySize first (world.heap (.label world.peer.self)) =
      contentsSizeof := by
    rw [cpySize_eq_min, hshape.heap_capacity, ← hwhole, hlength, Nat.min_self]
  have hread : (first.bytesOver (.label world.peer.self)
      world.labelMessage.bytes world.heap).take contentsSizeof =
        first.bytes world.heap := by
    rw [World.labelMessage, bytesOver_self, ← hlength, List.take_length]
  rw [lay, hcpy, hread, Nat.zero_add, overwrite_zero]
  have hfills : contentsSizeof ≤ (first.bytes world.heap ++
      world.labelMessage.bytes.drop (first.bytes world.heap).length).length := by
    rw [List.length_append, hlength]
    exact Nat.le_add_right _ _
  rw [take_lay (le_refl _) hfills, List.take_left' hlength]

structure LabelStored (package : Package) (world : World ι)
    (frames : List (FrameData (Addr ι))) (heap : Heap (Addr ι)) : Prop where
  offset : (heap (.label world.peer.self)).offset = 0
  contentsSize : (heap (.label world.peer.self)).contentsSize =
    storedSize (.label world.peer.self)
      (labelFrames package world.heap frames) world.heap
  fits : storedSize (.label world.peer.self)
    (labelFrames package world.heap frames) world.heap ≤ contentsSizeof
  source : ∀ frame ∈ labelFrames package world.heap frames,
    cpySize frame world.labelMessage ≤ (frame.bytes world.heap).length
  bytes : (heap (.label world.peer.self)).bytes =
    lay (.label world.peer.self) world.heap
      (labelFrames package world.heap frames) 0 world.labelMessage.bytes

omit [DecidableEq ι] in
theorem label_notMem (peer : ι) (package : Package) :
    Addr.label peer ∉ package.map Addr.message := by
  simp

omit [DecidableEq ι] in
theorem nodup_tempPackage {package : Package} {world : World ι}
    (hnodup : package.Nodup) : (world.tempPackage package).Nodup := by
  rw [World.tempPackage, List.nodup_cons]
  exact ⟨label_notMem _ _, hnodup.map fun _ _ hsame => Addr.message.inj hsame⟩

/-- A package leaves the label buffer alone, or stores its share there. -/
theorem labelStored_of_distribute {package : Package} {world : World ι}
    {frames : List (FrameData (Addr ι))} {heap : Heap (Addr ι)}
    (hshape : world.LabelShape)
    (hstore : distribute (world.tempPackage package)
      (packageFrames world.heap frames) world.heap = .ok heap) :
    (packageFrames world.heap frames = [] ∧ heap = world.heap) ∨
      (packageFrames world.heap frames ≠ [] ∧
        LabelStored package world frames heap) := by
  by_cases hframes : packageFrames world.heap frames = []
  · rw [hframes, distribute_nil] at hstore
    exact Or.inl ⟨hframes, (Outcome.ok.inj hstore).symm⟩
  · obtain ⟨stored, happend, hlabel⟩ := distribute_head_of_ok
      (label_notMem world.peer.self package) hframes hstore
    rw [List.length_map] at happend
    have hshare : labelFrames package world.heap frames ≠ [] := by
      rw [labelFrames, Ne, share_eq_nil_iff, Nat.le_zero]
      exact fun hlength => hframes (List.length_eq_zero_iff.mp hlength)
    obtain ⟨-, hcontents, hoffset, hfits⟩ := appendFrames_of_ok hshare happend
    rw [Nat.zero_add] at hcontents hfits
    refine Or.inr ⟨hframes, ?_, ?_, ?_, appendFrames_source_of_ok happend, ?_⟩
    · rw [hlabel, hoffset]
    · rw [hlabel, hcontents, labelFrames]
    · rw [← hshape.capacity]
      exact hfits
    · rw [hlabel]
      exact lay_of_appendFrames hshape.offset happend

end Peer

end Dpn
