import Dpn.Fanout

/-!
# Several peers

The peers of a process share its messages.  A package that was sent is in
flight until its receiver reads it, and its frames are references to the
buffers of its sender until then.

Push, Publish, Request and the reply interfaces are sequences of sends;
GetPendingPackage, ServiceInterfaces and the polls of a request are receives.
The actions of a system are the single sends and receives, in any order, and
what users do to messages in between.
-/

namespace Dpn

open ByteBuffer

variable {ι : Type*}

/-- A package on its way, with the routing ID of the port it came from. -/
structure Parcel (ι : Type*) where
  sender : ι
  source : SocketID
  record : SendRecord ι

/-- The peers of a process.  `copied` pairs the label that was written for a
package with the bytes its receiver copied. -/
structure System (ι : Type*) where
  heap : Heap (Addr ι)
  peers : ι → Peer ι
  inFlight : List (Parcel ι)
  copied : List (Contents × List UInt8)

inductive Action (ι : Type*) where
  | send (peer : ι) (label : Label) (package : Package)
  | receive (peer : ι) (portID : PortID) (package : Package) (index : ℕ)
  | managePorts (peer : ι) (hub : Hub (Addr ι))
  | resize (message : ℕ) (size offset : ℕ)
  | reset (message : ℕ)
  | write (message : ℕ) (position : ℕ) (source : List UInt8)

namespace System

def world (system : System ι) (peer : ι) : World ι :=
  ⟨system.heap, system.peers peer, []⟩

def routingID (hub : Hub (Addr ι)) (portID : PortID) : SocketID :=
  match hub.findPort portID with
  | none => []
  | some port => portNameToSocketID port.portName port.transport

/-- The packages among the events of a send; one that ZMQ refused has no
frames. -/
def parcels (peer : ι) (source : SocketID) (trace : List (Event ι)) :
    List (Parcel ι) :=
  ((trace.filterMap Event.sent?).filter fun record =>
    !record.frames.isEmpty).map fun record => ⟨peer, source, record⟩

variable [DecidableEq ι]

def put (system : System ι) (peer : ι) (world : World ι) : System ι :=
  { system with
    heap := world.heap
    peers := Function.update system.peers peer world.peer }

theorem put_peers_self (system : System ι) (peer : ι) (world : World ι) :
    (system.put peer world).peers peer = world.peer :=
  Function.update_self ..

theorem put_peers_of_ne {system : System ι} {peer other : ι} {world : World ι}
    (hne : other ≠ peer) :
    (system.put peer world).peers other = system.peers other :=
  Function.update_of_ne hne ..

def setMessage (system : System ι) (index : ℕ) (message : Message) :
    System ι :=
  { system with heap := Function.update system.heap (.message index) message }

/-- The world of a peer when the package is the next one on a port. -/
def arrived (system : System ι) (peer : ι) (portID : PortID)
    (port : Port (Addr ι)) (parcel : Parcel ι) : World ι :=
  (system.world peer).withHub ((system.peers peer).hub.setPort portID
    { port with incoming := deliver parcel.source parcel.record.frames })

def step : Action ι → System ι → Outcome Exn (System ι)
  | .send peer label package, system =>
      (Peer.sendMessages label package (system.world peer)).map fun result =>
        { system.put peer result.2 with
          inFlight := system.inFlight ++ parcels peer
            (routingID (system.peers peer).hub (label.getPortID .src))
            result.2.trace }
  | .receive peer portID package index, system =>
      match system.inFlight[index]?,
        (system.peers peer).hub.findPort portID with
      | some parcel, some port =>
          if port.closed = false ∧ parcel.record.portName = port.portName then
            (Peer.receiveMessages portID package
              (system.arrived peer portID port parcel)).map fun final =>
                { system.put peer final with
                  inFlight := system.inFlight.eraseIdx index
                  copied := system.copied ++
                    [(parcel.record.written, final.labelMessage.bytes)] }
          else .ok system
      | _, _ => .ok system
  | .managePorts peer hub, system =>
      .ok (system.put peer ((system.world peer).withHub hub))
  | .resize message size offset, system =>
      .ok (system.setMessage message
        ((system.heap (.message message)).resize size offset))
  | .reset message, system =>
      .ok (system.setMessage message (system.heap (.message message)).reset)
  | .write message position source, system =>
      match (system.heap (.message message)).write position source with
      | none => .stuck .undefined
      | some written => .ok (system.setMessage message written)

structure Initial (system : System ι) : Prop where
  self : ∀ peer, (system.peers peer).self = peer
  peers : ∀ peer, Peer.Initial (system.world peer)
  inFlight : system.inFlight = []
  copied : system.copied = []

/-- The label buffer of a peer is not written while another package of the peer
is in flight, and what is sent is a whole label with few enough bodies to be
read at once. -/
def Undisturbed : Action ι → System ι → Prop
  | .send peer label package, system =>
      (∀ parcel ∈ system.inFlight, parcel.sender ≠ peer) ∧
        (Peer.Reaches label (system.world peer) →
          (system.world peer).labelMessage.contentsSize = contentsSizeof ∧
            package.length + 3 ≤ messageVecSize)
  | .receive peer _ _ index, system =>
      ∀ parcel ∈ system.inFlight.eraseIdx index, parcel.sender ≠ peer
  | _, _ => True

/-! ## The invariant -/

/-- The package of a parcel, whose label frame refers to the label buffer of its
sender. -/
structure Packed (parcel : Parcel ι) (bodies : List (FrameData (Addr ι))) :
    Prop where
  wire : deliver parcel.source parcel.record.frames =
    toWire (.owned parcel.source :: .owned [] ::
      .shared (.label parcel.sender) contentsSizeof :: bodies)
  length : bodies.length + 3 ≤ messageVecSize

/-- The label that was written for the package is still in the buffer. -/
structure Carried (heap : Heap (Addr ι)) (parcel : Parcel ι) : Prop where
  bytes : (heap (.label parcel.sender)).bytes = parcel.record.written.encode
  packed : ∃ bodies, Packed parcel bodies

structure Invariant (system : System ι) : Prop where
  self : ∀ peer, (system.peers peer).self = peer
  shape : ∀ peer, (system.world peer).LabelShape
  carried : ∀ parcel ∈ system.inFlight, Carried system.heap parcel
  copied : ∀ pair ∈ system.copied, pair.2 = pair.1.encode

omit [DecidableEq ι] in
theorem Carried.of_label_eq {heap next : Heap (Addr ι)} {parcel : Parcel ι}
    (h : Carried heap parcel)
    (hlabel : next (.label parcel.sender) = heap (.label parcel.sender)) :
    Carried next parcel :=
  ⟨by rw [hlabel]; exact h.bytes, h.packed⟩

theorem packed_of_send {label : Label} {package : Package} {world : World ι}
    {result : Label × World ι} {heap : Heap (Addr ι)}
    {frames : List (SentFrame (Addr ι))} {record : SendRecord ι}
    (hspec : Peer.SendSpec label package world result heap frames)
    (hreaches : Peer.Reaches label world)
    (hwhole : world.labelMessage.contentsSize = contentsSizeof)
    (hlength : package.length + 3 ≤ messageVecSize)
    (hframes : record.frames = frames) (source : SocketID) :
    ∃ bodies, Packed ⟨world.peer.self, source, record⟩ bodies := by
  obtain ⟨-, address, hsent⟩ := hspec.reached hreaches
  have hsize : (heap (.label world.peer.self)).contentsSize = contentsSizeof := by
    rw [hspec.labelled.contentsSize, hwhole]
  refine ⟨(handOver (package.map Addr.message) (Function.update heap
    (.label world.peer.self) (heap (.label world.peer.self)).emptied)).map
      SentFrame.data, ?_, ?_⟩
  · have hwire : deliver source record.frames = toWire (.owned source ::
        .owned [] :: (handOver (world.tempPackage package) heap).map
          SentFrame.data) := by
      rw [hframes, hsent, deliver, List.map_cons, map_handOver_eq_toWire]
      rfl
    rw [hwire, World.tempPackage, handOver, List.map_cons, hsize]
  · rw [List.length_map, length_handOver, List.length_map]
    exact hlength

theorem label_copied {package : Package} {world : World ι} {parcel : Parcel ι}
    {bodies : List (FrameData (Addr ι))} {heap : Heap (Addr ι)}
    (hshape : world.LabelShape)
    (hbytes : (world.heap (.label parcel.sender)).bytes =
      parcel.record.written.encode)
    (hstore : distribute (world.tempPackage package)
      (packageFrames world.heap (.owned parcel.source :: .owned [] ::
        .shared (.label parcel.sender) contentsSizeof :: bodies)) world.heap =
      .ok heap) :
    (heap (.label world.peer.self)).bytes = parcel.record.written.encode := by
  have hpackage : packageFrames world.heap (.owned parcel.source ::
      .owned [] :: .shared (.label parcel.sender) contentsSizeof :: bodies) =
        .shared (.label parcel.sender) contentsSizeof :: bodies := by
    rw [packageFrames, if_pos (FrameData.bytes_owned _ _)]
  have hencode : parcel.record.written.encode.length = contentsSizeof :=
    length_encode _
  have hframe : (FrameData.shared (.label parcel.sender) contentsSizeof).bytes
      world.heap = parcel.record.written.encode := by
    rw [FrameData.bytes, hbytes, ← hencode, List.take_length]
  have hwhole : (FrameData.shared (.label parcel.sender) contentsSizeof).Whole
      world.heap := by
    rw [FrameData.Whole, hframe, hencode]
    rfl
  obtain ⟨others, hlabelFrames⟩ :=
    Peer.labelFrames_of_packageFrames package hpackage
  rcases Peer.labelStored_of_distribute hshape hstore with ⟨hnil, -⟩ | ⟨-, h⟩
  · rw [hpackage] at hnil
    contradiction
  · have hfront := Peer.take_lay_label hshape hwhole (by rw [hframe, hencode])
      others
    have hcapacity : (heap (.label world.peer.self)).capacity =
        contentsSizeof :=
      (((distribute_onlyChanges _ _ _).of_ok hstore).capacity _).trans
        hshape.heap_capacity
    rw [← hlabelFrames, ← h.bytes, List.take_of_length_le, hframe] at hfront
    · exact hfront
    · rw [Message.bytes_length, hcapacity]

/-! ## One action -/

/-- What one peer leaves behind: its own label buffer may have changed. -/
structure Leaves (system : System ι) (peer : ι) (final : World ι) : Prop where
  self : final.peer.self = peer
  shape : final.LabelShape
  others : ∀ other, other ≠ peer →
    final.heap (.label other) = system.heap (.label other)

theorem Leaves.self_put {system : System ι} {peer : ι} {final : World ι}
    (h : Leaves system peer final)
    (hself : ∀ other, (system.peers other).self = other) (other : ι) :
    ((system.put peer final).peers other).self = other := by
  by_cases hother : other = peer
  · subst other
    rw [put_peers_self]
    exact h.self
  · rw [put_peers_of_ne hother]
    exact hself other

theorem Leaves.shape_put {system : System ι} {peer : ι} {final : World ι}
    (h : Leaves system peer final) (hinvariant : Invariant system)
    (other : ι) : ((system.put peer final).world other).LabelShape := by
  have hself := h.self_put hinvariant.self other
  have hmessage : ((system.put peer final).world other).labelMessage =
      final.heap (.label other) := congrArg (fun self => final.heap (.label self))
    hself
  by_cases hother : other = peer
  · subst other
    have hown : final.labelMessage = final.heap (.label peer) := by
      rw [World.labelMessage, h.self]
    exact Peer.labelShape_of_eq h.shape (hmessage.trans hown.symm)
  · have hkept : (system.world other).labelMessage =
        system.heap (.label other) := by
      have hold := hinvariant.self other
      rw [World.labelMessage, world, hold]
    have hsame := h.others other hother
    exact Peer.labelShape_of_eq (hinvariant.shape other)
      (by rw [hmessage, hsame, hkept])

theorem leaves_of_send {system : System ι} {peer : ι} {label : Label}
    {package : Package} {result : Label × World ι} {heap : Heap (Addr ι)}
    {frames : List (SentFrame (Addr ι))}
    (hself : (system.peers peer).self = peer)
    (hspec : Peer.SendSpec label package (system.world peer) result heap
      frames) : Leaves system peer result.2 := by
  have hworld : (system.world peer).peer.self = peer := hself
  refine ⟨by rw [hspec.peer]; exact hself, hspec.sentLabel.shape, ?_⟩
  intro other hother
  have hlabelled : heap (.label other) = system.heap (.label other) :=
    hspec.labelled.others _ (by simpa [hworld] using hother)
  by_cases hreaches : Peer.Reaches label (system.world peer)
  · have hnotMem : Addr.label other ∉
        (system.world peer).tempPackage package := by
      simp [World.tempPackage, hworld, hother]
    rw [(hspec.reached hreaches).1, emptyAll, if_neg hnotMem, hlabelled]
  · rw [(hspec.unreached hreaches).2, hlabelled]

theorem carried_of_send {system : System ι} {peer : ι} {label : Label}
    {package : Package} {result : Label × World ι} {heap : Heap (Addr ι)}
    {frames : List (SentFrame (Addr ι))} {source : SocketID}
    (hself : (system.peers peer).self = peer)
    (hundisturbed : Undisturbed (.send peer label package) system)
    (hspec : Peer.SendSpec label package (system.world peer) result heap frames)
    {parcel : Parcel ι}
    (hparcel : parcel ∈ parcels peer source result.2.trace) :
    Carried result.2.heap parcel := by
  have hworld : (system.world peer).peer.self = peer := hself
  rw [hspec.trace] at hparcel
  by_cases hreaches : Peer.Reaches label (system.world peer)
  · obtain ⟨hwhole, hlength⟩ := hundisturbed.2 hreaches
    obtain ⟨-, address, hframes⟩ := hspec.reached hreaches
    have hnonempty : frames ≠ [] := by simp [hframes]
    let record : SendRecord ι := ⟨label.getPortID .src,
      Peer.destPortName label, Peer.written label (system.world peer), frames⟩
    have hsent : parcel = ⟨peer, source, record⟩ := by
      simpa [parcels, world, Event.sent?, hnonempty, record] using hparcel
    subst hsent
    have hpacked := packed_of_send hspec hreaches hwhole hlength
      (show record.frames = frames from rfl) source
    rw [hworld] at hpacked
    refine ⟨?_, hpacked⟩
    have hmessage : result.2.labelMessage = result.2.heap (.label peer) := by
      rw [World.labelMessage, (leaves_of_send hself hspec).self]
    rw [← hmessage]
    exact hspec.sentLabel.bytes
  · rw [(hspec.unreached hreaches).1] at hparcel
    simp [parcels, world, Event.sent?] at hparcel

theorem Invariant.send {system : System ι} (h : Invariant system) {peer : ι}
    {label : Label} {package : Package}
    (hundisturbed : Undisturbed (.send peer label package) system) :
    (step (.send peer label package) system).Holds Invariant := by
  have hsend : (Peer.sendMessages label package (system.world peer)).Holds
      fun result => ∃ heap frames, Peer.SendSpec label package
        (system.world peer) result heap frames :=
    Peer.sendMessages_holds (h.shape peer)
      fun _ heap frames hspec => ⟨heap, frames, hspec⟩
  rw [step]
  apply hsend.map
  rintro result ⟨heap, frames, hspec⟩
  have hleaves := leaves_of_send (h.self peer) hspec
  refine ⟨hleaves.self_put h.self, hleaves.shape_put h, ?_, h.copied⟩
  intro parcel hparcel
  rcases List.mem_append.mp hparcel with hbefore | hnew
  · exact (h.carried parcel hbefore).of_label_eq
      (hleaves.others _ (hundisturbed.1 parcel hbefore))
  · exact carried_of_send (h.self peer) hundisturbed hspec hnew

theorem leaves_of_receive {system : System ι} {peer : ι} {portID : PortID}
    {package : Package} {arrived final : World ι}
    (hself : arrived.peer.self = peer) (hheap : arrived.heap = system.heap)
    (hshape : arrived.LabelShape)
    (hspec : Peer.ReceiveSpec portID package arrived final)
    (honly : OnlyChanges (arrived.tempPackage package) arrived.heap
      final.heap) : Leaves system peer final := by
  refine ⟨by rw [hspec.peer]; exact hself,
    Peer.labelShape_of_receive hshape hspec, ?_⟩
  intro other hother
  rw [← hheap]
  apply honly.others
  simp [World.tempPackage, hself, hother]

theorem Invariant.receive {system : System ι} (h : Invariant system) {peer : ι}
    {portID : PortID} {package : Package} {index : ℕ}
    (hundisturbed : Undisturbed (.receive peer portID package index) system) :
    (step (.receive peer portID package index) system).Holds Invariant := by
  rw [step]
  split
  · rename_i parcel port hparcel hport
    split
    · rename_i hopen
      have hmem : parcel ∈ system.inFlight := List.mem_of_getElem? hparcel
      obtain ⟨hbytes, bodies, hpacked⟩ := h.carried parcel hmem
      have hfound : (system.arrived peer portID port parcel).peer.hub.findPort
          portID = some { port with
            incoming := deliver parcel.source parcel.record.frames } :=
        Hub.findPort_setPort_self _ _ _
      have hnext : Port.nextMultipart { port with
          incoming := deliver parcel.source parcel.record.frames } =
            some (.owned parcel.source :: .owned [] ::
              .shared (.label parcel.sender) contentsSizeof :: bodies) :=
        nextMultipart_toWire hopen.1
          (show _ = _ ++ [] by rw [hpacked.wire, List.append_nil])
          (List.cons_ne_nil _ _) hpacked.length
      have hshape : (system.arrived peer portID port parcel).LabelShape :=
        Peer.labelShape_of_eq (h.shape peer) rfl
      apply Outcome.Holds.map (Peer.receiveMessages_stores hfound hnext)
      rintro final ⟨hspec, hstore⟩
      have hself : (system.arrived peer portID port parcel).peer.self = peer :=
        h.self peer
      have hcopied := label_copied hshape hbytes hstore
      have hleaves : Leaves system peer final :=
        leaves_of_receive hself rfl hshape hspec
          ((distribute_onlyChanges _ _ _).of_ok hstore)
      refine ⟨hleaves.self_put h.self, hleaves.shape_put h, ?_, ?_⟩
      · intro other hother
        exact (h.carried other (List.mem_of_mem_eraseIdx hother)).of_label_eq
          (hleaves.others _ (hundisturbed other hother))
      · intro pair hpair
        rcases List.mem_append.mp hpair with hbefore | hnew
        · exact h.copied pair hbefore
        · obtain rfl := List.mem_singleton.mp hnew
          rw [World.labelMessage, hleaves.self, ← hself]
          exact hcopied
    · exact h
  · exact h

theorem Invariant.setMessage {system : System ι} (h : Invariant system)
    (index : ℕ) (message : Message) :
    Invariant (system.setMessage index message) := by
  have hlabel : ∀ peer, (system.setMessage index message).heap (.label peer) =
      system.heap (.label peer) := by
    intro peer
    change Function.update system.heap (.message index) message (.label peer) = _
    exact Function.update_of_ne (by simp) ..
  refine ⟨h.self, ?_, ?_, h.copied⟩
  · exact fun peer => Peer.labelShape_of_eq (h.shape peer) (hlabel _)
  · exact fun parcel hparcel =>
      (h.carried parcel hparcel).of_label_eq (hlabel _)

theorem Invariant.step {system : System ι} (h : Invariant system)
    {action : Action ι} (hundisturbed : Undisturbed action system) :
    (System.step action system).Holds Invariant := by
  cases action with
  | send peer label package => exact h.send hundisturbed
  | receive peer portID package index => exact h.receive hundisturbed
  | managePorts peer hub =>
      have hleaves : Leaves system peer ((system.world peer).withHub hub) :=
        ⟨h.self peer, Peer.labelShape_of_eq (h.shape peer) rfl, fun _ _ => rfl⟩
      exact ⟨hleaves.self_put h.self, hleaves.shape_put h, h.carried, h.copied⟩
  | resize message size offset => exact h.setMessage _ _
  | reset message => exact h.setMessage _ _
  | write message position source =>
      rw [System.step]
      cases (system.heap (.message message)).write position source with
      | none => trivial
      | some written => exact h.setMessage _ _

/-- In every run that leaves the label buffers of packages in flight alone, the
receivers copy the labels that were written. -/
theorem labels_carried {actions : List (Action ι)} {initial final : System ι}
    (hinitial : Initial initial)
    (hmeets : Outcome.RunMeets System.step Undisturbed actions initial)
    (hrun : Outcome.run System.step actions initial = some final) :
    ∀ pair ∈ final.copied, pair.2 = pair.1.encode := by
  have hinvariant : Invariant initial := by
    refine ⟨hinitial.self, fun peer => (hinitial.peers peer).labelShape.1, ?_, ?_⟩
    · simp [hinitial.inFlight]
    · simp [hinitial.copied]
  exact (Outcome.run_invariant_of_meets
    (fun action system h hundisturbed => h.step hundisturbed) hinvariant hmeets
    hrun).copied

end System

/-! ## Two peers -/

def twoPeers : System Bool where
  heap := fun address =>
    match address with
    | .label _ => (Message.new (List.replicate contentsSizeof 0)).resize
        contentsSizeof 0
    | .message _ => Message.new (List.replicate 8 0)
  peers := fun peer =>
    let peerID : PeerID := if peer then 2 else 1
    ⟨peer, Hub.new (peerIDtoHubName peerID), peerID, 0, [0], 0, ∅⟩
  inFlight := []
  copied := []

theorem initial_twoPeers : twoPeers.Initial where
  self := fun _ => rfl
  peers := by
    intro peer
    refine ⟨peer, if peer then 2 else 1, 0, List.replicate contentsSizeof 0,
      List.replicate 8 0, twoPeers.heap, List.length_replicate, ?_⟩
    have hrecv : Function.update twoPeers.heap (.message 0)
        (Message.new (List.replicate 8 0)) = twoPeers.heap :=
      Function.update_eq_self_iff.mpr rfl
    have hlabel : Function.update twoPeers.heap (.label peer)
        ((Message.new (List.replicate contentsSizeof 0)).resize
          contentsSizeof 0) = twoPeers.heap :=
      Function.update_eq_self_iff.mpr rfl
    simp only [System.world, Peer.construct, hrecv, hlabel]
    rfl
  inFlight := rfl
  copied := rfl

/-- Peer 1 sends to peer 2 and peer 2 reads, in some order. -/
def connected (actions : List (Action Bool)) : List (Action Bool) :=
  .managePorts false (onePortHub 1 [2] []) ::
    .managePorts true (onePortHub 2 [1] []) :: actions

def sendOn : Action Bool :=
  .send false ⟨⟨0, 0, ⟨1, 0, 5⟩, ⟨2, 0, 6⟩⟩⟩ []

def readNext : Action Bool := .receive true 0 [0] 0

theorem labels_carried_read :
    ∃ final, Outcome.run System.step (connected [sendOn, readNext]) twoPeers =
        some final ∧
      final.copied.length = 1 ∧
      ∀ pair ∈ final.copied, pair.2 = pair.1.encode := by
  have hrun : (Outcome.run System.step (connected [sendOn, readNext])
      twoPeers).map (fun final => final.copied.length) = some 1 := by decide
  obtain ⟨final, hfinal, hlength⟩ := Option.map_eq_some_iff.mp hrun
  have hmeets : Outcome.RunMeets System.step System.Undisturbed
      (connected [sendOn, readNext]) twoPeers := by
    refine ⟨trivial, fun first hfirst => ⟨trivial, fun second hsecond => ?_⟩⟩
    obtain rfl := Option.some.inj hfirst
    obtain rfl := Option.some.inj hsecond
    refine ⟨⟨?_, fun _ => by decide⟩, fun third hthird => ⟨?_, fun _ _ => trivial⟩⟩
    · intro parcel hparcel
      contradiction
    · obtain rfl := Option.some.inj hthird
      intro parcel hparcel
      contradiction
  exact ⟨final, hfinal, hlength,
    System.labels_carried initial_twoPeers hmeets hfinal⟩

/-- Sent twice before it is read, the first package shows the second label. -/
theorem label_overwritten_in_flight :
    twoPeers.Initial ∧
      ∃ final, Outcome.run System.step (connected [sendOn, sendOn, readNext])
          twoPeers = some final ∧
        ∃ pair ∈ final.copied, pair.2 ≠ pair.1.encode := by
  refine ⟨initial_twoPeers, ?_⟩
  have hrun : (Outcome.run System.step (connected [sendOn, sendOn, readNext])
      twoPeers).map (fun final =>
        final.copied.any fun pair => pair.2 ≠ pair.1.encode) = some true := by
    decide
  obtain ⟨final, hfinal, hany⟩ := Option.map_eq_some_iff.mp hrun
  obtain ⟨pair, hpair, hne⟩ := List.any_eq_true.mp hany
  exact ⟨final, hfinal, pair, hpair, by simpa using hne⟩

end Dpn
