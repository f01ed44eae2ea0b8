import Dpn.Packages
import Dpn.SourceCheck
import Dpn.View

/-!
# What polls deliver

In a network whose channels carry packages, a poll returns with what another
peer has sent to the port that is polled, and `ServiceInterfaces` passes it on
to the interface that it was sent to.
-/

namespace Dpn

open ByteBuffer

variable {ι : Type*} [DecidableEq ι]

/-! ## What a poll makes of a package -/

namespace Peer

/-- A poll whose copies fit returns with the label of the package if it does not
reject the sender. -/
theorem poll_of_stored {ready : List Hub.Ready} {package : Package}
    {world : World ι} {hub : Hub (Addr ι)} {port : Port (Addr ι)}
    {frames : List (FrameData (Addr ι))} {label : Contents}
    {heap : Heap (Addr ι)} (hshape : world.LabelShape)
    (htakes : Takes ready world hub port frames)
    (hwhole : ∀ frame ∈ frames, frame.Whole world.heap)
    (hlabel : WellFormed world.heap frames label)
    (hsilent : senderError (senderName world.heap frames) label = none)
    (hstore : distribute (world.tempPackage package)
      (packageFrames world.heap frames) world.heap = .ok heap) :
    ∃ polled, poll ready package world = .ok polled ∧ polled.heap = heap ∧
      polled.labelContents = label := by
  have hafter := labelAfter_of_wellFormed package hshape hwhole hlabel
  rcases @poll_of_takes _ _ _ package _ _ _ _ hshape htakes with
    ⟨stored, hstored, hcontents, hpoll⟩ | ⟨hstuck, -⟩
  · obtain rfl := Outcome.ok.inj (hstore.symm.trans hstored)
    rw [hafter, hsilent] at hpoll
    exact ⟨_, hpoll, rfl, hcontents.trans hafter⟩
  · rw [hstore] at hstuck
    contradiction

omit [DecidableEq ι] in
theorem port_of_polledMultipart {ready : List Hub.Ready} {world : World ι}
    {portID : PortID} {frames : List (FrameData (Addr ι))}
    (hpolled : polledMultipart ready world = some (portID, frames)) :
    ∃ hub port, Takes ready world hub port frames ∧ hub.pollPortID = portID ∧
      world.peer.hub.findPort portID = some port := by
  have hchanges := Hub.poll_changes pollin ready world.peer.hub
  unfold polledMultipart at hpolled
  cases hpoll : world.peer.hub.poll pollin ready with
  | stuck reason =>
      rw [hpoll] at hpolled
      contradiction
  | throw error hub =>
      rw [hpoll] at hpolled
      contradiction
  | ok hub =>
      rw [hpoll] at hpolled hchanges
      dsimp only at hpolled
      split at hpolled
      · rename_i hreadable
        obtain ⟨found, hfound, hsame⟩ := Option.map_eq_some_iff.mp hpolled
        obtain ⟨port, hport, hnext⟩ := Option.bind_eq_some_iff.mp hfound
        obtain ⟨rfl, rfl⟩ := Prod.mk.inj hsame
        exact ⟨hub, port, ⟨hpoll, hreadable, hport, hnext⟩, rfl,
          (findPort_of_poll hchanges _).symm.trans hport⟩
      · contradiction

end Peer

namespace Network

variable {peerIDs : ι → PeerID} {waiting : List (Parcel ι)}
  {network : Network ι}

omit [DecidableEq ι] in
/-- The package that a port reads next, as it is and as it was sent. -/
theorem package_of_next (h : Carries peerIDs waiting network)
    (hintact : ∀ parcel ∈ waiting ++ network.inFlight,
      readPackage network.heap parcel.content = parcel.package)
    {peer : ι} {portID : PortID} {port : Port (Addr ι)}
    {frames : List (FrameData (Addr ι))}
    (hport : (network.peers peer).hub.findPort portID = some port)
    (hnext : port.nextMultipart = some frames) :
    ∃ parcel ∈ waiting, ∃ second third rest,
      frames = .owned parcel.source :: second :: third :: rest ∧
      parcel.content = second :: third :: rest ∧
      parcel.address = peerSocketID (peerIDs peer) portID ∧
      (∀ frame ∈ frames, frame.Whole network.heap) ∧
      Peer.WellFormed network.heap frames parcel.record.written ∧
      parcel.package = some (parcel.record.written,
        rest.map fun frame => frame.bytes network.heap) := by
  obtain ⟨before, parcel, after, hwaiting, -, haddress, rfl, -⟩ :=
    h.first_of_next hport hnext
  have hmem : parcel ∈ waiting := by simp [hwaiting]
  have hread := hintact parcel (List.mem_append_left _ hmem)
  rw [readPackage] at hread
  split at hread
  · rename_i hwhole
    have hparse := hread
    rw [Parcel.package] at hparse
    obtain ⟨labelFrame, hbytes, hlength, hlabel⟩ := parsePackage_eq_some hparse
    obtain ⟨second, third, rest, hcontent, hsecond, hthird, hrest⟩ :
        ∃ second third rest, parcel.content = second :: third :: rest ∧
          second.bytes network.heap = [] ∧
          third.bytes network.heap = labelFrame ∧
          rest.map (fun frame => frame.bytes network.heap) =
            parcel.sentBytes.drop 2 := by
      rw [readBytes] at hbytes
      obtain ⟨second, others, hfirst, hempty, hothers⟩ :=
        List.map_eq_cons_iff.mp hbytes
      obtain ⟨third, rest, hsplit, hframe, hbodies⟩ :=
        List.map_eq_cons_iff.mp hothers
      exact ⟨second, third, rest, hsplit ▸ hfirst, hempty, hframe, hbodies⟩
    refine ⟨parcel, hmem, second, third, rest, by rw [hcontent], hcontent,
      haddress, ?_, ?_, ?_⟩
    · intro frame hframe
      rcases List.mem_cons.mp hframe with rfl | hcontents
      · rfl
      · exact hwhole frame hcontents
    · refine ⟨parcel.source, labelFrame, parcel.sentBytes.drop 2, ?_, hlength,
        hlabel⟩
      rw [hcontent, List.map_cons, List.map_cons, List.map_cons, hsecond, hthird,
        hrest]
      rfl
    · rw [Parcel.package, hrest]
  · contradiction

/-- The package is one that the peer named in its label has sent to the port,
with this label and these bodies, and the name it comes under is the one of the
port that the label names as its source. -/
structure SentTo (peerIDs : ι → PeerID)
    (observed : List (FifoQueues.Move Channel
      (Option (Contents × List (List UInt8)))))
    (network : Network ι) (peer : ι) (portID : PortID)
    (frames : List (FrameData (Addr ι))) (label : Contents) : Prop where
  sent : .put ⟨peerSocketID label.src.peerID label.src.portID,
      peerSocketID (peerIDs peer) portID⟩
    (some (label, packageBodies network.heap frames)) ∈ observed
  source : ∃ sender, label.src.peerID = peerIDs sender
  sourceName : senderName network.heap frames = canonicalName label.src
  destPeer : label.dest.peerID = peerIDs peer
  destPort : label.dest.portID = portID

/-- What a port reads next is whole and a package, and is on loan. -/
structure Readable (network : Network ι) (frames : List (FrameData (Addr ι)))
    (label : Contents) : Prop where
  whole : ∀ frame ∈ frames, frame.Whole network.heap
  wellFormed : Peer.WellFormed network.heap frames label
  onLoan : ∀ frame ∈ frames, ∀ address, ¬frame.Avoids address →
    network.OnLoan address

/-- The messages of a package, at the start of their buffers, have room for the
bodies and are not on loan, and neither is the label buffer. -/
structure Admits (network : Network ι) (peer : ι) (package : Package)
    (frames : List (FrameData (Addr ι))) : Prop where
  nonempty : package ≠ []
  nodup : package.Nodup
  offset : ∀ message ∈ package, (network.heap (.message message)).offset = 0
  free : ∀ address ∈ (network.world peer).tempPackage package,
    ¬network.OnLoan address
  fits : Fits (packageBodies network.heap frames) (package.map .message)
    network.heap

theorem Moved.put_of_mem {β : Type*} {sent : Parcel ι → β}
    {read : Heap (Addr ι) → List (FrameData (Addr ι)) → β}
    {steps : List (Step ι)} {initial final : Network ι} {later : List (Parcel ι)}
    {moved : List (FifoQueues.Move Channel (Parcel ι))}
    (hinitial : initial.Initial)
    (h : Moved peerIDs sent read steps initial final [] later moved)
    {parcel : Parcel ι} (hparcel : parcel ∈ later) :
    .put parcel.channel (sent parcel) ∈
      Outcome.collect step (Network.moves sent read) steps initial := by
  have hconserves := h.moves.conserves parcel.channel
  rw [hinitial.inFlight, List.append_nil] at hconserves
  have hleft : parcel ∈ FifoQueues.byKey Parcel.channel (later ++ final.inFlight)
      parcel.channel := by
    rw [FifoQueues.byKey, List.mem_filter]
    exact ⟨List.mem_append_left _ hparcel, by simp⟩
  have hput : parcel ∈ FifoQueues.puts parcel.channel moved := by
    have hmem := List.mem_append_right
      (FifoQueues.takes parcel.channel moved) hleft
    rw [← hconserves] at hmem
    simpa [FifoQueues.byKey] using hmem
  rw [h.observed]
  exact List.mem_map.mpr ⟨_, FifoQueues.mem_puts.mp hput, rfl⟩

/-- Whatever a poll takes in a run has been sent to the port that is polled. -/
theorem sentTo_of_polled {steps : List (Step ι)} {initial final : Network ι}
    (hinitial : initial.Initial)
    (hallocated : ∀ address, Peer.InAllocation (initial.heap address))
    (hmeets : Outcome.RunMeets step Step.Proper steps initial)
    (hrun : Outcome.run step steps initial = some final)
    {peer : ι} {portID : PortID} {ready : List Hub.Ready}
    {frames : List (FrameData (Addr ι))}
    (hpolled : Peer.polledMultipart ready (final.world peer) =
      some (portID, frames)) :
    (final.world peer).LabelShape ∧
    ∃ hub port label, Peer.Takes ready (final.world peer) hub port frames ∧
      final.Readable frames label ∧
      SentTo (fun peer => (initial.peers peer).peerID)
        (Outcome.collect step (moves Parcel.package readPackage) steps initial)
        final peer portID frames label := by
  obtain ⟨later, moved, hmoved⟩ :=
    run_packages hinitial hallocated hmeets hrun
  obtain ⟨hub, port, htakes, rfl, hport⟩ := Peer.port_of_polledMultipart hpolled
  obtain ⟨parcel, hparcel, second, third, rest, rfl, hcontent, haddress, hwhole,
    hwellFormed, hpackage⟩ :=
    package_of_next hmoved.carries hmoved.intact hport htakes.next
  have hsound := hmoved.carries.sound parcel (List.mem_append_left _ hparcel)
  have hput := hmoved.put_of_mem hinitial hparcel
  rw [hpackage, Parcel.channel, hsound.source, haddress] at hput
  obtain ⟨hdestPeer, hdestPort⟩ :=
    peerSocketID_inj.mp (hsound.address.symm.trans haddress)
  refine ⟨hmoved.carries.shape peer, hub, port, parcel.record.written, htakes,
    ⟨hwhole, hwellFormed, ?_⟩, hput, ⟨parcel.sender, hsound.sender⟩, ?_,
    hdestPeer, hdestPort⟩
  · intro frame hframe address hrefers
    rcases List.mem_cons.mp hframe with rfl | hcontents
    · exact absurd trivial hrefers
    · exact hmoved.carries.onLoan (List.mem_append_left _ hparcel)
        (hcontent ▸ hcontents) hrefers
  · rw [senderName, FrameData.bytes_owned, hsound.source,
      portNameFromSocketID_peerSocketID]
    rfl

/-- A poll into messages that admit the package returns with its label and
bodies. -/
theorem poll_of_admits {peer : ι} {ready : List Hub.Ready} {package : Package}
    {hub : Hub (Addr ι)} {port : Port (Addr ι)}
    {frames : List (FrameData (Addr ι))} {label : Contents}
    (hshape : (network.world peer).LabelShape)
    (htakes : Peer.Takes ready (network.world peer) hub port frames)
    (hreadable : network.Readable frames label)
    (hname : senderName network.heap frames = canonicalName label.src)
    (hadmits : network.Admits peer package frames) :
    ∃ polled, Peer.poll ready package (network.world peer) = .ok polled ∧
      polled.labelContents = label ∧
      TakesApart (packageBodies network.heap frames) (package.map .message)
        network.heap polled.heap := by
  have hsilent : Peer.senderError (senderName network.heap frames) label =
      none := by
    rw [hname]
    exact Peer.senderError_getPortName _ _ _
  have helsewhere : ∀ frame ∈ frames,
      ∀ address ∈ (network.world peer).tempPackage package,
        frame.Avoids address := by
    intro frame hframe address haddress
    by_contra hrefers
    exact hadmits.free address haddress
      (hreadable.onLoan frame hframe address hrefers)
  obtain ⟨heap, hstore, hbodies⟩ := Peer.distribute_of_admits hshape
    hreadable.whole hreadable.wellFormed
    ⟨hadmits.nonempty, hadmits.nodup, hadmits.offset, helsewhere, hadmits.fits⟩
  obtain ⟨polled, hpoll, rfl, hlabel⟩ := Peer.poll_of_stored hshape htakes
    hreadable.whole hreadable.wellFormed hsilent hstore
  exact ⟨polled, hpoll, hlabel, hbodies⟩

/-- In every run whose steps are `Proper`, a poll returns with the label and the
bodies that some peer has sent to the port that is polled, if its package admits
them: distinct messages, without an offset and with room for their bodies, that
are not on loan, and a label buffer that is not on loan either. -/
theorem poll_delivers {steps : List (Step ι)} {initial final : Network ι}
    (hinitial : initial.Initial)
    (hallocated : ∀ address, Peer.InAllocation (initial.heap address))
    (hmeets : Outcome.RunMeets step Step.Proper steps initial)
    (hrun : Outcome.run step steps initial = some final)
    {peer : ι} {portID : PortID} {ready : List Hub.Ready} {package : Package}
    {frames : List (FrameData (Addr ι))}
    (hpolled : Peer.polledMultipart ready (final.world peer) =
      some (portID, frames))
    (hadmits : final.Admits peer package frames) :
    ∃ polled, Peer.poll ready package (final.world peer) = .ok polled ∧
      SentTo (fun peer => (initial.peers peer).peerID)
        (Outcome.collect step (moves Parcel.package readPackage) steps initial)
        final peer portID frames polled.labelContents ∧
      TakesApart (packageBodies final.heap frames) (package.map .message)
        final.heap polled.heap := by
  obtain ⟨hshape, hub, port, label, htakes, hreadable, hsent⟩ :=
    sentTo_of_polled hinitial hallocated hmeets hrun hpolled
  obtain ⟨polled, hpoll, rfl, hbodies⟩ :=
    poll_of_admits hshape htakes hreadable hsent.sourceName hadmits
  exact ⟨polled, hpoll, hsent, hbodies⟩

/-- What is passed on of the package: its bodies, as the messages of the vector
show them. -/
def passedOn (network : Network ι) (peer : ι)
    (frames : List (FrameData (Addr ι))) : List (ℕ × List UInt8) :=
  Peer.bodiesShown
    ((network.world peer).view (network.peers peer).recvPackage)
    (packageBodies network.heap frames)

/-- The interface that the label names is called with the label and the view, if
it is registered, and no other one. -/
def dispatch (interfaces : Table InterfaceID (Peer.Interface ι))
    (call : Peer.Call ι → World ι → Outcome Exn (World ι)) (label : Contents)
    (view : List (ℕ × List UInt8)) (polled : World ι) :
    Outcome Exn (World ι) :=
  match interfaces.lookup label.dest.interfaceID with
  | none => .ok polled
  | some interface => Peer.handleIncomingMessage call interface ⟨label⟩
      (polled.log (.called label.dest.interfaceID ⟨label⟩ view))

/-- In such runs `ServiceInterfaces` calls the handler of the interface that a
peer has sent the package to, and passes on the label and the bodies that this
peer has sent, if the vector that handlers are given admits them. -/
theorem service_delivers {steps : List (Step ι)} {initial final : Network ι}
    (hinitial : initial.Initial)
    (hallocated : ∀ address, Peer.InAllocation (initial.heap address))
    (hmeets : Outcome.RunMeets step Step.Proper steps initial)
    (hrun : Outcome.run step steps initial = some final)
    {peer : ι} {portID : PortID} {ready : List Hub.Ready}
    {frames : List (FrameData (Addr ι))}
    (hpolled : Peer.polledMultipart ready (final.world peer) =
      some (portID, frames))
    (hadmits : final.Admits peer (final.peers peer).recvPackage frames)
    (interfaces : Table InterfaceID (Peer.Interface ι))
    (call : Peer.Call ι → World ι → Outcome Exn (World ι)) :
    ∃ polled, Peer.poll ready (final.peers peer).recvPackage
        (final.world peer) = .ok polled ∧
      SentTo (fun peer => (initial.peers peer).peerID)
        (Outcome.collect step (moves Parcel.package readPackage) steps initial)
        final peer portID frames polled.labelContents ∧
      Peer.serviceInterfaces interfaces call ready (final.world peer) =
        dispatch interfaces call polled.labelContents
          (final.passedOn peer frames) polled := by
  obtain ⟨hshape, hub, port, label, htakes, hreadable, hsent⟩ :=
    sentTo_of_polled hinitial hallocated hmeets hrun hpolled
  obtain ⟨polled, hpoll, rfl, hbodies⟩ :=
    poll_of_admits hshape htakes hreadable hsent.sourceName hadmits
  refine ⟨polled, hpoll, hsent, ?_⟩
  have hvector : polled.peer.recvPackage = (final.peers peer).recvPackage := by
    have hpeer := Peer.poll_peer ready (final.peers peer).recvPackage
      (final.world peer)
    rw [hpoll, Outcome.holds_ok] at hpeer
    rw [hpeer]
    rfl
  have hview : polled.view polled.peer.recvPackage =
      final.passedOn peer frames := by
    rw [hvector]
    exact Peer.view_of_takesApart hbodies
  have hrecv : (final.world peer).peer.recvPackage =
      (final.peers peer).recvPackage := rfl
  rw [dispatch, Peer.serviceInterfaces, ← hview, hrecv,
    Peer.getPendingPackage_eq, hpoll]
  cases hlookup : interfaces.lookup polled.labelContents.dest.interfaceID with
  | none =>
      have hnone : interfaces.lookup
          (Label.getInterfaceID ⟨polled.labelContents⟩ .dest) = none := hlookup
      simp only [hnone]
  | some interface =>
      have hsome : interfaces.lookup
          (Label.getInterfaceID ⟨polled.labelContents⟩ .dest) =
            some interface := hlookup
      simp only [hsome]
      rfl

end Network

/-! ## A package from one peer to the other -/

/-- Before the last step of `oneWay` a package waits at the second peer. -/
theorem exists_waiting_oneWay :
    ∃ final frames,
      Outcome.run Network.step oneWay.dropLast twoNetwork = some final ∧
      Peer.polledMultipart portReady (final.world true) = some (0, frames) ∧
      final.Admits true (final.peers true).recvPackage frames := by
  obtain ⟨final, hrun, frames, hfound, hrecv, hoffset, hfree, hroom⟩ :
      ∃ final ∈ Outcome.run Network.step oneWay.dropLast twoNetwork,
        ∃ frames ∈ ((Peer.polledMultipart portReady
            (Network.world final true)).filter fun taken =>
              taken.1 = 0).map Prod.snd,
          (final.peers true).recvPackage = [0] ∧
          (final.heap (.message 0)).offset = 0 ∧
          (∀ address ∈ (final.world true).tempPackage [0],
            ¬final.OnLoan address) ∧
          (packageBodies final.heap frames).flatten.length ≤
            (final.heap (.message 0)).capacity := by
    decide +kernel
  obtain ⟨⟨portID, _⟩, htaken, rfl⟩ := Option.map_eq_some_iff.mp hfound
  obtain ⟨hpolled, hzero⟩ := Option.filter_eq_some_iff.mp htaken
  obtain rfl : portID = 0 := by simpa using hzero
  refine ⟨final, _, hrun, hpolled, ?_⟩
  rw [hrecv]
  exact ⟨by decide, by decide, by simpa using hoffset, hfree,
    Peer.fits_singleton hroom⟩

theorem poll_delivers_oneWay :
    ∃ final frames polled,
      Peer.poll portReady (final.peers true).recvPackage
        (Network.world final true) = .ok polled ∧
      Network.SentTo (fun peer => (twoNetwork.peers peer).peerID)
        (Outcome.collect Network.step
          (Network.moves Parcel.package Network.readPackage) oneWay.dropLast
          twoNetwork) final true 0 frames polled.labelContents ∧
      TakesApart (packageBodies final.heap frames)
        ((final.peers true).recvPackage.map .message) final.heap
        polled.heap := by
  obtain ⟨final, frames, hrun, hpolled, hadmits⟩ := exists_waiting_oneWay
  exact ⟨final, frames, Network.poll_delivers initial_twoNetwork
    inAllocation_twoNetwork (by decide +kernel) hrun hpolled hadmits⟩

def takenAt (interfaceID : InterfaceID) :
    Table InterfaceID (Peer.Interface Bool) :=
  (∅ : Table InterfaceID (Peer.Interface Bool)).insert interfaceID
    (.pull fun label _ => ⟨[], label, .ok ()⟩)

theorem service_delivers_oneWay :
    ∃ final frames polled,
      Peer.poll portReady (final.peers true).recvPackage
        (Network.world final true) = .ok polled ∧
      Network.SentTo (fun peer => (twoNetwork.peers peer).peerID)
        (Outcome.collect Network.step
          (Network.moves Parcel.package Network.readPackage) oneWay.dropLast
          twoNetwork) final true 0 frames polled.labelContents ∧
      Peer.serviceInterfaces (takenAt 6) (Peer.call (takenAt 6) 1) portReady
          (final.world true) =
        Network.dispatch (takenAt 6) (Peer.call (takenAt 6) 1)
          polled.labelContents (final.passedOn true frames) polled := by
  obtain ⟨final, frames, hrun, hpolled, hadmits⟩ := exists_waiting_oneWay
  exact ⟨final, frames, Network.service_delivers initial_twoNetwork
    inAllocation_twoNetwork (by decide +kernel) hrun hpolled hadmits (takenAt 6)
    (Peer.call (takenAt 6) 1)⟩

end Dpn
