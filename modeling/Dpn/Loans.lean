import Dpn.Channels
import Dpn.Numbering

/-!
# Messages on loan

ZMQ carries the frames of this library without copying them, so a message that
was sent is on loan until its receiver has read it.  As long as no peer writes
to a message that is on loan, the channels carry values: what is read from a
channel is what was sent on it, byte for byte.
-/

namespace Dpn

variable {ι : Type*} [DecidableEq ι]

/-! ## What an act writes -/

namespace Peer

/-- The messages whose bytes the act may change.  A send writes its label, and
a poll that takes a package writes to the messages it is received into. -/
def Act.writes : Act ι → World ι → List (Addr ι)
  | .send _ _, world => [.label world.peer.self]
  | .poll ready package, world =>
      match polledMultipart ready world with
      | none => []
      | some _ => world.tempPackage package
  | .write message _ _, _ => [.message message]
  | _, _ => []

/-- The bytes of all messages that are not listed are the same. -/
def SameBytes (written : List (Addr ι)) (heap next : Heap (Addr ι)) : Prop :=
  ∀ address, address ∉ written → (next address).bytes = (heap address).bytes

theorem SendSpec.sameBytes {label : Label} {package : Package}
    {world : World ι} {result : Label × World ι} {heap : Heap (Addr ι)}
    {frames : List (SentFrame (Addr ι))}
    (h : SendSpec label package world result heap frames) :
    SameBytes [.label world.peer.self] world.heap result.2.heap := by
  intro address haddress
  have hlabelled : heap address = world.heap address :=
    h.labelled.others address (by simpa using haddress)
  by_cases hreaches : Reaches label world
  · rw [(h.reached hreaches).1, emptyAll, ← hlabelled]
    split <;> rfl
  · rw [(h.unreached hreaches).2, hlabelled]

theorem sameBytes_setMessage {written : List (Addr ι)} {target : Addr ι}
    {message : Message} {world : World ι}
    (hbytes : target ∉ written →
      message.bytes = (world.heap target).bytes) :
    SameBytes written world.heap (world.setMessage target message).heap := by
  intro address haddress
  by_cases heq : address = target
  · subst address
    rw [World.setMessage_heap_self]
    exact hbytes haddress
  · rw [World.setMessage_heap_of_ne heq]

theorem act_sameBytes {single : Act ι} {world next : World ι}
    (hshape : world.LabelShape) (hwhole : QueuesWhole world.peer.hub)
    (hlocal : single.Local) (hnext : (act single world).state? = some next) :
    SameBytes (single.writes world) world.heap next.heap := by
  have hsame : next.heap = world.heap →
      SameBytes (single.writes world) world.heap next.heap := by
    intro hheap address _
    rw [hheap]
  cases single with
  | send label package =>
      rw [act, Outcome.state?_map] at hnext
      obtain ⟨result, hresult, rfl⟩ := Option.map_eq_some_iff.mp hnext
      have hspecs : (sendMessages label package world).Holds fun result =>
          SameBytes [.label world.peer.self] world.heap result.2.heap :=
        sendMessages_holds hshape fun _ _ _ hspec => hspec.sameBytes
      exact Outcome.holds_iff_state?.mp hspecs result hresult
  | poll ready package =>
      have htakes := Outcome.holds_iff_state?.mp
        (@poll_takes _ _ ready package world hwhole) next hnext
      rcases htakes with
        ⟨-, huntaken⟩ | ⟨portID, port, frames, hpolled, htaken⟩
      · exact hsame huntaken.heap
      · have honly := (distribute_onlyChanges (world.tempPackage package)
          (packageFrames world.heap frames) world.heap).of_ok htaken.stored
        intro address haddress
        rw [Act.writes, hpolled] at haddress
        rw [honly.others address haddress]
  | receipts topic receipts =>
      obtain rfl := Option.some.inj hnext
      exact hsame rfl
  | subscribe label =>
      rw [act, subscribe_eq_setReceipts] at hnext
      obtain rfl := Option.some.inj hnext
      exact hsame rfl
  | called interfaceID label view =>
      obtain rfl := Option.some.inj hnext
      exact hsame rfl
  | resize message size offset =>
      obtain rfl := Option.some.inj hnext
      apply sameBytes_setMessage
      intro _
      rw [Message.resize]
      split <;> rfl
  | reset message =>
      obtain rfl := Option.some.inj hnext
      exact sameBytes_setMessage fun _ => rfl
  | write message position source =>
      rw [act] at hnext
      split at hnext
      · contradiction
      · obtain rfl := Option.some.inj hnext
        apply sameBytes_setMessage
        intro hnotMem
        exact absurd (List.mem_singleton_self _) hnotMem
  | changePackage package =>
      obtain rfl := Option.some.inj hnext
      exact hsame rfl
  | arrive portID frames => exact absurd hlocal id
  | managePorts hub =>
      obtain rfl := Option.some.inj hnext
      exact hsame rfl
  | remote peer labelMessage => exact absurd hlocal id

/-- Only a send notes down that something was sent. -/
theorem sends_of_act {single : Act ι} {world next : World ι}
    (hnext : (act single world).state? = some next)
    (hsend : ∀ label package, single ≠ .send label package) :
    sends next = sends world := by
  cases single with
  | send label package => exact absurd rfl (hsend label package)
  | poll ready package =>
      exact (Outcome.holds_iff_state?.mp (poll_quiet ready package world) next
        hnext).sends
  | receipts topic receipts =>
      obtain rfl := Option.some.inj hnext
      rfl
  | subscribe label =>
      rw [act, subscribe_eq_setReceipts] at hnext
      obtain rfl := Option.some.inj hnext
      rfl
  | called interfaceID label view =>
      obtain rfl := Option.some.inj hnext
      exact sends_log_of_none rfl rfl
  | resize message size offset =>
      obtain rfl := Option.some.inj hnext
      rfl
  | reset message =>
      obtain rfl := Option.some.inj hnext
      rfl
  | write message position source =>
      rw [act] at hnext
      split at hnext
      · contradiction
      · obtain rfl := Option.some.inj hnext
        rfl
  | changePackage package =>
      obtain rfl := Option.some.inj hnext
      rfl
  | arrive portID frames =>
      obtain rfl := Option.some.inj hnext
      rfl
  | managePorts hub =>
      obtain rfl := Option.some.inj hnext
      rfl
  | remote peer labelMessage =>
      rw [act] at hnext
      split at hnext
      · obtain rfl := Option.some.inj hnext
        rfl
      · obtain rfl := Option.some.inj hnext
        rfl

end Peer

/-! ## Frames of messages that are not written -/

omit [DecidableEq ι] in
theorem FrameData.bytes_of_sameBytes {frame : FrameData (Addr ι)}
    {written : List (Addr ι)} {heap next : Heap (Addr ι)}
    (havoids : ∀ address ∈ written, frame.Avoids address)
    (hsame : Peer.SameBytes written heap next) :
    frame.bytes next = frame.bytes heap := by
  cases frame with
  | owned bytes => rfl
  | shared source size =>
      have hsource : source ∉ written := fun hmem => havoids source hmem rfl
      rw [FrameData.bytes, hsame source hsource, FrameData.bytes]

theorem bytes_handOver {messages : List (Addr ι)} {heap later : Heap (Addr ι)}
    (hsame : ∀ address, (later address).bytes = (heap address).bytes) :
    ((handOver messages heap).map SentFrame.data).map
        (fun frame => frame.bytes later) =
      (handOver messages heap).map SentFrame.bytes := by
  induction messages generalizing heap with
  | nil => rfl
  | cons message rest ih =>
      have hemptied : ∀ address, (later address).bytes =
          (Function.update heap message (heap message).emptied address).bytes := by
        intro address
        by_cases heq : address = message
        · subst address
          rw [Function.update_self, hsame]
          rfl
        · rw [Function.update_of_ne heq, hsame]
      have hfirst : (FrameData.shared message (heap message).contentsSize).bytes
          later = (heap message).frameBytes := by
        rw [FrameData.bytes, hsame, Message.frameBytes]
      rw [handOver, List.map_cons, List.map_cons, List.map_cons, hfirst,
        ih hemptied]

omit [DecidableEq ι] in
theorem map_data_toWire (frames : List (FrameData (Addr ι))) :
    (toWire frames).map WireFrame.data = frames := by
  induction frames with
  | nil => rfl
  | cons frame rest ih =>
      cases rest with
      | nil => rfl
      | cons next rest =>
          rw [toWire, List.map_cons, ih]

/-! ## Loans -/

namespace Parcel

/-- The bytes that the frames behind the address had when they were sent. -/
def sentBytes (parcel : Parcel ι) : List (List UInt8) :=
  parcel.record.frames.tail.map SentFrame.bytes

end Parcel

namespace Network

def readBytes (heap : Heap (Addr ι)) (content : List (FrameData (Addr ι))) :
    List (List UInt8) :=
  content.map fun frame => frame.bytes heap

/-- A package in flight or in the queue of a port has a frame that refers to
the message. -/
def OnLoan (network : Network ι) (address : Addr ι) : Prop :=
  (∃ parcel ∈ network.inFlight, ∃ frame ∈ parcel.content,
    ¬frame.Avoids address) ∨
  ∃ peer portID, ∃ frame ∈ (network.peers peer).hub.incomingAt portID,
    ¬frame.data.Avoids address

/-- No message is written while it is on loan. -/
def Step.Sparing : Step ι → Network ι → Prop
  | .act peer single, network =>
      ∀ address ∈ single.writes (network.world peer), ¬network.OnLoan address
  | .deliver _ _ _, _ => True

/-- Nothing is lost, and nothing is written while it is on loan. -/
structure Step.Disciplined (single : Step ι) (network : Network ι) : Prop where
  lossless : single.Lossless network
  sparing : single.Sparing network

theorem exists_incomingAt_iff {α : Type*} {hub : Hub α} {p : WireFrame α → Prop} :
    (∃ entry ∈ hub.ports.entries, ∃ frame ∈ entry.2.incoming, p frame) ↔
      ∃ portID, ∃ frame ∈ hub.incomingAt portID, p frame := by
  constructor
  · rintro ⟨⟨portID, port⟩, hentry, frame, hframe, hp⟩
    have hport : hub.findPort portID = some port :=
      AList.mem_lookup_iff.mpr hentry
    exact ⟨portID, frame, by rwa [Hub.incomingAt, hport], hp⟩
  · rintro ⟨portID, frame, hframe, hp⟩
    cases hport : hub.findPort portID with
    | none =>
        rw [Hub.incomingAt, hport] at hframe
        contradiction
    | some port =>
        rw [Hub.incomingAt, hport] at hframe
        exact ⟨⟨portID, port⟩, AList.mem_lookup_iff.mp hport, frame, hframe, hp⟩

instance (message : Addr ι) (frame : FrameData (Addr ι)) :
    Decidable (frame.Avoids message) :=
  match frame with
  | .owned _ => .isTrue trivial
  | .shared _ _ => inferInstanceAs (Decidable (_ ≠ _))

instance [Fintype ι] (network : Network ι) (address : Addr ι) :
    Decidable (network.OnLoan address) :=
  decidable_of_iff (_ ∨ ∃ peer, ∃ entry ∈ (network.peers peer).hub.ports.entries,
      ∃ frame ∈ entry.2.incoming, ¬frame.data.Avoids address)
    (or_congr_right (exists_congr fun _ => exists_incomingAt_iff))

instance [Fintype ι] (single : Step ι) (network : Network ι) :
    Decidable (single.Disciplined network) :=
  have : Decidable (single.Sparing network) :=
    match single with
    | .act _ _ => inferInstanceAs (Decidable (∀ address ∈ _, ¬_))
    | .deliver _ _ _ => .isTrue trivial
  decidable_of_iff (_ ∧ _) ⟨fun h => ⟨h.1, h.2⟩, fun h => ⟨h.1, h.2⟩⟩

variable {peerIDs : ι → PeerID} {waiting : List (Parcel ι)}
  {network : Network ι}

omit [DecidableEq ι] in
/-- What a package on its way refers to is on loan. -/
theorem Carries.onLoan (h : Carries peerIDs waiting network)
    {parcel : Parcel ι} (hparcel : parcel ∈ waiting ++ network.inFlight)
    {frame : FrameData (Addr ι)} (hframe : frame ∈ parcel.content)
    {address : Addr ι} (hrefers : ¬frame.Avoids address) :
    network.OnLoan address := by
  rcases List.mem_append.mp hparcel with hwaiting | hflight
  · obtain ⟨peer, portID, haddress⟩ := h.held parcel hwaiting
    have hwire := (h.sound parcel hparcel).wire
    have hdata : frame ∈ (parcel.wire).map WireFrame.data := by
      rw [hwire, map_data_toWire]
      exact List.mem_cons_of_mem _ hframe
    obtain ⟨wireFrame, hwireFrame, rfl⟩ := List.mem_map.mp hdata
    refine Or.inr ⟨peer, portID, wireFrame, ?_, hrefers⟩
    rw [h.queued, List.mem_flatMap]
    refine ⟨parcel, ?_, hwireFrame⟩
    rw [FifoQueues.byKey, List.mem_filter]
    exact ⟨hwaiting, by simpa using haddress⟩
  · exact Or.inl ⟨parcel, hflight, frame, hframe, hrefers⟩

omit [DecidableEq ι] in
theorem readBytes_of_sameBytes {written : List (Addr ι)}
    {heap next : Heap (Addr ι)} {content : List (FrameData (Addr ι))}
    (havoids : ∀ frame ∈ content, ∀ address ∈ written, frame.Avoids address)
    (hsame : Peer.SameBytes written heap next) :
    readBytes next content = readBytes heap content := by
  apply List.map_congr_left
  intro frame hframe
  exact FrameData.bytes_of_sameBytes (havoids frame hframe) hsame

/-- A package that a step brings on its way was sent by a peer that reaches its
destination. -/
theorem send_of_launches {peer : ι} {single : Peer.Act ι} {final : World ι}
    (hshape : (network.world peer).LabelShape)
    (hfinal : (Peer.act single (network.world peer)).state? = some final)
    {parcel : Parcel ι}
    (hparcel : parcel ∈ launches (.act peer single) network) :
    ∃ label package result heap frames, single = .send label package ∧
      final = result.2 ∧
      Peer.SendSpec label package (network.world peer) result heap frames ∧
      Peer.Reaches label (network.world peer) ∧
      parcel.record = ⟨label.getPortID .src, Peer.destPortName label,
        Peer.written label (network.world peer), frames⟩ := by
  rw [launches_act hfinal] at hparcel
  by_cases hsend : ∃ label package, single = .send label package
  · obtain ⟨label, package, rfl⟩ := hsend
    rw [Peer.act, Outcome.state?_map] at hfinal
    obtain ⟨result, hresult, rfl⟩ := Option.map_eq_some_iff.mp hfinal
    have hspecs : (Peer.sendMessages label package (network.world peer)).Holds
        fun result => ∃ heap frames, Peer.SendSpec label package
          (network.world peer) result heap frames :=
      Peer.sendMessages_holds hshape
        fun _ heap frames hspec => ⟨heap, frames, hspec⟩
    obtain ⟨heap, frames, hspec⟩ :=
      Outcome.holds_iff_state?.mp hspecs result hresult
    rw [hspec.trace, launched, List.mem_map] at hparcel
    obtain ⟨record, hrecord, rfl⟩ := hparcel
    obtain ⟨hmem, hnonempty⟩ := List.mem_filter.mp hrecord
    obtain rfl := List.mem_singleton.mp hmem
    refine ⟨label, package, result, heap, frames, rfl, rfl, hspec, ?_, rfl⟩
    by_contra hunreached
    rw [(hspec.unreached hunreached).1] at hnonempty
    contradiction
  · have hquiet : final.trace.filterMap Event.sent? = [] :=
      Peer.sends_of_act hfinal fun label package heq =>
        hsend ⟨label, package, heq⟩
    rw [launched_eq_nil hquiet] at hparcel
    contradiction

theorem readBytes_launched {peer : ι} {single : Peer.Act ι} {final : World ι}
    (hshape : (network.world peer).LabelShape)
    (hfinal : (Peer.act single (network.world peer)).state? = some final)
    {parcel : Parcel ι}
    (hparcel : parcel ∈ launches (.act peer single) network) :
    readBytes final.heap parcel.content = parcel.sentBytes := by
  obtain ⟨label, package, result, heap, frames, rfl, rfl, hspec, hreaches,
    hrecord⟩ := send_of_launches hshape hfinal hparcel
  obtain ⟨hheap, address, hsent⟩ := hspec.reached hreaches
  have hsame : ∀ other, (result.2.heap other).bytes = (heap other).bytes := by
    intro other
    rw [hheap, emptyAll]
    split <;> rfl
  have hbytes := @bytes_handOver _ _ ((network.world peer).tempPackage package)
    _ _ hsame
  rw [readBytes, Parcel.content, Parcel.sentBytes, hrecord, hsent,
    List.tail_cons, List.map_cons, List.map_cons, hbytes]
  rfl

theorem heap_deliver {index : ℕ} {peer : ι} {portID : PortID}
    {next : Network ι}
    (hnext : (step (.deliver index peer portID) network).state? = some next) :
    next.heap = network.heap := by
  rw [step] at hnext
  split at hnext
  · split at hnext
    · obtain rfl := Option.some.inj hnext
      rfl
    · obtain rfl := Option.some.inj hnext
      rfl
  · obtain rfl := Option.some.inj hnext
    rfl

/-- A step does not change what a package on its way reads as. -/
theorem readBytes_step (h : Carries peerIDs waiting network) {single : Step ι}
    {next : Network ι} (hdisciplined : single.Disciplined network)
    (hnext : (step single network).state? = some next) {parcel : Parcel ι}
    (hparcel : parcel ∈ waiting ++ network.inFlight) :
    readBytes next.heap parcel.content =
      readBytes network.heap parcel.content := by
  cases single with
  | deliver index peer portID =>
      rw [heap_deliver hnext]
  | act peer single =>
      rw [step, Outcome.state?_map] at hnext
      obtain ⟨final, hfinal, rfl⟩ := Option.map_eq_some_iff.mp hnext
      have hsame := Peer.act_sameBytes (h.shape peer) (h.queuesWhole peer)
        hdisciplined.lossless.act_local hfinal
      apply readBytes_of_sameBytes ?_ hsame
      intro frame hframe address haddress
      by_contra hrefers
      exact hdisciplined.sparing address haddress
        (h.onLoan hparcel hframe hrefers)

theorem preserves_bytes : Preserves peerIDs Step.Disciplined Parcel.sentBytes
    (readBytes : Heap (Addr ι) → List (FrameData (Addr ι)) → _) := by
  intro single network next waiting h hdisciplined hintact hnext parcel hparcel
  rcases hparcel with hold | hnew
  · rw [readBytes_step h hdisciplined hnext hold]
    exact hintact parcel hold
  · cases single with
    | deliver index peer portID => contradiction
    | act peer single =>
        rw [step, Outcome.state?_map] at hnext
        obtain ⟨final, hfinal, rfl⟩ := Option.map_eq_some_iff.mp hnext
        exact readBytes_launched (h.shape peer) hfinal hnew

/-- As long as packages have at most seven messages, queues and names of ports are
kept, and no message is written while it is on loan, the channels carry values
although ZMQ copies nothing: what is read from a channel is, package by package
and byte for byte, what was sent on it. -/
theorem channels_carry_bytes {steps : List (Step ι)} {initial final : Network ι}
    (hinitial : initial.Initial)
    (hmeets : Outcome.RunMeets step Step.Disciplined steps initial)
    (hrun : Outcome.run step steps initial = some final) :
    ∃ waiting, Fifo (fun peer => (initial.peers peer).peerID) Parcel.sentBytes
        (Outcome.collect step (moves Parcel.sentBytes readBytes) steps initial)
        final waiting ∧
      ∀ parcel ∈ waiting ++ final.inFlight,
        readBytes final.heap parcel.content = parcel.sentBytes := by
  obtain ⟨later, moved, hmoved⟩ := run_moved hinitial.distinct
    (fun _ _ hdisciplined => hdisciplined.lossless) preserves_bytes
    hinitial.carries (by simp [hinitial.inFlight]) hmeets hrun
  exact ⟨later, hmoved.fifo hinitial, hmoved.intact⟩

end Network

theorem channels_carry_bytes_oneWay :
    ∃ final waiting,
      Network.Fifo (fun peer => (twoNetwork.peers peer).peerID) Parcel.sentBytes
        (Outcome.collect Network.step
          (Network.moves Parcel.sentBytes Network.readBytes) oneWay twoNetwork)
        final waiting ∧
      ∀ parcel ∈ waiting ++ final.inFlight,
        Network.readBytes final.heap parcel.content = parcel.sentBytes := by
  obtain ⟨final, hrun⟩ := exists_run_oneWay
  exact ⟨final, Network.channels_carry_bytes initial_twoNetwork
    (by decide +kernel) hrun⟩

end Dpn
