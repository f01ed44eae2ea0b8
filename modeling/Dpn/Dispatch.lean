import Dpn.LabelFrame

/-!
# Which packages reach a handler

A poll that takes a multipart stores what it can of it, then checks the name
of the sender, and then reads the label buffer.  If the multipart stored
nothing there, or not all of a label, the label read is an older one, whole or
in part.
-/

namespace Dpn

namespace Peer

open ByteBuffer

variable {ι : Type*} [DecidableEq ι]

/-! ## Polls that take a multipart -/

/-- The poll reports a readable port, and these frames are its next
multipart. -/
structure Takes (ready : List Hub.Ready) (world : World ι)
    (hub : Hub (Addr ι)) (port : Port (Addr ι))
    (frames : List (FrameData (Addr ι))) : Prop where
  polled : world.peer.hub.poll pollin ready = .ok hub
  readable : pollEventPresent hub.pollEventFlags pollin = true
  found : hub.findPort hub.pollPortID = some port
  next : port.nextMultipart = some frames

/-- The label in the buffer after the call: what is stored lies over the label
that was there. -/
def labelAfter (package : Package) (frames : List (FrameData (Addr ι)))
    (world : World ι) : Contents :=
  Contents.decode (lay (.label world.peer.self) world.heap
    (labelFrames package world.heap frames) 0 world.labelMessage.bytes)

theorem labelContents_of_distribute {package : Package} {world received : World ι}
    {frames : List (FrameData (Addr ι))} (hshape : world.LabelShape)
    (hstore : distribute (world.tempPackage package)
      (packageFrames world.heap frames) world.heap = .ok received.heap)
    (hself : received.peer.self = world.peer.self) :
    received.labelContents = labelAfter package frames world := by
  have hmessage : received.labelMessage =
      received.heap (.label world.peer.self) := by
    rw [World.labelMessage, hself]
  rcases labelStored_of_distribute hshape hstore with
    ⟨hnone, hheap⟩ | ⟨-, hstored⟩
  · have hlabel : received.labelMessage = world.labelMessage := by
      rw [hmessage, hheap]
      rfl
    have hempty : labelFrames package world.heap frames = [] := by
      rw [labelFrames, share_eq_nil_iff, hnone]
      exact Nat.zero_le _
    rw [World.labelContents, hlabel, hshape.offset, List.drop_zero, labelAfter,
      hempty, lay]
  · rw [World.labelContents, hmessage, hstored.offset, List.drop_zero,
      hstored.bytes, labelAfter]

/-- A poll that takes a multipart: it is undefined if a copy leaves its
message, and otherwise the sender's name decides how it ends. -/
theorem poll_of_takes {ready : List Hub.Ready} {package : Package}
    {world : World ι} {hub : Hub (Addr ι)} {port : Port (Addr ι)}
    {frames : List (FrameData (Addr ι))} (hshape : world.LabelShape)
    (htakes : Takes ready world hub port frames) :
    (∃ heap,
      distribute (world.tempPackage package) (packageFrames world.heap frames)
        world.heap = .ok heap ∧
      (afterReceive hub.pollPortID package port frames (world.withHub hub)
        heap).labelContents = labelAfter package frames world ∧
      poll ready package world =
        match senderError (senderName world.heap frames)
          (labelAfter package frames world) with
        | none => .ok (afterReceive hub.pollPortID package port frames
            (world.withHub hub) heap)
        | some error => .throw error (afterReceive hub.pollPortID package port
            frames (world.withHub hub) heap)) ∨
      (distribute (world.tempPackage package) (packageFrames world.heap frames)
          world.heap = .stuck .undefined ∧
        poll ready package world = .stuck .undefined) := by
  have hpoll : poll ready package world =
      receiveMessages hub.pollPortID package (world.withHub hub) := by
    rw [poll, htakes.polled, Outcome.andThen_ok, if_pos htakes.readable]
  rw [hpoll, @receiveMessages_of_next _ _ hub.pollPortID package
    (world.withHub hub) port frames htakes.found htakes.next]
  have htemp : (world.withHub hub).tempPackage package =
      world.tempPackage package := rfl
  have hheap : (world.withHub hub).heap = world.heap := rfl
  rw [htemp, hheap]
  rcases distribute_ok_or_undefined (.label world.peer.self)
    (package.map .message) (packageFrames world.heap frames)
    world.heap with ⟨heap, hstore⟩ | hstuck
  · have hstore' : distribute (world.tempPackage package)
        (packageFrames world.heap frames) world.heap = .ok heap := hstore
    have hlabel := @labelContents_of_distribute _ _ package world
      (afterReceive hub.pollPortID package port frames (world.withHub hub) heap)
      frames hshape hstore' rfl
    refine Or.inl ⟨heap, hstore', hlabel, ?_⟩
    cases herror : senderError (senderName world.heap frames)
      (labelAfter package frames world) with
    | none => simp only [hstore', hlabel, herror]
    | some error => simp only [hstore', hlabel, herror]
  · have hstuck' : distribute (world.tempPackage package)
        (packageFrames world.heap frames) world.heap =
          .stuck .undefined := hstuck
    exact Or.inr ⟨hstuck', by simp only [hstuck']⟩

/-! ## What a handler is called with -/

/-- The interface that `ServiceInterfaces` calls, with the label it passes on and
what the messages of the vector show. -/
def handed (interfaces : Table InterfaceID (Interface ι))
    (ready : List Hub.Ready) (world : World ι) :
    Option (InterfaceID × Label × List (ℕ × List UInt8)) :=
  match getPendingPackage ready world.peer.recvPackage Label.new world with
  | .ok (label, polled) =>
      (interfaces.lookup (label.getInterfaceID .dest)).map fun _ =>
        (label.getInterfaceID .dest, label,
          polled.view polled.peer.recvPackage)
  | .throw _ _ => none
  | .stuck _ => none

/-- `ServiceInterfaces` calls what `handed` says, and no handler otherwise. -/
theorem serviceInterfaces_eq_handed
    (interfaces : Table InterfaceID (Interface ι))
    (call : Call ι → World ι → Outcome Exn (World ι))
    (ready : List Hub.Ready) (world : World ι) :
    match handed interfaces ready world with
    | some (interfaceID, label, view) =>
        ∃ interface polled, interfaces.lookup interfaceID = some interface ∧
          getPendingPackage ready world.peer.recvPackage Label.new world =
            .ok (label, polled) ∧
          serviceInterfaces interfaces call ready world =
            handleIncomingMessage call interface label
              (polled.log (.called interfaceID label view))
    | none =>
        serviceInterfaces interfaces call ready world =
          match getPendingPackage ready world.peer.recvPackage Label.new
            world with
          | .ok (_, polled) => .ok polled
          | .throw _ (_, polled) => .ok polled
          | .stuck reason => .stuck reason := by
  unfold handed serviceInterfaces
  cases getPendingPackage ready world.peer.recvPackage Label.new world with
  | ok result =>
      cases hlookup : interfaces.lookup (result.1.getInterfaceID .dest) with
      | none => simp [hlookup]
      | some interface =>
          simp only [hlookup, Option.map_some]
          exact ⟨interface, result.2, rfl, rfl, rfl⟩
  | throw error result => rfl
  | stuck reason => rfl

theorem getPendingPackage_eq {ready : List Hub.Ready} {package : Package}
    {label : Label} {world : World ι} :
    getPendingPackage ready package label world =
      match poll ready package world with
      | .ok polled => .ok (⟨polled.labelContents⟩, polled)
      | .throw error polled => .throw error (label, polled)
      | .stuck reason => .stuck reason := by
  unfold getPendingPackage
  cases poll ready package world <;> rfl

/-! ## Well-formed packages -/

/-- An empty second frame, and a label frame with the bytes of a label. -/
def WellFormed (heap : Heap (Addr ι)) (frames : List (FrameData (Addr ι)))
    (label : Contents) : Prop :=
  ∃ socketID labelFrame contents,
    frames.map (fun frame => frame.bytes heap) =
      socketID :: [] :: labelFrame :: contents ∧
    labelFrame.length = contentsSizeof ∧ label = Contents.decode labelFrame

omit [DecidableEq ι] in
theorem exists_frames_of_map_bytes {heap : Heap (Addr ι)}
    {frames : List (FrameData (Addr ι))}
    {socketID nextFrame labelFrame : List UInt8} {contents : List (List UInt8)}
    (hframes : frames.map (fun frame => frame.bytes heap) =
      socketID :: nextFrame :: labelFrame :: contents) :
    ∃ first second third rest, frames = first :: second :: third :: rest ∧
      first.bytes heap = socketID ∧ second.bytes heap = nextFrame ∧
      third.bytes heap = labelFrame := by
  obtain ⟨first, others, rfl, hfirst, hothers⟩ :=
    List.map_eq_cons_iff.mp hframes
  obtain ⟨second, others, rfl, hsecond, hothers⟩ :=
    List.map_eq_cons_iff.mp hothers
  obtain ⟨third, rest, rfl, hthird, -⟩ := List.map_eq_cons_iff.mp hothers
  exact ⟨first, second, third, rest, rfl, hfirst, hsecond, hthird⟩

omit [DecidableEq ι] in
theorem WellFormed.exists_frames {heap : Heap (Addr ι)}
    {frames : List (FrameData (Addr ι))} {label : Contents}
    (h : WellFormed heap frames label) :
    ∃ first second third rest, frames = first :: second :: third :: rest ∧
      packageFrames heap frames = third :: rest ∧
      (third.bytes heap).length = contentsSizeof ∧
      label = Contents.decode (third.bytes heap) := by
  obtain ⟨socketID, labelFrame, contents, hframes, hlength, rfl⟩ := h
  obtain ⟨first, second, third, rest, rfl, -, hsecond, rfl⟩ :=
    exists_frames_of_map_bytes hframes
  refine ⟨first, second, third, rest, rfl, ?_, hlength, rfl⟩
  rw [packageFrames, if_pos hsecond]

/-- The copies are defined, and a handler is called for a well-formed package
only, under the interface ID of its label frame. -/
structure OnlyWellFormed (interfaces : Table InterfaceID (Interface ι))
    (ready : List Hub.Ready) (frames : List (FrameData (Addr ι)))
    (world : World ι) : Prop where
  defined : getPendingPackage ready world.peer.recvPackage Label.new world ≠
    .stuck .undefined
  called : ∀ interfaceID label view,
    handed interfaces ready world = some (interfaceID, label, view) →
    ∃ contents, WellFormed world.heap frames contents ∧
      interfaceID = contents.dest.interfaceID

theorem labelAfter_of_wellFormed (package : Package)
    {frames : List (FrameData (Addr ι))} {world : World ι} {label : Contents}
    (hshape : world.LabelShape)
    (hwhole : ∀ frame ∈ frames, frame.Whole world.heap)
    (hlabel : WellFormed world.heap frames label) :
    labelAfter package frames world = label := by
  obtain ⟨first, second, third, rest, rfl, hpackage, hlength, rfl⟩ :=
    hlabel.exists_frames
  obtain ⟨others, hlabelFrames⟩ :=
    labelFrames_of_packageFrames package hpackage
  have hfront := take_lay_label hshape (hwhole third (by simp)) hlength others
  rw [labelAfter, hlabelFrames, ← decode_append_of_length
    ((lay (.label world.peer.self) world.heap (third :: others) 0
      world.labelMessage.bytes).drop contentsSizeof) hlength, ← hfront,
    List.take_append_drop]

omit [DecidableEq ι] in
theorem whole_of_mem_packageFrames {heap : Heap (Addr ι)}
    {frames : List (FrameData (Addr ι))}
    (hwhole : ∀ frame ∈ frames, frame.Whole heap) :
    ∀ frame ∈ packageFrames heap frames, frame.Whole heap := by
  intro frame hframe
  apply hwhole
  rcases frames with _ | ⟨first, _ | ⟨second, _ | ⟨third, rest⟩⟩⟩
  · simp [packageFrames] at hframe
  · simp [packageFrames] at hframe
  · simp [packageFrames] at hframe
  · have hcontents : frame ∈ third :: rest := by
      by_cases hempty : second.bytes heap = []
      · rwa [packageFrames, if_pos hempty] at hframe
      · simp [packageFrames, hempty] at hframe
    exact List.mem_cons_of_mem _ (List.mem_cons_of_mem _ hcontents)

/-- The label buffer and the messages of the vector have room for their
frames. -/
def HasRoom (frames : List (FrameData (Addr ι))) (world : World ι) : Prop :=
  VectorFits (world.tempPackage world.peer.recvPackage)
    (packageFrames world.heap frames) world.heap

instance (frames : List (FrameData (Addr ι))) (world : World ι) :
    Decidable (HasRoom frames world) :=
  inferInstanceAs (Decidable (VectorFits _ _ _))

theorem exists_distribute_iff_hasRoom {world : World ι}
    {frames : List (FrameData (Addr ι))}
    (hwhole : ∀ frame ∈ frames, frame.Whole world.heap) :
    (∃ heap, distribute (world.tempPackage world.peer.recvPackage)
        (packageFrames world.heap frames) world.heap = .ok heap) ↔
      HasRoom frames world :=
  exists_distribute_iff (List.cons_ne_nil _ _)
    (whole_of_mem_packageFrames hwhole)

theorem handed_of_takes {interfaces : Table InterfaceID (Interface ι)}
    {ready : List Hub.Ready} {world : World ι} {hub : Hub (Addr ι)}
    {port : Port (Addr ι)} {frames : List (FrameData (Addr ι))}
    (hshape : world.LabelShape)
    (htakes : Takes ready world hub port frames) :
    (∃ heap,
      distribute (world.tempPackage world.peer.recvPackage)
        (packageFrames world.heap frames) world.heap = .ok heap ∧
      getPendingPackage ready world.peer.recvPackage Label.new world ≠
        .stuck .undefined ∧
      handed interfaces ready world =
        if senderError (senderName world.heap frames)
          (labelAfter world.peer.recvPackage frames world) = none then
          (interfaces.lookup (labelAfter world.peer.recvPackage frames
            world).dest.interfaceID).map fun _ =>
              ((labelAfter world.peer.recvPackage frames
                  world).dest.interfaceID,
                ⟨labelAfter world.peer.recvPackage frames world⟩,
                world.peer.recvPackage.map fun index =>
                  ((heap (.message index)).size,
                    (heap (.message index)).visible))
        else none) ∨
      (distribute (world.tempPackage world.peer.recvPackage)
          (packageFrames world.heap frames) world.heap = .stuck .undefined ∧
        getPendingPackage ready world.peer.recvPackage Label.new world =
          .stuck .undefined) := by
  have hpending := @getPendingPackage_eq ι _ ready world.peer.recvPackage
    Label.new world
  rcases @poll_of_takes _ _ _ world.peer.recvPackage _ _ _ _ hshape htakes with
    ⟨heap, hstore, hlabel, hpoll⟩ | ⟨hstuck, hpoll⟩
  · refine Or.inl ⟨heap, hstore, ?_⟩
    rw [hpoll] at hpending
    unfold handed
    cases herror : senderError (senderName world.heap frames)
      (labelAfter world.peer.recvPackage frames world) with
    | some error =>
        simp only [herror] at hpending
        rw [hpending]
        simp
    | none =>
        simp only [herror, hlabel] at hpending
        rw [hpending, if_pos rfl]
        exact ⟨by simp, rfl⟩
  · rw [hpoll] at hpending
    exact Or.inr ⟨hstuck, hpending⟩

/-- Only well-formed packages are dispatched if and only if the label buffer
and the messages of the vector have room for their frames and, unless the
package is well formed, its sender's name is rejected or the label the buffer
then holds names no interface. -/
theorem onlyWellFormed_iff {interfaces : Table InterfaceID (Interface ι)}
    {ready : List Hub.Ready} {world : World ι} {hub : Hub (Addr ι)}
    {port : Port (Addr ι)} {frames : List (FrameData (Addr ι))}
    (hreachable : Reachable interfaces world)
    (htakes : Takes ready world hub port frames)
    (hwhole : ∀ frame ∈ frames, frame.Whole world.heap) :
    OnlyWellFormed interfaces ready frames world ↔
      HasRoom frames world ∧
      ((∃ label, WellFormed world.heap frames label) ∨
        senderError (senderName world.heap frames)
          (labelAfter world.peer.recvPackage frames world) ≠ none ∨
        interfaces.lookup (labelAfter world.peer.recvPackage frames
          world).dest.interfaceID = none) := by
  have hshape := hreachable.labelShape
  rw [← exists_distribute_iff_hasRoom hwhole]
  rcases @handed_of_takes _ _ interfaces _ _ _ _ _ hshape htakes with
    ⟨heap, hstore, hdefined, hhanded⟩ | ⟨hstuck, hpending⟩
  · rw [and_iff_right ⟨heap, hstore⟩]
    constructor
    · intro honly
      by_cases herror : senderError (senderName world.heap frames)
          (labelAfter world.peer.recvPackage frames world) = none
      · rw [if_pos herror] at hhanded
        cases hlookup : interfaces.lookup (labelAfter
          world.peer.recvPackage frames world).dest.interfaceID with
        | none => exact Or.inr (Or.inr rfl)
        | some interface =>
            rw [hlookup, Option.map_some] at hhanded
            obtain ⟨label, hwellFormed, -⟩ := honly.called _ _ _ hhanded
            exact Or.inl ⟨label, hwellFormed⟩
      · exact Or.inr (Or.inl herror)
    · intro hcondition
      refine ⟨hdefined, ?_⟩
      intro interfaceID label view hcalled
      rw [hhanded] at hcalled
      by_cases herror : senderError (senderName world.heap frames)
          (labelAfter world.peer.recvPackage frames world) = none
      · rw [if_pos herror] at hcalled
        obtain ⟨interface, hlookup, hresult⟩ := Option.map_eq_some_iff.mp hcalled
        obtain ⟨hid, -⟩ := Prod.mk.inj hresult
        rcases hcondition with ⟨contents, hwellFormed⟩ | hnone | hnone
        · have hafter := labelAfter_of_wellFormed world.peer.recvPackage
            hshape hwhole hwellFormed
          exact ⟨contents, hwellFormed, by rw [← hid, hafter]⟩
        · exact absurd herror hnone
        · rw [hnone] at hlookup
          contradiction
      · rw [if_neg herror] at hcalled
        contradiction
  · rw [hstuck]
    simp only [reduceCtorEq, exists_false, false_and, iff_false]
    exact fun honly => honly.defined hpending

end Peer

/-! ## A package without an empty frame -/

/-- Peer 2 sends three frames; the second one is not empty. -/
def misframed : List (FrameData (Addr Unit)) :=
  [.owned (socketIDOf 2), .owned [1], .owned []]

def wellFramed (label : Contents) : List (FrameData (Addr Unit)) :=
  [.owned (socketIDOf 2), .owned [], .owned label.encode, .owned [3, 4]]

def portReady : List Hub.Ready := [⟨0, pollin⟩]

def idlePull : Peer.Interface Unit :=
  .pull fun label _ => ⟨[], label, .ok ()⟩

def pullAt (interfaceID : InterfaceID) :
    Table InterfaceID (Peer.Interface Unit) :=
  (∅ : Table InterfaceID (Peer.Interface Unit)).insert interfaceID idlePull

theorem reachable_peerOne (interfaces : Table InterfaceID (Peer.Interface Unit))
    (routes : List PeerID) (incoming : List (WireFrame (Addr Unit))) :
    Peer.Reachable interfaces (peerOne routes incoming) :=
  ⟨freshPeer, 0, [.managePorts (onePortHub 1 routes incoming)],
    Peer.initial_freshPeer, rfl⟩

theorem takes_peerOne (routes : List PeerID)
    {frames : List (FrameData (Addr Unit))} (hframes : frames ≠ [])
    (hlength : frames.length ≤ messageVecSize) :
    ∃ hub port, Peer.Takes portReady (peerOne routes (toWire frames)) hub port
      frames := by
  have hincoming : toWire frames = toWire frames ++ [] :=
    (List.append_nil _).symm
  exact ⟨{ onePortHub 1 routes (toWire frames) with pollEventFlags := pollin },
    _, rfl, show pollEventPresent pollin pollin = true by decide, rfl,
    nextMultipart_toWire rfl hincoming hframes hlength⟩

theorem onlyWellFormed_wellFramed :
    Peer.OnlyWellFormed (pullAt 6) portReady
      (wellFramed ⟨9, 0, ⟨2, 0, 7⟩, ⟨1, 0, 6⟩⟩)
      (peerOne [2] (toWire (wellFramed ⟨9, 0, ⟨2, 0, 7⟩, ⟨1, 0, 6⟩⟩))) := by
  obtain ⟨hub, port, htakes⟩ := takes_peerOne [2]
    (show wellFramed ⟨9, 0, ⟨2, 0, 7⟩, ⟨1, 0, 6⟩⟩ ≠ [] from List.cons_ne_nil _ _)
    (by decide)
  apply (Peer.onlyWellFormed_iff (reachable_peerOne _ _ _) htakes ?_).mpr
  · refine ⟨by decide, Or.inl ⟨_, _, _, _, rfl, by decide, rfl⟩⟩
  · intro frame hframe
    simp only [wellFramed, List.mem_cons, List.not_mem_nil, or_false] at hframe
    rcases hframe with rfl | rfl | rfl | rfl <;> rfl

/-- The label buffer of a new peer names interface 0, which is called. -/
theorem misframed_dispatched :
    ∃ (world : World Unit) (hub : Hub (Addr Unit)) (port : Port (Addr Unit)),
      Peer.Reachable (pullAt 0) world ∧
      Peer.Takes portReady world hub port misframed ∧
      (Peer.handed (pullAt 0) portReady world).map Prod.fst = some 0 ∧
      ¬Peer.OnlyWellFormed (pullAt 0) portReady misframed world := by
  obtain ⟨hub, port, htakes⟩ := takes_peerOne [2]
    (show misframed ≠ [] from List.cons_ne_nil _ _) (by decide)
  have hhanded : (Peer.handed (pullAt 0) portReady
      (peerOne [2] (toWire misframed))).map Prod.fst = some 0 := by
    decide
  refine ⟨peerOne [2] (toWire misframed), hub, port, reachable_peerOne _ _ _,
    htakes, hhanded, ?_⟩
  intro honly
  obtain ⟨⟨interfaceID, label, view⟩, hcalled, -⟩ :=
    Option.map_eq_some_iff.mp hhanded
  obtain ⟨contents, ⟨socketID, labelFrame, rest, hframes, -⟩, -⟩ :=
    honly.called interfaceID label view hcalled
  simp [misframed] at hframes

end Dpn
