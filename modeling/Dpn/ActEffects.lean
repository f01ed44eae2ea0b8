import Dpn.Connection
import Dpn.Footprint
import Dpn.Polling

/-!
# What an act does to the others

Beside what it does for its own peer, an act of a peer leaves the other peers
as they are, and a poll of a peer whose ports hold whole multiparts takes the
next one of one port or nothing.
-/

namespace Dpn

variable {ι : Type*}

/-- What a port is to receive; nothing, if it does not exist. -/
def Hub.incomingAt {α : Type*} (hub : Hub α) (portID : PortID) :
    List (WireFrame α) :=
  match hub.findPort portID with
  | none => []
  | some port => port.incoming

/-! ## What an act leaves to the other peers -/

namespace Peer

variable [DecidableEq ι]

/-- Neither frames nor another peer's label come from outside the network. -/
def Act.Local : Act ι → Prop
  | .arrive _ _ => False
  | .remote _ _ => False
  | _ => True

/-- What every act of a peer in a network does: the peer stays the same one,
and so do the label buffers of the others. -/
structure Keeps (world next : World ι) : Prop where
  self : next.peer.self = world.peer.self
  peerID : next.peer.peerID = world.peer.peerID
  shape : next.LabelShape
  others : ∀ peer, peer ≠ world.peer.self →
    next.heap (.label peer) = world.heap (.label peer)

theorem act_labelShape (single : Act ι) {world : World ι}
    (hshape : world.LabelShape) :
    (act single world).Holds World.LabelShape := by
  have hinvariant := labelShape_invariant (ι := ι)
  cases single with
  | send label package =>
      exact (hinvariant.send label package world hshape).map fun _ h => h
  | poll ready package =>
      exact hinvariant.toCallInvariant.poll ready package hshape
  | receipts topic receipts => exact labelShape_of_eq hshape rfl
  | subscribe label => exact hinvariant.subscribe label world hshape
  | called interfaceID label view =>
      exact hinvariant.called interfaceID label view world hshape
  | resize message size offset =>
      exact hinvariant.resize message size offset world hshape trivial
  | reset message => exact hinvariant.reset message world hshape trivial
  | write message position source =>
      rw [act]
      split
      · trivial
      · rename_i written hwrite
        exact hinvariant.write message position source written world hshape
          trivial hwrite
  | changePackage package =>
      exact hinvariant.changePackage package world hshape trivial
  | arrive portID frames => exact hinvariant.ports _ world hshape
  | managePorts hub => exact hinvariant.ports hub world hshape
  | remote peer labelMessage =>
      rw [act]
      split
      · exact hshape
      · rename_i hpeer
        exact hinvariant.remote peer labelMessage world hshape hpeer

theorem act_others (single : Act ι) {world : World ι}
    (hshape : world.LabelShape) (hlocal : single.Local) {peer : ι}
    (hpeer : peer ≠ world.peer.self) :
    (act single world).Holds fun next =>
      next.heap (.label peer) = world.heap (.label peer) := by
  have hstart : Spared (.label peer) world world :=
    ⟨hshape, rfl, by simpa using hpeer, label_notMem peer _, rfl⟩
  have hspares : single.Spares (.label peer) world := by
    cases single with
    | send label package => exact label_notMem peer package
    | poll ready package => exact Or.inl (label_notMem peer package)
    | receipts topic receipts => trivial
    | subscribe label => trivial
    | called interfaceID label view => trivial
    | resize message size offset => exact fun h => by cases h
    | reset message => exact fun h => by cases h
    | write message position source => exact fun h => by cases h
    | changePackage package => exact label_notMem peer package
    | arrive portID frames => trivial
    | managePorts hub => trivial
    | remote peer labelMessage => exact absurd hlocal id
  exact (act_spares single hstart hspares).mono fun _ h => h.kept

theorem act_self (single : Act ι) {world : World ι}
    (hshape : world.LabelShape) :
    (act single world).Holds fun next =>
      next.peer.self = world.peer.self ∧
        next.peer.peerID = world.peer.peerID := by
  cases single with
  | send label package =>
      have hsend : (sendMessages label package world).Holds fun result =>
          result.2.peer.self = world.peer.self ∧
            result.2.peer.peerID = world.peer.peerID :=
        sendMessages_holds hshape fun _ _ _ hspec => by
          rw [hspec.peer]
          exact ⟨rfl, rfl⟩
      exact hsend.map fun _ h => h
  | poll ready package =>
      apply (poll_peer ready package world).mono
      intro polled hpolled
      rw [hpolled]
      exact ⟨rfl, rfl⟩
  | receipts topic receipts => exact ⟨rfl, rfl⟩
  | subscribe label =>
      rw [act, subscribe_eq_setReceipts]
      exact ⟨rfl, rfl⟩
  | called interfaceID label view => exact ⟨rfl, rfl⟩
  | resize message size offset => exact ⟨rfl, rfl⟩
  | reset message => exact ⟨rfl, rfl⟩
  | write message position source =>
      rw [act]
      split
      · trivial
      · exact ⟨rfl, rfl⟩
  | changePackage package => exact ⟨rfl, rfl⟩
  | arrive portID frames => exact ⟨rfl, rfl⟩
  | managePorts hub => exact ⟨rfl, rfl⟩
  | remote peer labelMessage =>
      rw [act]
      split
      · exact ⟨rfl, rfl⟩
      · exact ⟨rfl, rfl⟩

theorem act_keeps {single : Act ι} {world next : World ι}
    (hshape : world.LabelShape) (hlocal : single.Local)
    (hnext : (act single world).state? = some next) : Keeps world next := by
  have hself := Outcome.holds_iff_state?.mp (act_self single hshape) next hnext
  refine ⟨hself.1, hself.2, ?_, ?_⟩
  · exact Outcome.holds_iff_state?.mp (act_labelShape single hshape) next hnext
  · intro peer hpeer
    exact Outcome.holds_iff_state?.mp (act_others single hshape hlocal hpeer)
      next hnext

/-- The first frame of what is sent is the socket ID of the port that the label
names as its destination. -/
theorem sendMessages_address {label : Label} {package : Package}
    {world : World ι} {result : Label × World ι} {port : Port (Addr ι)}
    {record : SendRecord ι} (hshape : world.LabelShape)
    (hport : world.peer.hub.findPort (label.getPortID .src) = some port)
    (hresult : (sendMessages label package world).state? = some result)
    (htrace : result.2.trace = world.trace ++ [.sent record])
    (hframes : record.frames ≠ []) :
    ∃ frame rest, record.frames = frame :: rest ∧
      frame.bytes =
        portNameToSocketID (destPortName label) port.transport := by
  obtain ⟨heap, -, hsend⟩ :=
    @sendMessages_eq_hub_send _ _ label package world hshape
  rw [hsend, Hub.send, hport] at hresult
  dsimp only at hresult
  by_cases hroute : port.closed = false ∧
      portNameToSocketID (destPortName label) port.transport ∈ port.routes
  · rw [← destPortName, send_of_reachable hroute.1 hroute.2] at hresult
    obtain rfl := Option.some.inj hresult
    rw [afterSend, List.append_cancel_left_eq] at htrace
    obtain rfl := Event.sent.inj (List.head_eq_of_cons_eq htrace)
    exact ⟨_, _, rfl, rfl⟩
  · rw [← destPortName, send_of_unreachable hroute] at hresult
    obtain rfl := Option.some.inj hresult
    rw [afterSend, List.append_cancel_left_eq] at htrace
    obtain rfl := Event.sent.inj (List.head_eq_of_cons_eq htrace)
    contradiction

/-! ## What a poll takes -/

/-- Whole multiparts wait at every port, each of which can be read at once. -/
def QueuesWhole (hub : Hub (Addr ι)) : Prop :=
  ∀ portID, ∃ multiparts : List (List (FrameData (Addr ι))),
    hub.incomingAt portID = multiparts.flatMap toWire ∧
      ∀ frames ∈ multiparts, frames ≠ [] ∧ frames.length ≤ messageVecSize

structure Untaken (world final : World ι) : Prop where
  heap : final.heap = world.heap
  trace : final.trace = world.trace
  ports : ∀ portID, final.peer.hub.findPort portID =
    world.peer.hub.findPort portID

structure Taken (package : Package) (world final : World ι) (portID : PortID)
    (port : Port (Addr ι)) (frames : List (FrameData (Addr ι))) : Prop where
  found : world.peer.hub.findPort portID = some port
  next : port.nextMultipart = some frames
  stored : distribute (world.tempPackage package)
    (packageFrames world.heap frames) world.heap = .ok final.heap
  ports : ∀ other, final.peer.hub.findPort other =
    (world.peer.hub.setPort portID port.consume).findPort other
  trace : final.trace = world.trace ++ [.received portID package
    (frames.map fun frame => frame.bytes world.heap)]

theorem receiveMessages_of_closed {destPortID : PortID} {package : Package}
    {world : World ι} {port : Port (Addr ι)}
    (hport : world.peer.hub.findPort destPortID = some port)
    (hclosed : port.closed = true) :
    receiveMessages destPortID package world = .throw .zmqError
      (world.withHub (world.peer.hub.setPort destPortID port)) := by
  have hnext : port.nextMultipart = none := by
    rw [Port.nextMultipart, if_pos hclosed]
  have hlogged : world.logReceived destPortID package = world := by
    simp [World.logReceived, hport, hnext]
  simp only [receiveMessages, hport, Hub.receive, hlogged, Port.receive,
    receiveWith, hclosed, if_true, Outcome.andThen_throw]
  rfl

theorem receiveMessages_of_empty {destPortID : PortID} {package : Package}
    {world : World ι} {port : Port (Addr ι)}
    (hport : world.peer.hub.findPort destPortID = some port)
    (hopen : port.closed = false) (hempty : port.incoming = []) :
    receiveMessages destPortID package world = .stuck .blocked := by
  have hblocked : ∀ messages : List (Addr ι), Port.receive messages .none
      ⟨[], port, world.heap⟩ = .stuck .blocked := by
    intro messages
    rw [Port.receive, receiveWith, if_neg (by simp [hopen]), hempty]
    rfl
  simp only [receiveMessages, hport, Hub.receive, hblocked,
    Outcome.andThen_stuck]

/-- A receive takes the next multipart of its port, whether it returns or
throws, or it throws and takes nothing. -/
theorem receiveMessages_takes {destPortID : PortID} {package : Package}
    {world : World ι} (hwhole : QueuesWhole world.peer.hub) :
    (receiveMessages destPortID package world).Holds fun final =>
      ((world.peer.hub.findPort destPortID).bind Port.nextMultipart = none ∧
        Untaken world final) ∨
      ∃ port frames, Taken package world final destPortID port frames := by
  cases hport : world.peer.hub.findPort destPortID with
  | none => simp [receiveMessages, hport]
  | some port =>
      by_cases hclosed : port.closed = true
      · rw [receiveMessages_of_closed hport hclosed]
        refine Or.inl ⟨?_, rfl, rfl, Hub.findPort_setPort_same hport⟩
        rw [Option.bind_some, Port.nextMultipart, if_pos hclosed]
      · have hopen : port.closed = false := by simpa using hclosed
        obtain ⟨multiparts, hincoming, hlengths⟩ := hwhole destPortID
        rw [Hub.incomingAt, hport] at hincoming
        cases multiparts with
        | nil =>
            rw [receiveMessages_of_empty hport hopen hincoming]
            trivial
        | cons frames rest =>
            obtain ⟨hframes, hlength⟩ := hlengths frames (by simp)
            have hnext := nextMultipart_toWire hopen hincoming hframes hlength
            rw [receiveMessages_of_next hport hnext]
            cases hstore : distribute (world.tempPackage package)
              (packageFrames world.heap frames) world.heap with
            | ok heap =>
                have htaken : Taken package world
                    (afterReceive destPortID package port frames world heap)
                    destPortID port frames :=
                  ⟨hport, hnext, hstore, fun _ => rfl, rfl⟩
                dsimp only
                split
                · exact Or.inr ⟨port, frames, htaken⟩
                · exact Or.inr ⟨port, frames, htaken⟩
            | throw error heap =>
                rcases distribute_ok_or_undefined (.label world.peer.self)
                  (package.map .message) (packageFrames world.heap frames)
                  world.heap with ⟨final, hok⟩ | hstuck
                · exact absurd (hstore.symm.trans hok) (by simp)
                · exact absurd (hstore.symm.trans hstuck) (by simp)
            | stuck reason => trivial

omit [DecidableEq ι] in
theorem findPort_of_poll {hub next : Hub (Addr ι)}
    (hchanges : Hub.PollChanges hub next) (portID : PortID) :
    next.findPort portID = hub.findPort portID := by
  rw [Hub.findPort, hchanges.ports, Hub.findPort]

/-- The same of a poll; what it takes is what `polledMultipart` says. -/
theorem poll_takes {ready : List Hub.Ready} {package : Package}
    {world : World ι} (hwhole : QueuesWhole world.peer.hub) :
    (poll ready package world).Holds fun final =>
      (polledMultipart ready world = none ∧ Untaken world final) ∨
      ∃ portID port frames,
        polledMultipart ready world = some (portID, frames) ∧
        Taken package world final portID port frames := by
  have hchanges := Hub.poll_changes pollin ready world.peer.hub
  unfold poll polledMultipart
  cases hpoll : world.peer.hub.poll pollin ready with
  | stuck reason => trivial
  | throw error hub =>
      rw [hpoll] at hchanges
      exact Or.inl ⟨rfl, rfl, rfl, findPort_of_poll hchanges⟩
  | ok hub =>
      rw [hpoll] at hchanges
      have hfind := findPort_of_poll hchanges
      rw [Outcome.andThen_ok]
      dsimp only
      split
      · have hstill : QueuesWhole hub := by
          intro portID
          rw [Hub.incomingAt, hfind]
          exact hwhole portID
        apply (@receiveMessages_takes _ _ hub.pollPortID package
          (world.withHub hub) hstill).mono
        rintro final (⟨hnone, huntaken⟩ | ⟨port, frames, htaken⟩)
        · refine Or.inl ⟨?_, huntaken.heap, huntaken.trace, ?_⟩
          · rw [show hub.findPort hub.pollPortID =
              (world.withHub hub).peer.hub.findPort hub.pollPortID from rfl,
              hnone]
            rfl
          · exact fun portID => (huntaken.ports portID).trans (hfind portID)
        · refine Or.inr ⟨hub.pollPortID, port, frames, ?_, ?_⟩
          · rw [show hub.findPort hub.pollPortID = some port from htaken.found,
              Option.bind_some, htaken.next]
            rfl
          · refine ⟨(hfind _).symm.trans htaken.found, htaken.next,
              htaken.stored, ?_, htaken.trace⟩
            intro other
            rw [htaken.ports]
            by_cases heq : other = hub.pollPortID
            · rw [heq, Hub.findPort_setPort_self, Hub.findPort_setPort_self]
            · rw [Hub.findPort_setPort_of_ne _ _ heq,
                Hub.findPort_setPort_of_ne _ _ heq]
              exact hfind other
      · exact Or.inl ⟨rfl, rfl, rfl, hfind⟩

end Peer

end Dpn
