import Dpn.Bounds
import Dpn.FifoQueues
import Dpn.Registry
import Dpn.Reply

/-!
# Polling several ports

When several ports are ready, every handler overwrites the same two fields, and
then one port is read.  The others stay ready, so nothing is lost: a poll takes
the head of the queue of the port it reports, and the ports are queues in the
sense of `FifoQueues`.
-/

namespace Dpn

/-! ## Hubs whose ports were added once -/

section Serving

variable {α : Type*}

namespace Hub

/-- Both registries are in step, no port is closed, and no two ports share a
socket. -/
structure Serving (hub : Hub α) : Prop where
  inStep : hub.InStep
  opened : ∀ {portID port}, hub.findPort portID = some port →
    port.closed = false
  distinct : ∀ {portID other port second}, hub.findPort portID = some port →
    hub.findPort other = some second → port.socket = second.socket →
    portID = other

/-- What matters of a port for the poller. -/
def socketOf (hub : Hub α) (portID : PortID) : Option (ℕ × Bool) :=
  (hub.findPort portID).map fun port => (port.socket, port.closed)

theorem exists_of_socketOf_eq {hub next : Hub α} {portID : PortID}
    {port : Port α} (hsame : next.socketOf portID = hub.socketOf portID)
    (hport : next.findPort portID = some port) :
    ∃ before, hub.findPort portID = some before ∧
      before.socket = port.socket ∧ before.closed = port.closed := by
  rw [socketOf, hport, Option.map_some, eq_comm] at hsame
  obtain ⟨before, hbefore, heq⟩ := Option.map_eq_some_iff.mp hsame
  exact ⟨before, hbefore, Prod.mk.inj heq⟩

theorem Serving.of_sockets {hub next : Hub α} (h : hub.Serving)
    (hpoller : handlers next.poller = handlers hub.poller)
    (hports : ∀ portID, next.socketOf portID = hub.socketOf portID) :
    next.Serving where
  inStep := by
    apply h.inStep.of_sockets hpoller
    intro portID
    have hsame := congrArg (Option.map Prod.fst) (hports portID)
    rwa [socketOf, socketOf, Option.map_map, Option.map_map] at hsame
  opened := by
    intro portID port hport
    obtain ⟨before, hbefore, -, hclosed⟩ :=
      exists_of_socketOf_eq (hports portID) hport
    exact hclosed ▸ h.opened hbefore
  distinct := by
    intro portID other port second hport hsecond hsame
    obtain ⟨before, hbefore, hsocket, -⟩ :=
      exists_of_socketOf_eq (hports portID) hport
    obtain ⟨old, hold, hother, -⟩ := exists_of_socketOf_eq (hports other) hsecond
    exact h.distinct hbefore hold (hsocket.trans (hsame.trans hother.symm))

theorem Serving.setPort {hub : Hub α} (h : hub.Serving) {portID : PortID}
    {port after : Port α} (hport : hub.findPort portID = some port)
    (hsocket : after.socket = port.socket)
    (hclosed : after.closed = port.closed) :
    (hub.setPort portID after).Serving := by
  refine @Serving.of_sockets _ _ (hub.setPort portID after) h rfl ?_
  intro other
  by_cases heq : other = portID
  · subst other
    rw [socketOf, socketOf, findPort_setPort_self, hport, Option.map_some,
      Option.map_some, hsocket, hclosed]
  · rw [socketOf, socketOf, findPort_setPort_of_ne hub after heq]

end Hub

namespace Process

structure Addition where
  portID : PortID
  transport : Transport
  context : ContextID
  flags : EventFlags
  deriving DecidableEq, Repr

def Addition.call (addition : Addition) : HubCall :=
  .addPort addition.portID addition.transport addition.context addition.flags

/-- Adding a port under a free ID, whether its constructor throws or not. -/
theorem serving_addition {process next : Process α} {addition : Addition}
    (h : process.hub.Serving)
    (hunused : process.hub.findPort addition.portID = none)
    (hstep : (step addition.call process).state? = some next) :
    next.hub.Serving ∧ ∀ other, other ≠ addition.portID →
      next.hub.findPort other = process.hub.findPort other := by
  have hkeeps : KeepsStep addition.call process := Or.inl hunused
  obtain ⟨same, hsame, hinStep⟩ :=
    (inStep_step_iff addition.call process h.inStep).mpr hkeeps
  obtain rfl := Option.some.inj (hstep.symm.trans hsame)
  have hports : ∀ {portID port}, next.hub.findPort portID = some port →
      process.hub.findPort portID = some port ∨ port.closed = false := by
    intro portID port hport
    rw [Addition.call, step, addPort] at hstep
    split at hstep
    · obtain rfl := Option.some.inj hstep
      rcases Hub.findPort_insertPort_cases hport with hold | ⟨-, rfl, -⟩
      · exact Or.inl hold
      · exact Or.inr rfl
    · obtain rfl := Option.some.inj hstep
      exact Or.inl hport
  refine ⟨⟨hinStep, ?_, next.distinct⟩, ?_⟩
  · intro portID port hport
    exact (hports hport).elim h.opened id
  · intro other hne
    rw [Addition.call, step, addPort] at hstep
    split at hstep
    · obtain rfl := Option.some.inj hstep
      exact Hub.findPort_insertPort_of_ne hne
    · obtain rfl := Option.some.inj hstep
      rfl

theorem serving_additions {additions : List Addition}
    {process final : Process α} (h : process.hub.Serving)
    (honce : (additions.map Addition.portID).Nodup)
    (hunused : ∀ addition ∈ additions,
      process.hub.findPort addition.portID = none)
    (hrun : Outcome.run step (additions.map Addition.call) process =
      some final) : final.hub.Serving := by
  induction additions generalizing process with
  | nil =>
      obtain rfl := Option.some.inj hrun
      exact h
  | cons addition rest ih =>
      rw [List.map_cons, Outcome.run_cons] at hrun
      obtain ⟨next, hnext, hrest⟩ := Option.bind_eq_some_iff.mp hrun
      rw [List.map_cons, List.nodup_cons] at honce
      obtain ⟨hserving, hothers⟩ :=
        serving_addition h (hunused addition (by simp)) hnext
      apply ih hserving honce.2 ?_ hrest
      intro other hother
      have hne : other.portID ≠ addition.portID := by
        intro heq
        exact honce.1 (heq ▸ List.mem_map_of_mem hother)
      rw [hothers _ hne]
      exact hunused other (List.mem_cons_of_mem addition hother)

end Process

/-- The ports of the hub were each added once under an ID of their own, and
none was closed or removed.  What has been connected, sent and received since
then is left open. -/
def Hub.AddedOnce (hub : Hub α) : Prop :=
  ∃ (hubName : HubName) (bound : List Binding)
    (additions : List Process.Addition) (process : Process α),
    (additions.map Process.Addition.portID).Nodup ∧
    Outcome.run Process.step (additions.map Process.Addition.call)
      (Process.start hubName bound) = some process ∧
    Hub.handlers hub.poller = Hub.handlers process.hub.poller ∧
    ∀ portID, hub.socketOf portID = process.hub.socketOf portID

theorem Hub.AddedOnce.serving {hub : Hub α} (h : hub.AddedOnce) :
    hub.Serving := by
  obtain ⟨hubName, bound, additions, process, honce, hrun, hpoller, hports⟩ := h
  have hnone : ∀ portID, (Process.start hubName bound :
      Process α).hub.findPort portID = none := fun _ => rfl
  have hstart : (Process.start hubName bound : Process α).hub.Serving :=
    ⟨Hub.inStep_new hubName, fun hport => by simp [hnone] at hport,
      Process.distinct _⟩
  exact (Process.serving_additions hstart honce (fun _ _ => hnone _)
    hrun).of_sockets hpoller hports

end Serving

/-! ## What the active poller reports -/

section Reports

variable {α : Type*}

namespace Hub

/-- The sockets with a message to be received. -/
def readable (hub : Hub α) : List Ready :=
  (hub.ports.entries.map Sigma.snd).filterMap fun port =>
    if port.incoming = [] then none else some ⟨port.socket, pollin⟩

/-- `poller_.wait` calls the handler of every ready socket once, in any
order. -/
def ReportsAll (hub : Hub α) (ready : List Ready) : Prop :=
  ready.Perm hub.readable

theorem mem_ports_iff {hub : Hub α} {port : Port α} :
    port ∈ hub.ports.entries.map Sigma.snd ↔
      ∃ portID, hub.findPort portID = some port := by
  constructor
  · intro hmem
    obtain ⟨⟨portID, found⟩, hentry, rfl⟩ := List.mem_map.mp hmem
    exact ⟨portID, AList.mem_lookup_iff.mpr hentry⟩
  · rintro ⟨portID, hport⟩
    exact List.mem_map.mpr
      ⟨⟨portID, port⟩, AList.mem_lookup_iff.mp hport, rfl⟩

theorem mem_readable_iff {hub : Hub α} {event : Ready} :
    event ∈ hub.readable ↔ ∃ portID port,
      hub.findPort portID = some port ∧ port.incoming ≠ [] ∧
        event = ⟨port.socket, pollin⟩ := by
  rw [readable, List.mem_filterMap]
  constructor
  · rintro ⟨port, hport, hevent⟩
    obtain ⟨portID, hfound⟩ := mem_ports_iff.mp hport
    split at hevent
    · contradiction
    · rename_i hincoming
      exact ⟨portID, port, hfound, hincoming, (Option.some.inj hevent).symm⟩
  · rintro ⟨portID, port, hport, hincoming, rfl⟩
    exact ⟨port, mem_ports_iff.mpr ⟨portID, hport⟩, if_neg hincoming⟩

theorem sockets_of_handlers {poller next : List PollerEntry}
    (hsame : handlers next = handlers poller) :
    next.map PollerEntry.socket = poller.map PollerEntry.socket := by
  have hmap := congrArg (List.map Prod.fst) hsame
  rwa [handlers, handlers, List.map_map, List.map_map] at hmap

theorem exists_modifyAll {flags : EventFlags} {ports : List (Port α)}
    {poller : List PollerEntry}
    (hports : ∀ port ∈ ports, port.closed = false ∧
      port.socket ∈ poller.map PollerEntry.socket) :
    ∃ next, modifyAll flags ports poller = .ok next := by
  induction ports generalizing poller with
  | nil => exact ⟨poller, rfl⟩
  | cons port rest ih =>
      obtain ⟨modified, hmodify⟩ :
          ∃ modified, modify poller port flags = some modified :=
        ⟨_, if_pos (hports port (by simp))⟩
      have hsockets := sockets_of_handlers (handlers_of_modify hmodify)
      rw [modifyAll, hmodify]
      apply ih
      intro other hother
      rw [hsockets]
      exact hports other (List.mem_cons_of_mem port hother)

theorem callbacks_ne_nil {poller : List PollerEntry} {ready : List Ready}
    {event : Ready} (hevent : event ∈ ready)
    (hsocket : event.socket ∈ poller.map PollerEntry.socket) :
    callbacks poller ready ≠ [] := by
  obtain ⟨entry, hentry, hsame⟩ := List.mem_map.mp hsocket
  have hfound : (poller.find? fun entry =>
      entry.socket = event.socket).isSome := by
    rw [List.find?_isSome]
    exact ⟨entry, hentry, by simpa using hsame⟩
  obtain ⟨found, hfound⟩ := Option.isSome_iff_exists.mp hfound
  have hmem : (found.portID, event.flags) ∈ callbacks poller ready :=
    List.mem_filterMap.mpr ⟨event, hevent, by rw [hfound, Option.map_some]⟩
  exact List.ne_nil_of_mem hmem

theorem Serving.exists_modifyAll {hub : Hub α} (h : hub.Serving)
    (flags : EventFlags) :
    ∃ poller, modifyAll flags (hub.ports.entries.map Sigma.snd) hub.poller =
        .ok poller ∧
      handlers poller = handlers hub.poller := by
  have hports : ∀ port ∈ hub.ports.entries.map Sigma.snd,
      port.closed = false ∧ port.socket ∈ hub.poller.map PollerEntry.socket := by
    intro port hmem
    obtain ⟨portID, hport⟩ := mem_ports_iff.mp hmem
    obtain ⟨entry, hentry, hsocket⟩ := h.inStep.registered hport
    exact ⟨h.opened hport, List.mem_map.mpr ⟨entry, hentry, hsocket⟩⟩
  obtain ⟨poller, hmodify⟩ := @Hub.exists_modifyAll _ flags _ _ hports
  exact ⟨poller, hmodify, handlers_of_modifyAll hmodify⟩

/-- A poll keeps the ports and their handlers, whatever it reports. -/
theorem Serving.poll {hub : Hub α} (h : hub.Serving) (flags : EventFlags)
    (ready : List Ready) : (hub.poll flags ready).Holds Serving := by
  obtain ⟨poller, hmodify, hhandlers⟩ := h.exists_modifyAll flags
  have hchanged : ({ hub with poller := poller } : Hub α).Serving :=
    h.of_sockets hhandlers fun _ => rfl
  rw [Hub.poll, hmodify, Outcome.andThen_ok]
  split
  · exact hchanged
  · obtain ⟨portID, reported, hfields⟩ := foldl_pollCallback
      (callbacks poller ready) { hub with poller := poller }
    rw [hfields]
    exact hchanged.of_sockets rfl fun _ => rfl

/-- If there is a message on any port, a poll names a port with a message. -/
theorem Serving.poll_readable {hub : Hub α} (h : hub.Serving)
    {ready : List Ready} (hready : hub.ReportsAll ready) {portID : PortID}
    {port : Port α} (hport : hub.findPort portID = some port)
    (hincoming : port.incoming ≠ []) :
    ∃ next reported, hub.poll pollin ready = .ok next ∧
      next.ports = hub.ports ∧ next.pollEventFlags = pollin ∧
      hub.findPort next.pollPortID = some reported ∧
      reported.incoming ≠ [] := by
  have hevent : (⟨port.socket, pollin⟩ : Ready) ∈ ready :=
    hready.mem_iff.mpr (mem_readable_iff.mpr ⟨portID, port, hport, hincoming, rfl⟩)
  obtain ⟨poller, hmodify, hhandlers⟩ := h.exists_modifyAll pollin
  have hcalled : callbacks poller ready ≠ [] := by
    apply callbacks_ne_nil hevent
    rw [sockets_of_handlers hhandlers]
    obtain ⟨entry, hentry, hsocket⟩ := h.inStep.registered hport
    exact List.mem_map.mpr ⟨entry, hentry, hsocket⟩
  obtain ⟨next, hpoll⟩ : ∃ next, hub.poll pollin ready = .ok next := by
    rw [Hub.poll, hmodify, Outcome.andThen_ok]
    split
    · contradiction
    · exact ⟨_, rfl⟩
  obtain ⟨event, hmem, reported, hreported, hsocket, hflags⟩ :=
    h.inStep.reportsReady pollin ready next hpoll
  obtain ⟨owner, ready, howner, hwaiting, rfl⟩ :=
    mem_readable_iff.mp (hready.mem_iff.mp hmem)
  have hports := ((poll_changes pollin _ hub).of_ok hpoll).ports
  have hfound : hub.findPort next.pollPortID = some reported := by
    rwa [findPort, hports] at hreported
  -- The handler reports the ID of the port that owns the ready socket.
  obtain rfl := h.distinct hfound howner hsocket
  obtain rfl := Option.some.inj (hfound.symm.trans howner)
  exact ⟨next, reported, hpoll, hports, hflags, hfound, hwaiting⟩

/-- Without any message there is nothing to call, and the poll throws. -/
theorem Serving.poll_idle {hub : Hub α} (h : hub.Serving) {ready : List Ready}
    (hready : hub.ReportsAll ready)
    (hidle : ∀ portID port, hub.findPort portID = some port →
      port.incoming = []) :
    ∃ failed, hub.poll pollin ready = .throw .runtimeError failed ∧
      failed.ports = hub.ports := by
  have hnone : ready = [] := by
    apply List.eq_nil_iff_forall_not_mem.mpr
    intro event hevent
    obtain ⟨portID, port, hport, hincoming, -⟩ :=
      mem_readable_iff.mp (hready.mem_iff.mp hevent)
    exact hincoming (hidle portID port hport)
  obtain ⟨poller, hmodify, -⟩ := h.exists_modifyAll pollin
  refine ⟨{ hub with poller := poller }, ?_, rfl⟩
  rw [Hub.poll, hmodify, Outcome.andThen_ok, hnone]
  rfl

end Hub

end Reports

/-! ## Queues of multiparts -/

section Queues

variable {ι : Type*}

/-- A multipart of 3 to 10 frames, with the identity that ZMQ gives it for the
port of a peer. -/
def FromPeer (frames : List (FrameData (Addr ι))) : Prop :=
  ∃ (peerID : PeerID) (portID : PortID) (content : List (FrameData (Addr ι))),
    frames = .owned (peerSocketID peerID portID) :: content ∧
    2 ≤ content.length ∧ frames.length ≤ messageVecSize

/-- What the ports have been sent and not yet received. -/
structure Queued (queues : PortID → List (List (FrameData (Addr ι))))
    (hub : Hub (Addr ι)) : Prop where
  incoming : ∀ {portID port}, hub.findPort portID = some port →
    port.incoming = (queues portID).flatMap toWire
  unknown : ∀ {portID}, hub.findPort portID = none → queues portID = []
  fromPeer : ∀ portID, ∀ frames ∈ queues portID, FromPeer frames

theorem FromPeer.ne_nil {frames : List (FrameData (Addr ι))}
    (h : FromPeer frames) : frames ≠ [] := by
  obtain ⟨peerID, portID, content, rfl, -⟩ := h
  exact List.cons_ne_nil _ _

theorem FromPeer.length_le {frames : List (FrameData (Addr ι))}
    (h : FromPeer frames) : frames.length ≤ messageVecSize := by
  obtain ⟨peerID, portID, content, -, -, hlength⟩ := h
  exact hlength

theorem FromPeer.senderName {frames : List (FrameData (Addr ι))}
    (h : FromPeer frames) (heap : Heap (Addr ι)) :
    ∃ peerID portID, Dpn.senderName heap frames =
      PortSpecification.getPortName ⟨peerIDtoHubName peerID, portID⟩ := by
  obtain ⟨peerID, portID, content, rfl, hlength, -⟩ := h
  rcases content with _ | ⟨second, _ | ⟨third, rest⟩⟩
  · simp at hlength
  · simp at hlength
  · exact ⟨peerID, portID, portNameFromSocketID_peerSocketID peerID portID⟩

theorem Queued.incoming_eq_nil_iff
    {queues : PortID → List (List (FrameData (Addr ι)))} {hub : Hub (Addr ι)}
    (h : Queued queues hub) {portID : PortID} {port : Port (Addr ι)}
    (hport : hub.findPort portID = some port) :
    port.incoming = [] ↔ queues portID = [] := by
  rw [h.incoming hport]
  constructor
  · intro hnil
    cases hqueue : queues portID with
    | nil => rfl
    | cons frames rest =>
        have hfrom := h.fromPeer portID frames (by rw [hqueue]; simp)
        have hlength := congrArg List.length hnil
        simp [hqueue, hfrom.ne_nil] at hlength
  · intro hqueue
    rw [hqueue, List.flatMap_nil]

theorem consume_toWire {port : Port (Addr ι)}
    {frames : List (FrameData (Addr ι))} {rest : List (WireFrame (Addr ι))}
    (hincoming : port.incoming = toWire frames ++ rest)
    (hframes : frames ≠ []) (hlength : frames.length ≤ messageVecSize) :
    port.consume = { port with incoming := rest } := by
  rw [Port.consume, hincoming,
    recvLoop_toWire .none hframes rest [] (Nat.zero_le _), if_pos (by omega)]

theorem Queued.setPort {queues : PortID → List (List (FrameData (Addr ι)))}
    {hub : Hub (Addr ι)} (h : Queued queues hub) {portID : PortID}
    {after : Port (Addr ι)} {queue : List (List (FrameData (Addr ι)))}
    (hincoming : after.incoming = queue.flatMap toWire)
    (hqueue : ∀ frames ∈ queue, FromPeer frames) :
    Queued (Function.update queues portID queue) (hub.setPort portID after) := by
  constructor
  · intro other port hport
    by_cases heq : other = portID
    · subst other
      rw [Hub.findPort_setPort_self] at hport
      obtain rfl := Option.some.inj hport
      rw [Function.update_self, hincoming]
    · rw [Hub.findPort_setPort_of_ne _ _ heq] at hport
      rw [Function.update_of_ne heq, h.incoming hport]
  · intro other hnone
    by_cases heq : other = portID
    · subst other
      simp at hnone
    · rw [Hub.findPort_setPort_of_ne _ _ heq] at hnone
      rw [Function.update_of_ne heq, h.unknown hnone]
  · intro other frames hframes
    by_cases heq : other = portID
    · subst other
      rw [Function.update_self] at hframes
      exact hqueue frames hframes
    · rw [Function.update_of_ne heq] at hframes
      exact h.fromPeer other frames hframes

theorem Queued.of_ports {queues : PortID → List (List (FrameData (Addr ι)))}
    {hub next : Hub (Addr ι)} (h : Queued queues hub)
    (hports : next.ports = hub.ports) : Queued queues next := by
  have hfind : ∀ portID, next.findPort portID = hub.findPort portID := by
    intro portID
    rw [Hub.findPort, Hub.findPort, hports]
  exact ⟨fun hport => h.incoming ((hfind _).symm.trans hport),
    fun hnone => h.unknown ((hfind _).symm.trans hnone), h.fromPeer⟩

end Queues

/-! ## Polls and arrivals -/

namespace Peer

variable {ι : Type*} [DecidableEq ι]

/-- The copies stay inside the messages that the package is received into. -/
def Receivable (package : Package) (world : World ι)
    (frames : List (FrameData (Addr ι))) : Prop :=
  (∀ frame ∈ frames, frame.Whole world.heap) ∧
    VectorFits (world.tempPackage package) (packageFrames world.heap frames)
      world.heap

inductive PollingCall (ι : Type*) where
  | arrive (portID : PortID) (frames : List (FrameData (Addr ι)))
  | poll (ready : List Hub.Ready) (package : Package)

def pollingStep : PollingCall ι → World ι → Outcome Exn (World ι)
  | .arrive portID frames, world => .ok (world.arrive portID (toWire frames))
  | .poll ready package, world => poll ready package world

/-- What arrives comes from a peer, to a port of this one; the poller reports
all that is readable, and what a port is to receive next fits. -/
def PollingMeets : PollingCall ι → World ι → Prop
  | .arrive portID frames, world =>
      FromPeer frames ∧ ∃ port, world.peer.hub.findPort portID = some port
  | .poll ready package, world =>
      world.peer.hub.ReportsAll ready ∧
        ∀ portID port frames, world.peer.hub.findPort portID = some port →
          port.nextMultipart = some frames → Receivable package world frames

/-- The port that a poll receives from, with the multipart it receives. -/
def polledMultipart (ready : List Hub.Ready) (world : World ι) :
    Option (PortID × List (FrameData (Addr ι))) :=
  match world.peer.hub.poll pollin ready with
  | .ok hub =>
      if pollEventPresent hub.pollEventFlags pollin then
        ((hub.findPort hub.pollPortID).bind Port.nextMultipart).map
          fun frames => (hub.pollPortID, frames)
      else none
  | .throw _ _ => none
  | .stuck _ => none

def pollingMoves : PollingCall ι → World ι →
    List (FifoQueues.Move PortID (List (FrameData (Addr ι))))
  | .arrive portID frames, _ => [.put portID frames]
  | .poll ready _, world =>
      ((polledMultipart ready world).map fun taken =>
        FifoQueues.Move.take taken.1 taken.2).toList

/-- The poll returns, and takes the head of the queue of the port that the hub
reports, and nothing else. -/
structure TakesHead (queues : PortID → List (List (FrameData (Addr ι))))
    (ready : List Hub.Ready) (package : Package) (world polled : World ι)
    (portID : PortID) (frames : List (FrameData (Addr ι)))
    (rest : List (List (FrameData (Addr ι)))) : Prop where
  returned : poll ready package world = .ok polled
  reported : ∃ hub, world.peer.hub.poll pollin ready = .ok hub ∧
    hub.pollPortID = portID ∧ hub.pollEventFlags = pollin
  head : queues portID = frames :: rest
  left : Queued (Function.update queues portID rest) polled.peer.hub
  received : polled.trace = world.trace ++ [.received portID package
    (frames.map fun frame => frame.bytes world.heap)]

def TakesOneHead (queues : PortID → List (List (FrameData (Addr ι))))
    (ready : List Hub.Ready) (package : Package) (world : World ι) : Prop :=
  ∃ polled portID frames rest,
    TakesHead queues ready package world polled portID frames rest

theorem receiveMessages_fromPeer {portID : PortID} {package : Package}
    {world : World ι} {port : Port (Addr ι)}
    {frames : List (FrameData (Addr ι))}
    (hport : world.peer.hub.findPort portID = some port)
    (hnext : port.nextMultipart = some frames) (hfrom : FromPeer frames)
    (hfits : Receivable package world frames) :
    ∃ heap, receiveMessages portID package world =
      .ok (afterReceive portID package port frames world heap) := by
  obtain ⟨heap, hstore⟩ := (exists_distribute_iff (List.cons_ne_nil _ _)
    (whole_of_mem_packageFrames hfits.1)).mpr hfits.2
  have hstored : distribute (world.tempPackage package)
      (packageFrames world.heap frames) world.heap = .ok heap := hstore
  obtain ⟨sender, senderPort, hname⟩ := hfrom.senderName world.heap
  refine ⟨heap, ?_⟩
  rw [receiveMessages_of_next hport hnext, hstored]
  simp only [hname, senderError_getPortName]

theorem poll_takesHead {queues : PortID → List (List (FrameData (Addr ι)))}
    {ready : List Hub.Ready} {package : Package} {world : World ι}
    (hserving : world.peer.hub.Serving) (hqueued : Queued queues world.peer.hub)
    (hmeets : PollingMeets (.poll ready package) world)
    (hwaiting : ∃ portID, queues portID ≠ []) :
    ∃ polled portID frames rest,
      TakesHead queues ready package world polled portID frames rest ∧
      polled.peer.hub.Serving ∧
      polledMultipart ready world = some (portID, frames) := by
  obtain ⟨hready, hfits⟩ := hmeets
  obtain ⟨waitingID, hwaiting⟩ := hwaiting
  obtain ⟨waiting, hfound⟩ :
      ∃ port, world.peer.hub.findPort waitingID = some port :=
    Option.ne_none_iff_exists'.mp fun hnone =>
      hwaiting (hqueued.unknown hnone)
  have hincoming := (hqueued.incoming_eq_nil_iff hfound).not.mpr hwaiting
  obtain ⟨hub, port, hpoll, hports, hflags, hport, hnonempty⟩ :=
    hserving.poll_readable hready hfound hincoming
  have hqueue := (hqueued.incoming_eq_nil_iff hport).not.mp hnonempty
  obtain ⟨frames, rest, hhead⟩ := List.exists_cons_of_ne_nil hqueue
  have hfrom := hqueued.fromPeer hub.pollPortID frames (by rw [hhead]; simp)
  have hwire : port.incoming = toWire frames ++ rest.flatMap toWire := by
    rw [hqueued.incoming hport, hhead, List.flatMap_cons]
  have hnext := nextMultipart_toWire (hserving.opened hport) hwire
    hfrom.ne_nil hfrom.length_le
  have hconsume := consume_toWire hwire hfrom.ne_nil hfrom.length_le
  have hpolled : hub.findPort hub.pollPortID = some port := by
    rwa [Hub.findPort, hports]
  have hpolledServing := (hserving.poll pollin ready).of_ok hpoll
  have hreadable : pollEventPresent hub.pollEventFlags pollin = true := by
    rw [hflags]
    decide
  obtain ⟨heap, hreceive⟩ := @receiveMessages_fromPeer _ _ hub.pollPortID
    package (world.withHub hub) port frames hpolled hnext hfrom
    (hfits _ _ _ hport hnext)
  refine ⟨afterReceive hub.pollPortID package port frames (world.withHub hub)
    heap, hub.pollPortID, frames, rest, ⟨?_, ⟨hub, hpoll, rfl, hflags⟩, hhead,
      ?_, rfl⟩, ?_, ?_⟩
  · rw [poll, hpoll, Outcome.andThen_ok, if_pos hreadable, hreceive]
  · refine (hqueued.of_ports hports).setPort ?_ ?_
    · rw [hconsume]
    · intro other hother
      exact hqueued.fromPeer hub.pollPortID other
        (by rw [hhead]; exact List.mem_cons_of_mem frames hother)
  · exact hpolledServing.setPort hpolled (by rw [hconsume]) (by rw [hconsume])
  · simp only [polledMultipart, hpoll, if_pos hreadable, hpolled,
      Option.bind_some, hnext, Option.map_some]

theorem poll_idle {queues : PortID → List (List (FrameData (Addr ι)))}
    {ready : List Hub.Ready} {package : Package} {world : World ι}
    (hserving : world.peer.hub.Serving) (hqueued : Queued queues world.peer.hub)
    (hready : world.peer.hub.ReportsAll ready)
    (hidle : ∀ portID, queues portID = []) :
    ∃ failed, poll ready package world = .throw .runtimeError failed ∧
      failed.peer.hub.Serving ∧ Queued queues failed.peer.hub ∧
      polledMultipart ready world = none := by
  obtain ⟨hub, hpoll, hports⟩ := hserving.poll_idle hready
    fun portID port hport =>
      (hqueued.incoming_eq_nil_iff hport).mpr (hidle portID)
  have hkept := hserving.poll pollin ready
  rw [hpoll, Outcome.holds_throw] at hkept
  refine ⟨world.withHub hub, ?_, hkept, hqueued.of_ports hports, ?_⟩
  · rw [poll, hpoll, Outcome.andThen_throw]
  · simp only [polledMultipart, hpoll]

theorem arrive_queued {queues : PortID → List (List (FrameData (Addr ι)))}
    {portID : PortID} {frames : List (FrameData (Addr ι))} {world : World ι}
    (hserving : world.peer.hub.Serving) (hqueued : Queued queues world.peer.hub)
    (hmeets : PollingMeets (.arrive portID frames) world) :
    (world.arrive portID (toWire frames)).peer.hub.Serving ∧
      Queued (FifoQueues.put portID frames queues)
        (world.arrive portID (toWire frames)).peer.hub := by
  obtain ⟨hfrom, port, hport⟩ := hmeets
  have harrived : (world.arrive portID (toWire frames)).peer.hub =
      world.peer.hub.setPort portID
        { port with incoming := port.incoming ++ toWire frames } := by
    simp only [World.arrive, World.withHub, Hub.arrive, hport]
  rw [harrived]
  refine ⟨hserving.setPort hport rfl rfl, hqueued.setPort ?_ ?_⟩
  · simp only [List.flatMap_append, List.flatMap_cons, List.flatMap_nil,
      List.append_nil, hqueued.incoming hport]
  · intro other hother
    rcases List.mem_append.mp hother with hold | hnew
    · exact hqueued.fromPeer portID other hold
    · exact List.mem_singleton.mp hnew ▸ hfrom

/-- Every call is a move of the queues, and one that keeps the ports served. -/
theorem pollingStep_moves
    {queues : PortID → List (List (FrameData (Addr ι)))}
    {call : PollingCall ι} {world : World ι}
    (hserving : world.peer.hub.Serving) (hqueued : Queued queues world.peer.hub)
    (hmeets : PollingMeets call world) :
    ∃ next current, (pollingStep call world).state? = some next ∧
      next.peer.hub.Serving ∧ Queued current next.peer.hub ∧
      FifoQueues.Moves queues (pollingMoves call world) current := by
  cases call with
  | arrive portID frames =>
      obtain ⟨hkept, hcurrent⟩ := arrive_queued hserving hqueued hmeets
      exact ⟨_, _, rfl, hkept, hcurrent, .put portID frames (.nil _)⟩
  | poll ready package =>
      by_cases hwaiting : ∃ portID, queues portID ≠ []
      · obtain ⟨polled, portID, frames, rest, htakes, hkept, htaken⟩ :=
          poll_takesHead hserving hqueued hmeets hwaiting
        refine ⟨polled, _, ?_, hkept, htakes.left, ?_⟩
        · rw [pollingStep, htakes.returned, Outcome.state?_ok]
        · rw [pollingMoves, htaken]
          exact .take htakes.head (.nil _)
      · push Not at hwaiting
        obtain ⟨failed, hthrow, hkept, hcurrent, hnone⟩ :=
          @poll_idle _ _ _ _ package _ hserving hqueued hmeets.1 hwaiting
        refine ⟨failed, queues, ?_, hkept, hcurrent, ?_⟩
        · rw [pollingStep, hthrow, Outcome.state?_throw]
        · rw [pollingMoves, hnone]
          exact .nil _

/-! ## Runs -/

/-- In every state of the run the queues are what they were at the start plus
what came minus what was received, in this order, and a poll that finds a queue
that is not empty takes its head. -/
structure ConservesQueues (queues : PortID → List (List (FrameData (Addr ι))))
    (calls : List (PollingCall ι)) (world : World ι) : Prop where
  reached : ∀ n, ∃ state current,
    Outcome.run pollingStep (calls.take n) world = some state ∧
    Queued current state.peer.hub ∧
    FifoQueues.Moves queues
      (Outcome.collect pollingStep pollingMoves (calls.take n) world) current ∧
    ∀ ready package, calls[n]? = some (.poll ready package) →
      (∃ portID, current portID ≠ []) →
      TakesOneHead current ready package state
  received : ∀ n portID,
    FifoQueues.takes portID
        (Outcome.collect pollingStep pollingMoves (calls.take n) world) <+:
      queues portID ++ FifoQueues.puts portID
        (Outcome.collect pollingStep pollingMoves (calls.take n) world)

theorem reached_of_meets {queues : PortID → List (List (FrameData (Addr ι)))}
    {calls : List (PollingCall ι)} {world : World ι}
    (hserving : world.peer.hub.Serving) (hqueued : Queued queues world.peer.hub)
    (hmeets : Outcome.RunMeets pollingStep PollingMeets calls world) (n : ℕ) :
    ∃ state current,
      Outcome.run pollingStep (calls.take n) world = some state ∧
      Queued current state.peer.hub ∧
      FifoQueues.Moves queues
        (Outcome.collect pollingStep pollingMoves (calls.take n) world)
        current ∧
      ∀ ready package, calls[n]? = some (.poll ready package) →
        (∃ portID, current portID ≠ []) →
        TakesOneHead current ready package state := by
  induction calls generalizing queues world n with
  | nil =>
      refine ⟨world, queues, by simp, hqueued, ?_, by simp⟩
      rw [List.take_nil]
      exact .nil queues
  | cons call rest ih =>
      cases n with
      | zero =>
          refine ⟨world, queues, rfl, hqueued, .nil queues, ?_⟩
          intro ready package hcall hwaiting
          rw [List.getElem?_cons_zero, Option.some.injEq] at hcall
          obtain ⟨polled, portID, frames, left, htakes, -, -⟩ :=
            poll_takesHead hserving hqueued (hcall ▸ hmeets.1) hwaiting
          exact ⟨polled, portID, frames, left, htakes⟩
      | succ n =>
          obtain ⟨next, middle, hnext, hkept, hmiddle, hmoves⟩ :=
            pollingStep_moves hserving hqueued hmeets.1
          obtain ⟨state, current, hrun, hcurrent, hothers, hpolls⟩ :=
            ih hkept hmiddle (hmeets.2 next hnext) n
          refine ⟨state, current, ?_, hcurrent, ?_, ?_⟩
          · rw [List.take_succ_cons, Outcome.run_cons, hnext]
            exact hrun
          · rw [List.take_succ_cons, Outcome.collect, hnext]
            exact hmoves.append hothers
          · intro ready package hcall
            rw [List.getElem?_cons_succ] at hcall
            exact hpolls ready package hcall

/-- Polling loses, repeats and reorders nothing, however many ports there are
and in whatever order the poller calls their handlers. -/
theorem polling_conserves
    {queues : PortID → List (List (FrameData (Addr ι)))}
    {calls : List (PollingCall ι)} {world : World ι}
    (hadded : world.peer.hub.AddedOnce)
    (hqueued : Queued queues world.peer.hub)
    (hmeets : Outcome.RunMeets pollingStep PollingMeets calls world) :
    ConservesQueues queues calls world := by
  have hreached := reached_of_meets hadded.serving hqueued hmeets
  refine ⟨hreached, ?_⟩
  intro n portID
  obtain ⟨state, current, -, -, hmoves, -⟩ := hreached n
  exact hmoves.takes_prefix portID

end Peer

/-! ## Two ports that are both ready -/

def twoAdditions : List Process.Addition :=
  [⟨1, .inproc, 0, pollin⟩, ⟨2, .inproc, 0, pollin⟩]

def twoPortProcess : Process (Addr Unit) :=
  (Outcome.run Process.step (twoAdditions.map Process.Addition.call)
    (Process.start [49] [])).getD (Process.start [49] [])

def twoPortPeer : World Unit :=
  freshPeer.withHub twoPortProcess.hub

def sentTo (portID : PortID) : List (FrameData (Addr Unit)) :=
  wellFramed ⟨1, 0, ⟨2, 0, 7⟩, ⟨1, portID, 6⟩⟩

/-- The handler of port 1 is called last. -/
def twoArrivals : List (Peer.PollingCall Unit) :=
  [.arrive 1 (sentTo 1), .arrive 2 (sentTo 2),
    .poll [⟨1, pollin⟩, ⟨0, pollin⟩] [0]]

theorem addedOnce_twoPortPeer : twoPortPeer.peer.hub.AddedOnce := by
  have hreturns : (Outcome.run Process.step
      (twoAdditions.map Process.Addition.call)
      (Process.start [49] [] : Process (Addr Unit))).isSome := by
    decide
  obtain ⟨process, hprocess⟩ := Option.isSome_iff_exists.mp hreturns
  have hhub : twoPortPeer.peer.hub = process.hub := by
    simp only [twoPortPeer, World.withHub, twoPortProcess, hprocess,
      Option.getD_some]
  refine ⟨[49], [], twoAdditions, process, by decide, hprocess, ?_, ?_⟩
  · rw [hhub]
  · intro portID
    rw [hhub]

theorem fromPeer_sentTo (portID : PortID) : FromPeer (sentTo portID) :=
  ⟨2, 0, _, rfl, by simp, by simp [sentTo, wellFramed, messageVecSize]⟩

theorem receivable_sentTo (portID : PortID) :
    Peer.Receivable [0] twoPortPeer (sentTo portID) := by
  have hwhole : ∀ frame ∈ sentTo portID, frame.Whole twoPortPeer.heap := by
    intro frame hframe
    simp only [sentTo, wellFramed, List.mem_cons, List.not_mem_nil, or_false]
      at hframe
    rcases hframe with rfl | rfl | rfl | rfl <;> rfl
  refine ⟨hwhole, ?_⟩
  exact (exists_distribute_iff (List.cons_ne_nil _ _)
    (Peer.whole_of_mem_packageFrames hwhole)).mp ⟨_, rfl⟩

theorem polling_conserves_two :
    Peer.ConservesQueues (fun _ => []) twoArrivals twoPortPeer := by
  apply Peer.polling_conserves addedOnce_twoPortPeer
  · constructor
    · intro portID port hport
      have hempty : ∀ port ∈ twoPortPeer.peer.hub.ports.entries.map Sigma.snd,
          port.incoming = [] := by
        decide
      exact hempty port (Hub.mem_ports_iff.mpr ⟨portID, hport⟩)
    · exact fun _ => rfl
    · simp
  · refine ⟨⟨fromPeer_sentTo 1, _, rfl⟩, ?_⟩
    rintro first ⟨⟩
    refine ⟨⟨fromPeer_sentTo 2, _, rfl⟩, ?_⟩
    rintro second ⟨⟩
    refine ⟨⟨?_, ?_⟩, fun _ _ => trivial⟩
    · rw [Hub.ReportsAll]
      decide
    · intro portID port frames hport hnext
      have hnexts : ∀ port ∈ ((twoPortPeer.arrive 1 (toWire (sentTo 1))).arrive 2
          (toWire (sentTo 2))).peer.hub.ports.entries.map Sigma.snd,
          port.nextMultipart = some (sentTo 1) ∨
            port.nextMultipart = some (sentTo 2) := by
        decide
      rcases hnexts port (Hub.mem_ports_iff.mpr ⟨portID, hport⟩) with
        hone | htwo
      · obtain rfl := Option.some.inj (hnext.symm.trans hone)
        exact receivable_sentTo 1
      · obtain rfl := Option.some.inj (hnext.symm.trans htwo)
        exact receivable_sentTo 2

end Dpn
