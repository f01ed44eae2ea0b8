import Dpn.PeerActs
import Dpn.Polling

/-!
# The order of the tables

Ports, interfaces and subscribers are kept in tables that promise no order.  A
poll goes through the ports one by one and may stop in the middle, and so it
leaves other events in the poller where the order is another one.  No user of a
peer can tell: whatever is called, the same is sent, received and thrown.
-/

namespace Dpn

section Hubs

variable {α : Type*}

namespace Hub

/-- The two hubs hold the same ports, in whatever order, and their pollers the
same sockets and handlers, for whatever events. -/
structure Alike (hub other : Hub α) : Prop where
  hubName : other.hubName = hub.hubName
  handlers : Hub.handlers other.poller = Hub.handlers hub.poller
  ports : ∀ portID, other.findPort portID = hub.findPort portID
  pollPortID : other.pollPortID = hub.pollPortID
  pollEventFlags : other.pollEventFlags = hub.pollEventFlags

theorem alike_refl (hub : Hub α) : hub.Alike hub :=
  ⟨rfl, rfl, fun _ => rfl, rfl, rfl⟩

/-- The ports may be in any order. -/
theorem alike_of_perm {hub : Hub α} {ports : Table PortID (Port α)}
    (hperm : ports.entries.Perm hub.ports.entries) :
    hub.Alike { hub with ports := ports } :=
  ⟨rfl, rfl, fun _ => AList.perm_lookup hperm, rfl, rfl⟩

theorem Alike.trans {hub other last : Hub α} (h : hub.Alike other)
    (hlast : other.Alike last) : hub.Alike last where
  hubName := hlast.hubName.trans h.hubName
  handlers := hlast.handlers.trans h.handlers
  ports := fun portID => (hlast.ports portID).trans (h.ports portID)
  pollPortID := hlast.pollPortID.trans h.pollPortID
  pollEventFlags := hlast.pollEventFlags.trans h.pollEventFlags

/-- The tables of ports are permutations of each other. -/
theorem Alike.perm {hub other : Hub α} (h : hub.Alike other) :
    hub.ports.entries.Perm other.ports.entries := by
  apply (List.perm_ext_iff_of_nodup hub.ports.nodupKeys.nodup
    other.ports.nodupKeys.nodup).mpr
  rintro ⟨portID, port⟩
  rw [← AList.mem_lookup_iff, ← AList.mem_lookup_iff]
  have hsame := h.ports portID
  rw [findPort, findPort] at hsame
  rw [hsame]

theorem Alike.setPort {hub other : Hub α} (h : hub.Alike other)
    (portID : PortID) (port : Port α) :
    (hub.setPort portID port).Alike (other.setPort portID port) where
  hubName := h.hubName
  handlers := h.handlers
  ports := by
    intro own
    by_cases heq : own = portID
    · subst own
      rw [findPort_setPort_self, findPort_setPort_self]
    · rw [findPort_setPort_of_ne _ _ heq, findPort_setPort_of_ne _ _ heq]
      exact h.ports own
  pollPortID := h.pollPortID
  pollEventFlags := h.pollEventFlags

theorem Alike.arrive {hub other : Hub α} (h : hub.Alike other)
    (portID : PortID) (frames : List (WireFrame α)) :
    (hub.arrive portID frames).Alike (other.arrive portID frames) := by
  rw [Hub.arrive, Hub.arrive, h.ports portID]
  cases hub.findPort portID with
  | none => exact h
  | some port => exact h.setPort portID _

/-! ## Polling -/

/-- A port that the poller does not know, or a closed one, makes `modify` throw,
wherever the iteration comes to it. -/
theorem modifyAll_throws {flags : EventFlags} {ports : List (Port α)}
    {poller : List PollerEntry}
    (hports : ¬∀ port ∈ ports, port.closed = false ∧
      port.socket ∈ poller.map PollerEntry.socket) :
    ∃ failed, modifyAll flags ports poller = .throw .zmqError failed ∧
      handlers failed = handlers poller := by
  induction ports generalizing poller with
  | nil => simp at hports
  | cons port rest ih =>
      rw [modifyAll]
      cases hmodify : modify poller port flags with
      | none => exact ⟨poller, rfl, rfl⟩
      | some modified =>
          have hsame := handlers_of_modify hmodify
          have hport : port.closed = false ∧
              port.socket ∈ poller.map PollerEntry.socket := by
            by_contra hrefused
            rw [modify, if_neg hrefused] at hmodify
            contradiction
          have hrest : ¬∀ other ∈ rest, other.closed = false ∧
              other.socket ∈ modified.map PollerEntry.socket := by
            rw [sockets_of_handlers hsame]
            exact fun hall => hports (List.forall_mem_cons.mpr ⟨hport, hall⟩)
          obtain ⟨failed, hthrow, hhandlers⟩ := ih hrest
          exact ⟨failed, hthrow, hhandlers.trans hsame⟩

theorem modifyAll_related {flags : EventFlags} {ports others : List (Port α)}
    {poller other : List PollerEntry}
    (hports : ∀ port, port ∈ others ↔ port ∈ ports)
    (hhandlers : handlers other = handlers poller) :
    Outcome.Related (fun next later => handlers later = handlers next)
      (modifyAll flags ports poller) (modifyAll flags others other) := by
  have hsockets := sockets_of_handlers hhandlers
  by_cases hall : ∀ port ∈ ports, port.closed = false ∧
      port.socket ∈ poller.map PollerEntry.socket
  · have hother : ∀ port ∈ others, port.closed = false ∧
        port.socket ∈ other.map PollerEntry.socket := by
      intro port hport
      rw [hsockets]
      exact hall port ((hports port).mp hport)
    obtain ⟨next, hnext⟩ := @exists_modifyAll _ flags _ _ hall
    obtain ⟨later, hlater⟩ := @exists_modifyAll _ flags _ _ hother
    rw [hnext, hlater]
    exact .ok ((handlers_of_modifyAll hlater).trans
      (hhandlers.trans (handlers_of_modifyAll hnext).symm))
  · have hother : ¬∀ port ∈ others, port.closed = false ∧
        port.socket ∈ other.map PollerEntry.socket := by
      rw [hsockets]
      exact fun hothers => hall fun port hport =>
        hothers port ((hports port).mpr hport)
    obtain ⟨next, hnext, hsame⟩ := @modifyAll_throws _ flags _ _ hall
    obtain ⟨later, hlater, hlaterSame⟩ := @modifyAll_throws _ flags _ _ hother
    rw [hnext, hlater]
    exact .throw (hlaterSame.trans (hhandlers.trans hsame.symm))

theorem callbacks_eq_of_handlers {poller other : List PollerEntry}
    (hhandlers : handlers other = handlers poller) (ready : List Ready) :
    callbacks other ready = callbacks poller ready := by
  have hfound : ∀ (entries : List PollerEntry) (event : Ready),
      ((entries.find? fun entry => entry.socket = event.socket).map
        fun entry => (entry.portID, event.flags)) =
      ((handlers entries).find? fun handler => handler.1 = event.socket).map
        fun handler => (handler.2, event.flags) := by
    intro entries event
    rw [handlers, List.find?_map, Option.map_map]
    rfl
  rw [callbacks, callbacks]
  apply List.filterMap_congr
  intro event _
  rw [hfound, hfound, hhandlers]

theorem Alike.foldl_pollCallback {hub other : Hub α} (h : hub.Alike other)
    (called : List (PortID × EventFlags)) :
    (called.foldl (fun hub call => hub.pollCallback call.1 call.2) hub).Alike
      (called.foldl (fun hub call => hub.pollCallback call.1 call.2)
        other) := by
  induction called generalizing hub other with
  | nil => exact h
  | cons call rest ih =>
      exact ih ⟨h.hubName, h.handlers, h.ports, rfl, rfl⟩

theorem Alike.poll {hub other : Hub α} (h : hub.Alike other)
    (flags : EventFlags) (ready : List Ready) :
    Outcome.Related Alike (hub.poll flags ready) (other.poll flags ready) := by
  have hports : ∀ port, port ∈ other.ports.entries.map Sigma.snd ↔
      port ∈ hub.ports.entries.map Sigma.snd :=
    fun port => (h.perm.map Sigma.snd).mem_iff.symm
  have hpoller : ∀ poller later : List PollerEntry,
      Hub.handlers later = Hub.handlers poller →
      ({ hub with poller := poller } : Hub α).Alike
        { other with poller := later } :=
    fun _ _ hsame => ⟨h.hubName, hsame, h.ports, h.pollPortID, h.pollEventFlags⟩
  rw [Hub.poll, Hub.poll]
  apply (modifyAll_related hports h.handlers).andThen hpoller
  intro poller later hsame
  rw [callbacks_eq_of_handlers hsame]
  split
  · exact .throw (hpoller poller later hsame)
  · exact .ok ((hpoller poller later hsame).foldl_pollCallback _)

/-! ## Sending and receiving -/

section Transfer

variable [DecidableEq α]

theorem Alike.send_eq {hub other : Hub α} (h : hub.Alike other)
    (localPortID : PortID) (portSpec : PortSpecification) (messages : List α)
    (heap : Heap α) :
    other.send localPortID portSpec messages heap =
      hub.send localPortID portSpec messages heap := by
  rw [Hub.send, Hub.send, h.ports localPortID]

structure Reception.Alike (reception other : Reception α) : Prop where
  portSpec : other.portSpec = reception.portSpec
  hub : reception.hub.Alike other.hub
  heap : other.heap = reception.heap

theorem Alike.receive {hub other : Hub α} (h : hub.Alike other)
    (localPortID : PortID) (messages : List α) (portSpec : PortSpecification)
    (heap : Heap α) :
    Outcome.Related Reception.Alike
      (Hub.receive localPortID messages ⟨portSpec, hub, heap⟩)
      (Hub.receive localPortID messages ⟨portSpec, other, heap⟩) := by
  rw [Hub.receive, Hub.receive]
  dsimp only
  rw [h.ports localPortID]
  cases hub.findPort localPortID with
  | none => exact .ok ⟨rfl, h, rfl⟩
  | some port =>
      have hsame := Outcome.Related.refl (fun _ => rfl)
        (Port.receive messages .none ⟨[], port, heap⟩)
      apply hsame.andThen
      · rintro received _ rfl
        exact ⟨rfl, h.setPort localPortID received.port, rfl⟩
      · rintro received _ rfl
        apply (Outcome.Related.refl (fun _ => rfl)
          (portSpec.setPortName received.portName)).map
        rintro spec _ rfl
        exact ⟨rfl, h.setPort localPortID received.port, rfl⟩

end Transfer

/-! ## Changing the ports -/

theorem Alike.insertPort {hub other : Hub α} (h : hub.Alike other)
    (portID : PortID) (port : Port α) :
    (hub.insertPort portID port).Alike (other.insertPort portID port) := by
  have hmem : portID ∈ other.ports ↔ portID ∈ hub.ports := by
    have hnone := congrArg (· = none) (h.ports portID)
    simp only [findPort_eq_none] at hnone
    exact not_iff_not.mp (Iff.of_eq hnone)
  rw [Hub.insertPort, Hub.insertPort]
  by_cases hknown : portID ∈ hub.ports
  · rw [if_pos hknown, if_pos (hmem.mpr hknown)]
    exact h
  · rw [if_neg hknown, if_neg (hmem.not.mpr hknown)]
    exact h.setPort portID port

theorem Alike.erasePort {hub other : Hub α} (h : hub.Alike other)
    (portID : PortID) :
    (hub.erasePort portID).Alike (other.erasePort portID) where
  hubName := h.hubName
  handlers := h.handlers
  ports := fun _ => AList.perm_lookup (AList.perm_erase h.perm.symm)
  pollPortID := h.pollPortID
  pollEventFlags := h.pollEventFlags

theorem Alike.closePort {hub other : Hub α} (h : hub.Alike other)
    (portID : PortID) :
    (hub.closePort portID).Alike (other.closePort portID) := by
  rw [Hub.closePort, Hub.closePort, h.ports portID]
  cases hub.findPort portID with
  | none => exact h
  | some port => exact h.setPort portID _

theorem closePort_comm (hub : Hub α) (first second : PortID) :
    ((hub.closePort first).closePort second).Alike
      ((hub.closePort second).closePort first) := by
  have hports : ∀ own,
      ((hub.closePort second).closePort first).findPort own =
        ((hub.closePort first).closePort second).findPort own := by
    intro own
    by_cases hfirst : own = first
    · subst own
      by_cases hsecond : first = second
      · rw [hsecond]
      · rw [findPort_closePort_self, findPort_closePort_of_ne hsecond,
          findPort_closePort_of_ne hsecond, findPort_closePort_self]
    · rw [findPort_closePort_of_ne hfirst]
      by_cases hsecond : own = second
      · subst own
        rw [findPort_closePort_self, findPort_closePort_self,
          findPort_closePort_of_ne hfirst]
      · rw [findPort_closePort_of_ne hsecond, findPort_closePort_of_ne hsecond,
          findPort_closePort_of_ne hfirst]
  have hkeeps : ∀ (current : Hub α) (portID : PortID),
      (current.closePort portID).hubName = current.hubName ∧
      (current.closePort portID).pollPortID = current.pollPortID ∧
      (current.closePort portID).pollEventFlags = current.pollEventFlags := by
    intro current portID
    rw [Hub.closePort]
    cases current.findPort portID <;> exact ⟨rfl, rfl, rfl⟩
  refine ⟨?_, ?_, hports, ?_, ?_⟩
  · rw [(hkeeps _ _).1, (hkeeps _ _).1, (hkeeps _ _).1, (hkeeps _ _).1]
  · simp only [closePort_poller]
  · rw [(hkeeps _ _).2.1, (hkeeps _ _).2.1, (hkeeps _ _).2.1, (hkeeps _ _).2.1]
  · rw [(hkeeps _ _).2.2, (hkeeps _ _).2.2, (hkeeps _ _).2.2, (hkeeps _ _).2.2]

end Hub

namespace Process

/-- The same names are bound and the same sockets open, and the hubs hold the
same ports, in whatever order. -/
structure Alike (process other : Process α) : Prop where
  hub : process.hub.Alike other.hub
  bound : other.bound = process.bound
  nextSocket : other.nextSocket = process.nextSocket

theorem alike_refl (process : Process α) : process.Alike process :=
  ⟨process.hub.alike_refl, rfl, rfl⟩

/-- The process with the ports of its hub in another order. -/
def reorder (process : Process α) (ports : Table PortID (Port α))
    (hperm : ports.entries.Perm process.hub.ports.entries) : Process α where
  hub := { process.hub with ports := ports }
  bound := process.bound
  nextSocket := process.nextSocket
  portSocket := fun hport =>
    process.portSocket ((AList.perm_lookup hperm).symm.trans hport)
  entrySocket := process.entrySocket
  boundSocket := process.boundSocket
  distinct := fun hport hother =>
    process.distinct ((AList.perm_lookup hperm).symm.trans hport)
      ((AList.perm_lookup hperm).symm.trans hother)

theorem alike_reorder (process : Process α) {ports : Table PortID (Port α)}
    (hperm : ports.entries.Perm process.hub.ports.entries) :
    process.Alike (process.reorder ports hperm) :=
  ⟨Hub.alike_of_perm hperm, rfl, rfl⟩

theorem Alike.trans {process other last : Process α} (h : process.Alike other)
    (hlast : other.Alike last) : process.Alike last :=
  ⟨h.hub.trans hlast.hub, hlast.bound.trans h.bound,
    hlast.nextSocket.trans h.nextSocket⟩

theorem Alike.register {process other : Process α} (h : process.Alike other)
    (portID : PortID) (portName : PortName) (transport : Transport)
    (context : ContextID) (flags : EventFlags) :
    (process.register portID portName transport context flags).Alike
      (other.register portID portName transport context flags) := by
  have hport : other.newPort portName transport =
      (process.newPort portName transport : Port α) := by
    rw [newPort, newPort, h.nextSocket]
  have hinsert : (process.hub.insertPort portID
      (process.newPort portName transport)).Alike
        (other.hub.insertPort portID (other.newPort portName transport)) := by
    rw [hport]
    exact h.hub.insertPort portID _
  have hhandlers :
      Hub.handlers (other.hub.poller ++ [⟨other.nextSocket, flags, portID⟩]) =
        Hub.handlers
          (process.hub.poller ++ [⟨process.nextSocket, flags, portID⟩]) := by
    have hsame := h.hub.handlers
    rw [Hub.handlers, Hub.handlers] at hsame
    rw [Hub.handlers, Hub.handlers, List.map_append, List.map_append, hsame,
      h.nextSocket]
  have hbound :
      other.bound ++
          [⟨context, endpointOf portName transport, other.nextSocket⟩] =
        process.bound ++
          [⟨context, endpointOf portName transport, process.nextSocket⟩] := by
    rw [h.bound, h.nextSocket]
  exact ⟨⟨hinsert.hubName, hhandlers, hinsert.ports, hinsert.pollPortID,
    hinsert.pollEventFlags⟩, hbound, congrArg (· + 1) h.nextSocket⟩

theorem Alike.erase {process other : Process α} (h : process.Alike other)
    (portID : PortID) : (process.erase portID).Alike (other.erase portID) :=
  ⟨h.hub.erasePort portID, h.bound, h.nextSocket⟩

theorem Alike.unregister {process other : Process α} (h : process.Alike other)
    (socket : ℕ) : (process.unregister socket).Alike (other.unregister socket) := by
  refine ⟨⟨h.hub.hubName, ?_, h.hub.ports, h.hub.pollPortID,
    h.hub.pollEventFlags⟩, h.bound, h.nextSocket⟩
  have hfilter : ∀ poller : List PollerEntry,
      Hub.handlers (poller.filter (·.socket ≠ socket)) =
        (Hub.handlers poller).filter (·.1 ≠ socket) := by
    intro poller
    rw [Hub.handlers, Hub.handlers, List.filter_map]
    rfl
  rw [Process.unregister, Process.unregister]
  dsimp only
  rw [hfilter, hfilter, h.hub.handlers]

theorem Alike.closePort {process other : Process α} (h : process.Alike other)
    (portID : PortID) :
    (process.closePort portID).Alike (other.closePort portID) := by
  refine ⟨h.hub.closePort portID, ?_, h.nextSocket⟩
  rw [Process.closePort, Process.closePort]
  simp only [h.hub.ports portID, h.bound]

/-- Closing two ports gives both their names back, whichever is closed first. -/
theorem closePort_comm (process : Process α) (first second : PortID) :
    ((process.closePort first).closePort second).Alike
      ((process.closePort second).closePort first) := by
  by_cases heq : first = second
  · rw [heq]
    exact alike_refl _
  · refine ⟨process.hub.closePort_comm first second, ?_, rfl⟩
    have hfirst : (process.hub.closePort second).findPort first =
        process.hub.findPort first := Hub.findPort_closePort_of_ne heq
    have hsecond : (process.hub.closePort first).findPort second =
        process.hub.findPort second := Hub.findPort_closePort_of_ne (Ne.symm heq)
    simp only [Process.closePort, hfirst, hsecond]
    exact List.filter_comm ..

theorem Alike.closeEach {process other : Process α} (h : process.Alike other)
    (portIDs : List PortID) :
    (portIDs.foldl (fun process portID => process.closePort portID)
      process).Alike
      (portIDs.foldl (fun process portID => process.closePort portID)
        other) := by
  induction portIDs generalizing process other with
  | nil => exact h
  | cons portID rest ih => exact ih (h.closePort portID)

/-- The ports may be closed in any order. -/
theorem Alike.closePorts {process other : Process α} (h : process.Alike other)
    {portIDs others : List PortID} (hperm : portIDs.Perm others) :
    (portIDs.foldl (fun process portID => process.closePort portID)
      process).Alike
      (others.foldl (fun process portID => process.closePort portID)
        other) := by
  induction hperm generalizing process other with
  | nil => exact h
  | cons portID _ ih => exact ih (h.closePort portID)
  | swap second first rest =>
      have hboth : ((process.closePort first).closePort second).Alike
          ((other.closePort second).closePort first) :=
        (process.closePort_comm first second).trans
          ((h.closePort second).closePort first)
      exact hboth.closeEach rest
  | trans _ _ ihFirst ihSecond =>
      exact (ihFirst h).trans (ihSecond (alike_refl other))

theorem Alike.close {process other : Process α} (h : process.Alike other) :
    process.close.Alike other.close :=
  h.closePorts (h.hub.perm.map Sigma.fst)

theorem Alike.step {process other : Process α} (h : process.Alike other)
    (call : HubCall) :
    Outcome.Related Alike (step call process) (step call other) := by
  cases call with
  | addPort portID transport context flags =>
      have hconstructs : ∀ portName,
          other.Constructs portName transport context ↔
            process.Constructs portName transport context := by
        intro portName
        rw [Constructs, Constructs, boundNames, boundNames, h.bound]
      rw [Process.step, Process.step, addPort, addPort, h.hub.hubName]
      simp only [hconstructs]
      split
      · exact .ok (h.register _ _ _ _ _)
      · exact .throw h
  | removePort portID =>
      rw [Process.step, Process.step, removePort, removePort, h.hub.ports portID]
      cases process.hub.findPort portID with
      | none => exact .stuck
      | some port =>
          rw [Hub.sockets_of_handlers h.hub.handlers]
          dsimp only
          split
          · exact .ok ((h.erase portID).unregister port.socket)
          · exact .throw (h.erase portID)
  | closePort portID => exact .ok (h.closePort portID)
  | close => exact .ok h.close

/-- Runs of the same hub calls are alike, whatever order the ports are in and are
closed in: every call returns, throws or hangs as the other one does, the same
names stay bound, and the hubs hold the same ports. -/
theorem hubCalls_alike (calls : List HubCall) {process other : Process α}
    (h : process.Alike other) :
    Option.Rel Alike (Outcome.run step calls process)
        (Outcome.run step calls other) ∧
      Outcome.collect step (fun call state => [(step call state).ending]) calls
          process =
        Outcome.collect step (fun call state => [(step call state).ending]) calls
          other := by
  have hstep : ∀ call call', call = call' → ∀ state state' : Process α,
      state.Alike state' →
      Outcome.Related Alike (step call state) (step call' state') := by
    rintro call _ rfl state state' hstate
    exact hstate.step call
  exact Outcome.Related.run hstep (List.forall₂_refl calls) h

end Process

end Hubs

/-! ## Worlds -/

variable {ι : Type*}

namespace World

/-- The two worlds differ at most in the order of the tables of the peer and in
the events that polls have left in its poller. -/
structure Alike (world other : World ι) : Prop where
  heap : other.heap = world.heap
  trace : other.trace = world.trace
  self : other.peer.self = world.peer.self
  hub : world.peer.hub.Alike other.peer.hub
  peerID : other.peer.peerID = world.peer.peerID
  recvMessage : other.peer.recvMessage = world.peer.recvMessage
  recvPackage : other.peer.recvPackage = world.peer.recvPackage
  messageID : other.peer.messageID = world.peer.messageID
  pubMap : ∀ topic,
    other.peer.pubMap.lookup topic = world.peer.pubMap.lookup topic

theorem alike_refl (world : World ι) : world.Alike world :=
  ⟨rfl, rfl, rfl, world.peer.hub.alike_refl, rfl, rfl, rfl, rfl, fun _ => rfl⟩

theorem Alike.withHub {world other : World ι} (h : world.Alike other)
    {hub otherHub : Hub (Addr ι)} (hhub : hub.Alike otherHub) :
    (world.withHub hub).Alike (other.withHub otherHub) :=
  ⟨h.heap, h.trace, h.self, hhub, h.peerID, h.recvMessage, h.recvPackage,
    h.messageID, h.pubMap⟩

theorem Alike.withPackage {world other : World ι} (h : world.Alike other)
    (package : Package) :
    (world.withPackage package).Alike (other.withPackage package) :=
  ⟨h.heap, h.trace, h.self, h.hub, h.peerID, h.recvMessage, rfl, h.messageID,
    h.pubMap⟩

theorem Alike.withHeap {world other : World ι} (h : world.Alike other)
    (heap : Heap (Addr ι)) :
    ({ world with heap := heap } : World ι).Alike { other with heap := heap } :=
  ⟨rfl, h.trace, h.self, h.hub, h.peerID, h.recvMessage, h.recvPackage,
    h.messageID, h.pubMap⟩

theorem Alike.log {world other : World ι} (h : world.Alike other)
    (event : Event ι) : (world.log event).Alike (other.log event) :=
  ⟨h.heap, congrArg (· ++ [event]) h.trace, h.self, h.hub, h.peerID,
    h.recvMessage, h.recvPackage, h.messageID, h.pubMap⟩

theorem Alike.setMessage [DecidableEq ι] {world other : World ι}
    (h : world.Alike other) (address : Addr ι) (message : Message) :
    (world.setMessage address message).Alike
      (other.setMessage address message) := by
  rw [World.setMessage, World.setMessage, h.heap]
  exact h.withHeap _

theorem Alike.arrive {world other : World ι} (h : world.Alike other)
    (portID : PortID) (frames : List (WireFrame (Addr ι))) :
    (world.arrive portID frames).Alike (other.arrive portID frames) :=
  h.withHub (h.hub.arrive portID frames)

theorem Alike.labelContents {world other : World ι} (h : world.Alike other) :
    other.labelContents = world.labelContents := by
  rw [World.labelContents, World.labelContents, labelMessage, labelMessage,
    h.heap, h.self]

theorem Alike.logReceived {world other : World ι} (h : world.Alike other)
    (destPortID : PortID) (package : Package) :
    (world.logReceived destPortID package).Alike
      (other.logReceived destPortID package) := by
  rw [World.logReceived, World.logReceived, h.hub.ports destPortID, h.heap]
  cases (world.peer.hub.findPort destPortID).bind Port.nextMultipart with
  | none => exact h
  | some frames => exact h.log _

theorem Alike.tempPackage {world other : World ι} (h : world.Alike other)
    (package : Package) :
    other.tempPackage package = world.tempPackage package := by
  rw [World.tempPackage, World.tempPackage, h.self]

theorem Alike.view {world other : World ι} (h : world.Alike other)
    (package : Package) : other.view package = world.view package := by
  rw [World.view, World.view, h.heap]

end World

namespace Peer

variable [DecidableEq ι]

/-- The same result, and alike worlds. -/
def ResultAlike {β : Type*} (result other : β × World ι) : Prop :=
  other.1 = result.1 ∧ result.2.Alike other.2

theorem sendMessages_alike {world other : World ι} (h : world.Alike other)
    (label : Label) (package : Package) :
    Outcome.Related ResultAlike (sendMessages label package world)
      (sendMessages label package other) := by
  simp only [sendMessages]
  rw [h.heap, h.self, h.peerID, h.messageID, h.tempPackage, h.trace]
  cases (world.heap (.label world.peer.self)).memcpy 0 _ contentsSizeof with
  | none => exact .stuck
  | some labelMessage =>
      dsimp only
      rw [h.hub.send_eq]
      apply (Outcome.Related.refl (fun _ => rfl) _).map
      rintro result _ rfl
      exact ⟨rfl, rfl, rfl, rfl, h.hub, rfl, h.recvMessage, h.recvPackage, rfl,
        h.pubMap⟩

theorem publishLoop_alike {world other : World ι} (h : world.Alike other)
    (package : Package) (receipts : List Label) :
    Outcome.Related ResultAlike (publishLoop package receipts world)
      (publishLoop package receipts other) := by
  induction receipts generalizing world other with
  | nil => exact .ok ⟨rfl, h⟩
  | cons receipt rest ih =>
      rw [publishLoop, publishLoop, push, push]
      apply (sendMessages_alike h receipt package).andThen
      · rintro result later ⟨hlabel, hworld⟩
        exact ⟨congrArg (· :: rest) hlabel, hworld⟩
      · rintro result later ⟨hlabel, hworld⟩
        apply (ih hworld).map
        rintro final last ⟨hrest, hlast⟩
        exact ⟨congrArg₂ List.cons hlabel hrest, hlast⟩

omit [DecidableEq ι] in
theorem setReceipts_alike {world other : World ι} (h : world.Alike other)
    (topic : InterfaceID) (receipts : List Label) :
    (setReceipts topic receipts world).Alike
      (setReceipts topic receipts other) where
  heap := h.heap
  trace := h.trace
  self := h.self
  hub := h.hub
  peerID := h.peerID
  recvMessage := h.recvMessage
  recvPackage := h.recvPackage
  messageID := h.messageID
  pubMap := by
    intro own
    rw [setReceipts, setReceipts]
    by_cases heq : own = topic
    · subst own
      rw [AList.lookup_insert, AList.lookup_insert]
    · rw [AList.lookup_insert_ne heq, AList.lookup_insert_ne heq]
      exact h.pubMap own

theorem publish_alike {world other : World ι} (h : world.Alike other)
    (label : Label) (package : Package) :
    Outcome.Related World.Alike (publish label package world)
      (publish label package other) := by
  rw [publish, publish, h.pubMap]
  cases world.peer.pubMap.lookup (label.getInterfaceID .src) with
  | none => exact .ok h
  | some receipts =>
      apply (publishLoop_alike h package receipts).map
      rintro final last ⟨hreceipts, hworld⟩
      rw [hreceipts]
      exact setReceipts_alike hworld _ _

omit [DecidableEq ι] in
theorem subscribe_alike {world other : World ι} (h : world.Alike other)
    (label : Label) :
    (subscribe label world).Alike (subscribe label other) := by
  rw [subscribe, subscribe, h.pubMap]
  cases world.peer.pubMap.lookup (label.getInterfaceID .src) with
  | none => exact setReceipts_alike h _ _
  | some receipts => exact setReceipts_alike h _ _

theorem receiveMessages_alike {world other : World ι} (h : world.Alike other)
    (destPortID : PortID) (package : Package) :
    Outcome.Related World.Alike (receiveMessages destPortID package world)
      (receiveMessages destPortID package other) := by
  rw [receiveMessages, receiveMessages, h.hub.ports, h.tempPackage, h.heap]
  cases world.peer.hub.findPort destPortID with
  | none => exact .stuck
  | some port =>
      have hafter : ∀ received later : Hub.Reception (Addr ι),
          received.Alike later →
          ({ (world.logReceived destPortID package).withHub received.hub with
              heap := received.heap } : World ι).Alike
            { (other.logReceived destPortID package).withHub later.hub with
              heap := later.heap } := by
        intro received later hsame
        rw [hsame.heap]
        exact ((h.logReceived destPortID package).withHub hsame.hub).withHeap _
      apply (h.hub.receive destPortID (world.tempPackage package) ⟨[], 0⟩
        world.heap).andThen hafter
      intro received later hsame
      dsimp only
      rw [(hafter received later hsame).labelContents, hsame.portSpec]
      dsimp only
      generalize checkSource _ received.portSpec = checked
      cases checked with
      | ok warning => exact .ok (hafter received later hsame)
      | error error => exact .throw (hafter received later hsame)

theorem poll_alike {world other : World ι} (h : world.Alike other)
    (ready : List Hub.Ready) (package : Package) :
    Outcome.Related World.Alike (poll ready package world)
      (poll ready package other) := by
  rw [poll, poll]
  apply (h.hub.poll pollin ready).andThen
  · exact fun hub later hhub => h.withHub hhub
  · intro hub later hhub
    rw [hhub.pollEventFlags, hhub.pollPortID]
    split
    · exact receiveMessages_alike (h.withHub hhub) _ _
    · exact .throw (h.withHub hhub)

theorem getPendingPackage_alike {world other : World ι} (h : world.Alike other)
    (ready : List Hub.Ready) (package : Package) (label : Label) :
    Outcome.Related ResultAlike (getPendingPackage ready package label world)
      (getPendingPackage ready package label other) := by
  rw [getPendingPackage, getPendingPackage]
  apply (poll_alike h ready package).andThen
  · exact fun polled later hpolled => ⟨rfl, hpolled⟩
  · intro polled later hpolled
    rw [hpolled.labelContents]
    exact .ok ⟨rfl, hpolled⟩

omit [DecidableEq ι] in
theorem Round.arrive_alike {world other : World ι} (h : world.Alike other)
    (round : Round ι) : (round.arrive world).Alike (round.arrive other) := by
  rw [Round.arrive, Round.arrive]
  induction round.arrivals generalizing world other with
  | nil => exact h
  | cons arrival rest ih => exact ih (h.arrive arrival.1 arrival.2)

structure Requested.Alike (requested other : Requested ι) : Prop where
  world : requested.world.Alike other.world
  polls : other.polls = requested.polls
  ended : other.ended = requested.ended

theorem requestLoop_alike {world other : World ι} (h : world.Alike other)
    (package : Package) (timeout startTime : ℤ) (rounds : List (Round ι))
    (currTimeout elapsedTimeout : ℤ) :
    Outcome.Related Requested.Alike
      (requestLoop package timeout startTime rounds currTimeout elapsedTimeout
        world)
      (requestLoop package timeout startTime rounds currTimeout elapsedTimeout
        other) := by
  induction rounds generalizing world other currTimeout elapsedTimeout with
  | nil =>
      rw [requestLoop, requestLoop]
      split
      · exact .ok ⟨h, rfl, rfl⟩
      · exact .stuck
  | cons round rounds ih =>
      rw [requestLoop, requestLoop]
      split
      · exact .ok ⟨h, rfl, rfl⟩
      · have hpoll := poll_alike (Round.arrive_alike h round) round.ready package
        cases hworld : poll round.ready package (round.arrive world) <;>
          cases hother : poll round.ready package (round.arrive other) <;>
          rw [hworld, hother] at hpoll <;> cases hpoll
        · rename_i polled later hpolled
          dsimp only
          rw [hpolled.labelContents, hpolled.messageID]
          split
          · exact .ok ⟨hpolled, rfl, rfl⟩
          · apply (ih hpolled _ _).map
            intro requested last hlast
            exact ⟨hlast.world, congrArg (currTimeout :: ·) hlast.polls, hlast.ended⟩
        · exact .ok ⟨‹_›, rfl, rfl⟩
        · exact .stuck

theorem request_alike {world other : World ι} (h : world.Alike other)
    (label : Label) (sendPackage recvPackage : Package)
    (timeout startTime : ℤ) (rounds : List (Round ι)) :
    Outcome.Related ResultAlike
      (request label sendPackage recvPackage timeout startTime rounds world)
      (request label sendPackage recvPackage timeout startTime rounds
        other) := by
  rw [request, request, push, push]
  apply (sendMessages_alike h label sendPackage).andThen
  · exact fun _ _ hsent => hsent
  · rintro sent later ⟨hlabel, hworld⟩
    rw [requestImpl, requestImpl]
    apply (requestLoop_alike hworld recvPackage timeout startTime rounds timeout
      timeout).map
    exact fun requested last hlast => ⟨hlabel, hlast.world⟩

/-! ## Calls -/

/-- The same call; whoever manages the ports may do so in another order. -/
inductive Call.Alike : Call ι → Call ι → Prop
  | same (call : Call ι) : Call.Alike call call
  | managePorts {hub other : Hub (Addr ι)} (h : hub.Alike other) :
      Call.Alike (.managePorts hub) (.managePorts other)

structure Script.Alike {ρ : Type*} (script other : Script ι ρ) : Prop where
  calls : List.Forall₂ Call.Alike script.calls other.calls
  label : other.label = script.label
  result : other.result = script.result

/-- Two handlers that do the same in alike worlds.  A handler is alike itself if
it cannot see the order of the tables. -/
def HandlersAlike {ρ : Type*} (handler other : Label → World ι → Script ι ρ) :
    Prop :=
  ∀ label world later, world.Alike later →
    (handler label world).Alike (other label later)

inductive Interface.Alike : Interface ι → Interface ι → Prop
  | pull {handler other : Label → World ι → Script ι Unit}
      (h : HandlersAlike handler other) :
      Interface.Alike (.pull handler) (.pull other)
  | reply {handler other : Label → World ι → Script ι ReplyStatus}
      (h : HandlersAlike handler other) :
      Interface.Alike (.reply handler) (.reply other)
  | subscription
      {handler other : Label → World ι → Script ι SubscriptionStatus}
      (h : HandlersAlike handler other) :
      Interface.Alike (.subscription handler) (.subscription other)

omit [DecidableEq ι] in
theorem script_alike {ρ : Type*}
    {call call' : Call ι → World ι → Outcome Exn (World ι)}
    {script other : Script ι ρ}
    {next next' : ρ → World ι → Outcome Exn (World ι)} {world later : World ι}
    (hcall : ∀ single single', Call.Alike single single' →
      ∀ state state', World.Alike state state' →
        Outcome.Related World.Alike (call single state) (call' single' state'))
    (hscript : script.Alike other)
    (hnext : ∀ result state state', World.Alike state state' →
      Outcome.Related World.Alike (next result state) (next' result state'))
    (h : world.Alike later) :
    Outcome.Related World.Alike (script.run call next world)
      (other.run call' next' later) := by
  rw [Script.run, Script.run]
  apply (Outcome.Related.survive hcall hscript.calls h).andThen
  · exact fun _ _ hstate => hstate
  · intro state state' hstate
    rw [hscript.result]
    cases script.result with
    | ok result => exact hnext result state state' hstate
    | error error => exact .throw hstate

theorem handleIncomingMessage_alike
    {call call' : Call ι → World ι → Outcome Exn (World ι)}
    {interface other : Interface ι} {label : Label} {world later : World ι}
    (hcall : ∀ single single', Call.Alike single single' →
      ∀ state state', World.Alike state state' →
        Outcome.Related World.Alike (call single state) (call' single' state'))
    (hinterface : interface.Alike other) (h : world.Alike later) :
    Outcome.Related World.Alike
      (handleIncomingMessage call interface label world)
      (handleIncomingMessage call' other label later) := by
  cases hinterface with
  | pull hhandlers =>
      apply script_alike hcall (hhandlers label world later h) ?_ h
      exact fun _ state state' hstate => .ok hstate
  | reply hhandlers =>
      have hscript := hhandlers label world later h
      apply script_alike hcall hscript ?_ h
      intro status state state' hstate
      cases status with
      | pass returnPackage =>
          dsimp only
          rw [hscript.label]
          exact (sendMessages_alike hstate _ _).map fun _ _ hsent => hsent.2
      | fail => exact .ok hstate
  | subscription hhandlers =>
      have hscript := hhandlers label world later h
      apply script_alike hcall hscript ?_ h
      intro status state state' hstate
      cases status with
      | pass =>
          dsimp only
          rw [hscript.label]
          exact .ok (subscribe_alike hstate _)
      | fail => exact .ok hstate

/-- The tables have the same interfaces under the same IDs, up to what their
handlers do with the order of tables. -/
def TablesAlike (interfaces others : Table InterfaceID (Interface ι)) : Prop :=
  ∀ interfaceID, Option.Rel Interface.Alike (interfaces.lookup interfaceID)
    (others.lookup interfaceID)

theorem serviceInterfaces_alike
    {interfaces others : Table InterfaceID (Interface ι)}
    {call call' : Call ι → World ι → Outcome Exn (World ι)}
    (hinterfaces : TablesAlike interfaces others)
    (hcall : ∀ single single', Call.Alike single single' →
      ∀ state state', World.Alike state state' →
        Outcome.Related World.Alike (call single state) (call' single' state'))
    (ready : List Hub.Ready) {world other : World ι} (h : world.Alike other) :
    Outcome.Related World.Alike (serviceInterfaces interfaces call ready world)
      (serviceInterfaces others call' ready other) := by
  simp only [serviceInterfaces]
  rw [h.recvPackage]
  have hpending := getPendingPackage_alike h ready world.peer.recvPackage
    Label.new
  cases hworld : getPendingPackage ready world.peer.recvPackage Label.new
      world <;>
    cases hother : getPendingPackage ready world.peer.recvPackage Label.new
      other <;>
    rw [hworld, hother] at hpending <;> cases hpending
  · rename_i result later hresult
    obtain ⟨_, polled⟩ := result
    obtain ⟨label, last⟩ := later
    obtain ⟨rfl, hpolled⟩ := hresult
    dsimp only at hpolled ⊢
    have hinterface := hinterfaces (label.getInterfaceID .dest)
    cases hfound : interfaces.lookup (label.getInterfaceID .dest) <;>
      cases hlater : others.lookup (label.getInterfaceID .dest) <;>
      rw [hfound, hlater] at hinterface <;> cases hinterface
    · exact .ok hpolled
    · dsimp only
      rw [hpolled.recvPackage, hpolled.view]
      exact handleIncomingMessage_alike hcall ‹_› (hpolled.log _)
  · rename_i result later hresult
    exact .ok hresult.2
  · exact .stuck

theorem perform_alike
    {service service' : List Hub.Ready → World ι → Outcome Exn (World ι)}
    (hservice : ∀ ready world other, World.Alike world other →
      Outcome.Related World.Alike (service ready world) (service' ready other))
    {single single' : Call ι} (hcall : single.Alike single')
    {world other : World ι} (h : world.Alike other) :
    Outcome.Related World.Alike (perform service single world)
      (perform service' single' other) := by
  cases hcall with
  | managePorts hhub => exact .ok (h.withHub hhub)
  | same =>
      cases single with
      | resize message size offset =>
          rw [perform, perform, h.heap]
          exact .ok (h.setMessage _ _)
      | reset message =>
          rw [perform, perform, h.heap]
          exact .ok (h.setMessage _ _)
      | write message position source =>
          rw [perform, perform, h.heap]
          cases (world.heap (.message message)).write position source with
          | none => exact .stuck
          | some written => exact .ok (h.setMessage _ _)
      | push label package =>
          exact (sendMessages_alike h label package).map fun _ _ hsent => hsent.2
      | publish label package => exact publish_alike h label package
      | request label sendPackage recvPackage timeout startTime rounds =>
          exact (request_alike h label sendPackage recvPackage timeout startTime
            rounds).map fun _ _ hresult => hresult.2
      | getPendingPackage ready package label =>
          exact (getPendingPackage_alike h ready package label).map
            fun _ _ hresult => hresult.2
      | serviceInterfaces ready => exact hservice ready world other h
      | changePackage package => exact .ok (h.withPackage package)
      | arrive portID frames => exact .ok (h.arrive portID frames)
      | managePorts hub => exact .ok (h.withHub hub.alike_refl)
      | remote peer labelMessage =>
          rw [perform, perform, h.self]
          split
          · exact .ok h
          · exact .ok (h.setMessage _ _)

/-- A call ends alike in alike worlds, however deep its handlers are nested. -/
theorem call_alike {interfaces others : Table InterfaceID (Interface ι)}
    (hinterfaces : TablesAlike interfaces others) (depth : ℕ)
    {single single' : Call ι} (hcall : single.Alike single')
    {world other : World ι} (h : world.Alike other) :
    Outcome.Related World.Alike (call interfaces depth single world)
      (call others depth single' other) := by
  induction depth generalizing single single' world other with
  | zero => exact perform_alike (fun _ _ _ _ => .stuck) hcall h
  | succ depth ih =>
      apply perform_alike ?_ hcall h
      intro ready state state' hstate
      apply serviceInterfaces_alike hinterfaces ?_ ready hstate
      exact fun _ _ hsingle _ _ hworld => ih hsingle hworld

/-- Runs of the same calls from alike worlds are alike, whatever order the
tables of ports, interfaces and subscribers are in and whoever calls back: the
same is sent, received and called, every message ends up the same, and every
call returns, throws or hangs as the other one does. -/
theorem calls_alike {interfaces others : Table InterfaceID (Interface ι)}
    (hinterfaces : TablesAlike interfaces others) {depth : ℕ}
    {calls laterCalls : List (Call ι)} {world other : World ι}
    (hcalls : List.Forall₂ Call.Alike calls laterCalls)
    (h : world.Alike other) :
    Option.Rel World.Alike (Outcome.run (call interfaces depth) calls world)
        (Outcome.run (call others depth) laterCalls other) ∧
      Outcome.collect (call interfaces depth)
          (fun single state => [(call interfaces depth single state).ending])
          calls world =
        Outcome.collect (call others depth)
          (fun single state => [(call others depth single state).ending])
          laterCalls other :=
  Outcome.Related.run
    (fun _ _ hcall _ _ hstate => call_alike hinterfaces depth hcall hstate)
    hcalls h

end Peer

/-! ## Ports in reverse -/

def reversed {κ β : Type*} (table : Table κ β) : Table κ β :=
  ⟨table.entries.reverse,
    (List.perm_nodupKeys (List.reverse_perm _)).mpr table.nodupKeys⟩

theorem hubCalls_alike_reversed :
    let later := twoPortProcess.reorder (reversed twoPortProcess.hub.ports)
      (List.reverse_perm _)
    Option.Rel Process.Alike
        (Outcome.run Process.step [.close, .removePort 1] twoPortProcess)
        (Outcome.run Process.step [.close, .removePort 1] later) ∧
      Outcome.collect Process.step
          (fun call state => [(Process.step call state).ending])
          [.close, .removePort 1] twoPortProcess =
        Outcome.collect Process.step
          (fun call state => [(Process.step call state).ending])
          [.close, .removePort 1] later :=
  Process.hubCalls_alike _ (twoPortProcess.alike_reorder (List.reverse_perm _))

theorem tablesAlike_echoAt : Peer.TablesAlike (echoAt 6) (echoAt 6) := by
  have hecho : echo.Alike echo :=
    .reply fun _ _ _ _ => ⟨.cons (.same _) .nil, rfl, rfl⟩
  intro interfaceID
  rw [echoAt]
  by_cases heq : interfaceID = 6
  · rw [heq, AList.lookup_insert]
    exact .some hecho
  · rw [AList.lookup_insert_ne heq]
    exact .none

theorem calls_alike_reversed :
    let later := freshPeer.withHub (twoPortProcess.reorder
      (reversed twoPortProcess.hub.ports) (List.reverse_perm _)).hub
    let calls : List (Peer.Call Unit) :=
      [.arrive 2 (toWire (sentTo 2)), .serviceInterfaces [⟨1, pollin⟩]]
    Option.Rel World.Alike
        (Outcome.run (Peer.call (echoAt 6) 1) calls twoPortPeer)
        (Outcome.run (Peer.call (echoAt 6) 1) calls later) ∧
      Outcome.collect (Peer.call (echoAt 6) 1)
          (fun call state => [(Peer.call (echoAt 6) 1 call state).ending])
          calls twoPortPeer =
        Outcome.collect (Peer.call (echoAt 6) 1)
          (fun call state => [(Peer.call (echoAt 6) 1 call state).ending])
          calls later :=
  Peer.calls_alike tablesAlike_echoAt
    (List.forall₂_same.mpr fun call _ => .same call)
    (freshPeer.alike_refl.withHub
      (twoPortProcess.alike_reorder (List.reverse_perm _)).hub)

end Dpn
