import Dpn.Hub

/-!
# The two registries of a hub

The hub keeps its ports in `ports_` and their sockets in `poller_`, and every
operation updates the two one after the other.  Around the hub this file models
what its ports take from the process: sockets, of which no two are the same,
and names that are bound in contexts.
-/

namespace Dpn

variable {α : Type*}

/-- What `Port::Close` does to the socket: its pipes are gone, and ZMQ discards
what was not received. -/
def Port.close (port : Port α) : Port α :=
  { port with closed := true, routes := [], incoming := [] }

/-! ## Ports in the table -/

namespace Hub

/-- `unordered_map::insert`: a port that is there already stays. -/
def insertPort (portID : PortID) (port : Port α) (hub : Hub α) : Hub α :=
  if portID ∈ hub.ports then hub else hub.setPort portID port

def erasePort (portID : PortID) (hub : Hub α) : Hub α :=
  { hub with ports := hub.ports.erase portID }

/-- A closed port stays in both registries. -/
def closePort (portID : PortID) (hub : Hub α) : Hub α :=
  match hub.findPort portID with
  | none => hub
  | some port => hub.setPort portID port.close

theorem findPort_eq_none {hub : Hub α} {portID : PortID} :
    hub.findPort portID = none ↔ portID ∉ hub.ports :=
  AList.lookup_eq_none

theorem findPort_insertPort_of_ne {hub : Hub α} {port : Port α}
    {portID other : PortID} (hne : other ≠ portID) :
    (hub.insertPort portID port).findPort other = hub.findPort other := by
  unfold insertPort
  split
  · rfl
  · exact findPort_setPort_of_ne hub port hne

theorem findPort_insertPort_self {hub : Hub α} {port : Port α}
    {portID : PortID} :
    (hub.insertPort portID port).findPort portID =
      some ((hub.findPort portID).getD port) := by
  unfold insertPort
  split
  · rename_i hmem
    obtain ⟨found, hfound⟩ :=
      Option.isSome_iff_exists.mp (AList.lookup_isSome.mpr hmem)
    have hfind : hub.findPort portID = some found := hfound
    rw [hfind, Option.getD_some]
  · rename_i hnotMem
    rw [findPort_setPort_self, findPort_eq_none.mpr hnotMem, Option.getD_none]

/-- A port in the table after an insert was there before, or is the new one. -/
theorem findPort_insertPort_cases {hub : Hub α} {port found : Port α}
    {portID other : PortID}
    (hfound : (hub.insertPort portID port).findPort other = some found) :
    hub.findPort other = some found ∨
      (other = portID ∧ found = port ∧ hub.findPort portID = none) := by
  by_cases heq : other = portID
  · subst other
    rw [findPort_insertPort_self] at hfound
    cases hport : hub.findPort portID with
    | none =>
        rw [hport, Option.getD_none] at hfound
        exact Or.inr ⟨rfl, (Option.some.inj hfound).symm, rfl⟩
    | some before =>
        rw [hport, Option.getD_some] at hfound
        exact Or.inl hfound
  · rw [findPort_insertPort_of_ne heq] at hfound
    exact Or.inl hfound

/-- A port in the table after an erase was there before, under another ID. -/
theorem findPort_erasePort_eq_some {hub : Hub α} {portID other : PortID}
    {port : Port α} :
    (hub.erasePort portID).findPort other = some port ↔
      other ≠ portID ∧ hub.findPort other = some port := by
  by_cases heq : other = portID
  · subst other
    have hnone : (hub.erasePort portID).findPort portID = none :=
      AList.lookup_erase portID hub.ports
    simp [hnone]
  · have hsame : (hub.erasePort portID).findPort other = hub.findPort other :=
      AList.lookup_erase_ne heq
    rw [hsame]
    exact (and_iff_right heq).symm

theorem findPort_closePort_of_ne {hub : Hub α} {portID other : PortID}
    (hne : other ≠ portID) :
    (hub.closePort portID).findPort other = hub.findPort other := by
  unfold closePort
  split
  · rfl
  · exact findPort_setPort_of_ne hub _ hne

theorem findPort_closePort_self (hub : Hub α) (portID : PortID) :
    (hub.closePort portID).findPort portID =
      (hub.findPort portID).map Port.close := by
  cases hport : hub.findPort portID with
  | none =>
      simp only [closePort, hport, Option.map_none]
  | some port =>
      simp only [closePort, hport, findPort_setPort_self, Option.map_some]

/-- Closing a port changes no socket number. -/
theorem exists_of_findPort_closePort {hub : Hub α} {portID other : PortID}
    {port : Port α} (hport : (hub.closePort portID).findPort other = some port) :
    ∃ before, hub.findPort other = some before ∧
      port.socket = before.socket := by
  by_cases heq : other = portID
  · subst other
    rw [findPort_closePort_self] at hport
    obtain ⟨before, hbefore, rfl⟩ := Option.map_eq_some_iff.mp hport
    exact ⟨before, hbefore, rfl⟩
  · rw [findPort_closePort_of_ne heq] at hport
    exact ⟨port, hport, rfl⟩

@[simp] theorem closePort_poller (hub : Hub α) (portID : PortID) :
    (hub.closePort portID).poller = hub.poller := by
  unfold closePort
  split <;> rfl

end Hub

/-! ## The process around a hub -/

abbrev ContextID := ℕ

/-- A name that is bound in a context, by one of its sockets. -/
structure Binding where
  context : ContextID
  endpoint : SocketID
  socket : ℕ
  deriving DecidableEq, Repr

/-- A hub with the names bound in the contexts, its own and those of others.
Sockets are numbered in the order in which they are created, so a new one is
neither held by a port nor registered. -/
structure Process (α : Type*) where
  hub : Hub α
  bound : List Binding
  nextSocket : ℕ
  portSocket : ∀ {portID port}, hub.findPort portID = some port →
    port.socket < nextSocket
  entrySocket : ∀ {entry}, entry ∈ hub.poller → entry.socket < nextSocket
  boundSocket : ∀ {binding}, binding ∈ bound → binding.socket < nextSocket
  distinct : ∀ {portID other port second}, hub.findPort portID = some port →
    hub.findPort other = some second → port.socket = second.socket →
    portID = other

namespace Process

theorem lt_foldr_max {binding : Binding} {bound : List Binding}
    (hbinding : binding ∈ bound) :
    binding.socket < bound.foldr (fun binding next =>
      max (binding.socket + 1) next) 0 := by
  induction bound with
  | nil => contradiction
  | cons first rest ih =>
      rw [List.foldr_cons]
      rcases List.mem_cons.mp hbinding with rfl | hrest
      · omega
      · have hlt := ih hrest
        omega

/-- A new hub in a process whose other sockets have bound some names. -/
def start (hubName : HubName) (bound : List Binding) : Process α where
  hub := Hub.new hubName
  bound := bound
  nextSocket := bound.foldr (fun binding next =>
    max (binding.socket + 1) next) 0
  portSocket := fun hport => by simp [Hub.new, Hub.findPort] at hport
  entrySocket := fun hentry => by simp [Hub.new] at hentry
  boundSocket := lt_foldr_max
  distinct := fun hport => by simp [Hub.new, Hub.findPort] at hport

def boundNames (context : ContextID) (process : Process α) : List SocketID :=
  (process.bound.filter (·.context = context)).map Binding.endpoint

/-- The constructor of `Port` returns: ZMQ takes a routing ID of 1 to 255
bytes, and a text that is an endpoint nobody has bound in the context. -/
def Constructs (portName : PortName) (transport : Transport)
    (context : ContextID) (process : Process α) : Prop :=
  (portNameToSocketID portName transport ≠ [] ∧
    (portNameToSocketID portName transport).length ≤ 255) ∧
  isEndpoint (endpointOf portName transport) = true ∧
  endpointOf portName transport ∉ process.boundNames context

instance (portName : PortName) (transport : Transport) (context : ContextID)
    (process : Process α) :
    Decidable (process.Constructs portName transport context) :=
  inferInstanceAs (Decidable (_ ∧ _ ∧ _))

/-- The port that the constructor makes. -/
def newPort (portName : PortName) (transport : Transport)
    (process : Process α) : Port α where
  portName := portName
  transport := transport
  socket := process.nextSocket
  closed := false
  routes := []
  incoming := []
  bindings := [portName]

/-- What `AddPort` does with a new port: both registries get it, unless its ID
is taken, which only the table of ports minds. -/
def register (portID : PortID) (portName : PortName) (transport : Transport)
    (context : ContextID) (flags : EventFlags) (process : Process α) :
    Process α where
  hub := { process.hub.insertPort portID
      (process.newPort portName transport) with
    poller := process.hub.poller ++ [⟨process.nextSocket, flags, portID⟩] }
  bound := process.bound ++
    [⟨context, endpointOf portName transport, process.nextSocket⟩]
  nextSocket := process.nextSocket + 1
  portSocket := by
    intro other port hport
    rcases Hub.findPort_insertPort_cases hport with hold | ⟨-, rfl, -⟩
    · exact (process.portSocket hold).trans (Nat.lt_succ_self _)
    · exact Nat.lt_succ_self _
  entrySocket := by
    intro entry hentry
    rcases List.mem_append.mp hentry with hold | hnew
    · exact (process.entrySocket hold).trans (Nat.lt_succ_self _)
    · rw [List.mem_singleton.mp hnew]
      exact Nat.lt_succ_self _
  boundSocket := by
    intro binding hbinding
    rcases List.mem_append.mp hbinding with hold | hnew
    · exact (process.boundSocket hold).trans (Nat.lt_succ_self _)
    · rw [List.mem_singleton.mp hnew]
      exact Nat.lt_succ_self _
  distinct := by
    intro first second port other hport hother hsame
    rcases Hub.findPort_insertPort_cases hport with hold | ⟨rfl, rfl, -⟩
    · rcases Hub.findPort_insertPort_cases hother with hother | ⟨-, rfl, -⟩
      · exact process.distinct hold hother hsame
      · exact absurd hsame (process.portSocket hold).ne
    · rcases Hub.findPort_insertPort_cases hother with hother | ⟨rfl, -, -⟩
      · exact absurd hsame.symm (process.portSocket hother).ne
      · rfl

/-- `ports_.erase`. -/
def erase (portID : PortID) (process : Process α) : Process α where
  hub := process.hub.erasePort portID
  bound := process.bound
  nextSocket := process.nextSocket
  portSocket := fun hport =>
    process.portSocket (Hub.findPort_erasePort_eq_some.mp hport).2
  entrySocket := process.entrySocket
  boundSocket := process.boundSocket
  distinct := fun hport hother hsame =>
    process.distinct (Hub.findPort_erasePort_eq_some.mp hport).2
      (Hub.findPort_erasePort_eq_some.mp hother).2 hsame

/-- `poller_.remove`. -/
def unregister (socket : ℕ) (process : Process α) : Process α where
  hub := { process.hub with
    poller := process.hub.poller.filter (·.socket ≠ socket) }
  bound := process.bound
  nextSocket := process.nextSocket
  portSocket := process.portSocket
  entrySocket := fun hentry =>
    process.entrySocket (List.mem_of_mem_filter hentry)
  boundSocket := process.boundSocket
  distinct := process.distinct

/-! ## Operations of the hub -/

/-- `Hub::AddPort`.  `poller_.add` would throw for a registered socket, which a
new one is not. -/
def addPort (portID : PortID) (transport : Transport) (context : ContextID)
    (flags : EventFlags) (process : Process α) : Outcome Exn (Process α) :=
  let portName :=
    PortSpecification.getPortName ⟨process.hub.hubName, portID⟩
  if process.Constructs portName transport context then
    .ok (process.register portID portName transport context flags)
  else .throw .zmqError process

/-- `Hub::RemovePort`.  What `find` returns is not checked, and the port is out
of the table before the poller refuses a closed socket.  The port itself is
never deleted. -/
def removePort (portID : PortID) (process : Process α) :
    Outcome Exn (Process α) :=
  match process.hub.findPort portID with
  | none => .stuck .undefined
  | some port =>
      if port.closed = false ∧
          port.socket ∈ process.hub.poller.map PollerEntry.socket then
        .ok ((process.erase portID).unregister port.socket)
      else .throw .zmqError (process.erase portID)

/-- `Hub::ClosePort`.  A closed socket gives its names back. -/
def closePort (portID : PortID) (process : Process α) : Process α where
  hub := process.hub.closePort portID
  bound := process.bound.filter fun binding =>
    ∀ port ∈ process.hub.findPort portID, binding.socket ≠ port.socket
  nextSocket := process.nextSocket
  portSocket := by
    intro other port hport
    obtain ⟨before, hbefore, hsocket⟩ := Hub.exists_of_findPort_closePort hport
    exact hsocket ▸ process.portSocket hbefore
  entrySocket := by
    intro entry hentry
    rw [Hub.closePort_poller] at hentry
    exact process.entrySocket hentry
  boundSocket := fun hbinding =>
    process.boundSocket (List.mem_of_mem_filter hbinding)
  distinct := by
    intro first second port other hport hother hsame
    obtain ⟨before, hbefore, hsocket⟩ := Hub.exists_of_findPort_closePort hport
    obtain ⟨old, hold, holdSocket⟩ := Hub.exists_of_findPort_closePort hother
    exact process.distinct hbefore hold
      (hsocket.symm.trans (hsame.trans holdSocket))

/-- `Hub::Close`. -/
def close (process : Process α) : Process α :=
  process.hub.ports.keys.foldl
    (fun process portID => process.closePort portID) process

inductive HubCall where
  | addPort (portID : PortID) (transport : Transport) (context : ContextID)
      (flags : EventFlags)
  | removePort (portID : PortID)
  | closePort (portID : PortID)
  | close
  deriving DecidableEq, Repr

def step : HubCall → Process α → Outcome Exn (Process α)
  | .addPort portID transport context flags, process =>
      process.addPort portID transport context flags
  | .removePort portID, process => process.removePort portID
  | .closePort portID, process => .ok (process.closePort portID)
  | .close, process => .ok process.close

end Process

/-! ## What a poll reports -/

namespace Hub

/-- The sockets and handlers of the poller, which `modify` leaves alone. -/
def handlers (poller : List PollerEntry) : List (ℕ × PortID) :=
  poller.map fun entry => (entry.socket, entry.portID)

theorem mem_handlers_of_mem {poller : List PollerEntry} {entry : PollerEntry}
    (hentry : entry ∈ poller) :
    (entry.socket, entry.portID) ∈ handlers poller :=
  List.mem_map.mpr ⟨entry, hentry, rfl⟩

theorem exists_of_mem_handlers {poller : List PollerEntry} {socket : ℕ}
    {portID : PortID} (hmem : (socket, portID) ∈ handlers poller) :
    ∃ entry ∈ poller, entry.socket = socket ∧ entry.portID = portID := by
  obtain ⟨entry, hentry, heq⟩ := List.mem_map.mp hmem
  exact ⟨entry, hentry, Prod.mk.inj heq⟩

theorem handlers_of_modify {poller next : List PollerEntry} {port : Port α}
    {flags : EventFlags} (hnext : modify poller port flags = some next) :
    handlers next = handlers poller := by
  unfold modify at hnext
  split at hnext
  · obtain rfl := Option.some.inj hnext
    simp only [handlers, List.map_map]
    apply List.map_congr_left
    intro entry _
    simp only [Function.comp_apply]
    split <;> rfl
  · contradiction

theorem handlers_of_modifyAll {flags : EventFlags} {ports : List (Port α)}
    {poller next : List PollerEntry}
    (hnext : modifyAll flags ports poller = .ok next) :
    handlers next = handlers poller := by
  induction ports generalizing poller with
  | nil => rw [← Outcome.ok.inj hnext]
  | cons port rest ih =>
      rw [modifyAll] at hnext
      cases hmodify : modify poller port flags with
      | none => simp [hmodify] at hnext
      | some modified =>
          simp only [hmodify] at hnext
          rw [ih hnext, handlers_of_modify hmodify]

theorem exists_of_mem_callbacks {poller : List PollerEntry}
    {ready : List Ready} {call : PortID × EventFlags}
    (hcall : call ∈ callbacks poller ready) :
    ∃ event ∈ ready, (event.socket, call.1) ∈ handlers poller ∧
      call.2 = event.flags := by
  obtain ⟨event, hevent, hfound⟩ := List.mem_filterMap.mp hcall
  obtain ⟨entry, hentry, rfl⟩ := Option.map_eq_some_iff.mp hfound
  have hsocket : entry.socket = event.socket := by
    simpa using List.find?_some hentry
  refine ⟨event, hevent, List.mem_map.mpr ⟨entry, ?_, ?_⟩, rfl⟩
  · exact List.mem_of_find?_eq_some hentry
  · rw [hsocket]

/-- The last handler that is called leaves its port and its flags. -/
theorem exists_last_callback {called : List (PortID × EventFlags)}
    (hcalled : called ≠ []) (hub : Hub α) :
    ∃ call ∈ called,
      (called.foldl (fun hub call => hub.pollCallback call.1 call.2)
        hub).pollPortID = call.1 ∧
      (called.foldl (fun hub call => hub.pollCallback call.1 call.2)
        hub).pollEventFlags = call.2 := by
  induction called generalizing hub with
  | nil => contradiction
  | cons call rest ih =>
      by_cases hrest : rest = []
      · subst rest
        exact ⟨call, by simp, rfl, rfl⟩
      · obtain ⟨last, hlast, hfields⟩ := ih hrest (hub.pollCallback call.1 call.2)
        exact ⟨last, List.mem_cons_of_mem call hlast, hfields⟩

/-- A poll that returns leaves the ports alone and reports an event of a
registered socket under the ID that its handler has captured. -/
theorem poll_reports {flags : EventFlags} {ready : List Ready}
    {hub next : Hub α} (hpoll : hub.poll flags ready = .ok next) :
    next.ports = hub.ports ∧ ∃ event ∈ ready,
      (event.socket, next.pollPortID) ∈ handlers hub.poller ∧
        next.pollEventFlags = event.flags := by
  refine ⟨((poll_changes flags ready hub).of_ok hpoll).ports, ?_⟩
  unfold poll at hpoll
  obtain ⟨poller, hmodify, hcalls⟩ := Outcome.andThen_eq_ok.mp hpoll
  split at hcalls
  · contradiction
  · rename_i called hne
    have hcalled : callbacks poller ready ≠ [] := hne
    obtain rfl := Outcome.ok.inj hcalls
    obtain ⟨call, hcall, hport, hflags⟩ := exists_last_callback hcalled
      { hub with poller := poller }
    obtain ⟨event, hevent, hhandler, heq⟩ := exists_of_mem_callbacks hcall
    refine ⟨event, hevent, ?_, hflags.trans heq⟩
    rwa [hport, ← handlers_of_modifyAll hmodify]

end Hub

/-! ## In step -/

namespace Hub

/-- The poller has the sockets of the ports in the table and no others, and the
handler of a socket reports the ID under which the table holds its port. -/
structure InStep (hub : Hub α) : Prop where
  held : ∀ entry ∈ hub.poller, ∃ port,
    hub.findPort entry.portID = some port ∧ port.socket = entry.socket
  registered : ∀ {portID port}, hub.findPort portID = some port →
    ∃ entry ∈ hub.poller, entry.socket = port.socket

/-- A poll that returns names a port in the table whose socket was ready. -/
def ReportsReady (hub : Hub α) : Prop :=
  ∀ (flags : EventFlags) (ready : List Ready) (next : Hub α),
    hub.poll flags ready = .ok next →
    ∃ event ∈ ready, ∃ port, next.findPort next.pollPortID = some port ∧
      port.socket = event.socket ∧ next.pollEventFlags = event.flags

theorem InStep.reportsReady {hub : Hub α} (h : hub.InStep) :
    hub.ReportsReady := by
  intro flags ready next hpoll
  obtain ⟨hports, event, hevent, hhandler, hflags⟩ := poll_reports hpoll
  obtain ⟨entry, hentry, hsocket, hportID⟩ := exists_of_mem_handlers hhandler
  obtain ⟨port, hport, hsame⟩ := h.held entry hentry
  refine ⟨event, hevent, port, ?_, hsame.trans hsocket, hflags⟩
  rw [findPort, hports, ← hportID]
  exact hport

theorem inStep_new (hubName : HubName) : (Hub.new hubName : Hub α).InStep where
  held := by simp [Hub.new]
  registered := fun hport => by simp [Hub.new, findPort] at hport

/-- Only the sockets of the ports and the handlers matter. -/
theorem InStep.of_sockets {hub next : Hub α} (h : hub.InStep)
    (hpoller : handlers next.poller = handlers hub.poller)
    (hports : ∀ portID, (next.findPort portID).map Port.socket =
      (hub.findPort portID).map Port.socket) : next.InStep := by
  have hback : ∀ portID port, next.findPort portID = some port →
      ∃ before, hub.findPort portID = some before ∧
        before.socket = port.socket := by
    intro portID port hport
    have hsame := hports portID
    rw [hport, Option.map_some, eq_comm] at hsame
    exact Option.map_eq_some_iff.mp hsame
  have hforth : ∀ portID port, hub.findPort portID = some port →
      ∃ after, next.findPort portID = some after ∧
        after.socket = port.socket := by
    intro portID port hport
    have hsame := hports portID
    rw [hport, Option.map_some] at hsame
    exact Option.map_eq_some_iff.mp hsame
  constructor
  · intro entry hentry
    have hhandler := mem_handlers_of_mem hentry
    rw [hpoller] at hhandler
    obtain ⟨old, hold, hsocket, hportID⟩ := exists_of_mem_handlers hhandler
    obtain ⟨port, hport, hsame⟩ := h.held old hold
    obtain ⟨after, hafter, hafterSame⟩ := hforth _ _ hport
    rw [hportID] at hafter
    exact ⟨after, hafter, hafterSame.trans (hsame.trans hsocket)⟩
  · intro portID port hport
    obtain ⟨before, hbefore, hsame⟩ := hback portID port hport
    obtain ⟨entry, hentry, hsocket⟩ := h.registered hbefore
    have hhandler := mem_handlers_of_mem hentry
    rw [← hpoller] at hhandler
    obtain ⟨new, hnew, hnewSocket, -⟩ := exists_of_mem_handlers hhandler
    exact ⟨new, hnew, hnewSocket.trans (hsocket.trans hsame)⟩

theorem InStep.closePort {hub : Hub α} (h : hub.InStep) (portID : PortID) :
    (hub.closePort portID).InStep := by
  apply h.of_sockets (congrArg handlers (closePort_poller hub portID))
  intro other
  by_cases heq : other = portID
  · subst other
    rw [findPort_closePort_self, Option.map_map]
    rfl
  · rw [findPort_closePort_of_ne heq]

end Hub

namespace Process

/-- What a call has to find for the registries to stay in step: a port ID that
is free, or else a constructor that throws; a known port that is open. -/
def KeepsStep : HubCall → Process α → Prop
  | .addPort portID transport context _, process =>
      process.hub.findPort portID = none ∨
        ¬process.Constructs (PortSpecification.getPortName
          ⟨process.hub.hubName, portID⟩) transport context
  | .removePort portID, process =>
      ∃ port, process.hub.findPort portID = some port ∧ port.closed = false
  | .closePort _, _ => True
  | .close, _ => True

theorem inStep_register_iff {process : Process α} (h : process.hub.InStep)
    (portID : PortID) (portName : PortName) (transport : Transport)
    (context : ContextID) (flags : EventFlags) :
    (process.register portID portName transport context flags).hub.InStep ↔
      process.hub.findPort portID = none := by
  constructor
  -- The old port of that ID would have to own the new socket.
  · intro hnext
    obtain ⟨port, hport, hsocket⟩ := hnext.held
      ⟨process.nextSocket, flags, portID⟩
      (List.mem_append_right _ (List.mem_singleton_self _))
    rcases Hub.findPort_insertPort_cases hport with hold | ⟨-, -, hnone⟩
    · exact absurd hsocket (process.portSocket hold).ne
    · exact hnone
  · intro hnone
    constructor
    · intro entry hentry
      rcases List.mem_append.mp hentry with hold | hnew
      · obtain ⟨port, hport, hsocket⟩ := h.held entry hold
        have hne : entry.portID ≠ portID := by
          intro heq
          rw [heq, hnone] at hport
          contradiction
        exact ⟨port, (Hub.findPort_insertPort_of_ne hne).trans hport, hsocket⟩
      · obtain rfl := List.mem_singleton.mp hnew
        refine ⟨process.newPort portName transport, ?_, rfl⟩
        refine Hub.findPort_insertPort_self.trans ?_
        rw [hnone, Option.getD_none]
    · intro other port hport
      rcases Hub.findPort_insertPort_cases hport with hold | ⟨-, rfl, -⟩
      · obtain ⟨entry, hentry, hsocket⟩ := h.registered hold
        exact ⟨entry, List.mem_append_left _ hentry, hsocket⟩
      · exact ⟨_, List.mem_append_right _ (List.mem_singleton_self _), rfl⟩

theorem inStep_addPort_iff {process : Process α} (h : process.hub.InStep)
    (portID : PortID) (transport : Transport) (context : ContextID)
    (flags : EventFlags) :
    (∃ next, (process.addPort portID transport context flags).state? =
        some next ∧ next.hub.InStep) ↔
      KeepsStep (.addPort portID transport context flags) process := by
  rw [addPort, KeepsStep]
  split
  · rename_i hconstructs
    simp only [Outcome.state?_ok, Option.some.injEq, exists_eq_left',
      inStep_register_iff h, hconstructs, not_true_eq_false, or_false]
  · rename_i hfails
    simp only [Outcome.state?_throw, Option.some.injEq, exists_eq_left',
      h, hfails, not_false_eq_true, or_true]

/-- Without the entry of its socket, the table can do without a port. -/
theorem inStep_unregister {process : Process α} (h : process.hub.InStep)
    {portID : PortID} {port : Port α}
    (hport : process.hub.findPort portID = some port) :
    ((process.erase portID).unregister port.socket).hub.InStep := by
  constructor
  · intro entry hentry
    obtain ⟨hold, hne⟩ := List.mem_filter.mp hentry
    obtain ⟨owner, howner, hsocket⟩ := h.held entry hold
    refine ⟨owner, Hub.findPort_erasePort_eq_some.mpr ⟨?_, howner⟩, hsocket⟩
    intro heq
    rw [heq, hport] at howner
    obtain rfl := Option.some.inj howner
    exact of_decide_eq_true hne hsocket.symm
  · intro other second hsecond
    obtain ⟨hne, hold⟩ := Hub.findPort_erasePort_eq_some.mp hsecond
    obtain ⟨entry, hentry, hsocket⟩ := h.registered hold
    refine ⟨entry, List.mem_filter.mpr ⟨hentry, ?_⟩, hsocket⟩
    apply decide_eq_true
    intro hsame
    exact hne (process.distinct hold hport (hsocket.symm.trans hsame))

/-- An entry of a port that is gone is left over. -/
theorem not_inStep_erase {process : Process α} (h : process.hub.InStep)
    {portID : PortID} {port : Port α}
    (hport : process.hub.findPort portID = some port) :
    ¬(process.erase portID).hub.InStep := by
  intro hnext
  obtain ⟨entry, hentry, hsocket⟩ := h.registered hport
  obtain ⟨owner, howner, hsame⟩ := hnext.held entry hentry
  obtain ⟨hne, hold⟩ := Hub.findPort_erasePort_eq_some.mp howner
  exact hne (process.distinct hold hport (hsame.trans hsocket))

theorem inStep_removePort_iff {process : Process α} (h : process.hub.InStep)
    (portID : PortID) :
    (∃ next, (process.removePort portID).state? = some next ∧
        next.hub.InStep) ↔
      KeepsStep (.removePort portID) process := by
  rw [removePort, KeepsStep]
  cases hport : process.hub.findPort portID with
  | none => simp
  | some port =>
      obtain ⟨entry, hentry, hsocket⟩ := h.registered hport
      have hregistered : port.socket ∈
          process.hub.poller.map PollerEntry.socket :=
        List.mem_map.mpr ⟨entry, hentry, hsocket⟩
      simp only [hregistered, and_true, Option.some.injEq, exists_eq_left']
      split
      · rename_i hopen
        simp only [Outcome.state?_ok, Option.some.injEq, exists_eq_left',
          inStep_unregister h hport, hopen]
      · rename_i hclosed
        refine iff_of_false ?_ hclosed
        rintro ⟨next, hnext, hinStep⟩
        obtain rfl := Option.some.inj hnext
        exact not_inStep_erase h hport hinStep

theorem inStep_close {process : Process α} (h : process.hub.InStep) :
    process.close.hub.InStep := by
  have hfold : ∀ (portIDs : List PortID) (current : Process α),
      current.hub.InStep → (portIDs.foldl
        (fun process portID => process.closePort portID) current).hub.InStep := by
    intro portIDs
    induction portIDs with
    | nil => exact fun current hcurrent => hcurrent
    | cons portID rest ih =>
        exact fun current hcurrent => ih _ (hcurrent.closePort portID)
  exact hfold _ _ h

theorem inStep_step_iff (call : HubCall) (process : Process α)
    (h : process.hub.InStep) :
    (∃ next, (step call process).state? = some next ∧ next.hub.InStep) ↔
      KeepsStep call process := by
  cases call with
  | addPort portID transport context flags =>
      exact inStep_addPort_iff h portID transport context flags
  | removePort portID => exact inStep_removePort_iff h portID
  | closePort portID => simp [step, KeepsStep, closePort, h.closePort portID]
  | close => simp [step, KeepsStep, inStep_close h]

/-- In every state that a run of calls on a new hub reaches, whether they
return or throw, the registries are in step and a poll names a port that was
ready, if and only if every call finds what it has to. -/
theorem registries_inStep_iff (hubName : HubName) (bound : List Binding)
    (calls : List HubCall) :
    (∀ n, ∃ final : Process α, Outcome.run step (calls.take n)
          (start hubName bound) = some final ∧
        final.hub.InStep ∧ final.hub.ReportsReady) ↔
      Outcome.RunMeets step KeepsStep calls
        (start hubName bound : Process α) := by
  have hstart : (start hubName bound : Process α).hub.InStep :=
    Hub.inStep_new hubName
  rw [← Outcome.run_take_iff_meets inStep_step_iff hstart]
  constructor
  · intro hall n
    obtain ⟨final, hrun, hstep, -⟩ := hall n
    exact ⟨final, hrun, hstep⟩
  · intro hall n
    obtain ⟨final, hrun, hstep⟩ := hall n
    exact ⟨final, hrun, hstep, hstep.reportsReady⟩

end Process

/-! ## Calls that part the registries -/

/-- The same port ID on two contexts. -/
def addTwice : List Process.HubCall :=
  [.addPort 1 .inproc 0 pollin, .addPort 1 .inproc 1 pollin]

/-- The second call registers a socket whose handler reports port 1, while the
table keeps the first port under that ID. -/
theorem registries_part :
    ¬∀ n, ∃ final : Process ℕ,
      Outcome.run Process.step (addTwice.take n)
        (Process.start [49] []) = some final ∧
      final.hub.InStep ∧ final.hub.ReportsReady := by
  intro hall
  obtain ⟨final, hrun, hinStep, -⟩ := hall 2
  have hentry : (Outcome.run Process.step (addTwice.take 2)
      (Process.start [49] [] : Process ℕ)).map (fun process =>
        process.hub.poller) = some [⟨0, pollin, 1⟩, ⟨1, pollin, 1⟩] := by
    decide
  have hport : (Outcome.run Process.step (addTwice.take 2)
      (Process.start [49] [] : Process ℕ)).map (fun process =>
        (process.hub.findPort 1).map Port.socket) = some (some 0) := by
    decide
  rw [hrun, Option.map_some, Option.some.injEq] at hentry hport
  obtain ⟨port, hfound, hsocket⟩ := hinStep.held ⟨1, pollin, 1⟩
    (by simp [hentry])
  rw [hfound, Option.map_some, hsocket] at hport
  contradiction

end Dpn
