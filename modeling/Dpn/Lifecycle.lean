import Dpn.Registry

/-!
# Closing and removing ports

Neither operation takes back all that adding a port has done.  A closed port
stays in both registries, and `Hub::Poll` modifies every socket in the table
before it waits.  A removed port leaves both registries but is never deleted,
so its socket stays open and its name stays bound.
-/

namespace Dpn

variable {α : Type*}

/-! ## Polling a hub with closed ports -/

namespace Hub

def closePorts (portIDs : List PortID) (hub : Hub α) : Hub α :=
  portIDs.foldl (fun hub portID => hub.closePort portID) hub

/-- There is an open port with a message to be received. -/
def Pending (hub : Hub α) : Prop :=
  ∃ portID port, hub.findPort portID = some port ∧ port.closed = false ∧
    port.incoming ≠ []

/-- If there is a message on an open port, the poll returns and reports an open
port with a message. -/
def ServesOpen (flags : EventFlags) (ready : List Ready) (hub : Hub α) : Prop :=
  hub.Pending → ∃ next port, hub.poll flags ready = .ok next ∧
    next.findPort next.pollPortID = some port ∧ port.closed = false ∧
    port.incoming ≠ []

theorem modifyAll_of_closed {flags : EventFlags} {ports : List (Port α)}
    {port : Port α} (hport : port ∈ ports) (hclosed : port.closed = true)
    (poller : List PollerEntry) :
    ∃ failed, modifyAll flags ports poller = .throw .zmqError failed := by
  induction ports generalizing poller with
  | nil => contradiction
  | cons first rest ih =>
      rw [modifyAll]
      cases hmodify : modify poller first flags with
      | none => exact ⟨poller, rfl⟩
      | some next =>
          rcases List.mem_cons.mp hport with rfl | hrest
          · rw [modify, if_neg (by simp [hclosed])] at hmodify
            contradiction
          · exact ih hrest next

/-- One closed port in the table is enough for a poll to throw, wherever the
iteration comes to it. -/
theorem poll_of_closed {hub : Hub α} {portID : PortID} {port : Port α}
    (hport : hub.findPort portID = some port) (hclosed : port.closed = true)
    (flags : EventFlags) (ready : List Ready) :
    ∃ failed, hub.poll flags ready = .throw .zmqError failed := by
  have hmem : port ∈ hub.ports.entries.map Sigma.snd :=
    List.mem_map.mpr ⟨⟨portID, port⟩, AList.mem_lookup_iff.mp hport, rfl⟩
  obtain ⟨failed, hthrow⟩ :=
    @modifyAll_of_closed _ flags _ _ hmem hclosed hub.poller
  exact ⟨{ hub with poller := failed }, by rw [poll, hthrow]; rfl⟩

theorem findPort_closePorts {portIDs : List PortID} {hub : Hub α}
    {portID : PortID} {port : Port α}
    (hport : hub.findPort portID = some port)
    (hclosed : portID ∈ portIDs ∨ port.closed = true) :
    ∃ after, (hub.closePorts portIDs).findPort portID = some after ∧
      after.closed = true := by
  induction portIDs generalizing hub port with
  | nil => exact ⟨port, hport, hclosed.resolve_left List.not_mem_nil⟩
  | cons first rest ih =>
      by_cases heq : portID = first
      · subst first
        have hafter : (hub.closePort portID).findPort portID =
            some port.close := by
          rw [findPort_closePort_self, hport, Option.map_some]
        exact ih hafter (Or.inr rfl)
      · have hafter : (hub.closePort first).findPort portID = some port :=
          (findPort_closePort_of_ne heq).trans hport
        refine ih hafter (hclosed.imp_left fun hmem => ?_)
        exact (List.mem_cons.mp hmem).resolve_left heq

/-- Once any known port was closed, every poll throws, so the open ports are
served if and only if none of them has a message. -/
theorem servesOpen_closePorts_iff {portIDs : List PortID} {hub : Hub α}
    {portID : PortID} {port : Port α} (hclosed : portID ∈ portIDs)
    (hport : hub.findPort portID = some port) (flags : EventFlags)
    (ready : List Ready) :
    (∃ failed, (hub.closePorts portIDs).poll flags ready =
        .throw .zmqError failed) ∧
      ((hub.closePorts portIDs).ServesOpen flags ready ↔
        ¬(hub.closePorts portIDs).Pending) := by
  obtain ⟨after, hafter, hstill⟩ := findPort_closePorts hport (Or.inl hclosed)
  obtain ⟨failed, hthrow⟩ := poll_of_closed hafter hstill flags ready
  refine ⟨⟨failed, hthrow⟩, ?_⟩
  constructor
  · intro hserves hpending
    obtain ⟨next, -, hnext, -⟩ := hserves hpending
    rw [hthrow] at hnext
    contradiction
  · exact fun hnone hpending => absurd hpending hnone

end Hub

/-- The hub `1` with the ports 1 and 2 and what is queued on the second one. -/
def twoPortHub {α : Type*} (incoming : List (WireFrame α)) : Hub α where
  hubName := [49]
  poller := [⟨0, pollin, 1⟩, ⟨1, pollin, 2⟩]
  ports := ((∅ : Table PortID (Port α)).insert 1
    { portName := [49, 45, 49]
      transport := .inproc
      socket := 0
      closed := false
      routes := []
      incoming := [] }).insert 2
    { portName := [49, 45, 50]
      transport := .inproc
      socket := 1
      closed := false
      routes := []
      incoming := incoming }
  pollPortID := 0
  pollEventFlags := 0

theorem poll_of_closed_idle :
    (∃ failed, ((twoPortHub [] : Hub ℕ).closePorts [1]).poll pollin [] =
        .throw .zmqError failed) ∧
      (((twoPortHub [] : Hub ℕ).closePorts [1]).ServesOpen pollin [] ↔
        ¬((twoPortHub [] : Hub ℕ).closePorts [1]).Pending) :=
  Hub.servesOpen_closePorts_iff (List.mem_singleton_self _) rfl pollin []

/-- Port 2 has a message and is ready, and the poll throws on port 1. -/
theorem closed_port_stops_poll :
    ¬((twoPortHub [⟨.owned [7], false⟩] : Hub ℕ).closePorts [1]).ServesOpen
      pollin [⟨1, pollin⟩] := by
  intro hserves
  have hpending : ((twoPortHub [⟨.owned [7], false⟩] : Hub ℕ).closePorts
      [1]).Pending :=
    ⟨2, _, rfl, rfl, List.cons_ne_nil _ _⟩
  have hthrow : (((twoPortHub [⟨.owned [7], false⟩] : Hub ℕ).closePorts
      [1]).poll pollin [⟨1, pollin⟩]).map (fun _ => ()) =
        .throw .zmqError () := by
    decide
  obtain ⟨next, -, hnext, -⟩ := hserves hpending
  rw [hnext, Outcome.map_ok] at hthrow
  contradiction

/-! ## Adding and removing a port -/

namespace Process

/-- After the two calls the hub has the ports and poller entries it had before,
and the context has the bound names it had. -/
def RemoveUndoesAdd (portID : PortID) (transport : Transport)
    (context : ContextID) (flags : EventFlags) (process : Process α) : Prop :=
  ∃ added removed,
    process.addPort portID transport context flags = .ok added ∧
    added.removePort portID = .ok removed ∧
    (∀ other, removed.hub.findPort other = process.hub.findPort other) ∧
    removed.hub.poller = process.hub.poller ∧
    ∀ endpoint, endpoint ∈ removed.boundNames context ↔
      endpoint ∈ process.boundNames context

/-- Adding and removing the port a number of times. -/
def addRemove (portID : PortID) (transport : Transport) (context : ContextID)
    (flags : EventFlags) : ℕ → Process α → Outcome Exn (Process α)
  | 0, process => .ok process
  | count + 1, process =>
      (process.addPort portID transport context flags).andThen id fun added =>
        (added.removePort portID).andThen id
          (addRemove portID transport context flags count)

theorem mem_boundNames {context : ContextID} {endpoint : SocketID}
    {process : Process α} :
    endpoint ∈ process.boundNames context ↔
      ∃ binding ∈ process.bound, binding.context = context ∧
        binding.endpoint = endpoint := by
  simp [boundNames, and_assoc]

/-- What is left of a port that was added and removed: its bound name. -/
structure Leaked (portName : PortName) (transport : Transport)
    (context : ContextID) (process removed : Process α) : Prop where
  hubName : removed.hub.hubName = process.hub.hubName
  ports : ∀ other, removed.hub.findPort other = process.hub.findPort other
  poller : removed.hub.poller = process.hub.poller
  bound : removed.bound = process.bound ++
    [⟨context, endpointOf portName transport, process.nextSocket⟩]

theorem removePort_register {portID : PortID} {portName : PortName}
    {transport : Transport} {context : ContextID} {flags : EventFlags}
    {process : Process α} (hunused : process.hub.findPort portID = none) :
    ∃ removed, (process.register portID portName transport context
        flags).removePort portID = .ok removed ∧
      Leaked portName transport context process removed := by
  set added := process.register portID portName transport context flags
    with hadded
  have hport : added.hub.findPort portID =
      some (process.newPort portName transport) := by
    refine Hub.findPort_insertPort_self.trans ?_
    rw [hunused, Option.getD_none]
  have hregistered : process.nextSocket ∈
      added.hub.poller.map PollerEntry.socket := by
    simp [hadded, register]
  have hremove : added.removePort portID =
      .ok ((added.erase portID).unregister process.nextSocket) := by
    simp only [removePort, hport]
    exact if_pos ⟨rfl, hregistered⟩
  refine ⟨_, hremove, ?_, ?_, ?_, rfl⟩
  · change (process.hub.insertPort portID _).hubName = process.hub.hubName
    unfold Hub.insertPort
    split <;> rfl
  · intro other
    by_cases heq : other = portID
    · subst other
      rw [hunused]
      exact AList.lookup_erase portID added.hub.ports
    · refine (AList.lookup_erase_ne heq).trans ?_
      exact Hub.findPort_insertPort_of_ne heq
  -- The new entry goes, and no older one has its socket.
  · change (process.hub.poller ++ [_]).filter _ = process.hub.poller
    rw [List.filter_append]
    have hold : process.hub.poller.filter
        (·.socket ≠ process.nextSocket) = process.hub.poller := by
      apply List.filter_eq_self.mpr
      intro entry hentry
      exact decide_eq_true (process.entrySocket hentry).ne
    have hnew : ([⟨process.nextSocket, flags, portID⟩] :
        List PollerEntry).filter (·.socket ≠ process.nextSocket) = [] := by
      simp
    rw [hold, hnew, List.append_nil]

/-- The name of the port is taken once it was added, removed or not. -/
theorem addPort_of_leaked {portID : PortID} {transport : Transport}
    {context : ContextID} {flags : EventFlags} {process removed : Process α}
    (h : Leaked (PortSpecification.getPortName ⟨process.hub.hubName, portID⟩)
      transport context process removed) :
    removed.addPort portID transport context flags =
      .throw .zmqError removed := by
  rw [addPort, h.hubName]
  apply if_neg
  rintro ⟨-, -, hfree⟩
  apply hfree
  apply mem_boundNames.mpr
  rw [h.bound]
  exact ⟨_, List.mem_append_right _ (List.mem_singleton_self _), rfl, rfl⟩

/-- Removing a port never undoes adding it: either the constructor of the port
throws, or its name stays bound, and then it cannot be added a second time. -/
theorem removePort_never_undoes {portID : PortID} {process : Process α}
    (hunused : process.hub.findPort portID = none) (transport : Transport)
    (context : ContextID) (flags : EventFlags) :
    ¬RemoveUndoesAdd portID transport context flags process ∧
      ¬∀ count, ∃ final,
        addRemove portID transport context flags count process = .ok final := by
  by_cases hconstructs : process.Constructs (PortSpecification.getPortName
    ⟨process.hub.hubName, portID⟩) transport context
  · have hadd : process.addPort portID transport context flags =
        .ok (process.register portID (PortSpecification.getPortName
          ⟨process.hub.hubName, portID⟩) transport context flags) :=
      if_pos hconstructs
    obtain ⟨removed, hremove, hleaked⟩ := @removePort_register _ portID
      (PortSpecification.getPortName ⟨process.hub.hubName, portID⟩) transport
      context flags process hunused
    constructor
    · rintro ⟨added, other, hadded, hremoved, -, -, hnames⟩
      obtain rfl := Outcome.ok.inj (hadd.symm.trans hadded)
      obtain rfl := Outcome.ok.inj (hremove.symm.trans hremoved)
      apply hconstructs.2.2
      apply (hnames _).mp
      apply mem_boundNames.mpr
      rw [hleaked.bound]
      exact ⟨_, List.mem_append_right _ (List.mem_singleton_self _), rfl, rfl⟩
    · intro hall
      obtain ⟨final, hfinal⟩ := hall 2
      rw [addRemove, hadd, Outcome.andThen_ok, hremove, Outcome.andThen_ok,
        addRemove, addPort_of_leaked hleaked] at hfinal
      contradiction
  · have hadd : process.addPort portID transport context flags =
        .throw .zmqError process :=
      if_neg hconstructs
    constructor
    · rintro ⟨added, removed, hadded, -⟩
      rw [hadd] at hadded
      contradiction
    · intro hall
      obtain ⟨final, hfinal⟩ := hall 1
      rw [addRemove, hadd] at hfinal
      contradiction

end Process

/-! ## A port that is added twice -/

theorem removePort_never_undoes_first :
    ¬Process.RemoveUndoesAdd 1 .inproc 0 pollin
        (Process.start [49] [] : Process ℕ) ∧
      ¬∀ count, ∃ final, Process.addRemove 1 .inproc 0 pollin count
        (Process.start [49] [] : Process ℕ) = .ok final :=
  Process.removePort_never_undoes rfl .inproc 0 pollin

/-- Port 1 of a new hub is added and removed, and adding it again throws, since
`inproc://1-1` is still bound. -/
theorem removed_port_stays_bound :
    ((Process.addRemove 1 .inproc 0 pollin 1
        (Process.start [49] [] : Process ℕ)).map (fun process =>
          process.boundNames 0) =
        .ok [[105, 110, 112, 114, 111, 99, 58, 47, 47, 49, 45, 49]]) ∧
      ¬∀ count, ∃ final, Process.addRemove 1 .inproc 0 pollin count
        (Process.start [49] [] : Process ℕ) = .ok final := by
  refine ⟨by decide, ?_⟩
  intro hall
  obtain ⟨final, hfinal⟩ := hall 2
  have hthrow : (Process.addRemove 1 .inproc 0 pollin 2
      (Process.start [49] [] : Process ℕ)).map (fun _ => ()) =
        .throw .zmqError () := by
    decide
  rw [hfinal, Outcome.map_ok] at hthrow
  contradiction

end Dpn
