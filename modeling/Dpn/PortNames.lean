import Dpn.Channels
import Dpn.Lifecycle

/-!
# Who holds the names of ports

The constructor of a port binds the name that its hub gives it, and only
closing the port gives it back.  Whatever calls are made on a hub, every name is
bound once in a context, by the socket of the port it was made for, and a hub
whose ports are managed this way keeps what peers rely on.
-/

namespace Dpn

open TextStream

variable {α : Type*}

@[simp] theorem Hub.insertPort_hubName (portID : PortID) (port : Port α)
    (hub : Hub α) : (hub.insertPort portID port).hubName = hub.hubName := by
  unfold insertPort
  split <;> rfl

@[simp] theorem Hub.closePort_hubName (portID : PortID) (hub : Hub α) :
    (hub.closePort portID).hubName = hub.hubName := by
  unfold closePort
  split <;> rfl

namespace Process

@[simp] theorem hubName_register (portID : PortID) (portName : PortName)
    (transport : Transport) (context : ContextID) (flags : EventFlags)
    (process : Process α) :
    (process.register portID portName transport context flags).hub.hubName =
      process.hub.hubName :=
  Hub.insertPort_hubName _ _ _

@[simp] theorem hubName_closePort (portID : PortID) (process : Process α) :
    (process.closePort portID).hub.hubName = process.hub.hubName :=
  Hub.closePort_hubName _ _

/-- The socket of a port in the table binds the name of the port and no other,
as long as the port is open. -/
def Holds (port : Port α) (process : Process α) : Prop :=
  ∃ context, ∀ binding : Binding,
    (binding ∈ process.bound ∧ binding.socket = port.socket) ↔
      (port.closed = false ∧
        binding = ⟨context, endpointOf port.portName port.transport, port.socket⟩)

/-- Every name is bound once in a context, the ports in the table have the names
of their IDs, and they hold these names. -/
structure OwnsNames (process : Process α) : Prop where
  unique : (process.bound.map fun binding =>
    (binding.context, binding.endpoint)).Nodup
  named : ∀ {portID port}, process.hub.findPort portID = some port →
    port.portName =
      PortSpecification.getPortName ⟨process.hub.hubName, portID⟩
  holds : ∀ {portID port}, process.hub.findPort portID = some port →
    process.Holds port

theorem ownsNames_start {hubName : HubName} {bound : List Binding}
    (hbound : (bound.map fun binding =>
      (binding.context, binding.endpoint)).Nodup) :
    (start hubName bound : Process α).OwnsNames where
  unique := hbound
  named := fun hport => by simp [start, Hub.new, Hub.findPort] at hport
  holds := fun hport => by simp [start, Hub.new, Hub.findPort] at hport

/-! ## One call -/

theorem OwnsNames.register {process : Process α} (h : process.OwnsNames)
    {portID : PortID} {transport : Transport} {context : ContextID}
    (flags : EventFlags)
    (hconstructs : process.Constructs (PortSpecification.getPortName
      ⟨process.hub.hubName, portID⟩) transport context) :
    (process.register portID (PortSpecification.getPortName
      ⟨process.hub.hubName, portID⟩) transport context flags).OwnsNames where
  unique := by
    rw [Process.register, List.map_append, List.nodup_append]
    refine ⟨h.unique, List.nodup_singleton _, ?_⟩
    rintro pair hpair _ hnew rfl
    obtain ⟨binding, hbinding, hsame⟩ := List.mem_map.mp hpair
    rw [List.map_singleton, List.mem_singleton, ← hsame, Prod.mk.injEq] at hnew
    exact hconstructs.2.2 (mem_boundNames.mpr
      ⟨binding, hbinding, hnew.1, hnew.2⟩)
  named := by
    intro other port hport
    rw [hubName_register]
    rcases Hub.findPort_insertPort_cases hport with hold | ⟨rfl, rfl, -⟩
    · exact h.named hold
    · rfl
  holds := by
    intro other port hport
    rcases Hub.findPort_insertPort_cases hport with hold | ⟨rfl, rfl, -⟩
    · obtain ⟨held, hheld⟩ := h.holds hold
      refine ⟨held, fun binding => ?_⟩
      rw [← hheld, Process.register, List.mem_append, List.mem_singleton]
      constructor
      · rintro ⟨hmem | rfl, hsocket⟩
        · exact ⟨hmem, hsocket⟩
        · exact absurd hsocket.symm (process.portSocket hold).ne
      · intro hkept
        exact ⟨Or.inl hkept.1, hkept.2⟩
    · refine ⟨context, fun binding => ?_⟩
      rw [Process.register, List.mem_append, List.mem_singleton]
      constructor
      · rintro ⟨hmem | hnew, hsocket⟩
        · exact absurd hsocket (process.boundSocket hmem).ne
        · exact ⟨rfl, hnew⟩
      · rintro ⟨-, rfl⟩
        exact ⟨Or.inr rfl, rfl⟩

/-- A port that is taken out of the table still holds its name. -/
theorem OwnsNames.erase {process : Process α} (h : process.OwnsNames)
    (portID : PortID) : (process.erase portID).OwnsNames where
  unique := h.unique
  named := fun hport => h.named (Hub.findPort_erasePort_eq_some.mp hport).2
  holds := fun hport => h.holds (Hub.findPort_erasePort_eq_some.mp hport).2

theorem OwnsNames.unregister {process : Process α} (h : process.OwnsNames)
    (socket : ℕ) : (process.unregister socket).OwnsNames where
  unique := h.unique
  named := h.named
  holds := h.holds

/-- A port after one was closed, and the same port before. -/
theorem exists_of_closePort {process : Process α} {portID other : PortID}
    {port : Port α}
    (hport : (process.closePort portID).hub.findPort other = some port) :
    ∃ before, process.hub.findPort other = some before ∧
      port.portName = before.portName ∧ port.transport = before.transport ∧
      port.socket = before.socket ∧
      port.closed = (before.closed || decide (other = portID)) := by
  by_cases heq : other = portID
  · subst other
    rw [Process.closePort, Hub.findPort_closePort_self] at hport
    obtain ⟨before, hbefore, rfl⟩ := Option.map_eq_some_iff.mp hport
    exact ⟨before, hbefore, rfl, rfl, rfl, by simp [Port.close]⟩
  · rw [Process.closePort, Hub.findPort_closePort_of_ne heq] at hport
    exact ⟨port, hport, rfl, rfl, rfl, by simp [heq]⟩

/-- The names of one socket are given back. -/
theorem mem_bound_closePort {process : Process α} {portID other : PortID}
    {before : Port α} (hbefore : process.hub.findPort other = some before)
    {binding : Binding} (hsocket : binding.socket = before.socket) :
    binding ∈ (process.closePort portID).bound ↔
      binding ∈ process.bound ∧ other ≠ portID := by
  rw [Process.closePort, List.mem_filter]
  apply and_congr_right
  intro _
  rw [decide_eq_true_iff]
  constructor
  · rintro hkept rfl
    exact hkept before hbefore hsocket
  · intro hne port hport hsame
    exact hne (process.distinct hbefore hport (hsocket.symm.trans hsame))

theorem OwnsNames.closePort {process : Process α} (h : process.OwnsNames)
    (portID : PortID) : (process.closePort portID).OwnsNames where
  unique := h.unique.sublist (List.filter_sublist.map _)
  named := by
    intro other port hport
    rw [hubName_closePort]
    obtain ⟨before, hbefore, hname, -⟩ := exists_of_closePort hport
    rw [hname]
    exact h.named hbefore
  holds := by
    intro other port hport
    obtain ⟨before, hbefore, hname, htransport, hsocket, hclosed⟩ :=
      exists_of_closePort hport
    obtain ⟨context, hheld⟩ := h.holds hbefore
    refine ⟨context, fun binding => ?_⟩
    rw [hname, htransport, hsocket, hclosed, Bool.or_eq_false_iff,
      decide_eq_false_iff_not]
    constructor
    · rintro ⟨hmem, hown⟩
      obtain ⟨hbound, hne⟩ := (mem_bound_closePort hbefore hown).mp hmem
      obtain ⟨hopen, hbinding⟩ := (hheld binding).mp ⟨hbound, hown⟩
      exact ⟨⟨hopen, hne⟩, hbinding⟩
    · rintro ⟨⟨hopen, hne⟩, hbinding⟩
      obtain ⟨hbound, hown⟩ := (hheld binding).mpr ⟨hopen, hbinding⟩
      exact ⟨(mem_bound_closePort hbefore hown).mpr ⟨hbound, hne⟩, hown⟩

/-- What closing each port keeps is kept by `Hub::Close`. -/
theorem close_keeps {inv : Process α → Prop}
    (hclose : ∀ process portID, inv process → inv (process.closePort portID))
    {process : Process α} (h : inv process) : inv process.close := by
  have hfold : ∀ (portIDs : List PortID) (current : Process α), inv current →
      inv (portIDs.foldl (fun process portID => process.closePort portID)
        current) := by
    intro portIDs
    induction portIDs with
    | nil => exact fun current hcurrent => hcurrent
    | cons portID rest ih =>
        exact fun current hcurrent => ih _ (hclose current portID hcurrent)
  exact hfold _ _ h

/-- No call changes the name of the hub. -/
theorem hubName_step (call : HubCall) (process : Process α) :
    (step call process).Holds fun next =>
      next.hub.hubName = process.hub.hubName := by
  cases call with
  | addPort portID transport context flags =>
      rw [step, addPort]
      split
      · exact hubName_register _ _ _ _ _ _
      · exact rfl
  | removePort portID =>
      rw [step, removePort]
      split
      · trivial
      · split <;> exact rfl
  | closePort portID => exact hubName_closePort portID process
  | close =>
      exact @close_keeps _ (fun next => next.hub.hubName = process.hub.hubName)
        (fun current portID h => (hubName_closePort portID current).trans h)
        process rfl

theorem OwnsNames.step {process : Process α} (h : process.OwnsNames)
    (call : HubCall) : (step call process).Holds OwnsNames := by
  cases call with
  | addPort portID transport context flags =>
      rw [Process.step, addPort]
      split
      · rename_i hconstructs
        exact h.register flags hconstructs
      · exact h
  | removePort portID =>
      rw [Process.step, removePort]
      split
      · trivial
      · split
        · exact (h.erase portID).unregister _
        · exact h.erase portID
  | closePort portID => exact h.closePort portID
  | close =>
      exact close_keeps (fun _ portID hcurrent => hcurrent.closePort portID) h

/-- In every state that a run of hub calls reaches, returning or throwing, every
name is bound once in a context, every port in the table has the name of its ID,
and its socket binds this name and no other until the port is closed. -/
theorem names_owned {hubName : HubName} {bound : List Binding}
    {calls : List HubCall} {final : Process α}
    (hbound : (bound.map fun binding =>
      (binding.context, binding.endpoint)).Nodup)
    (hrun : Outcome.run step calls (start hubName bound) = some final) :
    final.hub.hubName = hubName ∧ final.OwnsNames := by
  have hstep : ∀ call (process : Process α),
      process.hub.hubName = hubName ∧ process.OwnsNames → True →
      (step call process).Holds fun next =>
        next.hub.hubName = hubName ∧ next.OwnsNames := by
    rintro call process ⟨hname, howns⟩ -
    apply Outcome.holds_iff_state?.mpr
    intro next hnext
    exact ⟨(Outcome.holds_iff_state?.mp (hubName_step call process) next
      hnext).trans hname, Outcome.holds_iff_state?.mp (howns.step call) next hnext⟩
  exact Outcome.run_invariant_of_meets hstep ⟨rfl, ownsNames_start hbound⟩
    (Outcome.runMeets_of_forall_mem (fun _ _ => trivial) _) hrun

/-! ## Ports of a peer -/

/-- No port is removed or closed that has something to receive. -/
def KeepsQueues : HubCall → Process α → Prop
  | .addPort _ _ _ _, _ => True
  | .removePort portID, process => process.hub.incomingAt portID = []
  | .closePort portID, process => process.hub.incomingAt portID = []
  | .close, process => ∀ portID, process.hub.incomingAt portID = []

theorem incomingAt_register (portID : PortID) (portName : PortName)
    (transport : Transport) (context : ContextID) (flags : EventFlags)
    (process : Process α) (other : PortID) :
    (process.register portID portName transport context
      flags).hub.incomingAt other = process.hub.incomingAt other := by
  have hfind : (process.register portID portName transport context
      flags).hub.findPort other =
        (process.hub.insertPort portID
          (process.newPort portName transport)).findPort other := rfl
  rw [Hub.incomingAt, Hub.incomingAt, hfind]
  by_cases heq : other = portID
  · subst other
    rw [Hub.findPort_insertPort_self]
    cases process.hub.findPort portID <;> rfl
  · rw [Hub.findPort_insertPort_of_ne heq]

theorem incomingAt_erase {portID : PortID} {process : Process α}
    (hempty : process.hub.incomingAt portID = []) (other : PortID) :
    (process.erase portID).hub.incomingAt other =
      process.hub.incomingAt other := by
  by_cases heq : other = portID
  · subst other
    have hnone : (process.erase portID).hub.findPort portID = none :=
      AList.lookup_erase portID process.hub.ports
    rw [hempty, Hub.incomingAt, hnone]
  · have hsame : (process.erase portID).hub.findPort other =
        process.hub.findPort other := AList.lookup_erase_ne heq
    rw [Hub.incomingAt, Hub.incomingAt, hsame]

theorem incomingAt_closePort {portID : PortID} {process : Process α}
    (hempty : process.hub.incomingAt portID = []) (other : PortID) :
    (process.closePort portID).hub.incomingAt other =
      process.hub.incomingAt other := by
  by_cases heq : other = portID
  · subst other
    rw [hempty, closePort, Hub.incomingAt, Hub.findPort_closePort_self]
    cases process.hub.findPort portID <;> rfl
  · rw [closePort, Hub.incomingAt, Hub.incomingAt,
      Hub.findPort_closePort_of_ne heq]

theorem incomingAt_step {call : HubCall} {process : Process α}
    (hkeeps : KeepsQueues call process) :
    (step call process).Holds fun next =>
      ∀ portID, next.hub.incomingAt portID =
        process.hub.incomingAt portID := by
  cases call with
  | addPort portID transport context flags =>
      rw [step, addPort]
      split
      · exact incomingAt_register _ _ _ _ _ _
      · exact fun _ => rfl
  | removePort portID =>
      rw [step, removePort]
      split
      · trivial
      · split <;> exact incomingAt_erase hkeeps
  | closePort portID => exact incomingAt_closePort hkeeps
  | close =>
      have hnone : ∀ portID, process.hub.incomingAt portID = [] := hkeeps
      have hclosed := @close_keeps _
        (fun next => ∀ portID, next.hub.incomingAt portID = [])
        (fun current portID h other =>
          (incomingAt_closePort (h portID) other).trans (h other))
        process hnone
      exact fun portID => (hclosed portID).trans (hnone portID).symm

/-- The name of a peer's port is an endpoint for inproc only. -/
theorem transport_of_constructs {peerID : PeerID} {portID : PortID}
    {transport : Transport} {context : ContextID} {process : Process α}
    (h : process.Constructs (PortSpecification.getPortName
      ⟨peerIDtoHubName peerID, portID⟩) transport context) :
    transport = .inproc := by
  by_contra hother
  have hempty : transportToString transport = [] := by
    cases transport with
    | inproc => exact absurd rfl hother
    | ipc => rfl
    | tcp => rfl
  obtain ⟨-, hendpoint, -⟩ := h
  rw [isEndpoint, Bool.and_eq_true, List.isPrefixOf_iff_prefix] at hendpoint
  -- The scheme starts with a letter, which is in no name of a peer's port.
  have hletter : (105 : UInt8) ∈ PortSpecification.getPortName
      ⟨peerIDtoHubName peerID, portID⟩ := by
    have hmem := before_subset 0 _ (hendpoint.1.subset (by decide :
      (105 : UInt8) ∈ transportToString .inproc))
    rwa [portNameToSocketID, hempty, List.nil_append] at hmem
  rw [PortSpecification.getPortName, List.mem_append, List.mem_cons] at hletter
  rcases hletter with hhub | hdash | hport
  · exact not_mem_peerIDtoHubName (by decide) peerID hhub
  · exact absurd hdash (by decide)
  · exact not_mem_toString_of_not_isDigit (by decide) hport

section PeerPorts

variable {ι : Type*}

/-- The hub of a peer, and its ports under the names that other peers address
them by. -/
structure PeerPorts (peerID : PeerID) (process : Process (Addr ι)) : Prop where
  hubName : process.hub.hubName = peerIDtoHubName peerID
  named : ∀ portID port, process.hub.findPort portID = some port →
    port.Named peerID portID

theorem PeerPorts.erase {peerID : PeerID} {process : Process (Addr ι)}
    (h : process.PeerPorts peerID) (portID : PortID) :
    (process.erase portID).PeerPorts peerID where
  hubName := h.hubName
  named := fun other port hport =>
    h.named other port (Hub.findPort_erasePort_eq_some.mp hport).2

theorem PeerPorts.closePort {peerID : PeerID} {process : Process (Addr ι)}
    (h : process.PeerPorts peerID) (portID : PortID) :
    (process.closePort portID).PeerPorts peerID where
  hubName := (hubName_closePort portID process).trans h.hubName
  named := by
    intro other port hport
    obtain ⟨before, hbefore, hname, htransport, -⟩ := exists_of_closePort hport
    obtain ⟨hbeforeName, hbeforeTransport⟩ := h.named other before hbefore
    exact ⟨hname.trans hbeforeName, htransport.trans hbeforeTransport⟩

theorem PeerPorts.step {peerID : PeerID} {process : Process (Addr ι)}
    (h : process.PeerPorts peerID) (call : HubCall) :
    (step call process).Holds (PeerPorts peerID) := by
  cases call with
  | addPort portID transport context flags =>
      rw [Process.step, addPort, h.hubName]
      split
      · rename_i hconstructs
        obtain rfl := transport_of_constructs hconstructs
        refine ⟨(hubName_register _ _ _ _ _ _).trans h.hubName, ?_⟩
        intro other port hport
        rcases Hub.findPort_insertPort_cases hport with hold | ⟨rfl, rfl, -⟩
        · exact h.named other port hold
        · exact ⟨rfl, rfl⟩
      · exact h
  | removePort portID =>
      rw [Process.step, removePort]
      split
      · trivial
      · split
        · exact ⟨h.hubName, (h.erase portID).named⟩
        · exact h.erase portID
  | closePort portID => exact h.closePort portID
  | close =>
      exact close_keeps (fun _ portID hcurrent => hcurrent.closePort portID) h

end PeerPorts

end Process

namespace Network

variable {ι : Type*}

/-- Whatever calls a peer makes on its hub, as long as no port is removed or
closed that has something to receive: the ports keep what they are to receive,
and the names by which the other peers address them. -/
theorem hubCalls_lossless {network : Network ι} {peer : ι}
    {process final : Process (Addr ι)} {calls : List Process.HubCall}
    (hhub : process.hub = (network.peers peer).hub)
    (hports : process.PeerPorts (network.peers peer).peerID)
    (hmeets : Outcome.RunMeets Process.step Process.KeepsQueues calls process)
    (hrun : Outcome.run Process.step calls process = some final) :
    (Step.act peer (.managePorts final.hub)).Lossless network := by
  have hstep : ∀ call (state : Process (Addr ι)),
      (state.PeerPorts (network.peers peer).peerID ∧
        ∀ portID, state.hub.incomingAt portID =
          process.hub.incomingAt portID) →
      Process.KeepsQueues call state →
      (Process.step call state).Holds fun next =>
        next.PeerPorts (network.peers peer).peerID ∧
        ∀ portID, next.hub.incomingAt portID =
          process.hub.incomingAt portID := by
    rintro call state ⟨hstate, hqueues⟩ hkeeps
    apply Outcome.holds_iff_state?.mpr
    intro next hnext
    refine ⟨Outcome.holds_iff_state?.mp (hstate.step call) next hnext, ?_⟩
    intro portID
    exact (Outcome.holds_iff_state?.mp (Process.incomingAt_step hkeeps) next
      hnext portID).trans (hqueues portID)
  obtain ⟨hfinal, hqueues⟩ := Outcome.run_invariant_of_meets hstep
    ⟨hports, fun _ => rfl⟩ hmeets hrun
  rw [hhub] at hqueues
  exact ⟨hqueues, hfinal.named⟩

end Network

/-! ## A port that is added again -/

/-- The port is closed before it is removed, and its name can be bound again. -/
def addAgain : List Process.HubCall :=
  [.addPort 1 .inproc 0 pollin, .closePort 1, .removePort 1,
    .addPort 1 .inproc 0 pollin]

theorem names_owned_again :
    ∃ final : Process ℕ,
      Outcome.run Process.step addAgain (Process.start [49] []) = some final ∧
      final.boundNames 0 = [endpointOf [49, 45, 49] .inproc] ∧
      final.hub.hubName = [49] ∧ final.OwnsNames := by
  obtain ⟨final, hrun, hbound⟩ : ∃ final ∈ Outcome.run Process.step addAgain
      (Process.start [49] [] : Process ℕ),
      final.boundNames 0 = [endpointOf [49, 45, 49] .inproc] := by
    decide
  have hnone : (([] : List Binding).map fun binding =>
      (binding.context, binding.endpoint)).Nodup := List.nodup_nil
  exact ⟨final, hrun, hbound, Process.names_owned hnone hrun⟩

theorem hubCalls_lossless_two :
    ∃ final : Process (Addr Bool),
      Outcome.run Process.step [.addPort 0 .inproc 0 pollin, .closePort 0]
        (Process.start (peerIDtoHubName 1) []) = some final ∧
      (Network.Step.act false (.managePorts final.hub)).Lossless twoNetwork := by
  obtain ⟨final, hrun⟩ := Option.isSome_iff_exists.mp
    (show (Outcome.run Process.step
      [.addPort 0 .inproc 0 pollin, .closePort 0]
      (Process.start (peerIDtoHubName 1) [] : Process (Addr Bool))).isSome = true
      by decide)
  have hports : (Process.start (peerIDtoHubName 1) [] :
      Process (Addr Bool)).PeerPorts (twoNetwork.peers false).peerID :=
    ⟨rfl, fun _ _ hport => by simp [Process.start, Hub.new, Hub.findPort] at hport⟩
  have hmeets : Outcome.RunMeets Process.step Process.KeepsQueues
      [.addPort 0 .inproc 0 pollin, .closePort 0]
      (Process.start (peerIDtoHubName 1) [] : Process (Addr Bool)) := by
    refine ⟨trivial, fun next hnext => ⟨?_, fun _ _ => trivial⟩⟩
    obtain rfl := Option.some.inj hnext
    rfl
  exact ⟨final, hrun, Network.hubCalls_lossless rfl hports hmeets hrun⟩

end Dpn
