import Dpn.Fanout

/-!
# Connecting and disconnecting ports

A peer passes both calls through its hub to one of its ports, which keeps the
list of names it is connected to next to its socket.  `Peer::Disconnect` gives
the hub the ID of the remote port where the hub expects the ID of a local one.
-/

namespace Dpn

variable {α : Type*}

/-! ## Ports -/

namespace Port

def CanConnect (portName : PortName) (port : Port α) : Prop :=
  port.closed = false ∧
    isEndpoint (endpointOf portName port.transport) = true

def CanDisconnect (portName : PortName) (port : Port α) : Prop :=
  portName ∈ port.connections ∧ port.closed = false ∧
    endpointOf portName port.transport ∈ port.connected

theorem connect_of_can {portName : PortName} {port : Port α}
    (hcan : port.CanConnect portName) :
    port.connect portName =
      .ok { port with
        connected := port.connected ++ [endpointOf portName port.transport]
        connections := port.connections ++ [portName] } :=
  if_pos hcan

theorem connect_of_not {portName : PortName} {port : Port α}
    (hcannot : ¬port.CanConnect portName) :
    port.connect portName = .throw .zmqError port :=
  if_neg hcannot

theorem disconnect_of_can {portName : PortName} {port : Port α}
    (hcan : port.CanDisconnect portName) :
    port.disconnect portName =
      .ok { port with
        connected := port.connected.filter
          (· ≠ endpointOf portName port.transport)
        connections := port.connections.erase portName } := by
  rw [disconnect, if_pos hcan.1]
  exact if_pos hcan.2

/-- A port that does not disconnect stays as it is. -/
theorem disconnect_of_not {portName : PortName} {port : Port α}
    (hcannot : ¬port.CanDisconnect portName) :
    (port.disconnect portName).state? = some port := by
  rw [disconnect]
  by_cases hname : portName ∈ port.connections
  · have hsocket : ¬(port.closed = false ∧
        endpointOf portName port.transport ∈ port.connected) :=
      fun h => hcannot ⟨hname, h⟩
    rw [if_pos hname, if_neg hsocket]
    rfl
  · rw [if_neg hname]
    rfl

end Port

/-! ## Hubs -/

namespace Hub

def connect (localPortID : PortID) (portSpec : PortSpecification)
    (hub : Hub α) : Outcome Exn (Hub α) :=
  match hub.findPort localPortID with
  | none => .ok hub
  | some port =>
      (port.connect portSpec.getPortName).map (hub.setPort localPortID)

def disconnect (localPortID : PortID) (portSpec : PortSpecification)
    (hub : Hub α) : Outcome Exn (Hub α) :=
  match hub.findPort localPortID with
  | none => .ok hub
  | some port =>
      (port.disconnect portSpec.getPortName).map (hub.setPort localPortID)

/-- Putting a port back where it is changes nothing. -/
theorem findPort_setPort_same {hub : Hub α} {portID : PortID} {port : Port α}
    (hport : hub.findPort portID = some port) (other : PortID) :
    (hub.setPort portID port).findPort other = hub.findPort other := by
  by_cases heq : other = portID
  · rw [heq, findPort_setPort_self, hport]
  · exact findPort_setPort_of_ne hub port heq

end Hub

/-! ## Peers -/

namespace Peer

variable {ι : Type*}

def remoteName (peerID : PeerID) (portID : PortID) : PortName :=
  PortSpecification.getPortName ⟨peerIDtoHubName peerID, portID⟩

def connect (peerID : PeerID) (portID localPortID : PortID)
    (world : World ι) : Outcome Exn (World ι) :=
  (world.peer.hub.connect localPortID ⟨peerIDtoHubName peerID, portID⟩).map
    world.withHub

/-- The source passes `portID`, not the local port it is given. -/
def disconnect (peerID : PeerID) (portID _localPortID : PortID)
    (world : World ι) : Outcome Exn (World ι) :=
  (world.peer.hub.disconnect portID ⟨peerIDtoHubName peerID, portID⟩).map
    world.withHub

theorem connect_state? {peerID : PeerID} {portID localPortID : PortID}
    {world : World ι} {port result : Port (Addr ι)}
    (hport : world.peer.hub.findPort localPortID = some port)
    (hresult : (port.connect (remoteName peerID portID)).state? = some result) :
    (connect peerID portID localPortID world).state? =
      some (world.withHub (world.peer.hub.setPort localPortID result)) := by
  have hname : PortSpecification.getPortName ⟨peerIDtoHubName peerID, portID⟩ =
      remoteName peerID portID := rfl
  simp only [connect, Hub.connect, hport, hname, Outcome.state?_map, hresult,
    Option.map_some]

theorem disconnect_state? {peerID : PeerID} {portID localPortID : PortID}
    {world : World ι} {port result : Port (Addr ι)}
    (hport : world.peer.hub.findPort portID = some port)
    (hresult : (port.disconnect (remoteName peerID portID)).state? =
      some result) :
    (disconnect peerID portID localPortID world).state? =
      some (world.withHub (world.peer.hub.setPort portID result)) := by
  have hname : PortSpecification.getPortName ⟨peerIDtoHubName peerID, portID⟩ =
      remoteName peerID portID := rfl
  simp only [disconnect, Hub.disconnect, hport, hname, Outcome.state?_map,
    hresult, Option.map_some]

theorem disconnect_state?_of_none {peerID : PeerID}
    {portID localPortID : PortID} {world : World ι}
    (hport : world.peer.hub.findPort portID = none) :
    (disconnect peerID portID localPortID world).state? =
      some (world.withHub world.peer.hub) := by
  simp only [disconnect, Hub.disconnect, hport, Outcome.map_ok,
    Outcome.state?_ok]

/-! ## Undoing a connection -/

/-- After both calls the local port lists the connections it listed before, and
neither call has touched another port. -/
structure DisconnectUndoes (peerID : PeerID) (portID localPortID : PortID)
    (world : World ι) : Prop where
  restores : ∃ connected disconnected before after,
    (connect peerID portID localPortID world).state? = some connected ∧
    (disconnect peerID portID localPortID connected).state? =
      some disconnected ∧
    world.peer.hub.findPort localPortID = some before ∧
    disconnected.peer.hub.findPort localPortID = some after ∧
    after.connections = before.connections ∧
    ∀ other, other ≠ localPortID →
      connected.peer.hub.findPort other = world.peer.hub.findPort other ∧
      disconnected.peer.hub.findPort other = world.peer.hub.findPort other

theorem erase_append_singleton {name : PortName} {names : List PortName}
    (hfresh : name ∉ names) : (names ++ [name]).erase name = names := by
  rw [List.erase_append_right [name] hfresh, List.erase_cons_head,
    List.append_nil]

/-- With one number for both ports, both calls are calls on the same port. -/
theorem disconnectUndoes_of_calls {peerID : PeerID} {localPortID : PortID}
    {world : World ι} {port joined left : Port (Addr ι)}
    (hport : world.peer.hub.findPort localPortID = some port)
    (hconnect : (port.connect (remoteName peerID localPortID)).state? =
      some joined)
    (hdisconnect : (joined.disconnect (remoteName peerID localPortID)).state? =
      some left) (hsame : left.connections = port.connections) :
    DisconnectUndoes peerID localPortID localPortID world := by
  have hfound : (world.withHub (world.peer.hub.setPort localPortID
      joined)).peer.hub.findPort localPortID = some joined :=
    Hub.findPort_setPort_self _ _ _
  refine ⟨⟨_, _, port, left, connect_state? hport hconnect,
    disconnect_state? hfound hdisconnect, hport,
    Hub.findPort_setPort_self _ _ _, hsame, ?_⟩⟩
  intro other hne
  have hfirst : (world.peer.hub.setPort localPortID joined).findPort other =
      world.peer.hub.findPort other := Hub.findPort_setPort_of_ne _ _ hne
  exact ⟨hfirst, (Hub.findPort_setPort_of_ne _ _ hne).trans hfirst⟩

/-- The disconnect that follows finds the port that was connected. -/
theorem disconnectUndoes_of_eq {peerID : PeerID} {localPortID : PortID}
    {world : World ι} {port : Port (Addr ι)}
    (hport : world.peer.hub.findPort localPortID = some port)
    (hfresh : remoteName peerID localPortID ∉ port.connections) :
    DisconnectUndoes peerID localPortID localPortID world := by
  by_cases hcan : port.CanConnect (remoteName peerID localPortID)
  · have hconnect := congrArg Outcome.state? (Port.connect_of_can hcan)
    set joined : Port (Addr ι) := { port with
      connected := port.connected ++
        [endpointOf (remoteName peerID localPortID) port.transport]
      connections := port.connections ++ [remoteName peerID localPortID] }
      with hjoined
    have hcanLeave : joined.CanDisconnect (remoteName peerID localPortID) :=
      ⟨by simp [hjoined], hcan.1, by simp [hjoined]⟩
    have hdisconnect := congrArg Outcome.state?
      (Port.disconnect_of_can hcanLeave)
    exact disconnectUndoes_of_calls hport hconnect hdisconnect
      (erase_append_singleton hfresh)
  -- Nothing was connected, and the name is not listed.
  · have hconnect := congrArg Outcome.state? (Port.connect_of_not hcan)
    have hdisconnect := Port.disconnect_of_not
      (fun h : port.CanDisconnect (remoteName peerID localPortID) =>
        hfresh h.1)
    exact disconnectUndoes_of_calls hport hconnect hdisconnect rfl

theorem findPort_of_disconnect {peerID : PeerID} {portID localPortID : PortID}
    {world next : World ι}
    (hnext : (disconnect peerID portID localPortID world).state? = some next)
    {other : PortID} (hne : other ≠ portID) :
    next.peer.hub.findPort other = world.peer.hub.findPort other := by
  cases hport : world.peer.hub.findPort portID with
  | none =>
      rw [disconnect_state?_of_none hport] at hnext
      obtain rfl := Option.some.inj hnext
      rfl
  | some port =>
      by_cases hcan : port.CanDisconnect (remoteName peerID portID)
      · have hresult := congrArg Outcome.state? (Port.disconnect_of_can hcan)
        rw [disconnect_state? hport hresult] at hnext
        obtain rfl := Option.some.inj hnext
        exact Hub.findPort_setPort_of_ne _ _ hne
      · rw [disconnect_state? hport (Port.disconnect_of_not hcan)] at hnext
        obtain rfl := Option.some.inj hnext
        exact Hub.findPort_setPort_of_ne _ _ hne

theorem not_can_of_disconnectUndoes {peerID : PeerID}
    {portID localPortID : PortID} {world : World ι} {port : Port (Addr ι)}
    (hne : portID ≠ localPortID)
    (hport : world.peer.hub.findPort localPortID = some port)
    (h : DisconnectUndoes peerID portID localPortID world) :
    ¬port.CanConnect (remoteName peerID portID) ∧
      ∀ other, world.peer.hub.findPort portID = some other →
        ¬other.CanDisconnect (remoteName peerID portID) := by
  obtain ⟨connected, disconnected, before, after, hconnected, hdisconnected,
    hbefore, hafter, hsame, huntouched⟩ := h
  obtain rfl : port = before := Option.some.inj (hport.symm.trans hbefore)
  have hlocal := findPort_of_disconnect hdisconnected (Ne.symm hne)
  constructor
  · intro hcan
    have hresult := congrArg Outcome.state? (Port.connect_of_can hcan)
    rw [connect_state? hport hresult] at hconnected
    obtain rfl := Option.some.inj hconnected
    rw [hafter] at hlocal
    have hjoined := Option.some.inj
      (hlocal.trans (Hub.findPort_setPort_self _ _ _))
    have hlength := congrArg List.length hsame
    rw [hjoined] at hlength
    simp at hlength
  · intro other hother hcan
    have hfound := (huntouched portID hne).1.trans hother
    have hresult := congrArg Outcome.state? (Port.disconnect_of_can hcan)
    rw [disconnect_state? hfound hresult] at hdisconnected
    obtain rfl := Option.some.inj hdisconnected
    have hleft : some _ = some other :=
      (Hub.findPort_setPort_self _ _ _).symm.trans
        ((huntouched portID hne).2.trans hother)
    have hlength := congrArg (fun port : Port (Addr ι) =>
      port.connections.length) (Option.some.inj hleft)
    have hpos := List.length_pos_of_mem hcan.1
    simp only [List.length_erase_of_mem hcan.1] at hlength
    omega

/-- Where neither call does anything, nothing is left to be undone. -/
theorem disconnectUndoes_of_not_can {peerID : PeerID}
    {portID localPortID : PortID} {world : World ι} {port : Port (Addr ι)}
    (hport : world.peer.hub.findPort localPortID = some port)
    (hcannot : ¬port.CanConnect (remoteName peerID portID))
    (hothers : ∀ other, world.peer.hub.findPort portID = some other →
      ¬other.CanDisconnect (remoteName peerID portID)) :
    DisconnectUndoes peerID portID localPortID world := by
  have hconnect : (port.connect (remoteName peerID portID)).state? =
      some port := by
    rw [Port.connect_of_not hcannot, Outcome.state?_throw]
  set connected := world.withHub (world.peer.hub.setPort localPortID port)
    with hconnected
  have hfirst : ∀ other, connected.peer.hub.findPort other =
      world.peer.hub.findPort other := Hub.findPort_setPort_same hport
  have hsecond : ∃ disconnected,
      (disconnect peerID portID localPortID connected).state? =
        some disconnected ∧
      ∀ other, disconnected.peer.hub.findPort other =
        world.peer.hub.findPort other := by
    cases hfound : world.peer.hub.findPort portID with
    | none =>
        exact ⟨_, disconnect_state?_of_none ((hfirst portID).trans hfound),
          hfirst⟩
    | some other =>
        have hstill := (hfirst portID).trans hfound
        refine ⟨_, disconnect_state? hstill
          (Port.disconnect_of_not (hothers other hfound)), ?_⟩
        intro third
        exact (Hub.findPort_setPort_same hstill third).trans (hfirst third)
  obtain ⟨disconnected, hdisconnected, hsame⟩ := hsecond
  exact ⟨connected, disconnected, port, port, connect_state? hport hconnect,
    hdisconnected, hport, (hsame localPortID).trans hport, rfl,
    fun other _ => ⟨hfirst other, hsame other⟩⟩

/-- With different port numbers the second call never finds the port that was
connected, so both calls have to be without effect. -/
theorem disconnectUndoes_iff_of_ne {peerID : PeerID}
    {portID localPortID : PortID} {world : World ι} {port : Port (Addr ι)}
    (hne : portID ≠ localPortID)
    (hport : world.peer.hub.findPort localPortID = some port) :
    DisconnectUndoes peerID portID localPortID world ↔
      ¬port.CanConnect (remoteName peerID portID) ∧
        ∀ other, world.peer.hub.findPort portID = some other →
          ¬other.CanDisconnect (remoteName peerID portID) :=
  ⟨not_can_of_disconnectUndoes hne hport,
    fun h => disconnectUndoes_of_not_can hport h.1 h.2⟩

/-- A disconnect undoes the connect before it if and only if the remote port
has the number of the local one, or the local port could not connect and there
is nothing to disconnect on the port that has the remote number. -/
theorem disconnectUndoes_iff {peerID : PeerID} {portID localPortID : PortID}
    {world : World ι} {port : Port (Addr ι)}
    (hport : world.peer.hub.findPort localPortID = some port)
    (hfresh : remoteName peerID portID ∉ port.connections) :
    DisconnectUndoes peerID portID localPortID world ↔
      portID = localPortID ∨
        (¬port.CanConnect (remoteName peerID portID) ∧
          ∀ other, world.peer.hub.findPort portID = some other →
            ¬other.CanDisconnect (remoteName peerID portID)) := by
  by_cases heq : portID = localPortID
  · subst localPortID
    exact iff_of_true (disconnectUndoes_of_eq hport hfresh) (Or.inl rfl)
  · rw [disconnectUndoes_iff_of_ne heq hport]
    exact (or_iff_right heq).symm

end Peer

/-! ## A remote port with another number -/

theorem disconnect_undoes_same_port :
    Peer.DisconnectUndoes 2 0 0 (peerOne [] []) :=
  (Peer.disconnectUndoes_iff rfl (by decide)).mpr (Or.inl rfl)

/-- Port 0 connects to port 1 of peer 2 and stays connected, since peer 1 has
no port 1. -/
theorem disconnect_leaves_connection :
    (∃ port, (peerOne [] []).peer.hub.findPort 0 = some port ∧
      Peer.remoteName 2 1 ∉ port.connections) ∧
      ¬Peer.DisconnectUndoes 2 1 0 (peerOne [] []) := by
  refine ⟨⟨_, rfl, by decide⟩, ?_⟩
  rintro ⟨connected, disconnected, before, after, hconnected, hdisconnected,
    hbefore, hafter, hsame, -⟩
  have hlocal := Peer.findPort_of_disconnect hdisconnected
    (show (0 : PortID) ≠ 1 by decide)
  obtain rfl := Option.some.inj hconnected
  rw [hafter] at hlocal
  obtain rfl := Option.some.inj hlocal
  obtain rfl := Option.some.inj hbefore
  exact absurd hsame (by decide)

end Dpn
