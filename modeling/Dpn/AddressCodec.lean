import Dpn.Peer

/-!
# Names of ports as addresses

A hub builds the name of a port from its own name and the port ID, and the port
builds its socket ID from that name.  A receiver takes the socket ID apart in
two steps, each of which cuts at a delimiter and drops what is behind it, so a
hub name survives the trip exactly if neither delimiter occurs in it.
-/

namespace Dpn

open TextStream

/-- The name read out of the socket ID of an inproc port ends at the first
slash of the name that was put in. -/
theorem portNameFromSocketID_inproc (portName : PortName) :
    portNameFromSocketID (portNameToSocketID portName .inproc) =
      before 47 portName := by
  have hscheme : portNameToSocketID portName .inproc =
      [105, 110, 112, 114, 111, 99, 58] ++ 47 :: ([] ++ 47 :: portName) := rfl
  have hfirst : (47 : UInt8) ∉ ([105, 110, 112, 114, 111, 99, 58] : Str) := by
    decide
  rw [portNameFromSocketID, hscheme, IStream.ofStr]
  simp only [getline_append _ hfirst, getline_append _ List.not_mem_nil,
    getline_good]

namespace PortSpecification

/-- The hub name is what stands before the first dash, and the port ID is read
from what stands between it and the next one. -/
theorem setPortName_eq_ok_iff {spec decoded : PortSpecification}
    {portName : PortName} :
    spec.setPortName portName = .ok decoded ↔
      ∃ value, stoi (before 45 (after 45 portName)) = .ok value ∧
        decoded = ⟨before 45 portName, UInt16.ofInt value⟩ := by
  have hnumber : (((IStream.ofStr portName).getline spec.hubName 45).2.getline
      [] 45).1 = before 45 (after 45 portName) := by
    by_cases hdash : (45 : UInt8) ∈ portName
    · simp only [IStream.ofStr, getline_good, hdash, decide_true]
    · simp only [IStream.ofStr, getline_good, hdash, decide_false,
        getline_not_good, after_of_notMem hdash, before_of_notMem,
        List.not_mem_nil, not_false_eq_true]
  have hhub : ((IStream.ofStr portName).getline spec.hubName 45).1 =
      before 45 portName := by
    rw [IStream.ofStr, getline_good]
  simp only [setPortName, hnumber, hhub]
  cases stoi (before 45 (after 45 portName)) with
  | ok value => simp [eq_comm]
  | error error => simp

theorem slash_notMem_getPortName {spec : PortSpecification}
    (hslash : 47 ∉ spec.hubName) : 47 ∉ spec.getPortName := by
  have hnumber : (47 : UInt8) ∉ TextStream.toString spec.portID.toNat :=
    not_mem_toString_of_not_isDigit (by decide)
  rw [getPortName, List.mem_append, List.mem_cons]
  rintro (hmem | hmem | hmem)
  · exact hslash hmem
  · exact absurd hmem (by decide)
  · exact hnumber hmem

/-- What a receiver makes of the socket ID of a port. -/
def decode (prior : PortSpecification) (socketID : SocketID) :
    Outcome Exn PortSpecification :=
  prior.setPortName (portNameFromSocketID socketID)

def wireIdentity (spec : PortSpecification) : SocketID :=
  portNameToSocketID spec.getPortName .inproc

theorem decode_wireIdentity_iff (prior spec : PortSpecification) :
    prior.decode spec.wireIdentity = .ok spec ↔
      45 ∉ spec.hubName ∧ 47 ∉ spec.hubName := by
  rw [decode, wireIdentity, portNameFromSocketID_inproc]
  constructor
  · intro hok
    -- A hub name that was read contains neither delimiter it was cut at.
    obtain ⟨value, -, hdecoded⟩ := setPortName_eq_ok_iff.mp hok
    have hhub : spec.hubName = before 45 (before 47 spec.getPortName) :=
      congrArg hubName hdecoded
    rw [hhub]
    refine ⟨not_mem_before 45 _, fun hslash => ?_⟩
    exact not_mem_before 47 spec.getPortName (before_subset 45 _ hslash)
  · rintro ⟨hdash, hslash⟩
    rw [before_of_notMem (slash_notMem_getPortName hslash)]
    exact setPortName_getPortName prior spec hdash

end PortSpecification

theorem not_mem_peerIDtoHubName {delim : UInt8}
    (hdelim : isDigit delim = false) (peerID : PeerID) :
    delim ∉ peerIDtoHubName peerID :=
  not_mem_toString_of_not_isDigit hdelim

/-- The address codec is exact: whatever the specification held before,
decoding the identity of a port gives the port back if and only if its hub name
has neither a dash nor a slash in it, as the hub name of every peer. -/
theorem address_codec_exact (prior : PortSpecification) :
    (∀ (hubName : HubName) (portID : PortID),
      prior.decode (PortSpecification.wireIdentity ⟨hubName, portID⟩) =
          .ok ⟨hubName, portID⟩ ↔ 45 ∉ hubName ∧ 47 ∉ hubName) ∧
      ∀ (peerID : PeerID) (portID : PortID),
        prior.decode (PortSpecification.wireIdentity
            ⟨peerIDtoHubName peerID, portID⟩) =
          .ok ⟨peerIDtoHubName peerID, portID⟩ := by
  constructor
  · intro hubName portID
    exact PortSpecification.decode_wireIdentity_iff prior ⟨hubName, portID⟩
  · intro peerID portID
    apply (PortSpecification.decode_wireIdentity_iff prior _).mpr
    exact ⟨not_mem_peerIDtoHubName (by decide) peerID,
      not_mem_peerIDtoHubName (by decide) peerID⟩

/-! ## Unique names -/

/-- Texts without the delimiter are found again behind its last occurrence. -/
theorem append_cons_inj_of_notMem {first second last other : Str}
    {delim : UInt8} (hlast : delim ∉ last) (hother : delim ∉ other) :
    first ++ delim :: last = second ++ delim :: other ↔
      first = second ∧ last = other := by
  constructor
  · intro heq
    rcases List.append_eq_append_iff.mp heq with
      ⟨more, rfl, hmore⟩ | ⟨more, rfl, hmore⟩
    · cases more with
      | nil => exact ⟨(List.append_nil first).symm, (List.cons.inj hmore).2⟩
      | cons byte rest =>
          have hsplit : last = rest ++ delim :: other := (List.cons.inj hmore).2
          exact absurd (hsplit ▸ by simp) hlast
    · cases more with
      | nil => exact ⟨List.append_nil second, (List.cons.inj hmore).2.symm⟩
      | cons byte rest =>
          have hsplit : other = rest ++ delim :: last := (List.cons.inj hmore).2
          exact absurd (hsplit ▸ by simp) hother
  · rintro ⟨rfl, rfl⟩
    rfl

theorem toString_inj {first second : ℕ} :
    TextStream.toString first = TextStream.toString second ↔ first = second := by
  constructor
  · intro heq
    have hvalue := congrArg digitsValue heq
    rwa [digitsValue_toString, digitsValue_toString] at hvalue
  · rintro rfl
    rfl

namespace PortSpecification

theorem getPortName_inj {first second : PortSpecification} :
    first.getPortName = second.getPortName ↔ first = second := by
  have hnumber : ∀ portID : PortID,
      (45 : UInt8) ∉ TextStream.toString portID.toNat :=
    fun portID => not_mem_toString_of_not_isDigit (by decide)
  rw [getPortName, getPortName,
    append_cons_inj_of_notMem (hnumber _) (hnumber _), toString_inj,
    UInt16.toNat_inj]
  cases first
  cases second
  simp

theorem socketID_inj {first second : PortSpecification} {transport : Transport} :
    portNameToSocketID first.getPortName transport =
        portNameToSocketID second.getPortName transport ↔ first = second := by
  rw [portNameToSocketID, portNameToSocketID, List.append_cancel_left_eq,
    getPortName_inj]

end PortSpecification

/-- What a send hands to ZMQ starts with the socket ID of its target and of no
other port. -/
def Port.AddressesOnly {α : Type*} [DecidableEq α]
    (target : PortSpecification) (port : Port α) : Prop :=
  ∀ messages heap result,
    port.send target.getPortName messages heap = .ok result →
    ∃ address rest, result.sent = address :: rest ∧
      ∀ other : PortSpecification,
        address.bytes = portNameToSocketID other.getPortName port.transport ↔
          other = target

theorem Port.addressesOnly {α : Type*} [DecidableEq α]
    (target : PortSpecification) (port : Port α) :
    port.AddressesOnly target := by
  intro messages heap result hsend
  by_cases hroute : port.closed = false ∧
      portNameToSocketID target.getPortName port.transport ∈ port.routes
  · rw [send_of_reachable hroute.1 hroute.2] at hsend
    obtain rfl := Outcome.ok.inj hsend
    refine ⟨_, _, rfl, fun other => ?_⟩
    rw [PortSpecification.socketID_inj, eq_comm]
  · rw [send_of_unreachable hroute] at hsend
    contradiction

/-- Two ports have the same socket ID only if they have the same hub name and
the same port ID, so no message is addressed to a port but its target. -/
theorem portNames_unique {α : Type*} [DecidableEq α] (transport : Transport)
    (firstHub secondHub : HubName) (firstPort secondPort : PortID) :
    (portNameToSocketID
          (PortSpecification.getPortName ⟨firstHub, firstPort⟩) transport =
        portNameToSocketID
          (PortSpecification.getPortName ⟨secondHub, secondPort⟩) transport ↔
      firstHub = secondHub ∧ firstPort = secondPort) ∧
    ∀ port : Port α, port.AddressesOnly ⟨firstHub, firstPort⟩ := by
  constructor
  · rw [PortSpecification.socketID_inj, PortSpecification.mk.injEq]
  · exact Port.addressesOnly ⟨firstHub, firstPort⟩

end Dpn
