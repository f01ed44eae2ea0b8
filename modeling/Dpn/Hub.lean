import Dpn.Distribution
import Dpn.Label
import Mathlib.Data.List.AList

/-!
# Hubs

A hub owns the ports of a peer and the poller their sockets are registered
with.  Other ports are named by a port specification, a hub name and a port ID,
which is also how a received multipart names its sender.
-/

namespace Dpn

open TextStream

abbrev HubName := Str

/-- An `unordered_map`. -/
abbrev Table (κ β : Type*) := AList fun _ : κ => β

/-! ## Port specifications -/

structure PortSpecification where
  hubName : HubName
  portID : PortID
  deriving DecidableEq, Repr

def Exn.ofStoi : StoiError → Exn
  | .invalidArgument => .invalidArgument
  | .outOfRange => .outOfRange

namespace PortSpecification

def getPortName (spec : PortSpecification) : PortName :=
  spec.hubName ++ 45 :: toString spec.portID.toNat

/-- The hub name is already replaced when `stoi` rejects the rest, and the
number that `stoi` returns is narrowed to 16 bits. -/
def setPortName (spec : PortSpecification) (portName : PortName) :
    Outcome Exn PortSpecification :=
  let (hubName, stream) := (IStream.ofStr portName).getline spec.hubName 45
  let (temp, _) := stream.getline [] 45
  match stoi temp with
  | .ok value => .ok ⟨hubName, UInt16.ofInt value⟩
  | .error error => .throw (Exn.ofStoi error) { spec with hubName }

theorem ofInt_toNat (word : UInt16) : UInt16.ofInt word.toNat = word := by
  have hlt := word.toNat_lt
  have hmod : ((word.toNat : ℤ) % 2 ^ 16).toNat = word.toNat := by omega
  rw [UInt16.ofInt, hmod, UInt16.ofNat_toNat]

/-- A name is taken apart again if its hub name has no dash. -/
theorem setPortName_getPortName (spec target : PortSpecification)
    (hdash : 45 ∉ target.hubName) :
    spec.setPortName target.getPortName = .ok target := by
  have hnumber : (45 : UInt8) ∉ TextStream.toString target.portID.toNat :=
    not_mem_toString_of_not_isDigit (by decide)
  have hbound : target.portID.toNat < 2 ^ 31 := by
    have hlt := target.portID.toNat_lt
    omega
  simp only [setPortName, getPortName, IStream.ofStr,
    getline_append _ hdash, getline_of_notMem _ hnumber,
    stoi_toString hbound, ofInt_toNat]

theorem setPortName_ne_stuck (spec : PortSpecification) (portName : PortName)
    (reason : Stuck) : spec.setPortName portName ≠ .stuck reason := by
  unfold setPortName
  dsimp only
  split <;> simp

end PortSpecification

/-! ## Polling -/

abbrev EventFlags := UInt16

def pollin : EventFlags := 1

/-- A socket with the events it is polled for and the handler `AddPort` gave
the poller, which reports a port ID. -/
structure PollerEntry where
  socket : ℕ
  events : EventFlags
  portID : PortID
  deriving DecidableEq, Repr

structure Hub (α : Type*) where
  hubName : HubName
  poller : List PollerEntry
  ports : Table PortID (Port α)
  pollPortID : PortID
  pollEventFlags : EventFlags

namespace Hub

variable {α : Type*}

/-- The constructor.  It leaves the two fields for poll results open. -/
def new (hubName : HubName) : Hub α :=
  ⟨hubName, [], ∅, 0, 0⟩

def findPort (hub : Hub α) (portID : PortID) : Option (Port α) :=
  hub.ports.lookup portID

def setPort (hub : Hub α) (portID : PortID) (port : Port α) : Hub α :=
  { hub with ports := hub.ports.insert portID port }

def arrive (hub : Hub α) (portID : PortID) (frames : List (WireFrame α)) :
    Hub α :=
  match hub.findPort portID with
  | none => hub
  | some port =>
      hub.setPort portID { port with incoming := port.incoming ++ frames }

def pollCallback (hub : Hub α) (localPortID : PortID) (flags : EventFlags) :
    Hub α :=
  { hub with pollPortID := localPortID, pollEventFlags := flags }

/-- `poller_.modify` throws for a socket that is closed or not registered. -/
def modify (poller : List PollerEntry) (port : Port α) (flags : EventFlags) :
    Option (List PollerEntry) :=
  if port.closed = false ∧ port.socket ∈ poller.map PollerEntry.socket then
    some (poller.map fun entry =>
      if entry.socket = port.socket then { entry with events := flags }
      else entry)
  else none

def modifyAll (flags : EventFlags) :
    List (Port α) → List PollerEntry → Outcome Exn (List PollerEntry)
  | [], poller => .ok poller
  | port :: rest, poller =>
      match modify poller port flags with
      | some next => modifyAll flags rest next
      | none => .throw .zmqError poller

/-- An event that `poller_.wait` reports for a socket. -/
structure Ready where
  socket : ℕ
  flags : EventFlags
  deriving DecidableEq, Repr

/-- The handlers that `poller_.wait` calls, in order, with their arguments. -/
def callbacks (poller : List PollerEntry) (ready : List Ready) :
    List (PortID × EventFlags) :=
  ready.filterMap fun event =>
    (poller.find? fun entry => entry.socket = event.socket).map fun entry =>
      (entry.portID, event.flags)

/-- `Hub::Poll`; the caller reads the port and the flags out of the fields that
the handlers fill.  No event until the timeout is an empty list. -/
def poll (flags : EventFlags) (ready : List Ready) (hub : Hub α) :
    Outcome Exn (Hub α) :=
  (modifyAll flags (hub.ports.entries.map Sigma.snd) hub.poller).andThen
    (fun poller => { hub with poller := poller })
    fun poller =>
      match callbacks poller ready with
      | [] => .throw .runtimeError { hub with poller := poller }
      | called => .ok (called.foldl
          (fun hub call => hub.pollCallback call.1 call.2)
          { hub with poller := poller })

@[simp] theorem findPort_setPort_self (hub : Hub α) (portID : PortID)
    (port : Port α) : (hub.setPort portID port).findPort portID = some port :=
  AList.lookup_insert _

theorem findPort_setPort_of_ne (hub : Hub α) {portID other : PortID}
    (port : Port α) (hne : other ≠ portID) :
    (hub.setPort portID port).findPort other = hub.findPort other :=
  AList.lookup_insert_ne hne

/-! ## Sending and receiving -/

section Transfer

variable [DecidableEq α]

def send (localPortID : PortID) (portSpec : PortSpecification)
    (messages : List α) (hub : Hub α) (heap : Heap α) :
    Outcome Exn (SendState α) :=
  match hub.findPort localPortID with
  | none => .ok ⟨heap, []⟩
  | some port => port.send portSpec.getPortName messages heap

structure Reception (α : Type*) where
  portSpec : PortSpecification
  hub : Hub α
  heap : Heap α

def receive (localPortID : PortID) (messages : List α)
    (state : Reception α) : Outcome Exn (Reception α) :=
  match state.hub.findPort localPortID with
  | none => .ok state
  | some port =>
      (Port.receive messages .none ⟨[], port, state.heap⟩).andThen
        (fun received => ⟨state.portSpec,
          state.hub.setPort localPortID received.port, received.heap⟩)
        fun received =>
          (state.portSpec.setPortName received.portName).map fun portSpec =>
            ⟨portSpec, state.hub.setPort localPortID received.port,
              received.heap⟩

end Transfer

/-! ## What a poll changes -/

/-- Polling registers events and fills the two fields, and changes nothing
else. -/
structure PollChanges (hub next : Hub α) : Prop where
  hubName : next.hubName = hub.hubName
  ports : next.ports = hub.ports

theorem foldl_pollCallback (called : List (PortID × EventFlags))
    (hub : Hub α) :
    ∃ portID flags, called.foldl
        (fun hub call => hub.pollCallback call.1 call.2) hub =
      { hub with pollPortID := portID, pollEventFlags := flags } := by
  induction called generalizing hub with
  | nil => exact ⟨hub.pollPortID, hub.pollEventFlags, rfl⟩
  | cons call rest ih => exact ih (hub.pollCallback call.1 call.2)

theorem poll_changes (flags : EventFlags) (ready : List Ready) (hub : Hub α) :
    (hub.poll flags ready).Holds (PollChanges hub) := by
  unfold poll
  cases modifyAll flags (hub.ports.entries.map Sigma.snd) hub.poller with
  | ok poller =>
      rw [Outcome.andThen_ok]
      split
      · exact ⟨rfl, rfl⟩
      · obtain ⟨portID, reported, hfields⟩ := foldl_pollCallback
          (callbacks poller ready) { hub with poller := poller }
        rw [hfields]
        exact ⟨rfl, rfl⟩
  | throw error poller => exact ⟨rfl, rfl⟩
  | stuck reason => trivial

end Hub

end Dpn
