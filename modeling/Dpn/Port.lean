import Dpn.Message
import Dpn.Outcome
import Dpn.TextStream

/-!
# Ports

A port owns one ZMQ router socket.  `send` loads the address, an empty frame
and the frames of the messages into one multipart; `receive` reads a multipart
into ten frames, decodes the sender from the first and copies what follows
the empty frame into messages.

A frame built from a message is not copied by ZMQ: it is a reference to the
buffer of the message together with a length, and it is read when the receiver
copies it.
-/

namespace Dpn

open TextStream

/-- The exceptions that reach a caller, by what raises them: `at` and `stoi`,
a thrown `std::runtime_error`, and ZMQ. -/
inductive Exn where
  | outOfRange
  | invalidArgument
  | runtimeError
  | zmqError
  deriving DecidableEq, Repr

inductive Transport where
  | inproc
  | ipc
  | tcp
  deriving DecidableEq, Repr

abbrev PortName := Str
abbrev SocketID := Str

inductive RecvFlags where
  | none
  | dontwait
  deriving DecidableEq, Repr

/-- What a `zmq::message_t` refers to. -/
inductive FrameData (α : Type*) where
  | owned (bytes : List UInt8)
  | shared (message : α) (size : ℕ)
  deriving DecidableEq, Repr

structure WireFrame (α : Type*) where
  data : FrameData α
  more : Bool
  deriving DecidableEq, Repr

/-- A frame as it was handed to ZMQ, with the bytes it had at that moment. -/
structure SentFrame (α : Type*) where
  data : FrameData α
  bytes : List UInt8
  more : Bool
  deriving DecidableEq, Repr

/-- A port with the part of its socket that matters here: whether it is closed,
the routing IDs it has a pipe to, the frames waiting to be received, and the
endpoints it was connected to. -/
structure Port (α : Type*) where
  portName : PortName
  transport : Transport
  socket : ℕ
  closed : Bool
  routes : List SocketID
  incoming : List (WireFrame α)
  connected : List SocketID := []
  connections : List PortName := []
  bindings : List PortName := []

section Frames

variable {α : Type*}

def FrameData.size : FrameData α → ℕ
  | .owned bytes => bytes.length
  | .shared _ size => size

def FrameData.bytes (heap : Heap α) : FrameData α → List UInt8
  | .owned bytes => bytes
  | .shared message size => (heap message).bytes.take size

/-- A multipart on the wire: every frame but the last announces another. -/
def toWire : List (FrameData α) → List (WireFrame α)
  | [] => []
  | [frame] => [⟨frame, false⟩]
  | frame :: next :: rest => ⟨frame, true⟩ :: toWire (next :: rest)

@[simp] theorem FrameData.bytes_owned (heap : Heap α) (bytes : List UInt8) :
    (FrameData.owned bytes).bytes heap = bytes := rfl

theorem FrameData.length_bytes_le (heap : Heap α) (frame : FrameData α) :
    (frame.bytes heap).length ≤ frame.size := by
  cases frame with
  | owned bytes => exact le_refl _
  | shared message size => exact List.length_take_le _ _

@[simp] theorem length_toWire (frames : List (FrameData α)) :
    (toWire frames).length = frames.length := by
  induction frames with
  | nil => rfl
  | cons frame rest ih =>
      cases rest with
      | nil => rfl
      | cons next rest => simpa [toWire] using ih

end Frames

/-! ## Names and socket IDs -/

/-- Only inproc is supported; for the other transports the source asserts, and
yields the empty string where assertions are compiled out. -/
def transportToString : Transport → Str
  | .inproc => [105, 110, 112, 114, 111, 99, 58, 47, 47]
  | .ipc => []
  | .tcp => []

def portNameToSocketID (portName : PortName) (transport : Transport) :
    SocketID :=
  transportToString transport ++ portName

/-- The text between the second and the third slash. -/
def portNameFromSocketID (socketID : SocketID) : PortName :=
  let stream := IStream.ofStr socketID
  let (first, stream) := stream.getline [] 47
  let (second, stream) := stream.getline first 47
  (stream.getline second 47).1

/-- A name without a slash survives the trip through an inproc socket ID. -/
theorem portNameFromSocketID_portNameToSocketID {portName : PortName}
    (hslash : 47 ∉ portName) :
    portNameFromSocketID (portNameToSocketID portName .inproc) = portName := by
  have hscheme : portNameToSocketID portName .inproc =
      [105, 110, 112, 114, 111, 99, 58] ++ 47 :: ([] ++ 47 :: portName) := rfl
  have hfirst : (47 : UInt8) ∉ ([105, 110, 112, 114, 111, 99, 58] : Str) := by
    decide
  rw [portNameFromSocketID, hscheme, IStream.ofStr]
  simp only [getline_append _ hfirst, getline_append _ List.not_mem_nil,
    getline_of_notMem _ hslash]

/-- ZMQ is given an endpoint as a C string. -/
def endpointOf (portName : PortName) (transport : Transport) : SocketID :=
  before 0 (portNameToSocketID portName transport)

/-- ZMQ refuses an endpoint without a scheme or without an address; the only
scheme known here is inproc. -/
def isEndpoint (endpoint : SocketID) : Bool :=
  (transportToString .inproc).isPrefixOf endpoint &&
    (transportToString .inproc).length < endpoint.length

/-! ## Connecting -/

section Connect

variable {α : Type*}

/-- `Port::Connect`: the name is recorded once the socket has taken it.  ZMQ
throws for a closed socket and for a text that is no endpoint. -/
def Port.connect (portName : PortName) (port : Port α) : Outcome Exn (Port α) :=
  let endpoint := endpointOf portName port.transport
  if port.closed = false ∧ isEndpoint endpoint = true then
    .ok { port with
      connected := port.connected ++ [endpoint]
      connections := port.connections ++ [portName] }
  else .throw .zmqError port

/-- `Port::Disconnect`, which only warns of a name that is not recorded. -/
def Port.disconnect (portName : PortName) (port : Port α) :
    Outcome Exn (Port α) :=
  if portName ∈ port.connections then
    let endpoint := endpointOf portName port.transport
    if port.closed = false ∧ endpoint ∈ port.connected then
      .ok { port with
        connected := port.connected.filter (· ≠ endpoint)
        connections := port.connections.erase portName }
    else .throw .zmqError port
  else .ok port

/-- A port with the endpoints its socket is bound to, and those the other
sockets of its context are bound to. -/
structure BoundPort (α : Type*) where
  port : Port α
  bound : List SocketID
  others : List SocketID

/-- `Port::Bind`: the socket is bound under the name of the port, whatever name
is then recorded.  ZMQ throws for an endpoint that is taken in the context. -/
def Port.bind (portName : PortName) (state : BoundPort α) :
    Outcome Exn (BoundPort α) :=
  let endpoint := endpointOf state.port.portName state.port.transport
  if state.port.closed = false ∧ isEndpoint endpoint = true ∧
      endpoint ∉ state.bound ∧ endpoint ∉ state.others then
    .ok { state with
      port := { state.port with bindings := state.port.bindings ++ [portName] }
      bound := state.bound ++ [endpoint] }
  else .throw .zmqError state

/-- `Port::Unbind`, which only warns of a name that is not recorded. -/
def Port.unbind (portName : PortName) (state : BoundPort α) :
    Outcome Exn (BoundPort α) :=
  if portName ∈ state.port.bindings then
    let endpoint := endpointOf portName state.port.transport
    if state.port.closed = false ∧ endpoint ∈ state.bound then
      .ok { state with
        port := { state.port with
          bindings := state.port.bindings.erase portName }
        bound := state.bound.erase endpoint }
    else .throw .zmqError state
  else .ok state

end Connect

/-! ## Sending -/

section Send

variable {α : Type*} [DecidableEq α]

/-- An entry of the queue of frame pointers that `LoadMultipart` fills. -/
inductive FramePtr (α : Type*) where
  | address (bytes : List UInt8)
  | null
  | contents (message : α)

structure SendState (α : Type*) where
  heap : Heap α
  sent : List (SentFrame α)

def loadMultipart (messages : List α) : List (FramePtr α) :=
  .null :: messages.map .contents

/-- `socket_.send` on a router socket with `router_mandatory` set.  The address
of an unknown peer is refused with an exception; an accepted frame leaves its
`message_t` empty. -/
def Port.socketSend (port : Port α) (frame : FramePtr α) (more : Bool)
    (state : SendState α) : Outcome Exn (SendState α) :=
  match frame with
  | .address bytes =>
      if port.closed = false ∧ bytes ∈ port.routes then
        .ok { state with sent := state.sent ++ [⟨.owned bytes, bytes, more⟩] }
      else .throw .zmqError state
  | .null => .ok { state with sent := state.sent ++ [⟨.owned [], [], more⟩] }
  | .contents message =>
      let contents := state.heap message
      .ok ⟨Function.update state.heap message contents.emptied,
        state.sent ++ [⟨.shared message contents.contentsSize,
          contents.frameBytes, more⟩]⟩

def Port.sendData (port : Port α) :
    List (FramePtr α) → SendState α → Outcome Exn (SendState α)
  | [], state => .ok state
  | frame :: rest, state =>
      (port.socketSend frame (!rest.isEmpty) state).andThen id
        (port.sendData rest)

def Port.send (port : Port α) (portName : PortName) (messages : List α)
    (heap : Heap α) : Outcome Exn (SendState α) :=
  port.sendData
    (.address (portNameToSocketID portName port.transport) ::
      loadMultipart messages) ⟨heap, []⟩

/-- The frames of the messages in the order in which ZMQ gets them: a message
listed twice is empty the second time. -/
def handOver : List α → Heap α → List (SentFrame α)
  | [], _ => []
  | message :: rest, heap =>
      ⟨.shared message (heap message).contentsSize, (heap message).frameBytes,
        !rest.isEmpty⟩ ::
        handOver rest (Function.update heap message (heap message).emptied)

def emptyAll (messages : List α) (heap : Heap α) : Heap α :=
  fun address =>
    if address ∈ messages then (heap address).emptied else heap address

@[simp] theorem emptyAll_nil (heap : Heap α) : emptyAll [] heap = heap := by
  funext address
  simp [emptyAll]

theorem emptyAll_cons (message : α) (rest : List α) (heap : Heap α) :
    emptyAll rest (Function.update heap message (heap message).emptied) =
      emptyAll (message :: rest) heap := by
  funext address
  by_cases heq : address = message
  · subst address
    simp [emptyAll, Message.emptied]
  · simp [emptyAll, Function.update, heq]

theorem sendData_contents (port : Port α) (messages : List α)
    (state : SendState α) :
    port.sendData (messages.map .contents) state =
      .ok ⟨emptyAll messages state.heap,
        state.sent ++ handOver messages state.heap⟩ := by
  induction messages generalizing state with
  | nil => simp [Port.sendData, handOver]
  | cons message rest ih =>
      simp only [List.map_cons, Port.sendData, Port.socketSend,
        Outcome.andThen_ok, ih, emptyAll_cons, handOver, List.isEmpty_map,
        List.append_assoc, List.singleton_append]

/-- A reachable peer is sent the address, the empty frame and the frames of the
messages, and every frame but the last announces another. -/
theorem send_of_reachable {port : Port α} {portName : PortName}
    {messages : List α} {heap : Heap α} (hopen : port.closed = false)
    (hroute : portNameToSocketID portName port.transport ∈ port.routes) :
    port.send portName messages heap =
      .ok ⟨emptyAll messages heap,
        ⟨.owned (portNameToSocketID portName port.transport),
          portNameToSocketID portName port.transport, true⟩ ::
        ⟨.owned [], [], !messages.isEmpty⟩ :: handOver messages heap⟩ := by
  simp only [Port.send, loadMultipart, Port.sendData, Port.socketSend, hopen,
    hroute, and_self, if_true, Outcome.andThen_ok, sendData_contents,
    List.isEmpty_map, List.isEmpty_cons, Bool.not_false, List.nil_append,
    List.cons_append]

theorem send_of_unreachable {port : Port α} {portName : PortName}
    {messages : List α} {heap : Heap α}
    (hroute : ¬(port.closed = false ∧
      portNameToSocketID portName port.transport ∈ port.routes)) :
    port.send portName messages heap = .throw .zmqError ⟨heap, []⟩ := by
  simp only [Port.send, Port.sendData, Port.socketSend, hroute, if_false,
    Outcome.andThen_throw, id_eq]

@[simp] theorem length_handOver (messages : List α) (heap : Heap α) :
    (handOver messages heap).length = messages.length := by
  induction messages generalizing heap with
  | nil => rfl
  | cons message rest ih => simp [handOver, ih]

theorem map_data_handOver {messages : List α} {heap : Heap α}
    (hnodup : messages.Nodup) :
    (handOver messages heap).map SentFrame.data =
      messages.map fun message =>
        .shared message (heap message).contentsSize := by
  induction messages generalizing heap with
  | nil => rfl
  | cons message rest ih =>
      obtain ⟨hnotMem, hrest⟩ := List.nodup_cons.mp hnodup
      simp only [handOver, List.map_cons, ih hrest]
      congr 1
      apply List.map_congr_left
      intro other hother
      have hne : other ≠ message := ne_of_mem_of_not_mem hother hnotMem
      simp [Function.update, hne]

/-- The frames carry given bytes exactly if every message exposes them and no
message with something to send is listed twice. -/
theorem map_bytes_handOver_eq_iff {messages : List α} {heap : Heap α}
    {target : α → List UInt8} :
    (handOver messages heap).map SentFrame.bytes = messages.map target ↔
      (∀ message ∈ messages, (heap message).frameBytes = target message) ∧
        ∀ message, 2 ≤ messages.count message → target message = [] := by
  induction messages generalizing heap with
  | nil => simp [handOver]
  | cons message rest ih =>
      have hempty : (heap message).emptied.frameBytes = [] := by
        simp [Message.frameBytes]
      simp only [handOver, List.map_cons, List.cons.injEq, ih]
      constructor
      · rintro ⟨hhead, hrest, hcount⟩
        have hrepeated : message ∈ rest → target message = [] := by
          intro hmem
          have hbytes := hrest message hmem
          rwa [Function.update_self, hempty, eq_comm] at hbytes
        constructor
        · intro other hother
          by_cases heq : other = message
          · exact heq ▸ hhead
          · have hmem : other ∈ rest := by simpa [heq] using hother
            simpa [Function.update, heq] using hrest other hmem
        · intro other hother
          by_cases heq : other = message
          · subst other
            rw [List.count_cons_self] at hother
            exact hrepeated (List.count_pos_iff.mp (by omega))
          · rw [List.count_cons_of_ne (Ne.symm heq)] at hother
            exact hcount other hother
      · rintro ⟨hall, hcount⟩
        refine ⟨hall message (by simp), ?_, ?_⟩
        · intro other hother
          by_cases heq : other = message
          · subst other
            have hpos := List.count_pos_iff.mpr hother
            have htwo : 2 ≤ (message :: rest).count message := by
              rw [List.count_cons_self]
              omega
            rw [Function.update_self, hempty, hcount message htwo]
          · simpa [Function.update, heq] using
              hall other (List.mem_cons_of_mem message hother)
        · intro other hother
          apply hcount other
          exact hother.trans List.count_le_count_cons

end Send

end Dpn
