import Dpn.Hub

/-!
# Peers

A peer sends packages, lists of messages, with a label in front of them.  The
label buffer is one message for all sends and all receives of the peer.
Serviced packages are received into the messages of `recvPackage`: the receive
buffer, until a handler changes this vector, which is handed to it by reference
and never reset.

The trace of a world records what was handed to ZMQ, what was read from it and
which interfaces were called.  No function reads it.
-/

namespace Dpn

open TextStream

/-- Where a message lives.  The label buffers are private to their peers, so a
package, whatever its origin, is made of other messages. -/
inductive Addr (ι : Type*) where
  | label (peer : ι)
  | message (index : ℕ)
  deriving DecidableEq

abbrev Package := List ℕ

structure Peer (ι : Type*) where
  self : ι
  hub : Hub (Addr ι)
  peerID : PeerID
  recvMessage : ℕ
  recvPackage : Package
  messageID : MessageID
  pubMap : Table InterfaceID (List Label)

/-- A call of `SendMessages`: the port it sends from, the port it sends to,
the label it wrote, and what it handed to ZMQ. -/
structure SendRecord (ι : Type*) where
  localPort : PortID
  portName : PortName
  written : Contents
  frames : List (SentFrame (Addr ι))
  deriving DecidableEq

inductive Event (ι : Type*) where
  | sent (record : SendRecord ι)
  | received (destPort : PortID) (package : Package)
      (frames : List (List UInt8))
  | called (interface : InterfaceID) (label : Label)
      (view : List (ℕ × List UInt8))
  deriving DecidableEq

def Event.sent? {ι : Type*} : Event ι → Option (SendRecord ι)
  | .sent record => some record
  | .received _ _ _ => none
  | .called _ _ _ => none

structure World (ι : Type*) where
  heap : Heap (Addr ι)
  peer : Peer ι
  trace : List (Event ι)

namespace World

variable {ι : Type*}

def log (event : Event ι) (world : World ι) : World ι :=
  { world with trace := world.trace ++ [event] }

def withHub (world : World ι) (hub : Hub (Addr ι)) : World ι :=
  { world with peer := { world.peer with hub := hub } }

def withPackage (world : World ι) (package : Package) : World ι :=
  { world with peer := { world.peer with recvPackage := package } }

def labelMessage (world : World ι) : Message :=
  world.heap (.label world.peer.self)

def setMessage [DecidableEq ι] (address : Addr ι) (message : Message)
    (world : World ι) : World ι :=
  { world with heap := Function.update world.heap address message }

theorem setMessage_heap_self [DecidableEq ι] (address : Addr ι)
    (message : Message) (world : World ι) :
    (world.setMessage address message).heap address = message :=
  Function.update_self ..

theorem setMessage_heap_of_ne [DecidableEq ι] {address other : Addr ι}
    {message : Message} {world : World ι} (hne : other ≠ address) :
    (world.setMessage address message).heap other = world.heap other :=
  Function.update_of_ne hne ..

/-- What the pointer to the contents in the label buffer reads. -/
def labelContents (world : World ι) : Contents :=
  Contents.decode (world.labelMessage.bytes.drop world.labelMessage.offset)

def view (world : World ι) (package : Package) : List (ℕ × List UInt8) :=
  package.map fun index =>
    ((world.heap (.message index)).size, (world.heap (.message index)).visible)

def tempPackage (world : World ι) (package : Package) : List (Addr ι) :=
  .label world.peer.self :: package.map .message

def arrive (portID : PortID) (frames : List (WireFrame (Addr ι)))
    (world : World ι) : World ι :=
  world.withHub (world.peer.hub.arrive portID frames)

/-- The frames the next call of `Port::Receive` reads, with the bytes they have
now. -/
def logReceived (destPortID : PortID) (package : Package) (world : World ι) :
    World ι :=
  match (world.peer.hub.findPort destPortID).bind Port.nextMultipart with
  | none => world
  | some frames => world.log (.received destPortID package
      (frames.map fun frame => frame.bytes world.heap))

end World

def peerIDtoHubName (peerID : PeerID) : HubName :=
  toString peerID.toNat

def hubNametoPeerID (hubName : HubName) : Except StoiError PeerID :=
  (stoi hubName).map UInt16.ofInt

def pollEventPresent (flags event : EventFlags) : Bool :=
  flags &&& event == event

namespace Peer

variable {ι : Type*} [DecidableEq ι]

/-- The constructor, with what the two allocations happen to hold; ports are
added later. -/
def construct (self : ι) (peerID : PeerID) (recvMessage : ℕ)
    (labelMemory recvMemory : List UInt8) (heap : Heap (Addr ι)) :
    World ι where
  heap := Function.update
    (Function.update heap (.message recvMessage) (Message.new recvMemory))
    (.label self) ((Message.new labelMemory).resize contentsSizeof 0)
  peer :=
    { self := self
      hub := Hub.new (peerIDtoHubName peerID)
      peerID := peerID
      recvMessage := recvMessage
      recvPackage := [recvMessage]
      messageID := 0
      pubMap := ∅ }
  trace := []

/-! ## Sending -/

/-- `Peer::SendMessages`.  The caller's label becomes one of this peer. -/
def sendMessages (label : Label) (package : Package) (world : World ι) :
    Outcome Exn (Label × World ι) :=
  let self := Addr.label world.peer.self
  let label := label.setPeerID world.peer.peerID .src
  let spec : PortSpecification :=
    ⟨peerIDtoHubName (label.getPeerID .dest), label.getPortID .dest⟩
  let messageID := world.peer.messageID + 1
  let written := { label.contents with messageID := messageID }
  match (world.heap self).memcpy 0 written.encode contentsSizeof with
  | none => .stuck .undefined
  | some labelMessage =>
      (world.peer.hub.send (label.getPortID .src) spec
        (world.tempPackage package)
        (Function.update world.heap self labelMessage)).map fun result =>
          (label,
            { heap := result.heap
              peer := { world.peer with messageID := messageID }
              trace := world.trace ++ [.sent ⟨label.getPortID .src,
                spec.getPortName, written, result.sent⟩] })

def push (label : Label) (package : Package) (world : World ι) :
    Outcome Exn (Label × World ι) :=
  sendMessages label package world

/-- The loop over the stored receipts, which the sends rewrite. -/
def publishLoop (package : Package) :
    List Label → World ι → Outcome Exn (List Label × World ι)
  | [], world => .ok ([], world)
  | receipt :: rest, world =>
      (push receipt package world).andThen
        (fun result => (result.1 :: rest, result.2))
        fun result => (publishLoop package rest result.2).map
          fun final => (result.1 :: final.1, final.2)

def setReceipts (topic : InterfaceID) (receipts : List Label)
    (world : World ι) : World ι :=
  { world with peer := { world.peer with
      pubMap := world.peer.pubMap.insert topic receipts } }

def publish (label : Label) (package : Package) (world : World ι) :
    Outcome Exn (World ι) :=
  match world.peer.pubMap.lookup (label.getInterfaceID .src) with
  | none => .ok world
  | some receipts =>
      (publishLoop package receipts world).map fun final =>
        setReceipts (label.getInterfaceID .src) final.1 final.2

def subscribe (label : Label) (world : World ι) : World ι :=
  match world.peer.pubMap.lookup (label.getInterfaceID .src) with
  | none => setReceipts (label.getInterfaceID .src) [label] world
  | some receipts =>
      setReceipts (label.getInterfaceID .src) (receipts ++ [label]) world

/-! ## Receiving -/

inductive SourceWarning where
  | badPortID
  | badPeerID
  deriving DecidableEq, Repr

/-- The comparison of the label with the sender's name, which at most warns,
but throws where the hub name is no number. -/
def checkSource (labelContents : Contents) (spec : PortSpecification) :
    Except StoiError (Option SourceWarning) :=
  if labelContents.src.portID ≠ spec.portID then .ok (some .badPortID)
  else (hubNametoPeerID spec.hubName).map fun peerID =>
    if labelContents.src.peerID ≠ peerID then some .badPeerID else none

/-- `Peer::ReceiveMessages`.  Without a port, `Hub::Receive` returns at once,
and the port ID of the specification is read without having been set. -/
def receiveMessages (destPortID : PortID) (package : Package)
    (world : World ι) : Outcome Exn (World ι) :=
  match world.peer.hub.findPort destPortID with
  | none => .stuck .undefined
  | some _ =>
      let logged := world.logReceived destPortID package
      let after := fun received : Hub.Reception (Addr ι) =>
        { logged.withHub received.hub with heap := received.heap }
      (Hub.receive destPortID (world.tempPackage package)
        ⟨⟨[], 0⟩, world.peer.hub, world.heap⟩).andThen after
        fun received =>
          match checkSource (after received).labelContents received.portSpec with
          | .ok _ => .ok (after received)
          | .error error => .throw (Exn.ofStoi error) (after received)

def poll (ready : List Hub.Ready) (package : Package) (world : World ι) :
    Outcome Exn (World ι) :=
  (world.peer.hub.poll pollin ready).andThen world.withHub fun hub =>
    if pollEventPresent hub.pollEventFlags pollin then
      receiveMessages hub.pollPortID package (world.withHub hub)
    else .throw .runtimeError (world.withHub hub)

/-- The label is copied out of the label buffer, whatever was received. -/
def getPendingPackage (ready : List Hub.Ready) (package : Package)
    (label : Label) (world : World ι) : Outcome Exn (Label × World ι) :=
  (poll ready package world).andThen (fun world => (label, world))
    fun world => .ok (⟨world.labelContents⟩, world)

/-! ## Requests -/

/-- What happens around one poll of a request: the frames that arrive before
it, the events it reports, and the clock after it. -/
structure Round (ι : Type*) where
  arrivals : List (PortID × List (WireFrame (Addr ι)))
  ready : List Hub.Ready
  now : ℤ

inductive RequestEnd where
  | matched
  | pollThrew
  | deadline
  deriving DecidableEq, Repr

/-- How a request ended, and the timeouts its polls were given. -/
structure Requested (ι : Type*) where
  world : World ι
  polls : List ℤ
  ended : RequestEnd

def Round.arrive (round : Round ι) (world : World ι) : World ι :=
  round.arrivals.foldl (fun world arrival =>
    world.arrive arrival.1 arrival.2) world

/-- The loop of `RequestImpl`; when the rounds are used up, the next poll is
still waiting. -/
def requestLoop (package : Package) (timeout startTime : ℤ) :
    List (Round ι) → ℤ → ℤ → World ι → Outcome Exn (Requested ι)
  | [], _, elapsedTimeout, world =>
      if timeout < elapsedTimeout then .ok ⟨world, [], .deadline⟩
      else .stuck .blocked
  | round :: rounds, currTimeout, elapsedTimeout, world =>
      if timeout < elapsedTimeout then .ok ⟨world, [], .deadline⟩
      else
        match poll round.ready package (round.arrive world) with
        | .stuck reason => .stuck reason
        -- `catch (...)` returns without telling a timeout from a failure.
        | .throw _ polled => .ok ⟨polled, [currTimeout], .pollThrew⟩
        | .ok polled =>
            if polled.labelContents.messageID = polled.peer.messageID then
              .ok ⟨polled, [currTimeout], .matched⟩
            else
              (requestLoop package timeout startTime rounds
                (timeout - (round.now - startTime)) (round.now - startTime)
                polled).map fun result =>
                  { result with polls := currTimeout :: result.polls }

def requestImpl (package : Package) (timeout startTime : ℤ)
    (rounds : List (Round ι)) (world : World ι) : Outcome Exn (Requested ι) :=
  requestLoop package timeout startTime rounds timeout timeout world

def request (label : Label) (sendPackage recvPackage : Package)
    (timeout startTime : ℤ) (rounds : List (Round ι)) (world : World ι) :
    Outcome Exn (Label × World ι) :=
  (push label sendPackage world).andThen id fun result =>
    (requestImpl recvPackage timeout startTime rounds result.2).map
      fun requested => (result.1, requested.world)

/-! ## Interfaces -/

/-- What a user of the peer, or one of its handlers, can make happen: calls on
messages and on the peer, changes of the vector that handlers are given, and the
changes that come from outside, which are arriving frames, another set of ports,
and writes of other peers to their own label buffers. -/
inductive Call (ι : Type*) where
  | resize (message : ℕ) (size offset : ℕ)
  | reset (message : ℕ)
  | write (message : ℕ) (position : ℕ) (source : List UInt8)
  | push (label : Label) (package : Package)
  | publish (label : Label) (package : Package)
  | request (label : Label) (sendPackage recvPackage : Package)
      (timeout startTime : ℤ) (rounds : List (Round ι))
  | getPendingPackage (ready : List Hub.Ready) (package : Package)
      (label : Label)
  | serviceInterfaces (ready : List Hub.Ready)
  | changePackage (package : Package)
  | arrive (portID : PortID) (frames : List (WireFrame (Addr ι)))
  | managePorts (hub : Hub (Addr ι))
  | remote (peer : ι) (labelMessage : Message)

/-- What a handler does: its calls, what it leaves in the label it was given,
and what it returns. -/
structure Script (ι ρ : Type*) where
  calls : List (Call ι)
  label : Label
  result : Except Exn ρ

inductive ReplyStatus where
  | pass (returnPackage : Package)
  | fail
  deriving DecidableEq, Repr

inductive SubscriptionStatus where
  | pass
  | fail
  deriving DecidableEq, Repr

/-- An interface with its handler.  The calls of a handler may depend on all it
can see. -/
inductive Interface (ι : Type*) where
  | pull (handlePull : Label → World ι → Script ι Unit)
  | reply (handleReply : Label → World ι → Script ι ReplyStatus)
  | subscription
      (handleSubscription : Label → World ι → Script ι SubscriptionStatus)

def Script.run {ρ : Type*} (call : Call ι → World ι → Outcome Exn (World ι))
    (script : Script ι ρ) (next : ρ → World ι → Outcome Exn (World ι))
    (world : World ι) : Outcome Exn (World ι) :=
  (Outcome.survive call script.calls world).andThen id fun world =>
    match script.result with
    | .ok result => next result world
    | .error error => .throw error world

def handleIncomingMessage (call : Call ι → World ι → Outcome Exn (World ι)) :
    Interface ι → Label → World ι → Outcome Exn (World ι)
  | .pull handlePull, label, world =>
      (handlePull label world).run call (fun _ world => .ok world) world
  | .reply handleReply, label, world =>
      let script := handleReply label world
      script.run call (fun status world =>
        match status with
        | .pass returnPackage =>
            (push script.label.swap returnPackage world).map Prod.snd
        | .fail => .ok world) world
  | .subscription handleSubscription, label, world =>
      let script := handleSubscription label world
      script.run call (fun status world =>
        match status with
        | .pass => .ok (subscribe script.label.swap world)
        | .fail => .ok world) world

def serviceInterfaces (interfaces : Table InterfaceID (Interface ι))
    (call : Call ι → World ι → Outcome Exn (World ι))
    (ready : List Hub.Ready) (world : World ι) : Outcome Exn (World ι) :=
  match getPendingPackage ready world.peer.recvPackage Label.new world with
  | .stuck reason => .stuck reason
  -- Every exception of the poll is swallowed, and no interface is looked up.
  | .throw _ (_, polled) => .ok polled
  | .ok (label, polled) =>
      match interfaces.lookup (label.getInterfaceID .dest) with
      | none => .ok polled
      | some interface =>
          handleIncomingMessage call interface label
            (polled.log (.called (label.getInterfaceID .dest) label
              (polled.view polled.peer.recvPackage)))

/-- A call outside of `ServiceInterfaces`, and what `ServiceInterfaces` does. -/
def perform
    (service : List Hub.Ready → World ι → Outcome Exn (World ι)) :
    Call ι → World ι → Outcome Exn (World ι)
  | .resize message size offset, world =>
      .ok (world.setMessage (.message message)
        ((world.heap (.message message)).resize size offset))
  | .reset message, world =>
      .ok (world.setMessage (.message message)
        (world.heap (.message message)).reset)
  | .write message position source, world =>
      match (world.heap (.message message)).write position source with
      | none => .stuck .undefined
      | some written => .ok (world.setMessage (.message message) written)
  | .push label package, world => (push label package world).map Prod.snd
  | .publish label package, world => publish label package world
  | .request label sendPackage recvPackage timeout startTime rounds, world =>
      (request label sendPackage recvPackage timeout startTime rounds
        world).map Prod.snd
  | .getPendingPackage ready package label, world =>
      (getPendingPackage ready package label world).map Prod.snd
  | .serviceInterfaces ready, world => service ready world
  | .changePackage package, world => .ok (world.withPackage package)
  | .arrive portID frames, world => .ok (world.arrive portID frames)
  | .managePorts hub, world => .ok (world.withHub hub)
  | .remote peer labelMessage, world =>
      if peer = world.peer.self then .ok world
      else .ok (world.setMessage (.label peer) labelMessage)

/-- All calls, with handlers that may call `ServiceInterfaces` themselves down
to a given depth. -/
def call (interfaces : Table InterfaceID (Interface ι)) :
    ℕ → Call ι → World ι → Outcome Exn (World ι)
  | 0 => perform fun _ _ => .stuck .blocked
  | depth + 1 =>
      perform (serviceInterfaces interfaces (call interfaces depth))

end Peer

end Dpn
