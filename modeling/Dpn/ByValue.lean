import Dpn.ActEffects

/-!
# Packages by value

What a port receives are references to the messages of the sender.  A receiver
does the same as if the bytes had come with the frames: what it does depends on
the messages it knows and on these bytes, and on no other message.
-/

namespace Dpn

/-! ## Tables -/

section Tables

variable {κ γ δ : Type*}

def mapTable (f : γ → δ) (table : Table κ γ) : Table κ δ :=
  ⟨table.entries.map (Sigma.map id fun _ => f), by
    have hkeys := table.nodupKeys
    rw [List.NodupKeys, List.keys] at hkeys
    rwa [List.NodupKeys, List.keys, List.map_map]⟩

variable [DecidableEq κ]

theorem lookup_mapTable (f : γ → δ) (table : Table κ γ) (key : κ) :
    (mapTable f table).lookup key = (table.lookup key).map f :=
  List.dlookup_map₂ key

theorem mapTable_congr {f g : γ → δ} {table : Table κ γ}
    (hsame : ∀ key value, table.lookup key = some value → f value = g value) :
    mapTable f table = mapTable g table := by
  apply AList.ext
  apply List.map_congr_left
  intro entry hentry
  rw [Sigma.map, Sigma.map,
    hsame entry.1 entry.2 (AList.mem_lookup_iff.mpr hentry)]

theorem mapTable_insert (f : γ → δ) (table : Table κ γ) (key : κ) (value : γ) :
    mapTable f (table.insert key value) =
      (mapTable f table).insert key (f value) := by
  apply AList.ext
  have hentries : ∀ other : Table κ γ, (mapTable f other).entries =
      other.entries.map (Sigma.map id fun _ => f) := fun _ => rfl
  rw [AList.entries_insert, hentries, hentries, AList.entries_insert,
    List.map_cons, List.kerase, List.kerase, List.eraseP_map]
  rfl

end Tables

section Hubs

variable {α β : Type*}

/-! ## Heaps -/

section Heaps

variable {known : Set α} {heap other next later : Heap α}

/-- Two heaps after the same was written to known messages of `heap` and of
another one. -/
structure SameWrites (known : Set α) (heap next later : Heap α) : Prop where
  on : Set.EqOn next later known
  off : Set.EqOn heap next knownᶜ

theorem SameWrites.refl (hsame : Set.EqOn heap other known) :
    SameWrites known heap heap other :=
  ⟨hsame, fun _ _ => rfl⟩

theorem SameWrites.trans {final last : Heap α}
    (h : SameWrites known heap next later)
    (hlast : SameWrites known next final last) :
    SameWrites known heap final last :=
  ⟨hlast.on, h.off.trans hlast.off⟩

theorem sameWrites_update [DecidableEq α] (hsame : Set.EqOn heap other known) {address : α}
    (hknown : address ∈ known) (message : Message) :
    SameWrites known heap (Function.update heap address message)
      (Function.update other address message) where
  on := by
    intro own hown
    by_cases heq : own = address
    · subst own
      rw [Function.update_self, Function.update_self]
    · rw [Function.update_of_ne heq, Function.update_of_ne heq]
      exact hsame hown
  off := by
    intro own hown
    have hne : own ≠ address := fun heq => hown (heq ▸ hknown)
    rw [Function.update_of_ne hne]

end Heaps

/-! ## Frames -/

def WireFrame.map (f : FrameData α → FrameData β) (frame : WireFrame α) :
    WireFrame β :=
  ⟨f frame.data, frame.more⟩

def RecvLoop.map (f : FrameData α → FrameData β) : RecvLoop α → RecvLoop β
  | .done rv multiMessage rest =>
      .done rv (multiMessage.map f) (rest.map (WireFrame.map f))
  | .outOfRange rest => .outOfRange (rest.map (WireFrame.map f))
  | .blocked => .blocked

/-- The loop does not look at the frames that it reads. -/
theorem recvLoop_map (f : FrameData α → FrameData β) (flags : RecvFlags)
    (incoming : List (WireFrame α)) (multiMessage : List (FrameData α))
    (idx : ℕ) :
    recvLoop flags idx (multiMessage.map f) (incoming.map (WireFrame.map f)) =
      (recvLoop flags idx multiMessage incoming).map f := by
  induction incoming generalizing multiMessage idx with
  | nil =>
      rw [List.map_nil, recvLoop.eq_def, recvLoop.eq_def]
      dsimp only
      split
      · rfl
      · cases flags <;> rfl
  | cons frame rest ih =>
      have happend : multiMessage.map f ++ [f frame.data] =
          (multiMessage ++ [frame.data]).map f := by
        rw [List.map_append, List.map_singleton]
      rw [List.map_cons, recvLoop, recvLoop, WireFrame.map, happend]
      split
      · rfl
      · split
        · exact ih _ _
        · rfl

theorem forall_of_recvLoop {p : FrameData α → Prop} {flags : RecvFlags}
    {incoming rest : List (WireFrame α)}
    {multiMessage frames : List (FrameData α)} {idx : ℕ} {rv : Bool}
    (hread : ∀ frame ∈ multiMessage, p frame)
    (hincoming : ∀ frame ∈ incoming, p frame.data)
    (hdone : recvLoop flags idx multiMessage incoming =
      .done rv frames rest) : ∀ frame ∈ frames, p frame := by
  induction incoming generalizing multiMessage idx with
  | nil =>
      rw [recvLoop.eq_def] at hdone
      dsimp only at hdone
      split at hdone
      · contradiction
      · cases flags with
        | none => contradiction
        | dontwait =>
            obtain ⟨-, rfl, -⟩ := RecvLoop.done.inj hdone
            exact hread
  | cons frame tail ih =>
      have hnext : ∀ other ∈ multiMessage ++ [frame.data], p other := by
        intro other hother
        rcases List.mem_append.mp hother with hold | hnew
        · exact hread other hold
        · rw [List.mem_singleton.mp hnew]
          exact hincoming frame (by simp)
      rw [recvLoop] at hdone
      split at hdone
      · contradiction
      · split at hdone
        · exact ih hnext (fun other hother =>
            hincoming other (List.mem_cons_of_mem frame hother)) hdone
        · obtain ⟨-, rfl, -⟩ := RecvLoop.done.inj hdone
          exact hnext

section Known

variable (known : Set α) [DecidablePred (· ∈ known)]

/-- The frame with its bytes, if it refers to a message that is not known. -/
def FrameData.byValue (heap : Heap α) : FrameData α → FrameData α
  | .owned bytes => .owned bytes
  | .shared message size =>
      if message ∈ known then .shared message size
      else .owned ((FrameData.shared message size).bytes heap)

def Port.byValue (heap : Heap α) (port : Port α) : Port α :=
  { port with
    incoming := port.incoming.map
      (WireFrame.map (FrameData.byValue known heap)) }

/-- The frame is as long as it announces, which a message that is known need not
be. -/
def FrameData.Sized (heap : Heap α) (frame : FrameData α) : Prop :=
  (frame.byValue known heap).size = frame.size

variable {known} {heap other next later : Heap α}

theorem FrameData.sized_of_whole {frame : FrameData α}
    (hwhole : frame.Whole heap) : frame.Sized known heap := by
  cases frame with
  | owned bytes => rfl
  | shared message size =>
      rw [Sized, byValue]
      split
      · rfl
      · exact hwhole

/-- Bytes are taken from messages only that are not known. -/
theorem FrameData.byValue_congr (hsame : Set.EqOn heap next knownᶜ)
    (frame : FrameData α) :
    frame.byValue known next = frame.byValue known heap := by
  cases frame with
  | owned bytes => rfl
  | shared message size =>
      rw [byValue, byValue]
      split
      · rfl
      · rename_i hunknown
        rw [FrameData.bytes, FrameData.bytes, hsame hunknown]

theorem FrameData.byValue_of_bytes_eq {frame : FrameData α}
    (hbytes : frame.bytes next = frame.bytes heap) :
    frame.byValue known next = frame.byValue known heap := by
  cases frame with
  | owned bytes => rfl
  | shared message size => rw [byValue, byValue, hbytes]

theorem FrameData.bytes_byValue (hsame : Set.EqOn heap other known)
    (frame : FrameData α) :
    (frame.byValue known heap).bytes other = frame.bytes heap := by
  cases frame with
  | owned bytes => rfl
  | shared message size =>
      rw [byValue]
      split
      · rename_i hknown
        rw [FrameData.bytes, FrameData.bytes, hsame hknown]
      · rfl

theorem FrameData.Sized.congr {frame : FrameData α}
    (h : frame.Sized known heap) (hsame : Set.EqOn heap next knownᶜ) :
    frame.Sized known next := by
  rw [Sized, byValue_congr hsame]
  exact h

theorem byValue_funext (hsame : Set.EqOn heap next knownᶜ) :
    FrameData.byValue known next = FrameData.byValue known heap :=
  funext (FrameData.byValue_congr hsame)

/-! ## Storing -/

theorem copyFrame_byValue (hsame : Set.EqOn heap other known) {message : α}
    (hknown : message ∈ known) (bufferOffset : ℕ) {frame : FrameData α}
    (hsized : frame.Sized known heap) :
    copyFrame message bufferOffset (frame.byValue known heap) other =
      copyFrame message bufferOffset frame heap := by
  rw [copyFrame, copyFrame, cpySize, cpySize, hsized,
    FrameData.bytes_byValue hsame, hsame hknown]

variable [DecidableEq α]

theorem copyLoop_byValue (hsame : Set.EqOn heap other known)
    {messages : List α} (hknown : ∀ message ∈ messages, message ∈ known)
    {frames : List (FrameData α)}
    (hsized : ∀ frame ∈ frames, frame.Sized known heap)
    (bufferOffset messageIdx : ℕ) :
    Outcome.Related (ε := Exn) (SameWrites known heap)
      (copyLoop messages frames bufferOffset messageIdx heap)
      (copyLoop messages (frames.map (FrameData.byValue known heap))
        bufferOffset messageIdx other) := by
  induction frames generalizing bufferOffset messageIdx heap other with
  | nil => exact .ok (.refl hsame)
  | cons frame rest ih =>
      rw [List.map_cons, copyLoop, copyLoop]
      cases hmessage : messages[messageIdx]? with
      | none => exact .throw (.refl hsame)
      | some message =>
          have hmem := hknown message (List.mem_of_getElem? hmessage)
          have hframe := hsized frame (by simp)
          dsimp only
          rw [copyFrame_byValue hsame hmem _ hframe, cpySize, cpySize, hframe,
            ← hsame hmem]
          cases copyFrame message bufferOffset frame heap with
          | none => exact .stuck
          | some copied =>
              dsimp only
              generalize copied.resize _ 0 = stored
              have hupdate := sameWrites_update hsame hmem stored
              have hrest : ∀ other ∈ rest, FrameData.Sized known
                  (Function.update heap message stored) other :=
                fun other hother => (hsized other
                  (List.mem_cons_of_mem frame hother)).congr hupdate.off
              rw [← byValue_funext hupdate.off]
              split
              · exact (ih hupdate.on hrest _ _).mono fun _ _ => hupdate.trans
              · exact (ih hupdate.on hrest _ _).mono fun _ _ => hupdate.trans

/-! ## Ports -/

omit [DecidableEq α] in
theorem recvLoop_byValue (heap : Heap α) (flags : RecvFlags) (port : Port α) :
    recvLoop flags 0 [] (port.byValue known heap).incoming =
      (recvLoop flags 0 [] port.incoming).map
        (FrameData.byValue known heap) :=
  recvLoop_map (FrameData.byValue known heap) flags port.incoming [] 0

/-- What two receives of a port leave that reads the same by reference and by
value. -/
structure ReceivedAlike (known : Set α) [DecidablePred (· ∈ known)]
    (heap : Heap α) (received other : ReceiveState α) : Prop where
  portName : other.portName = received.portName
  port : other.port = received.port.byValue known heap
  heap : SameWrites known heap received.heap other.heap

theorem unpack_byValue {state : ReceiveState α}
    (hsame : Set.EqOn state.heap other known) {messages : List α}
    (hknown : ∀ message ∈ messages, message ∈ known)
    {multiMessage : List (FrameData α)}
    (hsized : ∀ frame ∈ multiMessage, frame.Sized known state.heap) :
    Outcome.Related (ReceivedAlike known state.heap)
      (unpack (fun frames heap => copyLoop messages frames 0 0 heap)
        multiMessage state)
      (unpack (fun frames heap => copyLoop messages frames 0 0 heap)
        (multiMessage.map (FrameData.byValue known state.heap))
        ⟨state.portName, state.port.byValue known state.heap, other⟩) := by
  have hstate : ReceivedAlike known state.heap state
      ⟨state.portName, state.port.byValue known state.heap, other⟩ :=
    ⟨rfl, rfl, .refl hsame⟩
  match multiMessage with
  | [] => exact .ok hstate
  | [_] => exact .ok hstate
  | [_, _] => exact .ok hstate
  | socketID :: nextFrame :: content :: contents =>
      simp only [List.map_cons, unpack]
      rw [FrameData.bytes_byValue hsame, FrameData.bytes_byValue hsame]
      split
      · have hcontents : ∀ frame ∈ content :: contents,
            frame.Sized known state.heap := fun frame hframe =>
          hsized frame (List.mem_cons_of_mem _ (List.mem_cons_of_mem _ hframe))
        apply (copyLoop_byValue hsame hknown hcontents 0 0).map
        exact fun next later hwrites => ⟨rfl, rfl, hwrites⟩
      · exact .ok ⟨rfl, rfl, .refl hsame⟩

theorem Port.receive_byValue (hsame : Set.EqOn heap other known)
    {messages : List α} (hknown : ∀ message ∈ messages, message ∈ known)
    (flags : RecvFlags) (portName : PortName) {port : Port α}
    (hsized : ∀ frame ∈ port.incoming, frame.data.Sized known heap) :
    Outcome.Related (ReceivedAlike known heap)
      (Port.receive messages flags ⟨portName, port, heap⟩)
      (Port.receive messages flags
        ⟨portName, port.byValue known heap, other⟩) := by
  have hclosed : (port.byValue known heap).closed = port.closed := rfl
  simp only [Port.receive, receiveWith, hclosed, recvLoop_byValue]
  cases port.closed with
  | true => exact .throw ⟨rfl, rfl, .refl hsame⟩
  | false =>
      simp only [Bool.false_eq_true, if_false]
      cases hread : recvLoop flags 0 [] port.incoming with
      | done rv multiMessage rest =>
          cases rv with
          | true =>
              have hframes := forall_of_recvLoop (by simp) hsized hread
              exact @unpack_byValue _ _ _ _ _
                ⟨portName, { port with incoming := rest }, heap⟩ hsame _ hknown
                _ hframes
          | false => exact .ok ⟨rfl, rfl, .refl hsame⟩
      | outOfRange rest => exact .throw ⟨rfl, rfl, .refl hsame⟩
      | blocked => exact .stuck

omit [DecidableEq α] in
theorem nextMultipart_byValue (heap : Heap α) (port : Port α) :
    (port.byValue known heap).nextMultipart =
      port.nextMultipart.map (·.map (FrameData.byValue known heap)) := by
  have hclosed : (port.byValue known heap).closed = port.closed := rfl
  simp only [Port.nextMultipart, hclosed, recvLoop_byValue]
  cases port.closed with
  | true => rfl
  | false =>
      simp only [Bool.false_eq_true, if_false]
      cases recvLoop .none 0 [] port.incoming with
      | done rv multiMessage rest => cases rv <;> rfl
      | outOfRange rest => rfl
      | blocked => rfl

/-- What two sends hand to ZMQ and leave that see the same messages. -/
structure SentAlike (known : Set α) (heap : Heap α)
    (state other : SendState α) : Prop where
  sent : other.sent = state.sent
  heap : SameWrites known heap state.heap other.heap

/-- The pointers are to known messages. -/
def FramePtr.Known (known : Set α) : FramePtr α → Prop
  | .address _ => True
  | .null => True
  | .contents message => message ∈ known

omit [DecidablePred (· ∈ known)] in
theorem sendData_sameWrites {port otherPort : Port α}
    (hclosed : otherPort.closed = port.closed)
    (hroutes : otherPort.routes = port.routes) {frames : List (FramePtr α)}
    (hknown : ∀ frame ∈ frames, frame.Known known) {state later : SendState α}
    (h : SentAlike known heap state later) :
    Outcome.Related (SentAlike known heap) (port.sendData frames state)
      (otherPort.sendData frames later) := by
  induction frames generalizing state later with
  | nil => exact .ok h
  | cons frame rest ih =>
      have hsent : ∀ sent : SentFrame α,
          later.sent ++ [sent] = state.sent ++ [sent] :=
        fun sent => congrArg (· ++ [sent]) h.sent
      rw [Port.sendData, Port.sendData]
      apply Outcome.Related.andThen (r := SentAlike known heap) ?_
        (fun _ _ hstate => hstate)
        fun _ _ hstate => ih (fun other hother =>
          hknown other (List.mem_cons_of_mem frame hother)) hstate
      cases frame with
      | address bytes =>
          rw [Port.socketSend, Port.socketSend, hclosed, hroutes]
          split
          · exact .ok ⟨hsent _, h.heap⟩
          · exact .throw h
      | null => exact .ok ⟨hsent _, h.heap⟩
      | contents message =>
          have hmem : message ∈ known := hknown (.contents message) (by simp)
          have hupdate := sameWrites_update h.heap.on hmem
            (state.heap message).emptied
          rw [Port.socketSend, Port.socketSend, ← h.heap.on hmem]
          exact .ok ⟨hsent _, h.heap.trans hupdate⟩

theorem Port.send_byValue (hsame : Set.EqOn heap other known)
    {messages : List α} (hknown : ∀ message ∈ messages, message ∈ known)
    (port : Port α) (unknown : Heap α) (portName : PortName) :
    Outcome.Related (SentAlike known heap) (port.send portName messages heap)
      ((port.byValue known unknown).send portName messages other) := by
  have hframes : ∀ frame ∈ .address
      (portNameToSocketID portName port.transport) :: loadMultipart messages,
      FramePtr.Known known frame := by
    intro frame hframe
    rcases List.mem_cons.mp hframe with rfl | hframe
    · trivial
    rcases List.mem_cons.mp hframe with rfl | hframe
    · trivial
    obtain ⟨message, hmessage, rfl⟩ := List.mem_map.mp hframe
    exact hknown message hmessage
  have hstart : SentAlike known heap ⟨heap, []⟩ ⟨other, []⟩ :=
    ⟨rfl, .refl hsame⟩
  have hclosed : (port.byValue known unknown).closed = port.closed := rfl
  have hroutes : (port.byValue known unknown).routes = port.routes := rfl
  exact sendData_sameWrites hclosed hroutes hframes hstart

/-! ## Hubs -/

omit [DecidableEq α] in
theorem byValue_port_congr (hsame : Set.EqOn heap next knownᶜ) (port : Port α) :
    port.byValue known next = port.byValue known heap := by
  rw [Port.byValue, Port.byValue, byValue_funext hsame]

namespace Hub

variable (known) in
def byValue (heap : Heap α) (hub : Hub α) : Hub α :=
  { hub with ports := mapTable (Port.byValue known heap) hub.ports }

omit [DecidableEq α] in
theorem byValue_congr (hsame : Set.EqOn heap next knownᶜ) (hub : Hub α) :
    hub.byValue known next = hub.byValue known heap := by
  have hports : Port.byValue known next = Port.byValue known heap :=
    funext (byValue_port_congr hsame)
  rw [byValue, byValue, hports]

omit [DecidableEq α] in
theorem byValue_of_bytes_eq {hub : Hub α}
    (hbytes : ∀ portID port, hub.findPort portID = some port →
      ∀ frame ∈ port.incoming, frame.data.bytes next = frame.data.bytes heap) :
    hub.byValue known next = hub.byValue known heap := by
  rw [byValue, byValue, mapTable_congr]
  intro portID port hport
  have hincoming : port.incoming.map
      (WireFrame.map (FrameData.byValue known next)) =
        port.incoming.map (WireFrame.map (FrameData.byValue known heap)) := by
    apply List.map_congr_left
    intro frame hframe
    rw [WireFrame.map, WireFrame.map, FrameData.byValue_of_bytes_eq
      (hbytes portID port hport frame hframe)]
  rw [Port.byValue, Port.byValue, hincoming]

omit [DecidableEq α] in
theorem findPort_byValue (heap : Heap α) (hub : Hub α) (portID : PortID) :
    (hub.byValue known heap).findPort portID =
      (hub.findPort portID).map (Port.byValue known heap) :=
  lookup_mapTable _ _ _

omit [DecidableEq α] in
theorem byValue_setPort (heap : Heap α) (hub : Hub α) (portID : PortID)
    (port : Port α) :
    (hub.setPort portID port).byValue known heap =
      (hub.byValue known heap).setPort portID (port.byValue known heap) := by
  rw [setPort, setPort, byValue, byValue, mapTable_insert]

omit [DecidableEq α] in
theorem byValue_arrive (heap : Heap α) (hub : Hub α) (portID : PortID)
    (frames : List (WireFrame α)) :
    (hub.arrive portID frames).byValue known heap =
      (hub.byValue known heap).arrive portID
        (frames.map (WireFrame.map (FrameData.byValue known heap))) := by
  rw [arrive, arrive, findPort_byValue]
  cases hub.findPort portID with
  | none => rfl
  | some port =>
      rw [Option.map_some, byValue_setPort]
      simp only [Port.byValue, List.map_append]

omit [DecidableEq α] in
theorem modifyAll_byValue (heap : Heap α) (flags : EventFlags)
    (ports : List (Port α)) (poller : List PollerEntry) :
    modifyAll flags (ports.map (Port.byValue known heap)) poller =
      modifyAll flags ports poller := by
  induction ports generalizing poller with
  | nil => rfl
  | cons port rest ih =>
      have hmodify : modify poller (port.byValue known heap) flags =
          modify poller port flags := rfl
      rw [List.map_cons, modifyAll, modifyAll, hmodify]
      cases modify poller port flags with
      | none => rfl
      | some next => exact ih next

omit [DecidableEq α] in
theorem foldl_pollCallback_byValue (heap : Heap α)
    (called : List (PortID × EventFlags)) (hub : Hub α) :
    called.foldl (fun hub call => hub.pollCallback call.1 call.2)
        (hub.byValue known heap) =
      (called.foldl (fun hub call => hub.pollCallback call.1 call.2)
        hub).byValue known heap := by
  induction called generalizing hub with
  | nil => rfl
  | cons call rest ih => exact ih (hub.pollCallback call.1 call.2)

omit [DecidableEq α] in
/-- A poll does not look at what the ports are to receive. -/
theorem poll_byValue (heap : Heap α) (flags : EventFlags) (ready : List Ready)
    (hub : Hub α) :
    (hub.byValue known heap).poll flags ready =
      (hub.poll flags ready).map (byValue known heap) := by
  have hports : (hub.byValue known heap).ports.entries.map Sigma.snd =
      (hub.ports.entries.map Sigma.snd).map (Port.byValue known heap) := by
    rw [byValue, mapTable, List.map_map, List.map_map]
    rfl
  have hpoller : (hub.byValue known heap).poller = hub.poller := rfl
  rw [poll, poll, hports, modifyAll_byValue, hpoller]
  cases modifyAll flags (hub.ports.entries.map Sigma.snd) hub.poller with
  | ok poller =>
      simp only [Outcome.andThen_ok]
      cases callbacks poller ready with
      | nil => rfl
      | cons call rest =>
          exact congrArg Outcome.ok (foldl_pollCallback_byValue heap _
            { hub with poller := poller })
  | throw error poller => rfl
  | stuck reason => rfl

theorem send_byValue (hsame : Set.EqOn heap other known) {messages : List α}
    (hknown : ∀ message ∈ messages, message ∈ known) (hub : Hub α)
    (unknown : Heap α) (localPortID : PortID) (portSpec : PortSpecification) :
    Outcome.Related (SentAlike known heap)
      (hub.send localPortID portSpec messages heap)
      ((hub.byValue known unknown).send localPortID portSpec messages other) := by
  rw [Hub.send, Hub.send, findPort_byValue]
  cases hub.findPort localPortID with
  | none => exact .ok ⟨rfl, .refl hsame⟩
  | some port => exact Port.send_byValue hsame hknown port unknown _

/-- What two receives of a hub leave that reads the same by reference and by
value. -/
structure ReceptionAlike (known : Set α) [DecidablePred (· ∈ known)]
    (heap : Heap α) (reception other : Reception α) : Prop where
  portSpec : other.portSpec = reception.portSpec
  hub : other.hub = reception.hub.byValue known heap
  heap : SameWrites known heap reception.heap other.heap

theorem receive_byValue (hsame : Set.EqOn heap other known) {messages : List α}
    (hknown : ∀ message ∈ messages, message ∈ known) {hub : Hub α}
    {localPortID : PortID} (portSpec : PortSpecification)
    (hsized : ∀ port, hub.findPort localPortID = some port →
      ∀ frame ∈ port.incoming, frame.data.Sized known heap) :
    Outcome.Related (ReceptionAlike known heap)
      (Hub.receive localPortID messages ⟨portSpec, hub, heap⟩)
      (Hub.receive localPortID messages
        ⟨portSpec, hub.byValue known heap, other⟩) := by
  rw [Hub.receive, Hub.receive]
  dsimp only
  rw [findPort_byValue]
  cases hport : hub.findPort localPortID with
  | none => exact .ok ⟨rfl, rfl, .refl hsame⟩
  | some port =>
      have hset : ∀ received later : ReceiveState α,
          ReceivedAlike known heap received later →
          (hub.byValue known heap).setPort localPortID later.port =
            (hub.setPort localPortID received.port).byValue known heap := by
        intro received later hreceived
        rw [hreceived.port, byValue_setPort]
      apply (Port.receive_byValue hsame hknown .none [] (hsized port hport)).andThen
      · intro received later hreceived
        exact ⟨rfl, hset received later hreceived, hreceived.heap⟩
      · intro received later hreceived
        rw [hreceived.portName]
        apply (Outcome.Related.refl (fun _ => rfl)
          (portSpec.setPortName received.portName)).map
        rintro spec _ rfl
        exact ⟨rfl, hset received later hreceived, hreceived.heap⟩

end Hub

end Known

end Hubs

/-! ## Worlds -/

variable {ι : Type*}

namespace World

/-- The second world holds the known messages as the first one does, and its
ports are to receive the same by value. -/
structure ByValue (known : Set (Addr ι)) [DecidablePred (· ∈ known)]
    (world other : World ι) : Prop where
  heap : Set.EqOn world.heap other.heap known
  peer : other.peer =
    { world.peer with hub := world.peer.hub.byValue known world.heap }
  trace : other.trace = world.trace

variable {known : Set (Addr ι)} [DecidablePred (· ∈ known)]
  {world other : World ι}

/-- The worlds that an act leaves read the same, and the messages that are not
known are left alone. -/
structure ByValueAfter (known : Set (Addr ι)) [DecidablePred (· ∈ known)]
    (heap : Heap (Addr ι)) (next later : World ι) : Prop where
  worlds : ByValue known next later
  off : Set.EqOn heap next.heap knownᶜ

theorem ByValue.after {next later : World ι}
    (h : ByValue known next later) :
    ByValueAfter known next.heap next later :=
  ⟨h, fun _ _ => rfl⟩

theorem ByValue.withHub (h : ByValue known world other) (hub : Hub (Addr ι)) :
    ByValue known (world.withHub hub)
      (other.withHub (hub.byValue known world.heap)) where
  heap := h.heap
  peer := by rw [World.withHub, World.withHub, h.peer]
  trace := h.trace

theorem ByValue.log (h : ByValue known world other) (event : Event ι) :
    ByValue known (world.log event) (other.log event) :=
  ⟨h.heap, h.peer, congrArg (· ++ [event]) h.trace⟩

theorem ByValue.withHeap (h : ByValue known world other)
    {heap later : Heap (Addr ι)}
    (hwrites : SameWrites known world.heap heap later) :
    ByValue known { world with heap := heap } { other with heap := later } where
  heap := hwrites.on
  peer := by
    dsimp only
    rw [h.peer, Hub.byValue_congr hwrites.off]
  trace := h.trace

theorem ByValue.tempPackage (h : ByValue known world other)
    (package : Package) :
    other.tempPackage package = world.tempPackage package := by
  rw [World.tempPackage, World.tempPackage, h.peer]

theorem ByValue.labelContents (h : ByValue known world other)
    (hlabel : .label world.peer.self ∈ known) :
    other.labelContents = world.labelContents := by
  rw [World.labelContents, World.labelContents, labelMessage, labelMessage,
    h.peer, h.heap hlabel]

theorem ByValue.logReceived (h : ByValue known world other)
    (destPortID : PortID) (package : Package) :
    ByValue known (world.logReceived destPortID package)
      (other.logReceived destPortID package) := by
  have hport : other.peer.hub.findPort destPortID =
      (world.peer.hub.findPort destPortID).map
        (Port.byValue known world.heap) := by
    rw [h.peer]
    exact Hub.findPort_byValue _ _ _
  rw [World.logReceived, World.logReceived, hport]
  cases world.peer.hub.findPort destPortID with
  | none => exact h
  | some port =>
      rw [Option.map_some, Option.bind_some, Option.bind_some,
        nextMultipart_byValue]
      cases port.nextMultipart with
      | none => exact h
      | some frames =>
          have hbytes : (frames.map (FrameData.byValue known world.heap)).map
              (fun frame => frame.bytes other.heap) =
                frames.map fun frame => frame.bytes world.heap := by
            rw [List.map_map]
            exact List.map_congr_left fun frame _ =>
              FrameData.bytes_byValue h.heap frame
          rw [Option.map_some]
          dsimp only
          rw [hbytes]
          exact h.log _

end World

/-! ## Acts -/

namespace Peer

variable {known : Set (Addr ι)} [DecidablePred (· ∈ known)]

variable (known) in
/-- The act as it is when frames are by value. -/
def Act.byValue (heap : Heap (Addr ι)) : Act ι → Act ι
  | .arrive portID frames => .arrive portID
      (frames.map (WireFrame.map (FrameData.byValue known heap)))
  | .managePorts hub => .managePorts (hub.byValue known heap)
  | single => single

/-- The messages that the act names are known. -/
def Act.Names (known : Set (Addr ι)) : Act ι → Prop
  | .send _ package => ∀ message ∈ package, .message message ∈ known
  | .poll _ package => ∀ message ∈ package, .message message ∈ known
  | .resize message _ _ => .message message ∈ known
  | .reset message => .message message ∈ known
  | .write message _ _ => .message message ∈ known
  | .remote peer _ => .label peer ∈ known
  | _ => True

/-- No frame that waits at a port is shorter than it announces. -/
def QueuesSized (known : Set (Addr ι)) [DecidablePred (· ∈ known)]
    (world : World ι) : Prop :=
  ∀ portID port, world.peer.hub.findPort portID = some port →
    ∀ frame ∈ port.incoming, frame.data.Sized known world.heap

omit [DecidablePred (· ∈ known)] in
theorem tempPackage_known {world : World ι}
    (hlabel : .label world.peer.self ∈ known) {package : Package}
    (hnames : ∀ message ∈ package, .message message ∈ known) :
    ∀ address ∈ world.tempPackage package, address ∈ known := by
  intro address haddress
  rcases List.mem_cons.mp haddress with rfl | hmessage
  · exact hlabel
  · obtain ⟨message, hmem, rfl⟩ := List.mem_map.mp hmessage
    exact hnames message hmem

variable [DecidableEq ι] {world other : World ι}

theorem sendMessages_byValue (h : world.ByValue known other)
    (hlabel : .label world.peer.self ∈ known) (label : Label)
    {package : Package}
    (hnames : ∀ message ∈ package, .message message ∈ known) :
    Outcome.Related
      (fun result later => later.1 = result.1 ∧
        World.ByValueAfter known world.heap result.2 later.2)
      (sendMessages label package world)
      (sendMessages label package other) := by
  have hknown := tempPackage_known hlabel hnames
  simp only [sendMessages]
  rw [h.tempPackage, h.peer, h.trace]
  dsimp only
  rw [← h.heap hlabel]
  cases (world.heap (.label world.peer.self)).memcpy 0 _ contentsSizeof with
  | none => exact .stuck
  | some labelMessage =>
      have hwrites := sameWrites_update h.heap hlabel labelMessage
      dsimp only
      apply (Hub.send_byValue hwrites.on hknown world.peer.hub world.heap _
        _).map
      intro sent later hsent
      rw [hsent.sent]
      have hboth := hwrites.trans hsent.heap
      refine ⟨rfl, ⟨hboth.on, ?_, rfl⟩, hboth.off⟩
      dsimp only
      rw [Hub.byValue_congr hboth.off]

theorem receiveMessages_byValue (h : world.ByValue known other)
    (hlabel : .label world.peer.self ∈ known) (destPortID : PortID)
    {package : Package}
    (hnames : ∀ message ∈ package, .message message ∈ known)
    (hsized : QueuesSized known world) :
    Outcome.Related (World.ByValueAfter known world.heap)
      (receiveMessages destPortID package world)
      (receiveMessages destPortID package other) := by
  have hknown := tempPackage_known hlabel hnames
  have hport : other.peer.hub.findPort destPortID =
      (world.peer.hub.findPort destPortID).map
        (Port.byValue known world.heap) := by
    rw [h.peer]
    exact Hub.findPort_byValue _ _ _
  have hlogged := h.logReceived destPortID package
  rw [receiveMessages, receiveMessages, hport]
  cases world.peer.hub.findPort destPortID with
  | none => exact .stuck
  | some port =>
      have hheap : (world.logReceived destPortID package).heap = world.heap := by
        rw [World.logReceived]
        split <;> rfl
      have hafter : ∀ received later : Hub.Reception (Addr ι),
          Hub.ReceptionAlike known world.heap received later →
          World.ByValueAfter known world.heap
            { (world.logReceived destPortID package).withHub received.hub with
              heap := received.heap }
            { (other.logReceived destPortID package).withHub later.hub with
              heap := later.heap } := by
        intro received later hsame
        rw [hsame.hub]
        have hhub := hlogged.withHub received.hub
        rw [hheap] at hhub
        exact ⟨hhub.withHeap (hheap ▸ hsame.heap), hsame.heap.off⟩
      dsimp only [Option.map_some]
      have hreceive := Hub.receive_byValue h.heap hknown ⟨[], 0⟩
        (hsized destPortID)
      rw [h.tempPackage, h.peer]
      apply hreceive.andThen hafter
      intro received later hsame
      have hworlds := hafter received later hsame
      have hself : ((world.logReceived destPortID package).withHub
          received.hub).peer.self = world.peer.self := by
        rw [World.logReceived]
        split <;> rfl
      rw [hworlds.worlds.labelContents (by rw [← hself] at hlabel; exact hlabel),
        hsame.portSpec]
      generalize checkSource _ received.portSpec = checked
      cases checked with
      | ok warning => exact .ok hworlds
      | error error => exact .throw hworlds

theorem poll_byValue (h : world.ByValue known other)
    (hlabel : .label world.peer.self ∈ known) (ready : List Hub.Ready)
    {package : Package}
    (hnames : ∀ message ∈ package, .message message ∈ known)
    (hsized : QueuesSized known world) :
    Outcome.Related (World.ByValueAfter known world.heap) (poll ready package world)
      (poll ready package other) := by
  have hhub : other.peer.hub = world.peer.hub.byValue known world.heap := by
    rw [h.peer]
  rw [poll, poll, hhub, Hub.poll_byValue]
  have hchanges := Hub.poll_changes pollin ready world.peer.hub
  cases hpoll : world.peer.hub.poll pollin ready with
  | throw error hub =>
      exact .throw (h.withHub hub).after
  | stuck reason => exact .stuck
  | ok hub =>
      rw [hpoll] at hchanges
      have hflags : (hub.byValue known world.heap).pollEventFlags =
          hub.pollEventFlags := rfl
      have hportID : (hub.byValue known world.heap).pollPortID =
          hub.pollPortID := rfl
      rw [Outcome.map_ok, Outcome.andThen_ok, Outcome.andThen_ok, hflags, hportID]
      split
      · have hstill : QueuesSized known (world.withHub hub) := by
          intro portID port hport
          exact hsized portID port ((findPort_of_poll hchanges _).symm.trans hport)
        exact receiveMessages_byValue (h.withHub hub) hlabel _ hnames hstill
      · exact .throw (h.withHub hub).after

theorem setMessage_byValue (h : world.ByValue known other) {address : Addr ι}
    (haddress : address ∈ known) (message : Message) :
    World.ByValueAfter known world.heap (world.setMessage address message)
      (other.setMessage address message) := by
  have hwrites := sameWrites_update h.heap haddress message
  exact ⟨h.withHeap hwrites, hwrites.off⟩

omit [DecidableEq ι] in
theorem setReceipts_byValue (h : world.ByValue known other)
    (topic : InterfaceID) (receipts : List Label) :
    World.ByValueAfter known world.heap (setReceipts topic receipts world)
      (setReceipts topic receipts other) := by
  refine ⟨⟨h.heap, ?_, h.trace⟩, fun _ _ => rfl⟩
  rw [setReceipts, setReceipts, h.peer]

omit [DecidableEq ι] in
theorem withPackage_byValue (h : world.ByValue known other)
    (package : Package) :
    World.ByValueAfter known world.heap (world.withPackage package)
      (other.withPackage package) := by
  refine ⟨⟨h.heap, ?_, h.trace⟩, fun _ _ => rfl⟩
  rw [World.withPackage, World.withPackage, h.peer]

/-- An act on known messages does the same by reference and by value, and leaves
all other messages alone. -/
theorem act_byValue (h : world.ByValue known other)
    (hlabel : .label world.peer.self ∈ known) {single : Act ι}
    (hnames : single.Names known) (hsized : QueuesSized known world) :
    Outcome.Related (World.ByValueAfter known world.heap) (act single world)
      (act (single.byValue known world.heap) other) := by
  cases single with
  | send label package =>
      exact (sendMessages_byValue h hlabel label hnames).map
        fun _ _ hsent => hsent.2
  | poll ready package => exact poll_byValue h hlabel ready hnames hsized
  | receipts topic receipts => exact .ok (setReceipts_byValue h topic receipts)
  | subscribe label =>
      dsimp only [Act.byValue]
      rw [act, act, subscribe_eq_setReceipts,
        subscribe_eq_setReceipts, h.peer]
      exact .ok (setReceipts_byValue h _ _)
  | called interfaceID label view =>
      exact .ok (h.log _).after
  | resize message size offset =>
      dsimp only [Act.byValue]
      rw [act, act, ← h.heap hnames]
      exact .ok (setMessage_byValue h hnames _)
  | reset message =>
      dsimp only [Act.byValue]
      rw [act, act, ← h.heap hnames]
      exact .ok (setMessage_byValue h hnames _)
  | write message position source =>
      dsimp only [Act.byValue]
      rw [act, act, ← h.heap hnames]
      cases (world.heap (.message message)).write position source with
      | none => exact .stuck
      | some written => exact .ok (setMessage_byValue h hnames written)
  | changePackage package => exact .ok (withPackage_byValue h package)
  | arrive portID frames =>
      have hhub : other.peer.hub = world.peer.hub.byValue known world.heap := by
        rw [h.peer]
      dsimp only [Act.byValue]
      rw [act, act, World.arrive, World.arrive, hhub,
        ← Hub.byValue_arrive]
      exact .ok (h.withHub (world.peer.hub.arrive portID frames)).after
  | managePorts hub => exact .ok (h.withHub hub).after
  | remote peer labelMessage =>
      have hself : other.peer.self = world.peer.self := by
        rw [h.peer]
      dsimp only [Act.byValue]
      rw [act, act, hself]
      split
      · exact .ok h.after
      · exact .ok (setMessage_byValue h hnames labelMessage)

end Peer

end Dpn
