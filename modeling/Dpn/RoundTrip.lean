import Dpn.Bounds

/-!
# Send and receive round trip

What one port sends, another port takes apart again.  ZMQ replaces the address
at the front of a multipart by the routing ID of the sending socket; the body
frames still refer to the buffers of the sender, which have to be as they were
when the frames are read.
-/

namespace Dpn

open TextStream

variable {α : Type*}

/-- A multipart as it arrives: the address has become the routing ID of the
sender. -/
def deliver (routingID : SocketID) :
    List (SentFrame α) → List (WireFrame α)
  | [] => []
  | address :: rest =>
      ⟨.owned routingID, address.more⟩ ::
        rest.map fun frame => ⟨frame.data, frame.more⟩

/-- An accepted `resize` with offset zero, and no send since. -/
structure Message.Resized (message : Message) : Prop where
  offset : message.offset = 0
  contentsSize : message.contentsSize = message.size
  fits : message.size ≤ message.capacity

theorem Message.resized_resize {message : Message} {size : ℕ}
    (hfits : size ≤ message.capacity) : (message.resize size 0).Resized := by
  rw [Message.resize_of_le (by simpa using hfits)]
  exact ⟨rfl, rfl, hfits⟩

theorem Message.Resized.frameBytes {message : Message}
    (h : message.Resized) : message.frameBytes = message.visible := by
  rw [Message.frameBytes, Message.visible, h.offset, h.contentsSize,
    List.drop_zero]

/-- The sent frames are one multipart: the address, an empty frame, the bodies
in order, and the flag `ZMQ_SNDMORE` on all but the last. -/
structure IsMultipart (address : SocketID) (bodies : List (List UInt8))
    (sent : List (SentFrame α)) : Prop where
  bytes : sent.map SentFrame.bytes = address :: [] :: bodies
  more : sent.map SentFrame.more =
    List.replicate (bodies.length + 1) true ++ [false]

def bodies (heap : Heap α) (messages : List α) : List (List UInt8) :=
  messages.map fun message => (heap message).visible

section RoundTrip

variable [DecidableEq α]

theorem map_more_handOver {messages : List α} (hmessages : messages ≠ [])
    (heap : Heap α) :
    (handOver messages heap).map SentFrame.more =
      List.replicate (messages.length - 1) true ++ [false] := by
  induction messages generalizing heap with
  | nil => contradiction
  | cons message rest ih =>
      cases rest with
      | nil => rfl
      | cons next rest =>
          have hrest := ih (by simp)
            (Function.update heap message (heap message).emptied)
          rw [handOver, List.map_cons, hrest]
          rfl

theorem map_handOver_eq_toWire (messages : List α) (heap : Heap α) :
    ((handOver messages heap).map fun frame =>
        WireFrame.mk frame.data frame.more) =
      toWire ((handOver messages heap).map SentFrame.data) := by
  induction messages generalizing heap with
  | nil => rfl
  | cons message rest ih =>
      have hrest :=
        ih (Function.update heap message (heap message).emptied)
      cases rest with
      | nil => rfl
      | cons next rest =>
          rw [handOver, List.map_cons, hrest]
          rfl

/-- Distinct messages put their frames on the wire in order. -/
theorem deliver_send {address routingID : SocketID} {messages : List α}
    {heap : Heap α} (hmessages : messages ≠ []) (hnodup : messages.Nodup)
    (hresized : ∀ message ∈ messages, (heap message).Resized) :
    deliver routingID (⟨.owned address, address, true⟩ ::
        ⟨.owned [], [], !messages.isEmpty⟩ :: handOver messages heap) =
      toWire (.owned routingID :: .owned [] ::
        messages.map fun message => .shared message (heap message).size) := by
  obtain ⟨message, rest, rfl⟩ := List.exists_cons_of_ne_nil hmessages
  have hdata : (handOver (message :: rest) heap).map SentFrame.data =
      (message :: rest).map fun message =>
        .shared message (heap message).size := by
    rw [map_data_handOver hnodup]
    apply List.map_congr_left
    intro other hother
    rw [(hresized other hother).contentsSize]
  rw [deliver, List.map_cons, map_handOver_eq_toWire, hdata]
  rfl

theorem isMultipart_handOver (address : SocketID) {messages : List α}
    (heap : Heap α) (hmessages : messages ≠ []) :
    IsMultipart address ((handOver messages heap).map SentFrame.bytes)
      (⟨.owned address, address, true⟩ ::
        ⟨.owned [], [], !messages.isEmpty⟩ :: handOver messages heap) where
  bytes := rfl
  more := by
    obtain ⟨message, rest, rfl⟩ := List.exists_cons_of_ne_nil hmessages
    rw [List.map_cons, List.map_cons, map_more_handOver hmessages,
      List.length_map, length_handOver]
    rfl

theorem map_bytes_handOver_of_resized {messages : List α} {heap : Heap α}
    (hnodup : messages.Nodup)
    (hresized : ∀ message ∈ messages, (heap message).Resized) :
    (handOver messages heap).map SentFrame.bytes = bodies heap messages := by
  apply map_bytes_handOver_eq_iff.mpr
  constructor
  · intro message hmessage
    exact (hresized message hmessage).frameBytes
  · intro message htwice
    have honce := List.nodup_iff_count_le_one.mp hnodup message
    omega

/-! ## The frames when they are read -/

omit [DecidableEq α] in
theorem bytes_of_unwritten {messages : List α} {heap later : Heap α}
    (hresized : ∀ message ∈ messages, (heap message).Resized)
    (hunwritten : ∀ message ∈ messages,
      (later message).bytes = (heap message).bytes)
    {message : α} (hmessage : message ∈ messages) :
    (FrameData.shared message (heap message).size).bytes later =
        (heap message).visible ∧
      (FrameData.shared message (heap message).size).Whole later := by
  have h := hresized message hmessage
  have hbytes : (FrameData.shared message (heap message).size).bytes later =
      (heap message).bytes.take (heap message).size := by
    rw [FrameData.bytes, hunwritten message hmessage]
  constructor
  · rw [hbytes, Message.visible, h.offset, List.drop_zero]
  · rw [FrameData.Whole, hbytes, List.length_take, (heap message).bytes_length]
    exact Nat.min_eq_left h.fits

omit [DecidableEq α] in
theorem payload_share_of_unwritten {messages : List α} {heap later : Heap α}
    (hresized : ∀ message ∈ messages, (heap message).Resized)
    (hunwritten : ∀ message ∈ messages,
      (later message).bytes = (heap message).bytes) (count i : ℕ) :
    payload later (share count (messages.map fun message =>
        .shared message (heap message).size) i) =
      (share count (bodies heap messages) i).flatten := by
  rw [bodies, share_map, share_map, payload, List.flatMap_def, List.map_map]
  congr 1
  apply List.map_congr_left
  intro message hmessage
  exact (bytes_of_unwritten hresized hunwritten (mem_of_mem_share hmessage)).1

/-- Each message but the last has room for its body, and the last one for the
bodies that are left. -/
structure Fits (bodies : List (List UInt8)) (receivers : List α)
    (heap : Heap α) : Prop where
  each : ∀ i message body, i + 1 < receivers.length →
    receivers[i]? = some message → bodies[i]? = some body →
    body.length ≤ (heap message).capacity
  last : ∀ message, receivers.getLast? = some message →
    (bodies.drop (receivers.length - 1)).flatten.length ≤
      (heap message).capacity

/-- Each message but the last shows its body, the last one the bodies that are
left, and the messages beyond the bodies are as they were. -/
structure TakesApart (bodies : List (List UInt8)) (receivers : List α)
    (heap final : Heap α) : Prop where
  each : ∀ i message body, i + 1 < receivers.length →
    receivers[i]? = some message → bodies[i]? = some body →
    (final message).Shows body
  last : ∀ message, receivers.getLast? = some message →
    receivers.length ≤ bodies.length →
    (final message).Shows (bodies.drop (receivers.length - 1)).flatten
  untouched : ∀ i message, bodies.length ≤ i → receivers[i]? = some message →
    final message = heap message

omit [DecidableEq α] in
theorem Fits.share {contents : List (List UInt8)} {receivers : List α}
    {heap : Heap α} (h : Fits contents receivers heap) {i : ℕ} {message : α}
    (hmessage : receivers[i]? = some message) :
    (share receivers.length contents i).flatten.length ≤
      (heap message).capacity := by
  by_cases hi : i + 1 < receivers.length
  · cases hbody : contents[i]? with
    | none =>
        have hnone : Dpn.share receivers.length contents i = [] :=
          share_eq_nil_iff.mpr (List.getElem?_eq_none_iff.mp hbody)
        simp [hnone]
    | some body =>
        rw [share_of_lt hi hbody]
        simpa using h.each i message body hi hmessage hbody
  · obtain ⟨hlt, -⟩ := List.getElem?_eq_some_iff.mp hmessage
    have hindex : i = receivers.length - 1 := by omega
    have hlast : receivers.getLast? = some message := by
      rw [List.getLast?_eq_getElem?, ← hindex]
      exact hmessage
    rw [Dpn.share, if_neg hi, hindex]
    exact h.last message hlast

omit [DecidableEq α] in
theorem takesApart_of_received {contents : List (List UInt8)}
    {frames : List (FrameData α)} {receivers : List α} {heap final : Heap α}
    (hlength : frames.length = contents.length)
    (hpayload : ∀ i, payload heap (share receivers.length frames i) =
      (share receivers.length contents i).flatten)
    (hreceived : ∀ i message, receivers[i]? = some message →
      Received heap final message (share receivers.length frames i)) :
    TakesApart contents receivers heap final where
  each := by
    intro i message body hi hmessage hbody
    obtain ⟨hbodyIndex, -⟩ := List.getElem?_eq_some_iff.mp hbody
    have hsome : share receivers.length frames i ≠ [] := by
      rw [Ne, share_eq_nil_iff]
      omega
    have hpart := hreceived i message hmessage
    rw [Received, if_neg hsome, hpayload, share_of_lt hi hbody] at hpart
    simpa using hpart
  last := by
    intro message hmessage hcount
    rw [List.getLast?_eq_getElem?] at hmessage
    obtain ⟨hindex, -⟩ := List.getElem?_eq_some_iff.mp hmessage
    have hsome : share receivers.length frames (receivers.length - 1) ≠ [] := by
      rw [Ne, share_eq_nil_iff]
      omega
    have hpart := hreceived _ message hmessage
    rw [Received, if_neg hsome, hpayload, share, if_neg (by omega)] at hpart
    exact hpart
  untouched := by
    intro i message hi hmessage
    have hnone : share receivers.length frames i = [] :=
      share_eq_nil_iff.mpr (by omega)
    have hpart := hreceived i message hmessage
    rwa [Received, if_pos hnone] at hpart

omit [DecidableEq α] in
theorem unpack_package
    (store : List (FrameData α) → Heap α → Outcome Exn (Heap α))
    (socketID : SocketID) {contents : List (FrameData α)}
    (hcontents : contents ≠ []) (state : ReceiveState α) :
    unpack store (.owned socketID :: .owned [] :: contents) state =
      (store contents state.heap).map fun heap =>
        { state with
          portName := portNameFromSocketID socketID
          heap := heap } := by
  obtain ⟨content, rest, rfl⟩ := List.exists_cons_of_ne_nil hcontents
  simp only [unpack, FrameData.bytes_owned, if_true]

/-- Between two inproc ports a send puts one multipart on the wire, and the
other port takes it apart again under the name of the sender. -/
theorem receive_send {sender receiver : Port α} {messages : List α}
    {heap : Heap α}
    (hsender : sender.transport = .inproc)
    (hreceiver : receiver.transport = .inproc)
    (hsenderOpen : sender.closed = false)
    (hreceiverOpen : receiver.closed = false)
    (hroute : portNameToSocketID receiver.portName receiver.transport ∈
      sender.routes)
    (hslash : 47 ∉ sender.portName)
    (hpositive : 1 ≤ messages.length) (hbound : messages.length ≤ 8)
    (hnodup : messages.Nodup)
    (hresized : ∀ message ∈ messages, (heap message).Resized) :
    ∃ sent,
      sender.send receiver.portName messages heap =
          .ok ⟨emptyAll messages heap, sent⟩ ∧
      IsMultipart (portNameToSocketID receiver.portName receiver.transport)
        (bodies heap messages) sent ∧
      ∀ (receivers : List α) (later : Heap α) (flags : RecvFlags)
        (portName : PortName) (queue : List (WireFrame α)),
        (∀ message ∈ messages,
          (later message).bytes = (heap message).bytes) →
        receivers ≠ [] → receivers.Nodup →
        (∀ message ∈ receivers, message ∉ messages) →
        (∀ message ∈ receivers, (later message).offset = 0) →
        Fits (bodies heap messages) receivers later →
        ∃ final,
          Port.receive receivers flags
              ⟨portName, { receiver with
                incoming := deliver (portNameToSocketID sender.portName
                  sender.transport) sent ++ queue }, later⟩ =
            .ok ⟨sender.portName, { receiver with incoming := queue }, final⟩ ∧
          TakesApart (bodies heap messages) receivers later final := by
  have hmessages : messages ≠ [] := List.ne_nil_of_length_pos hpositive
  have hsend : sender.send receiver.portName messages heap = _ :=
    send_of_reachable hsenderOpen (by rw [hsender, ← hreceiver]; exact hroute)
  rw [hsender, ← hreceiver] at hsend
  have hmultipart := isMultipart_handOver
    (portNameToSocketID receiver.portName receiver.transport) heap hmessages
  rw [map_bytes_handOver_of_resized hnodup hresized] at hmultipart
  refine ⟨_, hsend, hmultipart, ?_⟩
  intro receivers later flags portName queue hunwritten hreceivers hdistinct
    hdisjoint hoffset hfits
  rw [deliver_send hmessages hnodup hresized]
  set frames : List (FrameData α) := messages.map fun message =>
    .shared message (heap message).size with hframes
  have hpayload : ∀ i, payload later (share receivers.length frames i) =
      (share receivers.length (bodies heap messages) i).flatten :=
    payload_share_of_unwritten hresized hunwritten receivers.length
  have hwhole : ∀ frame ∈ frames, frame.Whole later := by
    intro frame hframe
    obtain ⟨message, hmessage, rfl⟩ := List.mem_map.mp hframe
    exact (bytes_of_unwritten hresized hunwritten hmessage).2
  have havoids : ∀ frame ∈ frames, ∀ message ∈ receivers,
      frame.Avoids message := by
    intro frame hframe message hmessage
    obtain ⟨source, hsource, rfl⟩ := List.mem_map.mp hframe
    exact ne_of_mem_of_not_mem hsource (hdisjoint message hmessage)
  have hroom : ∀ i message, receivers[i]? = some message →
      (payload later (share receivers.length frames i)).length ≤
        (later message).capacity := by
    intro i message hmessage
    rw [hpayload i]
    exact hfits.share hmessage
  obtain ⟨final, hfinal, hreceived⟩ := distribute_received hreceivers hdistinct
    hoffset havoids hwhole hroom
  refine ⟨final, ?_, ?_⟩
  · have hcount : (FrameData.owned (portNameToSocketID sender.portName
        sender.transport) :: FrameData.owned [] :: frames).length ≤
          messageVecSize := by
      simp only [List.length_cons, hframes, List.length_map, messageVecSize]
      omega
    have hcontents : frames ≠ [] := by simpa [hframes] using hmessages
    rw [Port.receive, receiveWith_toWire _ flags hreceiverOpen rfl
      (List.cons_ne_nil _ _) hcount, unpack_package _ _ hcontents,
      copyLoop_eq_distribute, ReceiveState.withIncoming, hfinal,
      Outcome.map_ok, hsender, portNameFromSocketID_portNameToSocketID hslash]
  · apply takesApart_of_received ?_ hpayload hreceived
    simp [hframes, bodies]

end RoundTrip

/-! ## Two messages between two ports -/

def portA : Port ℕ where
  portName := [97]
  transport := .inproc
  socket := 0
  closed := false
  routes := [portNameToSocketID [98] .inproc]
  incoming := []

def portB : Port ℕ where
  portName := [98]
  transport := .inproc
  socket := 1
  closed := false
  routes := []
  incoming := []

def sameMessages : Heap ℕ :=
  fun _ => (Message.new [1, 2, 3, 4]).resize 2 0

theorem receive_send_two :
    ∃ sent final,
      portA.send portB.portName [0, 1] sameMessages =
          .ok ⟨emptyAll [0, 1] sameMessages, sent⟩ ∧
      Port.receive [2, 3] .none
          ⟨[], { portB with
            incoming := deliver (portNameToSocketID portA.portName
              portA.transport) sent ++ [] }, emptyAll [0, 1] sameMessages⟩ =
        .ok ⟨[97], { portB with incoming := [] }, final⟩ ∧
      TakesApart [[1, 2], [1, 2]] [2, 3] (emptyAll [0, 1] sameMessages)
        final := by
  have hresized : ∀ message ∈ [0, 1], (sameMessages message).Resized :=
    fun _ _ => Message.resized_resize (by decide)
  obtain ⟨sent, hsend, -, hreceive⟩ := @receive_send ℕ _ portA portB [0, 1]
    sameMessages rfl rfl rfl rfl (by decide) (by decide) (by decide)
    (by decide) (by decide) hresized
  have hfits : Fits (bodies sameMessages [0, 1]) [2, 3]
      (emptyAll [0, 1] sameMessages) := by
    constructor
    · intro i message body hi hmessage hbody
      obtain rfl : i = 0 := by simpa using hi
      obtain rfl : 2 = message := by simpa using hmessage
      obtain rfl : [1, 2] = body := Option.some.inj hbody
      decide
    · intro message hmessage
      obtain rfl : 3 = message := by simpa using hmessage
      decide
  obtain ⟨final, hfinal, hparts⟩ := hreceive [2, 3]
    (emptyAll [0, 1] sameMessages) .none [] [] (by decide) (by decide)
    (by decide) (by decide) (by decide) hfits
  exact ⟨sent, final, hsend, hfinal, hparts⟩

end Dpn
