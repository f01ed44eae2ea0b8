import Dpn.Bounds
import Dpn.PeerActs

/-!
# The memory that a run touches

A peer writes to its label buffer, to the messages of the vector it receives
into and to the messages its calls are given, and to nothing else.  And as long
as no size that is asked for wraps, every frame it hands to ZMQ and every view
it shows a handler lies in the allocation of its message, also when the frame is
read much later.
-/

namespace Dpn

namespace Peer

variable {ι : Type*} [DecidableEq ι]

/-! ## Messages that are not named -/

/-- The act is not given the message.  The vector that serviced packages are
received into counts as the peer's own. -/
def Act.Spares (address : Addr ι) : Act ι → World ι → Prop
  | .send _ package, _ => address ∉ package.map .message
  | .poll _ package, world =>
      address ∉ package.map .message ∨ package = world.peer.recvPackage
  | .resize message _ _, _ => address ≠ .message message
  | .reset message, _ => address ≠ .message message
  | .write message _ _, _ => address ≠ .message message
  | .changePackage package, _ => address ∉ package.map .message
  | .remote peer _, _ => address ≠ .label peer
  | _, _ => True

/-- A message that is neither the label buffer of the peer nor in its vector, as
it was at the start. -/
structure Spared (address : Addr ι) (start : World ι) (world : World ι) :
    Prop where
  shape : world.LabelShape
  self : world.peer.self = start.peer.self
  notLabel : address ≠ .label start.peer.self
  notRecv : address ∉ world.peer.recvPackage.map .message
  kept : world.heap address = start.heap address

theorem Spared.of_send {address : Addr ι} {start world : World ι}
    {label : Label} {package : Package} {result : Label × World ι}
    {heap : Heap (Addr ι)} {frames : List (SentFrame (Addr ι))}
    (h : Spared address start world) (hpackage : address ∉ package.map .message)
    (hspec : SendSpec label package world result heap frames) :
    Spared address start result.2 where
  shape := hspec.sentLabel.shape
  self := by rw [hspec.peer]; exact h.self
  notLabel := h.notLabel
  notRecv := by rw [hspec.peer]; exact h.notRecv
  kept := by
    have hother : address ≠ .label world.peer.self := h.self ▸ h.notLabel
    have hlabelled : heap address = world.heap address :=
      hspec.labelled.others address hother
    by_cases hreaches : Reaches label world
    · have hnotMem : address ∉ world.tempPackage package := by
        intro hmem
        rcases List.mem_cons.mp hmem with hlabel | hmessage
        · exact hother hlabel
        · exact hpackage hmessage
      rw [(hspec.reached hreaches).1, emptyAll, if_neg hnotMem, hlabelled,
        h.kept]
    · rw [(hspec.unreached hreaches).2, hlabelled, h.kept]

theorem Spared.of_receive {address : Addr ι} {start world final : World ι}
    {destPortID : PortID} {package : Package} (h : Spared address start world)
    (hpackage : address ∉ package.map .message)
    (hspec : ReceiveSpec destPortID package world final) :
    Spared address start final where
  shape := labelShape_of_receive h.shape hspec
  self := by rw [hspec.peer]; exact h.self
  notLabel := h.notLabel
  notRecv := by rw [hspec.peer]; exact h.notRecv
  kept := by
    rcases hspec.stored with ⟨hheap, -⟩ | ⟨port, frames, -, -, hstore, -⟩
    · rw [hheap, h.kept]
    · have honly := (distribute_onlyChanges (world.tempPackage package)
        (packageFrames world.heap frames) world.heap).of_ok hstore
      rw [honly.others address, h.kept]
      intro hmem
      rcases List.mem_cons.mp hmem with hlabel | hmessage
      · exact h.notLabel (h.self ▸ hlabel)
      · exact hpackage hmessage

theorem Spared.of_setMessage {address target : Addr ι} {start world : World ι}
    {message : Message} (h : Spared address start world)
    (hother : address ≠ target) (hlabel : target ≠ .label world.peer.self) :
    Spared address start (world.setMessage target message) where
  shape := labelShape_of_eq h.shape (setMessage_labelMessage message hlabel)
  self := h.self
  notLabel := h.notLabel
  notRecv := h.notRecv
  kept := by rw [World.setMessage_heap_of_ne hother, h.kept]

omit [DecidableEq ι] in
theorem Spared.withHub {address : Addr ι} {start world : World ι}
    (h : Spared address start world) (hub : Hub (Addr ι)) :
    Spared address start (world.withHub hub) where
  shape := labelShape_of_eq h.shape rfl
  self := h.self
  notLabel := h.notLabel
  notRecv := h.notRecv
  kept := h.kept

theorem act_spares {address : Addr ι} {start world : World ι} (single : Act ι)
    (h : Spared address start world) (hspares : single.Spares address world) :
    (act single world).Holds (Spared address start) := by
  have hsame : ∀ next : World ι, next.heap = world.heap →
      next.peer.self = world.peer.self →
      address ∉ next.peer.recvPackage.map .message →
      Spared address start next := by
    intro next hheap hself hnotRecv
    have hmessage : next.labelMessage = world.labelMessage := by
      rw [World.labelMessage, hheap, hself, World.labelMessage]
    exact ⟨labelShape_of_eq h.shape hmessage, hself.trans h.self, h.notLabel,
      hnotRecv, by rw [hheap, h.kept]⟩
  have hmessage : ∀ {message : ℕ}, Addr.message message ≠
      Addr.label world.peer.self := by
    simp
  cases single with
  | send label package =>
      have hsend : (sendMessages label package world).Holds fun result =>
          Spared address start result.2 :=
        sendMessages_holds h.shape fun _ _ _ hspec => h.of_send hspares hspec
      exact hsend.map fun _ hfinal => hfinal
  | poll ready package =>
      have hpackage : address ∉ package.map .message := by
        rcases hspares with hnotMem | hrecv
        · exact hnotMem
        · rw [hrecv]
          exact h.notRecv
      rw [act, poll]
      cases world.peer.hub.poll pollin ready with
      | ok hub =>
          rw [Outcome.andThen_ok]
          split
          · exact (receiveMessages_spec _ _ _).mono fun final hspec =>
              (h.withHub hub).of_receive hpackage hspec
          · exact h.withHub hub
      | throw error hub => exact h.withHub hub
      | stuck reason => trivial
  | receipts topic receipts => exact hsame _ rfl rfl h.notRecv
  | subscribe label =>
      rw [act, subscribe_eq_setReceipts]
      exact hsame _ rfl rfl h.notRecv
  | called interfaceID label view => exact hsame _ rfl rfl h.notRecv
  | resize message size offset => exact h.of_setMessage hspares hmessage
  | reset message => exact h.of_setMessage hspares hmessage
  | write message position source =>
      rw [act]
      split
      · trivial
      · exact h.of_setMessage hspares hmessage
  | changePackage package => exact hsame _ rfl rfl hspares
  | arrive portID frames => exact h.withHub _
  | managePorts hub => exact h.withHub hub
  | remote peer labelMessage =>
      rw [act]
      split
      · exact h
      · rename_i hself
        apply h.of_setMessage hspares
        simpa using hself

/-- A run leaves every message alone that is not in the vector of the peer and
that no call of a user or a handler names, also not to put it into the vector,
and the label buffers of other peers. -/
theorem run_spares {interfaces otherInterfaces : Table InterfaceID (Interface ι)}
    {depth : ℕ} {calls : List (Call ι)} {world final : World ι}
    {address : Addr ι} (hreachable : Reachable otherInterfaces world)
    (hnotLabel : address ≠ .label world.peer.self)
    (hnotRecv : address ∉ world.peer.recvPackage.map .message)
    (hhandlers : HandlersMeet (Act.Spares address) interfaces)
    (hcalls : ∀ other ∈ calls, other.Meets (Act.Spares address))
    (hrun : Outcome.run (call interfaces depth) calls world = some final) :
    final.heap address = world.heap address := by
  have hstart : Spared address world world :=
    ⟨hreachable.labelShape, rfl, hnotLabel, hnotRecv, rfl⟩
  have hbook : Bookkeeping (Act.Spares address) :=
    ⟨fun _ _ _ => trivial, fun _ _ => trivial, fun _ => trivial⟩
  have hfinal := run_invariant
    (fun single _ hstate hspares => act_spares single hstate hspares) hbook
    hhandlers hcalls hstart hrun
  exact hfinal.kept

/-- Message 2 is neither pushed nor received into. -/
theorem run_spares_echoing :
    ∃ final, Outcome.run (call (echoAt 6) 1) echoing freshPeer = some final ∧
      final.heap (.message 2) = freshPeer.heap (.message 2) := by
  obtain ⟨final, hrun⟩ := exists_run_echoing
  have hreachable : Reachable (echoAt 6) freshPeer :=
    ⟨freshPeer, 0, [], initial_freshPeer, rfl⟩
  refine ⟨final, hrun, run_spares hreachable (by decide) (by decide) ?_ ?_ hrun⟩
  · exact handlersMeet_echoAt (fun _ => by simp [Act.Spares])
      fun _ _ => by simp [Act.Spares]
  · intro other hother
    simp only [echoing, List.mem_cons, List.not_mem_nil, or_false] at hother
    rcases hother with rfl | rfl | rfl | rfl
    · exact fun _ => trivial
    · exact fun _ => by simp [Act.Spares]
    · exact fun _ => by simp [Act.Spares]
    · exact fun _ => Or.inr rfl

/-! ## Windows and frames -/

/-- The window that a message shows and the frame it hands out lie in its
allocation. -/
structure InAllocation (message : Message) : Prop where
  window : message.size + message.offset ≤ message.capacity
  frame : message.contentsSize ≤ message.capacity

omit [DecidableEq ι] in
theorem InAllocation.resize {message : Message} (h : InAllocation message)
    {size offset : ℕ} (hwraps : size + offset < sizeModulus) :
    InAllocation (message.resize size offset) := by
  rw [Message.resize]
  split
  · exact h
  · rename_i hfits
    rw [Nat.mod_eq_of_lt hwraps, not_lt] at hfits
    exact ⟨hfits, (Nat.le_add_right _ _).trans hfits⟩

omit [DecidableEq ι] in
theorem InAllocation.reset {message : Message} (h : InAllocation message) :
    InAllocation message.reset :=
  ⟨Nat.zero_le _, h.frame⟩

omit [DecidableEq ι] in
theorem InAllocation.emptied {message : Message} (h : InAllocation message) :
    InAllocation message.emptied :=
  ⟨h.window, Nat.zero_le _⟩

omit [DecidableEq ι] in
theorem InAllocation.write {message written : Message} {position : ℕ}
    {source : List UInt8} (h : InAllocation message)
    (hwrite : message.write position source = some written) :
    InAllocation written := by
  obtain ⟨-, hsize, hoffset, hcapacity, hcontents, -⟩ :=
    Message.write_eq_some.mp hwrite
  constructor
  · rw [hsize, hoffset, hcapacity]
    exact h.window
  · rw [hcontents, hcapacity]
    exact h.frame

omit [DecidableEq ι] in
theorem InAllocation.of_stored {message : Addr ι} {bufferOffset : ℕ}
    {frame : FrameData (Addr ι)} {heap next : Heap (Addr ι)}
    (hstored : Stored message bufferOffset frame heap next) :
    InAllocation (next message) := by
  have hinside := hstored.inside
  constructor
  · rw [hstored.size, hstored.offset, hstored.capacity]
    omega
  · rw [hstored.contentsSize, hstored.capacity]
    omega

/-- The frame announces bytes that are there, and is no reference to the label
buffer of another peer. -/
structure Backed (own : ι) (heap : Heap (Addr ι))
    (frame : FrameData (Addr ι)) : Prop where
  whole : frame.Whole heap
  avoids : ∀ peer, peer ≠ own → frame.Avoids (.label peer)

theorem backed_of_mem_handOver {self : ι} {messages : List (Addr ι)}
    {heap later : Heap (Addr ι)} {frame : SentFrame (Addr ι)}
    (hmessages : ∀ address ∈ messages, InAllocation (heap address))
    (hown : ∀ peer, peer ≠ self → Addr.label peer ∉ messages)
    (hcapacity : ∀ address ∈ messages,
      (later address).capacity = (heap address).capacity)
    (hframe : frame ∈ handOver messages heap) :
    Backed self later frame.data := by
  induction messages generalizing heap with
  | nil => simp [handOver] at hframe
  | cons message rest ih =>
      have hfirst := hmessages message (by simp)
      rw [handOver] at hframe
      rcases List.mem_cons.mp hframe with rfl | hrest
      · constructor
        · rw [FrameData.Whole, FrameData.bytes, FrameData.size,
            List.length_take, (later message).bytes_length,
            hcapacity message (by simp)]
          exact Nat.min_eq_left hfirst.frame
        · rintro peer hpeer rfl
          exact hown peer hpeer (by simp)
      · have hsame : ∀ address, (Function.update heap message
            (heap message).emptied address).capacity =
              (heap address).capacity :=
          capacity_update rfl
        apply ih ?_ ?_ ?_ hrest
        · intro address haddress
          by_cases heq : address = message
          · subst address
            rw [Function.update_self]
            exact hfirst.emptied
          · rw [Function.update_of_ne heq]
            exact hmessages address (List.mem_cons_of_mem message haddress)
        · intro peer hpeer hmem
          exact hown peer hpeer (List.mem_cons_of_mem message hmem)
        · intro address haddress
          rw [hsame]
          exact hcapacity address (List.mem_cons_of_mem message haddress)

/-- Every frame that was handed to ZMQ is still backed, and every view that a
handler was shown had the size it announced. -/
def Event.InOrder (self : ι) (heap : Heap (Addr ι)) : Event ι → Prop
  | .sent record => ∀ frame ∈ record.frames, Backed self heap frame.data
  | .received _ _ _ => True
  | .called _ _ view => ∀ item ∈ view, item.2.length = item.1

omit [DecidableEq ι] in
theorem Event.InOrder.of_capacity {self : ι} {heap next : Heap (Addr ι)}
    {event : Event ι} (h : Event.InOrder self heap event)
    (hcapacity : ∀ address, (∀ peer, peer ≠ self → address ≠ .label peer) →
      (next address).capacity = (heap address).capacity) :
    Event.InOrder self next event := by
  cases event with
  | sent record =>
      intro frame hframe
      obtain ⟨hwhole, hown⟩ := h frame hframe
      refine ⟨?_, hown⟩
      cases hdata : frame.data with
      | owned bytes => rfl
      | shared source size =>
          rw [hdata] at hwhole hown
          have hsource := hcapacity source fun peer hpeer => hown peer hpeer
          rw [FrameData.Whole, FrameData.bytes, List.length_take,
            (next source).bytes_length, hsource, ← (heap source).bytes_length,
            ← List.length_take]
          exact hwhole
  | received destPort package frames => trivial
  | called interfaceID label view => exact h

/-- A peer in a process whose messages are in their allocations, with what it
has handed out so far. -/
structure InOrder (own : ι) (world : World ι) : Prop where
  shape : world.LabelShape
  self : world.peer.self = own
  messages : ∀ address, InAllocation (world.heap address)
  trace : ∀ event ∈ world.trace, Event.InOrder own world.heap event

omit [DecidableEq ι] in
theorem InOrder.view {own : ι} {world : World ι} (h : InOrder own world)
    (package : Package) : ∀ item ∈ world.view package, item.2.length = item.1 := by
  intro item hitem
  rw [World.view, List.mem_map] at hitem
  obtain ⟨message, -, rfl⟩ := hitem
  have hwindow := (h.messages (.message message)).window
  exact Message.length_visible_eq_size_iff.mpr (by omega)

omit [DecidableEq ι] in
theorem InOrder.of_capacity {own : ι} {world next : World ι}
    (h : InOrder own world) (events : List (Event ι)) (hshape : next.LabelShape)
    (hself : next.peer.self = world.peer.self)
    (hmessages : ∀ address, InAllocation (next.heap address))
    (hcapacity : ∀ address, (∀ peer, peer ≠ own → address ≠ .label peer) →
      (next.heap address).capacity = (world.heap address).capacity)
    (htrace : next.trace = world.trace ++ events)
    (hevents : ∀ event ∈ events, Event.InOrder own next.heap event) :
    InOrder own next where
  shape := hshape
  self := hself.trans h.self
  messages := hmessages
  trace := by
    intro event hevent
    rw [htrace] at hevent
    rcases List.mem_append.mp hevent with hold | hnew
    · exact (h.trace event hold).of_capacity hcapacity
    · exact hevents event hnew

theorem InOrder.of_send {own : ι} {label : Label} {package : Package}
    {world : World ι} {result : Label × World ι} {heap : Heap (Addr ι)}
    {frames : List (SentFrame (Addr ι))} (h : InOrder own world)
    (hspec : SendSpec label package world result heap frames) :
    InOrder own result.2 := by
  have hlabelled : ∀ address, InAllocation (heap address) ∧
      (heap address).capacity = (world.heap address).capacity := by
    intro address
    by_cases hlabel : address = .label world.peer.self
    · subst address
      have hbefore := h.messages (.label world.peer.self)
      have hcapacity : (heap (.label world.peer.self)).capacity =
          (world.heap (.label world.peer.self)).capacity := by
        rw [hspec.labelled.capacity, h.shape.heap_capacity]
      refine ⟨⟨?_, ?_⟩, hcapacity⟩
      · rw [hspec.labelled.size, hspec.labelled.offset, hcapacity]
        exact (Nat.le_add_right _ _).trans hbefore.window
      · rw [hspec.labelled.contentsSize, hcapacity]
        exact hbefore.frame
    · rw [hspec.labelled.others address hlabel]
      exact ⟨h.messages address, rfl⟩
  have hself : result.2.peer.self = world.peer.self := by rw [hspec.peer]
  by_cases hreaches : Reaches label world
  · obtain ⟨hheap, address, hframes⟩ := hspec.reached hreaches
    have hcapacity : ∀ other, (result.2.heap other).capacity =
        (heap other).capacity := by
      intro other
      rw [hheap, emptyAll]
      split <;> rfl
    refine h.of_capacity _ hspec.sentLabel.shape hself ?_ ?_ hspec.trace ?_
    · intro other
      rw [hheap, emptyAll]
      split
      · exact (hlabelled other).1.emptied
      · exact (hlabelled other).1
    · intro other _
      rw [hcapacity, (hlabelled other).2]
    · intro event hevent
      obtain rfl := List.mem_singleton.mp hevent
      intro frame hframe
      rw [hframes] at hframe
      rcases List.mem_cons.mp hframe with rfl | hframe
      · exact ⟨rfl, fun _ _ => trivial⟩
      rcases List.mem_cons.mp hframe with rfl | hframe
      · exact ⟨rfl, fun _ _ => trivial⟩
      apply backed_of_mem_handOver (fun other _ => (hlabelled other).1) ?_
        (fun other _ => hcapacity other) hframe
      intro peer hpeer hmem
      rw [World.tempPackage, h.self] at hmem
      rcases List.mem_cons.mp hmem with hlabel | hmessage
      · exact hpeer (Addr.label.inj hlabel)
      · exact label_notMem peer package hmessage
  · obtain ⟨hframes, hheap⟩ := hspec.unreached hreaches
    refine h.of_capacity _ hspec.sentLabel.shape hself ?_ ?_ hspec.trace ?_
    · intro other
      rw [hheap]
      exact (hlabelled other).1
    · intro other _
      rw [hheap, (hlabelled other).2]
    · intro event hevent
      obtain rfl := List.mem_singleton.mp hevent
      intro frame hframe
      rw [hframes] at hframe
      contradiction

theorem InOrder.of_receive {own : ι} {destPortID : PortID} {package : Package}
    {world final : World ι} (h : InOrder own world)
    (hspec : ReceiveSpec destPortID package world final) :
    InOrder own final := by
  have hself : final.peer.self = world.peer.self := by rw [hspec.peer]
  have hshape := labelShape_of_receive h.shape hspec
  rcases hspec.stored with ⟨hheap, htrace⟩ | ⟨_, frames, -, -, hstore, htrace⟩
  · refine h.of_capacity [] hshape hself ?_ ?_ ?_ ?_
    · rw [hheap]
      exact h.messages
    · rw [hheap]
      exact fun _ _ => rfl
    · rw [htrace, List.append_nil]
    · simp
  · have hmessages : ∀ address, InAllocation (final.heap address) := by
      intro address
      exact (distribute_preserves (fun _ _ _ _ _ hstored _ =>
        InAllocation.of_stored hstored) (world.tempPackage package)
        (packageFrames world.heap frames) world.heap
        (h.messages address)).of_ok hstore
    have honly := (distribute_onlyChanges (world.tempPackage package)
      (packageFrames world.heap frames) world.heap).of_ok hstore
    refine h.of_capacity _ hshape hself hmessages
      (fun address _ => honly.capacity address) htrace ?_
    intro event hevent
    obtain rfl := List.mem_singleton.mp hevent
    trivial

theorem InOrder.of_setMessage {own : ι} {target : Addr ι} {world : World ι}
    {message : Message} (h : InOrder own world)
    (hlabel : target ≠ .label world.peer.self) (hmessage : InAllocation message)
    (hcapacity : (∀ peer, peer ≠ own → target ≠ .label peer) →
      message.capacity = (world.heap target).capacity) :
    InOrder own (world.setMessage target message) := by
  refine h.of_capacity []
    (labelShape_of_eq h.shape (setMessage_labelMessage message hlabel)) rfl
    ?_ ?_ (List.append_nil _).symm (by simp)
  · intro address
    by_cases heq : address = target
    · rw [heq, World.setMessage_heap_self]
      exact hmessage
    · rw [World.setMessage_heap_of_ne heq]
      exact h.messages address
  · intro address hother
    by_cases heq : address = target
    · subst address
      rw [World.setMessage_heap_self]
      exact hcapacity hother
    · rw [World.setMessage_heap_of_ne heq]

/-- The size that is asked for does not wrap, another peer leaves its label
buffer in order, and a handler is shown what the messages of the vector hold. -/
def Act.StaysAllocated : Act ι → World ι → Prop
  | .resize _ size offset, _ => size + offset < sizeModulus
  | .remote _ labelMessage, _ => InAllocation labelMessage
  | .called _ _ view, world => view = world.view world.peer.recvPackage
  | _, _ => True

theorem act_inOrder {own : ι} (single : Act ι) {world : World ι}
    (h : InOrder own world) (hstays : single.StaysAllocated world) :
    (act single world).Holds (InOrder own) := by
  have hmessage : ∀ {message : ℕ}, Addr.message message ≠
      Addr.label world.peer.self := by
    simp
  have hhub : ∀ hub : Hub (Addr ι), InOrder own (world.withHub hub) :=
    fun _ => ⟨labelShape_of_eq h.shape rfl, h.self, h.messages, h.trace⟩
  have hreceipts : ∀ topic receipts,
      InOrder own (setReceipts topic receipts world) :=
    fun _ _ => ⟨labelShape_of_eq h.shape rfl, h.self, h.messages, h.trace⟩
  cases single with
  | send label package =>
      have hsend : (sendMessages label package world).Holds fun result =>
          InOrder own result.2 :=
        sendMessages_holds h.shape fun _ _ _ hspec => h.of_send hspec
      exact hsend.map fun _ hfinal => hfinal
  | poll ready package =>
      rw [act, poll]
      cases world.peer.hub.poll pollin ready with
      | ok hub =>
          rw [Outcome.andThen_ok]
          split
          · exact (receiveMessages_spec _ _ _).mono fun final hspec =>
              (hhub hub).of_receive hspec
          · exact hhub hub
      | throw error hub => exact hhub hub
      | stuck reason => trivial
  | receipts topic receipts => exact hreceipts topic receipts
  | subscribe label =>
      rw [act, subscribe_eq_setReceipts]
      exact hreceipts _ _
  | called interfaceID label view =>
      refine h.of_capacity _ (labelShape_of_eq h.shape rfl) rfl h.messages
        (fun _ _ => rfl) rfl ?_
      intro event hevent
      obtain rfl := List.mem_singleton.mp hevent
      rw [Act.StaysAllocated] at hstays
      rw [hstays]
      exact h.view _
  | resize message size offset =>
      exact h.of_setMessage hmessage
        ((h.messages _).resize hstays) fun _ => Message.resize_capacity _ _ _
  | reset message =>
      exact h.of_setMessage hmessage (h.messages _).reset fun _ => rfl
  | write message position source =>
      rw [act]
      split
      · trivial
      · rename_i written hwrite
        exact h.of_setMessage hmessage ((h.messages _).write hwrite)
          fun _ => (Message.write_eq_some.mp hwrite).2.2.2.1
  | changePackage package =>
      exact ⟨labelShape_of_eq h.shape rfl, h.self, h.messages, h.trace⟩
  | arrive portID frames => exact hhub _
  | managePorts hub => exact hhub hub
  | remote peer labelMessage =>
      rw [act]
      split
      · exact h
      · rename_i hpeer
        rw [h.self] at hpeer
        apply h.of_setMessage _ hstays
        · intro hother
          exact absurd rfl (hother peer hpeer)
        · rw [h.self]
          simpa using hpeer

/-- As long as no size wraps, every message shows bytes of its allocation only,
every frame handed to ZMQ in the run is backed to its end by the message it
refers to, and every view that a handler got had the size it announced. -/
theorem run_inOrder {interfaces : Table InterfaceID (Interface ι)}
    {depth : ℕ} {calls : List (Call ι)} {initial final : World ι}
    (hinitial : Initial initial)
    (hallocated : ∀ address, InAllocation (initial.heap address))
    (hhandlers : HandlersMeet Act.StaysAllocated interfaces)
    (hcalls : ∀ other ∈ calls, other.Meets Act.StaysAllocated)
    (hrun : Outcome.run (call interfaces depth) calls initial = some final) :
    (∀ address, InAllocation (final.heap address)) ∧
      ∀ event ∈ final.trace, Event.InOrder initial.peer.self final.heap event := by
  have htrace : initial.trace = [] := by
    obtain ⟨self, peerID, recvMessage, labelMemory, recvMemory, heap, -, rfl⟩ :=
      hinitial
    rfl
  have hstart : InOrder initial.peer.self initial :=
    ⟨hinitial.labelShape.1, rfl, hallocated, by simp [htrace]⟩
  have hbook : Bookkeeping (Act.StaysAllocated : Act ι → World ι → Prop) :=
    ⟨fun _ _ _ => trivial, fun _ _ => trivial, fun _ => rfl⟩
  have hfinal := run_invariant
    (fun single _ hstate hstays => act_inOrder single hstate hstays) hbook
    hhandlers hcalls hstart hrun
  exact ⟨hfinal.messages, hfinal.trace⟩

theorem run_inOrder_echoing :
    ∃ final, Outcome.run (call (echoAt 6) 1) echoing freshPeer = some final ∧
      (∀ address, InAllocation (final.heap address)) ∧
      ∀ event ∈ final.trace, Event.InOrder () final.heap event := by
  obtain ⟨final, hrun⟩ := exists_run_echoing
  refine ⟨final, hrun, run_inOrder initial_freshPeer ?_ ?_ ?_ hrun⟩
  · rintro (peer | message)
    · exact show InAllocation (freshPeer.heap (.label ())) from
        ⟨by decide, by decide⟩
    · by_cases hmessage : message = 0
      · subst message
        exact ⟨by decide, by decide⟩
      · have hother : freshPeer.heap (.message message) =
            (Message.new [7, 8, 9, 10]).resize 1 0 := by
          simp [freshPeer, construct, hmessage]
        rw [hother]
        exact ⟨by decide, by decide⟩
  · exact handlersMeet_echoAt (fun _ => trivial) fun _ _ => trivial
  · intro other hother
    simp only [echoing, List.mem_cons, List.not_mem_nil, or_false] at hother
    rcases hother with rfl | rfl | rfl | rfl
    · exact fun _ => trivial
    · exact fun _ => show 3 + 1 < sizeModulus by decide
    · exact fun _ => trivial
    · exact fun _ => trivial

end Peer

end Dpn
