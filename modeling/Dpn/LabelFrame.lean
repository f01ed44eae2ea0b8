import Dpn.PeerRun
import Dpn.Fanout

/-!
# The label frame on the wire

The frame of the label buffer is given its length by the constructor only.
Every send that ZMQ takes empties it, and every package stored into the buffer
gives it the length of the label frame received.  So a label goes out whole
exactly if the last of these events before it gave the frame twenty bytes.
-/

namespace Dpn

variable {ι : Type*}

def SendRecord.labelFrame (record : SendRecord ι) : Option (List UInt8) :=
  record.frames[2]?.map SentFrame.bytes

namespace Event

/-- A label that is handed to ZMQ is the label the call wrote, all of it. -/
def LabelWhole : Event ι → Prop
  | .sent record =>
      record.frames ≠ [] → record.labelFrame = some record.written.encode
  | _ => True

/-- How many bytes a multipart stores into the label buffer, if any frame of
it is stored there. -/
def storedLabelSize (package : Package) :
    List (List UInt8) → Option ℕ
  | _ :: nextFrame :: content :: contents =>
      if nextFrame = [] then
        some ((share (package.length + 1) (content :: contents) 0).map
          fun frame => min frame.length contentsSizeof).sum
      else none
  | _ => none

/-- Whether the label frame has its right size after the event, given whether
it had before. -/
def labelReady (ready : Bool) : Event ι → Bool
  | .sent record => ready && record.frames.isEmpty
  | .received _ package frames =>
      match storedLabelSize package frames with
      | none => ready
      | some size => size == contentsSizeof
  | .called _ _ _ => ready

/-- ZMQ takes a multipart only if the label frame has its right size. -/
def ReadyFor (ready : Bool) : Event ι → Prop
  | .sent record => record.frames ≠ [] → ready = true
  | _ => True

def SendsReady : Bool → List (Event ι) → Prop
  | _, [] => True
  | ready, event :: rest =>
      ReadyFor ready event ∧ SendsReady (labelReady ready event) rest

theorem sendsReady_concat (ready : Bool) (trace : List (Event ι))
    (event : Event ι) :
    SendsReady ready (trace ++ [event]) ↔
      SendsReady ready trace ∧
        ReadyFor (trace.foldl labelReady ready) event := by
  induction trace generalizing ready with
  | nil => simp [SendsReady]
  | cons first rest ih =>
      rw [List.cons_append, SendsReady, SendsReady, ih, List.foldl_cons,
        and_assoc]

end Event

namespace Peer

variable [DecidableEq ι]

structure LabelTracked (world : World ι) : Prop where
  shape : world.LabelShape
  bounded : world.labelMessage.contentsSize ≤ contentsSizeof
  ready : world.trace.foldl Event.labelReady true = true ↔
    world.labelMessage.contentsSize = contentsSizeof
  whole : (∀ event ∈ world.trace, event.LabelWhole) ↔
    Event.SendsReady true world.trace

omit [DecidableEq ι] in
theorem LabelTracked.of_eq {world next : World ι} (h : LabelTracked world)
    (hlabel : next.labelMessage = world.labelMessage)
    (htrace : next.trace = world.trace) : LabelTracked next where
  shape := labelShape_of_eq h.shape hlabel
  bounded := by rw [hlabel]; exact h.bounded
  ready := by rw [hlabel, htrace]; exact h.ready
  whole := by rw [htrace]; exact h.whole

/-! ## Sends -/

theorem labelTracked_of_send {label : Label} {package : Package}
    {world : World ι} {result : Label × World ι} {heap : Heap (Addr ι)}
    {frames : List (SentFrame (Addr ι))} (h : LabelTracked world)
    (hspec : SendSpec label package world result heap frames) :
    LabelTracked result.2 := by
  have hsent := hspec.sentLabel
  by_cases hreaches : Reaches label world
  · obtain ⟨-, address, hframes⟩ := hspec.reached hreaches
    have hne : frames ≠ [] := by
      rw [hframes]
      exact List.cons_ne_nil _ _
    have hlabelFrame : (SendRecord.mk (label.getPortID .src)
        (destPortName label) (written label world) frames).labelFrame =
          some ((written label world).encode.take
            world.labelMessage.contentsSize) := by
      rw [SendRecord.labelFrame, hframes]
      simp only [List.getElem?_cons_succ, World.tempPackage, handOver,
        List.getElem?_cons_zero, Option.map_some, Message.frameBytes,
        hspec.labelled.bytes, hspec.labelled.contentsSize]
    have hwhole : (written label world).encode.take
        world.labelMessage.contentsSize = (written label world).encode ↔
          world.labelMessage.contentsSize = contentsSizeof := by
      have hbounded := h.bounded
      rw [List.take_eq_self_iff, length_encode]
      omega
    -- ZMQ empties the label frame, so it is no longer ready.
    refine ⟨hsent.shape, ?_, ?_, ?_⟩
    · rw [hsent.reached hreaches]
      exact Nat.zero_le _
    · rw [hspec.trace, List.foldl_append, hsent.reached hreaches]
      simp [Event.labelReady, hne, contentsSizeof]
    · rw [hspec.trace, Event.sendsReady_concat, List.forall_mem_append, h.whole]
      simp only [List.forall_mem_singleton, Event.LabelWhole, Event.ReadyFor, hlabelFrame,
        Option.some.injEq, hwhole, h.ready]
  · obtain ⟨hframes, -⟩ := hspec.unreached hreaches
    subst hframes
    refine ⟨hsent.shape, ?_, ?_, ?_⟩
    · rw [hsent.unreached hreaches]
      exact h.bounded
    · rw [hspec.trace, List.foldl_append, hsent.unreached hreaches]
      simpa [Event.labelReady] using h.ready
    · rw [hspec.trace, Event.sendsReady_concat, List.forall_mem_append, h.whole]
      simp [Event.LabelWhole, Event.ReadyFor]

/-! ## Receives -/

omit [DecidableEq ι] in
theorem storedLabelSize_eq_none_iff {package : Package}
    {heap : Heap (Addr ι)} {frames : List (FrameData (Addr ι))} :
    Event.storedLabelSize package
        (frames.map fun frame => frame.bytes heap) = none ↔
      packageFrames heap frames = [] := by
  rcases frames with _ | ⟨first, _ | ⟨second, _ | ⟨third, rest⟩⟩⟩
  · simp [Event.storedLabelSize, packageFrames]
  · simp [Event.storedLabelSize, packageFrames]
  · simp [Event.storedLabelSize, packageFrames]
  · by_cases hempty : second.bytes heap = []
    · simp [Event.storedLabelSize, packageFrames, hempty]
    · simp [Event.storedLabelSize, packageFrames, hempty]

omit [DecidableEq ι] in
theorem storedLabelSize_of_ne_nil {package : Package} {heap : Heap (Addr ι)}
    {frames : List (FrameData (Addr ι))}
    (hframes : packageFrames heap frames ≠ []) :
    Event.storedLabelSize package (frames.map fun frame => frame.bytes heap) =
      some ((labelFrames package heap frames).map fun frame =>
        min (frame.bytes heap).length contentsSizeof).sum := by
  rcases frames with _ | ⟨first, _ | ⟨second, _ | ⟨third, rest⟩⟩⟩
  · simp [packageFrames] at hframes
  · simp [packageFrames] at hframes
  · simp [packageFrames] at hframes
  · by_cases hempty : second.bytes heap = []
    · simp only [List.map_cons, Event.storedLabelSize, hempty, if_true,
        labelFrames, packageFrames]
      rw [← List.map_cons, share_map, List.map_map]
      rfl
    · simp [packageFrames, hempty] at hframes

theorem storedSize_eq_of_source {package : Package} {world : World ι}
    {frames : List (FrameData (Addr ι))} {heap : Heap (Addr ι)}
    (hshape : world.LabelShape)
    (hstored : LabelStored package world frames heap) :
    storedSize (.label world.peer.self)
        (labelFrames package world.heap frames) world.heap =
      ((labelFrames package world.heap frames).map fun frame =>
        min (frame.bytes world.heap).length contentsSizeof).sum := by
  unfold storedSize
  congr 1
  apply List.map_congr_left
  intro frame hframe
  have hsource := hstored.source frame hframe
  have hsize := frame.length_bytes_le world.heap
  rw [cpySize_eq_min, hshape.capacity] at hsource
  rw [cpySize_eq_min, hshape.heap_capacity]
  omega

theorem labelTracked_of_receive {destPortID : PortID} {package : Package}
    {world final : World ι} (h : LabelTracked world)
    (hspec : ReceiveSpec destPortID package world final) :
    LabelTracked final := by
  have hself : final.labelMessage = final.heap (.label world.peer.self) := by
    rw [World.labelMessage, hspec.peer]
  rcases hspec.stored with
    ⟨hheap, htrace⟩ | ⟨port, frames, -, -, hstore, htrace⟩
  · rw [hheap] at hself
    exact h.of_eq hself htrace
  · have hwhole : (∀ event ∈ final.trace, event.LabelWhole) ↔
        Event.SendsReady true final.trace := by
      rw [htrace, Event.sendsReady_concat, List.forall_mem_append, h.whole]
      simp [Event.LabelWhole, Event.ReadyFor]
    have hshape := labelShape_of_receive h.shape hspec
    have hfold : final.trace.foldl Event.labelReady true =
        Event.labelReady (world.trace.foldl Event.labelReady true)
          (.received destPortID package
            (frames.map fun frame => frame.bytes world.heap) : Event ι) := by
      rw [htrace, List.foldl_append, List.foldl_cons, List.foldl_nil]
    rcases labelStored_of_distribute h.shape hstore with
      ⟨hnone, hheap⟩ | ⟨hsome, hstored⟩
    · rw [hheap] at hself
      have hlabel : final.labelMessage = world.labelMessage := hself
      refine ⟨hshape, by rw [hlabel]; exact h.bounded, ?_, hwhole⟩
      rw [hfold, hlabel, Event.labelReady,
        storedLabelSize_eq_none_iff.mpr hnone]
      exact h.ready
    · have hsize := hstored.contentsSize
      rw [← hself] at hsize
      refine ⟨hshape, by rw [hsize]; exact hstored.fits, ?_, hwhole⟩
      rw [hfold, hsize, Event.labelReady, storedLabelSize_of_ne_nil hsome,
        storedSize_eq_of_source h.shape hstored]
      exact beq_iff_eq

/-! ## Runs -/

theorem labelTracked_invariant :
    StepInvariant (fun _ : Call ι => True) LabelTracked where
  send := by
    intro label package world h
    exact sendMessages_holds h.shape fun _ _ _ hspec =>
      labelTracked_of_send h hspec
  receive := by
    intro destPortID package world h
    exact (receiveMessages_spec destPortID package world).mono
      fun final hspec => labelTracked_of_receive h hspec
  ports := fun hub world h => h.of_eq rfl rfl
  receipts := fun _ _ _ world h _ _ => h.of_eq rfl rfl
  resize := fun _ _ _ world h _ =>
    h.of_eq (setMessage_labelMessage _ (by simp)) rfl
  reset := fun _ world h _ =>
    h.of_eq (setMessage_labelMessage _ (by simp)) rfl
  write := fun _ _ _ _ world h _ _ =>
    h.of_eq (setMessage_labelMessage _ (by simp)) rfl
  changePackage := fun _ world h _ => h.of_eq rfl rfl
  remote := fun _ _ world h hne =>
    h.of_eq (setMessage_labelMessage _ (by simpa using hne)) rfl
  called := by
    intro interfaceID label view world h
    refine ⟨labelShape_of_eq h.shape rfl, h.bounded, ?_, ?_⟩
    · rw [World.log, List.foldl_append]
      exact h.ready
    · rw [World.log, Event.sendsReady_concat, List.forall_mem_append, h.whole]
      simp [Event.LabelWhole, Event.ReadyFor]
  subscribe := by
    intro label world h
    rw [subscribe_eq_setReceipts]
    exact h.of_eq rfl rfl

theorem Initial.labelTracked {world : World ι} (h : Initial world) :
    LabelTracked world := by
  obtain ⟨hshape, hcontents⟩ := h.labelShape
  have htrace : world.trace = [] := by
    obtain ⟨self, peerID, recvMessage, labelMemory, recvMemory, heap, -, rfl⟩ := h
    rfl
  refine ⟨hshape, by rw [hcontents], ?_, ?_⟩
  · rw [htrace, hcontents]
    simp
  · rw [htrace]
    simp [Event.SendsReady]

/-- In every reachable state all labels went out whole if and only if every
send that ZMQ took found a label frame of the right size: that of the
constructor, for the first one, and then that of a package which was stored
since the last send, with twenty bytes of label frame. -/
theorem labels_whole_iff {interfaces : Table InterfaceID (Interface ι)}
    {world : World ι} (h : Reachable interfaces world) :
    (∀ event ∈ world.trace, event.LabelWhole) ↔
      Event.SendsReady true world.trace := by
  obtain ⟨initial, depth, calls, hinitial, hrun⟩ := h
  exact (labelTracked_invariant.run (handlersAllowed_true interfaces)
    (fun _ _ => trivial) hinitial.labelTracked hrun).whole

theorem initial_freshPeer : Initial freshPeer :=
  ⟨(), 1, 0, List.replicate contentsSizeof 0, List.replicate 8 0,
    fun _ => (Message.new [7, 8, 9, 10]).resize 1 0, rfl, rfl⟩

def twoPushes : List (Call Unit) :=
  [.managePorts (onePortHub 1 [2] []), .push (receiptOf 2) [],
    .push (receiptOf 2) []]

theorem exists_run_twoPushes :
    ∃ world, Reachable ∅ world ∧
      Outcome.run (call ∅ 0) twoPushes freshPeer = some world := by
  obtain ⟨world, hrun⟩ := Option.isSome_iff_exists.mp
    (show (Outcome.run (call ∅ 0) twoPushes freshPeer).isSome = true by decide)
  exact ⟨world, ⟨freshPeer, 0, twoPushes, initial_freshPeer, hrun⟩, hrun⟩

theorem labels_whole_iff_twoPushes :
    ∃ world, Outcome.run (call ∅ 0) twoPushes freshPeer = some world ∧
      ((∀ event ∈ world.trace, event.LabelWhole) ↔
        Event.SendsReady true world.trace) := by
  obtain ⟨world, hreachable, hrun⟩ := exists_run_twoPushes
  exact ⟨world, hrun, labels_whole_iff hreachable⟩

/-- The second push hands over an empty label frame. -/
theorem second_label_empty :
    ∃ world : World Unit, Reachable ∅ world ∧
      (∃ record, .sent record ∈ world.trace ∧ record.frames ≠ [] ∧
        record.labelFrame = some []) ∧
      ¬∀ event ∈ world.trace, event.LabelWhole := by
  obtain ⟨world, hreachable, hrun⟩ := exists_run_twoPushes
  have hlast : (Outcome.run (call ∅ 0) twoPushes freshPeer).map (fun world =>
      ((world.trace.filterMap Event.sent?).drop 1).map fun record =>
        (record.frames.length, record.labelFrame)) = some [(3, some [])] := by
    decide
  rw [hrun, Option.map_some, Option.some.injEq] at hlast
  obtain ⟨record, hrecord, hframes⟩ := List.mem_map.mp
    (show (3, some []) ∈ _ by rw [hlast]; exact List.mem_singleton_self _)
  obtain ⟨hlength, hempty⟩ := Prod.mk.inj hframes
  obtain ⟨event, hevent, hsent⟩ :=
    List.mem_filterMap.mp (List.mem_of_mem_drop hrecord)
  have hmem : .sent record ∈ world.trace := by
    cases event with
    | sent other =>
        obtain rfl := Option.some.inj hsent
        exact hevent
    | received destPort package frames => contradiction
    | called interface label view => contradiction
  have hne : record.frames ≠ [] := by
    intro hnil
    simp [hnil] at hlength
  refine ⟨world, hreachable, ⟨record, hmem, hne, hempty⟩, ?_⟩
  intro hall
  have hwhole := hall _ hmem hne
  rw [hempty, Option.some.injEq] at hwhole
  have hsize := congrArg List.length hwhole
  rw [length_encode] at hsize
  exact absurd hsize (by decide)

end Peer

end Dpn
