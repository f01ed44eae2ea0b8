import Dpn.Bounds

/-!
# The two overloads on one message

The overload for a vector resizes the message after every frame.  From the
second frame on it copies behind the start of the allocation, while the
overload for a single message goes on behind the offset the message had.
-/

namespace Dpn

open ByteBuffer

variable {α : Type*} [DecidableEq α]

/-- The message after a call has stored frames of a total size. -/
structure Laid (final : Message) (size : ℕ) (bytes : List UInt8) : Prop where
  size : final.size = size
  offset : final.offset = 0
  bytes : final.bytes = bytes

theorem laid_of_copyLoopOne {message : α} {frames : List (FrameData α)}
    {bufferOffset : ℕ} {heap final : Heap α}
    (hposition : bufferOffset ≤ (heap message).capacity)
    (hfinal : copyLoopOne message frames bufferOffset heap = .ok final) :
    Laid (final message) (bufferOffset + storedSize message frames heap)
      (lay message heap frames ((heap message).offset + bufferOffset)
        (heap message).bytes) := by
  induction frames generalizing bufferOffset heap with
  | nil =>
      obtain rfl := Outcome.ok.inj hfinal
      have hresize := Message.resize_of_le
        (show bufferOffset + 0 ≤ (heap message).capacity by omega)
      rw [Function.update_self, hresize]
      exact ⟨rfl, rfl, rfl⟩
  | cons frame rest ih =>
      rw [copyLoopOne] at hfinal
      cases hcopy : copyFrame message bufferOffset frame heap with
      | none => simp [hcopy] at hfinal
      | some copied =>
          simp only [hcopy] at hfinal
          unfold copyFrame Message.memcpy at hcopy
          split at hcopy
          · rename_i hsource
            obtain ⟨hinside, -, hoffset, hcapacity, -, hbytes⟩ :=
              Message.write_eq_some.mp hcopy
            rw [List.length_take, Nat.min_eq_left hsource] at hinside
            have hothers : ∀ address, address ≠ message →
                Function.update heap message copied address = heap address :=
              fun address hne => Function.update_of_ne hne _ _
            have hself : Function.update heap message copied message = copied :=
              Function.update_self ..
            have hrest := ih (by rw [hself, hcapacity]; omega) hfinal
            have hstored : storedSize message rest
                (Function.update heap message copied) =
                  storedSize message rest heap := by
              unfold storedSize
              simp only [hself, cpySize_of_capacity_eq hcapacity]
            rw [hself, hoffset, hbytes,
              lay_congr hothers (by rw [hself, hcapacity]), hstored,
              Nat.add_assoc, ← storedSize_cons, ← Nat.add_assoc] at hrest
            rwa [lay, bytesOver_self]
          · contradiction

/-- The first frame goes behind the offset of the message, and the others
behind the first one as if that lay at the start. -/
theorem laid_of_appendFrames {message : α} {frame : FrameData α}
    {rest : List (FrameData α)} {heap final : Heap α}
    (hfinal : appendFrames message (frame :: rest) 0 heap = .ok final) :
    Laid (final message) (storedSize message (frame :: rest) heap)
      (lay message heap rest (cpySize frame (heap message))
        (lay message heap [frame] (heap message).offset
          (heap message).bytes)) := by
  obtain ⟨hsize, -, hoffset, -⟩ := appendFrames_of_ok (by simp) hfinal
  rw [Nat.zero_add] at hsize
  refine ⟨hsize, hoffset, ?_⟩
  rw [appendFrames] at hfinal
  cases hstore : storeFrame message 0 frame heap with
  | none => simp [hstore] at hfinal
  | some next =>
      have h := stored_of_storeFrame hstore
      simp only [hstore, Nat.zero_add] at hfinal
      rw [lay_of_appendFrames h.offset hfinal, lay_congr h.others h.capacity,
        h.bytes, lay, lay, bytesOver_self, Nat.add_zero]

/-! ## Agreement -/

/-- One overload stays inside the message exactly if the other does, and then
both return the same name and the same message. -/
structure OverloadsAgree (message : α) (flags : RecvFlags)
    (state : ReceiveState α) : Prop where
  inside : (ReceiveCall.one message flags).Inside state ↔
    (ReceiveCall.vector [message] flags).Inside state
  same : (ReceiveCall.one message flags).Inside state →
    (ReceiveCall.vector [message] flags).Inside state →
    ∃ first second, Port.receiveOne message flags state = .ok first ∧
      Port.receive [message] flags state = .ok second ∧
      first.portName = second.portName ∧
      (first.heap message).size = (second.heap message).size ∧
      (first.heap message).offset = (second.heap message).offset ∧
      (first.heap message).bytes = (second.heap message).bytes

/-- Going on behind the offset leaves the same bytes as going on behind the
start. -/
def LaidAlike (message : α) (frames : List (FrameData α)) (heap : Heap α) :
    Prop :=
  lay message heap (frames.drop 1)
      ((heap message).offset + storedSize message (frames.take 1) heap)
      (lay message heap (frames.take 1) (heap message).offset
        (heap message).bytes) =
    lay message heap (frames.drop 1) (storedSize message (frames.take 1) heap)
      (lay message heap (frames.take 1) (heap message).offset
        (heap message).bytes)

theorem laidAlike_of_offset_eq_zero {message : α} {heap : Heap α}
    (hoffset : (heap message).offset = 0) (frames : List (FrameData α)) :
    LaidAlike message frames heap := by
  rw [LaidAlike, hoffset, Nat.zero_add]

omit [DecidableEq α] in
/-- A call on a package whose frames are stored. -/
theorem receiveWith_of_store {flags : RecvFlags} {state : ReceiveState α}
    {store : List (FrameData α) → Heap α → Outcome Exn (Heap α)}
    {socketID nextFrame : FrameData α} {contents : List (FrameData α)}
    {rest : List (WireFrame α)} {heap : Heap α}
    (hopen : state.port.closed = false)
    (hincoming : state.port.incoming =
      toWire (socketID :: nextFrame :: contents) ++ rest)
    (hcontents : contents ≠ []) (hlength : contents.length + 2 ≤ messageVecSize)
    (hempty : nextFrame.bytes state.heap = [])
    (hstore : store contents state.heap = .ok heap) :
    receiveWith store flags state =
      .ok ⟨portNameFromSocketID (socketID.bytes state.heap),
        { state.port with incoming := rest }, heap⟩ := by
  obtain ⟨content, others, rfl⟩ := List.exists_cons_of_ne_nil hcontents
  have hstate : (state.withIncoming rest).heap = state.heap := rfl
  rw [receiveWith_toWire store flags hopen hincoming (List.cons_ne_nil _ _)
    hlength]
  simp only [unpack, hstate, hempty, if_true, hstore, Outcome.map_ok]
  rfl

theorem overloadsAgree_of_delimiter {message : α} {flags : RecvFlags}
    {state : ReceiveState α} {socketID nextFrame : FrameData α}
    {contents : List (FrameData α)} {rest : List (WireFrame α)}
    (hopen : state.port.closed = false)
    (hincoming : state.port.incoming =
      toWire (socketID :: nextFrame :: contents) ++ rest)
    (hcontents : contents ≠ []) (hlength : contents.length + 2 ≤ messageVecSize)
    (hdelimiter : nextFrame.bytes state.heap ≠ []) :
    OverloadsAgree message flags state := by
  obtain ⟨content, others, rfl⟩ := List.exists_cons_of_ne_nil hcontents
  have hnext := nextMultipart_toWire hopen hincoming (List.cons_ne_nil _ _)
    hlength
  have hpackage : packageFrames state.heap
      (socketID :: nextFrame :: content :: others) = [] := by
    rw [packageFrames, if_neg hdelimiter]
  have hinside : ∀ call : ReceiveCall α, call.Inside state := by
    intro call
    rw [ReceiveCall.Inside, ReceiveCall.copies, hnext]
    simp only [hpackage]
    cases call <;> simp [ReceiveCall.loopCopies, copiesOne, copies]
  have hrun : ∀ store, receiveWith store flags state =
      .ok { state.withIncoming rest with
        portName := portNameFromSocketID (socketID.bytes state.heap) } := by
    intro store
    rw [receiveWith_toWire store flags hopen hincoming (List.cons_ne_nil _ _)
      hlength]
    have hstate : (state.withIncoming rest).heap = state.heap := rfl
    simp only [unpack, hstate, hdelimiter, if_false]
  constructor
  · exact iff_of_true (hinside _) (hinside _)
  · exact fun _ _ => ⟨_, _, hrun _, hrun _, rfl, rfl, rfl, rfl⟩

omit [DecidableEq α] in
theorem copiesFit_of_le {message : α} {contents : List (FrameData α)}
    {heap : Heap α}
    (htotal : (heap message).offset + storedSize message contents heap ≤
      (heap message).capacity) : CopiesFit (heap message) contents := by
  cases contents with
  | nil => trivial
  | cons content others =>
      have hsum := storedSize_cons message content others heap
      change _ ∧ storedSize message (content :: others) heap ≤ _
      omega

/-- If all frames fit behind the offset, both overloads return, and at most the
bytes they leave are different. -/
theorem receive_both_of_le {message : α} {flags : RecvFlags}
    {state : ReceiveState α} {socketID nextFrame : FrameData α}
    {contents : List (FrameData α)} {rest : List (WireFrame α)}
    (hopen : state.port.closed = false)
    (hincoming : state.port.incoming =
      toWire (socketID :: nextFrame :: contents) ++ rest)
    (hcontents : contents ≠ []) (hlength : contents.length + 2 ≤ messageVecSize)
    (hempty : nextFrame.bytes state.heap = [])
    (hwhole : ∀ frame ∈ contents, frame.Whole state.heap)
    (htotal : (state.heap message).offset +
      storedSize message contents state.heap ≤ (state.heap message).capacity) :
    ∃ first second, Port.receiveOne message flags state = .ok first ∧
      Port.receive [message] flags state = .ok second ∧
      first.portName = second.portName ∧
      (first.heap message).size = (second.heap message).size ∧
      (first.heap message).offset = (second.heap message).offset ∧
      ((first.heap message).bytes = (second.heap message).bytes ↔
        LaidAlike message contents state.heap) := by
  obtain ⟨content, others, rfl⟩ := List.exists_cons_of_ne_nil hcontents
  have hfirst : storedSize message [content] state.heap =
      cpySize content (state.heap message) := by
    simp [storedSize]
  obtain ⟨one, hstoreOne⟩ := (exists_copyLoopOne_iff hwhole).mpr
    fun _ => by rw [Nat.add_zero]; exact htotal
  obtain ⟨vector, hstoreVector⟩ :=
    (exists_appendFrames_zero_iff hwhole).mpr (copiesFit_of_le htotal)
  have hloop : copyLoop [message] (content :: others) 0 0 state.heap =
      .ok vector := by
    rw [copyLoop_eq_distribute, distribute_singleton, hstoreVector]
  have hlaidOne := laid_of_copyLoopOne (Nat.zero_le _) hstoreOne
  have hlaidVector := laid_of_appendFrames hstoreVector
  refine ⟨_, _, receiveWith_of_store hopen hincoming hcontents hlength hempty
    hstoreOne, receiveWith_of_store hopen hincoming hcontents hlength hempty
      hloop, rfl, ?_, ?_, ?_⟩
  · rw [hlaidOne.size, hlaidVector.size, Nat.zero_add]
  · rw [hlaidOne.offset, hlaidVector.offset]
  · rw [hlaidOne.bytes, hlaidVector.bytes, LaidAlike, List.take_succ_cons,
      List.take_zero, List.drop_succ_cons, List.drop_zero, hfirst]
    simp only [lay, bytesOver_self, Nat.add_zero]

/-- On a package for one message the overloads agree if and only if the frame
after the identity is not empty, or the overload for a vector leaves the
message too, or all frames fit behind its offset and it makes no difference
where the later ones go. -/
theorem overloadsAgree_iff {message : α} {flags : RecvFlags}
    {state : ReceiveState α} {socketID nextFrame : FrameData α}
    {contents : List (FrameData α)} {rest : List (WireFrame α)}
    (hopen : state.port.closed = false)
    (hincoming : state.port.incoming =
      toWire (socketID :: nextFrame :: contents) ++ rest)
    (hcontents : contents ≠ []) (hlength : contents.length + 2 ≤ messageVecSize)
    (hwhole : ∀ frame ∈ contents, frame.Whole state.heap) :
    OverloadsAgree message flags state ↔
      nextFrame.bytes state.heap ≠ [] ∨
        ¬CopiesFit (state.heap message) contents ∨
        ((state.heap message).offset +
            storedSize message contents state.heap ≤
              (state.heap message).capacity ∧
          LaidAlike message contents state.heap) := by
  by_cases hempty : nextFrame.bytes state.heap = []
  · have hone : (ReceiveCall.one message flags).Inside state ↔
        (state.heap message).offset + storedSize message contents state.heap ≤
          (state.heap message).capacity :=
      receive_inside_iff hopen hincoming hcontents hlength hempty hwhole trivial
    have htarget : (ReceiveCall.vector [message] flags).HasTarget :=
      List.cons_ne_nil _ _
    have hvector : (ReceiveCall.vector [message] flags).Inside state ↔
        CopiesFit (state.heap message) contents :=
      (receive_inside_iff hopen hincoming hcontents hlength hempty hwhole
        htarget).trans vectorFits_singleton
    constructor
    · intro hagree
      by_cases hfit : CopiesFit (state.heap message) contents
      · have htotal := hone.mp (hagree.inside.mpr (hvector.mpr hfit))
        obtain ⟨first, second, hrunOne, hrunVector, -, -, -, halike⟩ :=
          @receive_both_of_le _ _ message flags _ _ _ _ _ hopen hincoming
            hcontents hlength hempty hwhole htotal
        obtain ⟨first', second', hfirst', hsecond', -, -, -, hbytes⟩ :=
          hagree.same (hone.mpr htotal) (hvector.mpr hfit)
        obtain rfl := Outcome.ok.inj (hrunOne.symm.trans hfirst')
        obtain rfl := Outcome.ok.inj (hrunVector.symm.trans hsecond')
        exact Or.inr (Or.inr ⟨htotal, halike.mp hbytes⟩)
      · exact Or.inr (Or.inl hfit)
    · rintro (hnot | hover | ⟨htotal, halike⟩)
      · exact absurd hempty hnot
      -- What leaves the message from its start also leaves it from its offset.
      · constructor
        · exact iff_of_false (fun h => hover (copiesFit_of_le (hone.mp h)))
            fun h => hover (hvector.mp h)
        · exact fun _ h => absurd (hvector.mp h) hover
      · obtain ⟨first, second, hrunOne, hrunVector, hname, hsize, hoffset,
          hbytes⟩ := @receive_both_of_le _ _ message flags _ _ _ _ _ hopen
            hincoming hcontents hlength hempty hwhole htotal
        constructor
        · exact iff_of_true (hone.mpr htotal)
            (hvector.mpr (copiesFit_of_le htotal))
        · exact fun _ _ => ⟨first, second, hrunOne, hrunVector, hname, hsize,
            hoffset, hbytes.mpr halike⟩
  · exact iff_of_true
      (overloadsAgree_of_delimiter hopen hincoming hcontents hlength hempty)
      (Or.inl hempty)

/-! ## A message with an offset -/

/-- A queued package of two frames of one byte, and empty messages of four
bytes that start at an offset. -/
def offsetState (offset : ℕ) : ReceiveState ℕ where
  portName := []
  port :=
    { portName := [99]
      transport := .inproc
      socket := 0
      closed := false
      routes := []
      incoming := toWire [.owned (portNameToSocketID [97] .inproc), .owned [],
        .owned [1], .owned [2]] ++ [] }
  heap := fun _ => (Message.new [0, 0, 0, 0]).resize 0 offset

theorem overloads_agree_at_start :
    (offsetState 0).port.closed = false ∧
      OverloadsAgree 0 .none (offsetState 0) := by
  refine ⟨rfl, (overloadsAgree_iff rfl rfl (by simp) (by decide) ?_).mpr ?_⟩
  · intro frame hframe
    simp only [List.mem_cons, List.not_mem_nil, or_false] at hframe
    rcases hframe with rfl | rfl <;> rfl
  · exact Or.inr (Or.inr ⟨by decide, laidAlike_of_offset_eq_zero rfl _⟩)

/-- Behind an offset of two, one overload leaves `0 0 1 2` in the message and
the other one `0 2 1 0`. -/
theorem overloads_disagree :
    ((offsetState 2).heap 0).offset + ((offsetState 2).heap 0).size ≤
        ((offsetState 2).heap 0).capacity ∧
      ¬OverloadsAgree 0 .none (offsetState 2) := by
  refine ⟨by decide, ?_⟩
  intro hagree
  have hone : (Port.receiveOne 0 .none (offsetState 2)).map
      (fun final => (final.heap 0).bytes) = .ok [0, 0, 1, 2] := by
    decide
  have hvector : (Port.receive [0] .none (offsetState 2)).map
      (fun final => (final.heap 0).bytes) = .ok [0, 2, 1, 0] := by
    decide
  obtain ⟨first, second, hfirst, hsecond, -, -, -, hbytes⟩ :=
    hagree.same (by decide) (by decide)
  rw [hfirst, Outcome.map_ok] at hone
  rw [hsecond, Outcome.map_ok] at hvector
  have hsame := (Outcome.ok.inj hone).symm.trans
    (hbytes.trans (Outcome.ok.inj hvector))
  exact absurd hsame (by decide)

end Dpn
