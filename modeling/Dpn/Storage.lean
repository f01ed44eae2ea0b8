import Dpn.Distribution

/-!
# What a receive call stores

A call on a port with a whole multipart in its queue stores the frames behind
the empty one.  This file says which bytes and which sizes one message ends up
with, and when the copies stay inside it.
-/

namespace Dpn

open ByteBuffer

section Store

variable {α : Type*} [DecidableEq α]

/-- The frames behind the empty one, if the multipart has the shape of a
package. -/
def packageFrames (heap : Heap α) : List (FrameData α) → List (FrameData α)
  | _ :: nextFrame :: content :: contents =>
      if nextFrame.bytes heap = [] then content :: contents else []
  | _ => []

def senderName (heap : Heap α) : List (FrameData α) → PortName
  | socketID :: _ :: _ :: _ => portNameFromSocketID (socketID.bytes heap)
  | _ => []

def Port.consume (port : Port α) : Port α :=
  match recvLoop .none 0 [] port.incoming with
  | .done _ _ rest => { port with incoming := rest }
  | .outOfRange rest => { port with incoming := rest }
  | .blocked => port

omit [DecidableEq α] in
theorem recvLoop_none_ne_done_false (idx : ℕ)
    (multiMessage : List (FrameData α)) (incoming : List (WireFrame α))
    (read : List (FrameData α)) (rest : List (WireFrame α)) :
    recvLoop .none idx multiMessage incoming ≠ .done false read rest := by
  induction incoming generalizing idx multiMessage with
  | nil =>
      unfold recvLoop
      split <;> simp
  | cons frame incoming ih =>
      unfold recvLoop
      split
      · simp
      · split
        · exact ih _ _
        · simp

theorem unpack_eq_distribute (messages : List α) (frames : List (FrameData α))
    (port : Port α) (heap : Heap α) :
    unpack (fun frames heap => copyLoop messages frames 0 0 heap) frames
        ⟨[], port, heap⟩ =
      (distribute messages (packageFrames heap frames) heap).map fun final =>
        ⟨senderName heap frames, port, final⟩ := by
  rcases frames with _ | ⟨socketID, _ | ⟨nextFrame, _ | ⟨content, contents⟩⟩⟩
  · simp [unpack, packageFrames, senderName]
  · simp [unpack, packageFrames, senderName]
  · simp [unpack, packageFrames, senderName]
  · simp only [unpack, packageFrames, senderName, copyLoop_eq_distribute]
    split
    · rfl
    · rw [distribute_nil, Outcome.map_ok]

theorem receive_of_next {messages : List α} {port : Port α} {heap : Heap α}
    {frames : List (FrameData α)} (hnext : port.nextMultipart = some frames) :
    Port.receive messages .none ⟨[], port, heap⟩ =
      (distribute messages (packageFrames heap frames) heap).map fun final =>
        ⟨senderName heap frames, port.consume, final⟩ := by
  unfold Port.nextMultipart at hnext
  split at hnext
  · contradiction
  · rename_i hopen
    split at hnext
    · rename_i multiMessage rest hloop
      obtain rfl : multiMessage = frames := by simpa using hnext
      have hconsume : port.consume = { port with incoming := rest } := by
        rw [Port.consume, hloop]
      rw [hconsume, ← unpack_eq_distribute]
      simp only [Port.receive, receiveWith, hopen, if_false, hloop,
        Bool.false_eq_true, ReceiveState.withIncoming]
    · contradiction

theorem receive_of_no_next {messages : List α} {port : Port α} {heap : Heap α}
    (hnext : port.nextMultipart = none) :
    (∃ error consumed, Port.receive messages .none ⟨[], port, heap⟩ =
        .throw error ⟨[], consumed, heap⟩) ∨
      Port.receive messages .none ⟨[], port, heap⟩ = .stuck .blocked := by
  unfold Port.nextMultipart at hnext
  simp only [Port.receive, receiveWith]
  by_cases hclosed : port.closed = true
  · exact Or.inl ⟨.zmqError, port, by simp only [hclosed, if_true]⟩
  · simp only [hclosed] at hnext ⊢
    cases hloop : recvLoop .none 0 [] port.incoming with
    | done rv multiMessage rest =>
        cases rv with
        | true => simp [hloop] at hnext
        | false => exact absurd hloop (recvLoop_none_ne_done_false _ _ _ _ _)
    | outOfRange rest =>
        exact Or.inl ⟨.outOfRange, { port with incoming := rest }, rfl⟩
    | blocked => exact Or.inr rfl

/-! ## What ends up in one message -/

def storedBytes (message : α) (frames : List (FrameData α))
    (heap : Heap α) : List UInt8 :=
  frames.flatMap fun frame =>
    (frame.bytes heap).take (cpySize frame (heap message))

def storedSize (message : α) (frames : List (FrameData α))
    (heap : Heap α) : ℕ :=
  (frames.map fun frame => cpySize frame (heap message)).sum

omit [DecidableEq α] in
theorem storedSize_cons (message : α) (frame : FrameData α)
    (rest : List (FrameData α)) (heap : Heap α) :
    storedSize message (frame :: rest) heap =
      cpySize frame (heap message) + storedSize message rest heap := by
  rw [storedSize, List.map_cons, List.sum_cons, storedSize]

omit [DecidableEq α] in
theorem cpySize_of_capacity_eq {frame : FrameData α} {first second : Message}
    (hcapacity : first.capacity = second.capacity) :
    cpySize frame first = cpySize frame second := by
  rw [cpySize_eq_min, cpySize_eq_min, hcapacity]

omit [DecidableEq α] in
theorem storedSize_of_stored {message : α} {bufferOffset : ℕ}
    {frame : FrameData α} {heap next : Heap α}
    (h : Stored message bufferOffset frame heap next)
    (rest : List (FrameData α)) :
    storedSize message rest next = storedSize message rest heap := by
  unfold storedSize
  congr 1
  apply List.map_congr_left
  intro other _
  exact cpySize_of_capacity_eq h.capacity

omit [DecidableEq α] in
theorem storedBytes_of_stored {message : α} {bufferOffset : ℕ}
    {frame : FrameData α} {heap next : Heap α}
    (h : Stored message bufferOffset frame heap next)
    {rest : List (FrameData α)}
    (havoids : ∀ other ∈ rest, other.Avoids message) :
    storedBytes message rest next = storedBytes message rest heap := by
  unfold storedBytes
  apply List.flatMap_congr
  intro other hother
  rw [FrameData.bytes_of_avoids (havoids other hother) h.others,
    cpySize_of_capacity_eq h.capacity]

theorem appendFrames_of_ok {message : α} {frames : List (FrameData α)}
    {bufferOffset : ℕ} {heap final : Heap α} (hframes : frames ≠ [])
    (hfinal : appendFrames message frames bufferOffset heap = .ok final) :
    (final message).size = bufferOffset + storedSize message frames heap ∧
      (final message).contentsSize =
        bufferOffset + storedSize message frames heap ∧
      (final message).offset = 0 ∧
      bufferOffset + storedSize message frames heap ≤
        (heap message).capacity := by
  induction frames generalizing bufferOffset heap with
  | nil => contradiction
  | cons frame rest ih =>
      rw [appendFrames] at hfinal
      cases hstore : storeFrame message bufferOffset frame heap with
      | none => simp [hstore] at hfinal
      | some next =>
          have h := stored_of_storeFrame hstore
          have hsum := storedSize_cons message frame rest heap
          simp only [hstore] at hfinal
          by_cases hrest : rest = []
          · subst rest
            obtain rfl : next = final := by simpa [appendFrames] using hfinal
            have hinside := h.inside
            rw [hsum, h.size, h.contentsSize, h.offset]
            simp only [storedSize, List.map_nil, List.sum_nil, Nat.add_zero,
              true_and]
            omega
          · obtain ⟨hsize, hcontents, hoffset, hcapacity⟩ := ih hrest hfinal
            rw [storedSize_of_stored h] at hsize hcontents hcapacity
            rw [h.capacity] at hcapacity
            rw [hsum, hsize, hcontents, hoffset]
            omega

omit [DecidableEq α] in
theorem FrameData.length_bytes_congr {heap next : Heap α}
    (hcapacity : ∀ address, (next address).capacity = (heap address).capacity)
    (frame : FrameData α) :
    (frame.bytes next).length = (frame.bytes heap).length := by
  cases frame with
  | owned bytes => rfl
  | shared source size =>
      simp only [FrameData.bytes, List.length_take, Message.bytes_length,
        hcapacity source]

theorem appendFrames_source_of_ok {message : α} {frames : List (FrameData α)}
    {bufferOffset : ℕ} {heap final : Heap α}
    (hfinal : appendFrames message frames bufferOffset heap = .ok final) :
    ∀ frame ∈ frames,
      cpySize frame (heap message) ≤ (frame.bytes heap).length := by
  induction frames generalizing bufferOffset heap with
  | nil => simp
  | cons frame rest ih =>
      rw [appendFrames] at hfinal
      cases hstore : storeFrame message bufferOffset frame heap with
      | none => simp [hstore] at hfinal
      | some next =>
          have h := stored_of_storeFrame hstore
          simp only [hstore] at hfinal
          intro other hother
          rcases List.mem_cons.mp hother with rfl | hmem
          · exact h.source
          · have hsource := ih hfinal other hmem
            rwa [FrameData.length_bytes_congr h.onlyChanges.capacity,
              cpySize_of_capacity_eq h.capacity] at hsource

/-- The first frame may even refer to the message itself. -/
theorem appendFrames_bytes_of_ok {message : α} {frames : List (FrameData α)}
    {bufferOffset : ℕ} {heap final : Heap α}
    (havoids : ∀ frame ∈ frames.tail, frame.Avoids message)
    (hoffset : (heap message).offset = 0)
    (hposition : bufferOffset ≤ (heap message).capacity)
    (hfinal : appendFrames message frames bufferOffset heap = .ok final) :
    (final message).bytes = overwrite (heap message).bytes bufferOffset
      (storedBytes message frames heap) := by
  induction frames generalizing bufferOffset heap with
  | nil =>
      obtain rfl : heap = final := by simpa [appendFrames] using hfinal
      simp [storedBytes]
  | cons frame rest ih =>
      rw [appendFrames] at hfinal
      cases hstore : storeFrame message bufferOffset frame heap with
      | none => simp [hstore] at hfinal
      | some next =>
          have h := stored_of_storeFrame hstore
          have hinside := h.inside
          have hrest : ∀ other ∈ rest, other.Avoids message := havoids
          have htail : ∀ other ∈ rest.tail, other.Avoids message :=
            fun other hother => hrest other (List.mem_of_mem_tail hother)
          have hcut : ((frame.bytes heap).take
              (cpySize frame (heap message))).length =
                cpySize frame (heap message) :=
            List.length_take_of_le h.source
          have hbuffer : bufferOffset ≤ (heap message).bytes.length := by
            rw [(heap message).bytes_length]
            exact hposition
          simp only [hstore] at hfinal
          have hbytes := ih htail h.offset (by rw [h.capacity]; omega) hfinal
          have hcons : storedBytes message (frame :: rest) heap =
              (frame.bytes heap).take (cpySize frame (heap message)) ++
                storedBytes message rest heap := rfl
          rw [hbytes, h.bytes, hoffset, Nat.zero_add,
            storedBytes_of_stored h hrest, hcons,
            ← overwrite_overwrite hbuffer, hcut]

/-! ## Laying frames into one message -/

/-- What a frame reads when the message holds the given bytes. -/
def FrameData.bytesOver (message : α) (bytes : List UInt8) (heap : Heap α) :
    FrameData α → List UInt8
  | .owned contents => contents
  | .shared source size =>
      if source = message then bytes.take size
      else (heap source).bytes.take size

/-- The bytes of the message after the frames have been copied to a position of
its allocation, one behind the other. -/
def lay (message : α) (heap : Heap α) :
    List (FrameData α) → ℕ → List UInt8 → List UInt8
  | [], _, bytes => bytes
  | frame :: rest, position, bytes =>
      lay message heap rest (position + cpySize frame (heap message))
        (overwrite bytes position
          ((frame.bytesOver message bytes heap).take
            (cpySize frame (heap message))))

theorem bytesOver_self (message : α) (heap : Heap α) (frame : FrameData α) :
    frame.bytesOver message (heap message).bytes heap = frame.bytes heap := by
  cases frame with
  | owned contents => rfl
  | shared source size =>
      by_cases heq : source = message
      · subst source
        simp [FrameData.bytesOver, FrameData.bytes]
      · simp [FrameData.bytesOver, FrameData.bytes, heq]

theorem lay_congr {message : α} {heap next : Heap α}
    (hothers : ∀ address, address ≠ message → next address = heap address)
    (hcapacity : (next message).capacity = (heap message).capacity)
    (frames : List (FrameData α)) (position : ℕ) (bytes : List UInt8) :
    lay message next frames position bytes =
      lay message heap frames position bytes := by
  induction frames generalizing position bytes with
  | nil => rfl
  | cons frame rest ih =>
      have hover : frame.bytesOver message bytes next =
          frame.bytesOver message bytes heap := by
        cases frame with
        | owned contents => rfl
        | shared source size =>
            by_cases heq : source = message
            · simp [FrameData.bytesOver, heq]
            · simp [FrameData.bytesOver, heq, hothers source heq]
      rw [lay, lay, ih, cpySize_of_capacity_eq hcapacity, hover]

/-- Nothing in front of the position is touched. -/
theorem take_lay {message : α} {heap : Heap α} {frames : List (FrameData α)}
    {position count : ℕ} {bytes : List UInt8} (hposition : count ≤ position)
    (hcount : count ≤ bytes.length) :
    (lay message heap frames position bytes).take count = bytes.take count := by
  induction frames generalizing position bytes with
  | nil => rfl
  | cons frame rest ih =>
      have hfront : count ≤ (bytes.take position).length := by
        rw [List.length_take]
        exact le_min hposition hcount
      rw [lay, ih (Nat.le_add_right_of_le hposition), overwrite,
        List.append_assoc, List.take_append_of_le_length hfront, List.take_take,
        Nat.min_eq_left hposition]
      rw [overwrite, List.append_assoc, List.length_append]
      exact Nat.le_add_right_of_le hfront

theorem lay_of_appendFrames {message : α} {frames : List (FrameData α)}
    {bufferOffset : ℕ} {heap final : Heap α}
    (hoffset : (heap message).offset = 0)
    (hfinal : appendFrames message frames bufferOffset heap = .ok final) :
    (final message).bytes =
      lay message heap frames bufferOffset (heap message).bytes := by
  induction frames generalizing bufferOffset heap with
  | nil =>
      obtain rfl := Outcome.ok.inj hfinal
      rfl
  | cons frame rest ih =>
      rw [appendFrames] at hfinal
      cases hstore : storeFrame message bufferOffset frame heap with
      | none => simp [hstore] at hfinal
      | some next =>
          have h := stored_of_storeFrame hstore
          simp only [hstore] at hfinal
          rw [ih h.offset hfinal, lay_congr h.others h.capacity, h.bytes,
            hoffset, Nat.zero_add, lay, bytesOver_self]

/-! ## Copies inside one message -/

/-- The copies stay inside the message: the first one behind the offset the
message has, the others behind the start. -/
def CopiesFit (message : Message) (frames : List (FrameData α)) : Prop :=
  match frames with
  | [] => True
  | frame :: _ =>
      message.offset + cpySize frame message ≤ message.capacity ∧
        (frames.map fun frame => cpySize frame message).sum ≤ message.capacity

instance (message : Message) (frames : List (FrameData α)) :
    Decidable (CopiesFit message frames) :=
  match frames with
  | [] => .isTrue trivial
  | _ :: _ => inferInstanceAs (Decidable (_ ∧ _))

omit [DecidableEq α] in
theorem FrameData.Whole.of_capacity_eq {frame : FrameData α}
    {heap next : Heap α} (hwhole : frame.Whole heap)
    (hcapacity : ∀ address, (next address).capacity = (heap address).capacity) :
    frame.Whole next := by
  rw [FrameData.Whole, FrameData.length_bytes_congr hcapacity]
  exact hwhole

theorem exists_appendFrames_iff {message : α} {frames : List (FrameData α)}
    {bufferOffset : ℕ} {heap : Heap α}
    (hwhole : ∀ frame ∈ frames, frame.Whole heap) :
    (∃ final, appendFrames message frames bufferOffset heap = .ok final) ↔
      ∀ frame rest, frames = frame :: rest →
        (heap message).offset + bufferOffset + cpySize frame (heap message) ≤
            (heap message).capacity ∧
          bufferOffset + storedSize message frames heap ≤
            (heap message).capacity := by
  induction frames generalizing bufferOffset heap with
  | nil => simp [appendFrames]
  | cons frame rest ih =>
      have hframe := hwhole frame (by simp)
      have hsum := storedSize_cons message frame rest heap
      constructor
      · rintro ⟨final, hfinal⟩ first others heq
        obtain ⟨rfl, rfl⟩ := List.cons.inj heq
        obtain ⟨-, -, -, hfits⟩ := appendFrames_of_ok (by simp) hfinal
        refine ⟨?_, hfits⟩
        rw [appendFrames] at hfinal
        cases hstore : storeFrame message bufferOffset frame heap with
        | none => simp [hstore] at hfinal
        | some next => exact (stored_of_storeFrame hstore).inside
      · intro hfits
        obtain ⟨hinside, htotal⟩ := hfits frame rest rfl
        obtain ⟨next, hstore⟩ := exists_storeFrame hframe hinside
        have h := stored_of_storeFrame hstore
        have hrest : ∀ other ∈ rest, other.Whole next :=
          fun other hother =>
            (hwhole other (List.mem_cons_of_mem frame hother)).of_capacity_eq
              h.onlyChanges.capacity
        simp only [appendFrames, hstore]
        apply (ih hrest).mpr
        intro second others heq
        rw [storedSize_of_stored h, h.offset, h.capacity,
          cpySize_of_capacity_eq h.capacity]
        have hsecond : cpySize second (heap message) ≤
            storedSize message rest heap := by
          rw [heq]
          simp [storedSize]
        omega

theorem exists_appendFrames_zero_iff {message : α}
    {frames : List (FrameData α)} {heap : Heap α}
    (hwhole : ∀ frame ∈ frames, frame.Whole heap) :
    (∃ final, appendFrames message frames 0 heap = .ok final) ↔
      CopiesFit (heap message) frames := by
  rw [exists_appendFrames_iff hwhole]
  cases frames with
  | nil => simp [CopiesFit]
  | cons frame rest =>
      simp only [CopiesFit, storedSize, Nat.add_zero, Nat.zero_add]
      constructor
      · exact fun h => h frame rest rfl
      · intro h first others heq
        obtain ⟨rfl, rfl⟩ := List.cons.inj heq
        exact h

theorem distribute_head_of_ok {message : α} {rest : List α}
    {frames : List (FrameData α)} {heap final : Heap α}
    (hnotMem : message ∉ rest) (hframes : frames ≠ [])
    (hfinal : distribute (message :: rest) frames heap = .ok final) :
    ∃ stored,
      appendFrames message (share (rest.length + 1) frames 0) 0 heap =
        .ok stored ∧
      final message = stored message := by
  obtain ⟨frame, frames, rfl⟩ := List.exists_cons_of_ne_nil hframes
  cases rest with
  | nil =>
      rw [distribute_singleton] at hfinal
      exact ⟨final, hfinal, rfl⟩
  | cons next rest =>
      rw [distribute] at hfinal
      cases hstore : storeFrame message 0 frame heap with
      | none => simp [hstore] at hfinal
      | some stored =>
          simp only [hstore] at hfinal
          refine ⟨stored, ?_, ?_⟩
          · simp [share, appendFrames, hstore]
          · exact ((distribute_onlyChanges (next :: rest) frames
              stored).of_ok hfinal).others message hnotMem

/-- A message after its share of the frames was stored in it. -/
structure HasShare (message : α) (frames : List (FrameData α)) (heap : Heap α)
    (final : Message) : Prop where
  unchanged : frames = [] → final = heap message
  capacity : final.capacity = (heap message).capacity
  size : frames ≠ [] → final.size = storedSize message frames heap
  contentsSize : frames ≠ [] →
    final.contentsSize = storedSize message frames heap
  offset : frames ≠ [] → final.offset = 0
  first : ∀ frame rest, frames = frame :: rest →
    cpySize frame (heap message) ≤ (frame.bytes heap).length ∧
      (heap message).offset + cpySize frame (heap message) ≤
        (heap message).capacity
  bytes : ∀ frame rest, frames = frame :: rest →
    final.bytes = overwrite
      (overwrite (heap message).bytes (heap message).offset
        ((frame.bytes heap).take (cpySize frame (heap message))))
      (cpySize frame (heap message)) (storedBytes message rest heap)

theorem hasShare_of_appendFrames {message : α} {frames : List (FrameData α)}
    {heap final : Heap α}
    (havoids : ∀ frame ∈ frames, frame.Avoids message)
    (hfinal : appendFrames message frames 0 heap = .ok final) :
    HasShare message frames heap (final message) where
  unchanged := by
    rintro rfl
    rw [← Outcome.ok.inj hfinal]
  capacity :=
    ((appendFrames_onlyChanges message frames 0 heap).of_ok hfinal).capacity _
  size := by
    intro hframes
    rw [(appendFrames_of_ok hframes hfinal).1, Nat.zero_add]
  contentsSize := by
    intro hframes
    rw [(appendFrames_of_ok hframes hfinal).2.1, Nat.zero_add]
  offset := fun hframes => (appendFrames_of_ok hframes hfinal).2.2.1
  first := by
    rintro frame rest rfl
    rw [appendFrames] at hfinal
    cases hstore : storeFrame message 0 frame heap with
    | none => simp [hstore] at hfinal
    | some next =>
        have h := stored_of_storeFrame hstore
        exact ⟨h.source, h.inside⟩
  bytes := by
    rintro frame rest rfl
    have hrest : ∀ other ∈ rest, other.Avoids message := fun other hother =>
      havoids other (List.mem_cons_of_mem frame hother)
    rw [appendFrames] at hfinal
    cases hstore : storeFrame message 0 frame heap with
    | none => simp [hstore] at hfinal
    | some next =>
        have h := stored_of_storeFrame hstore
        have hinside := h.inside
        simp only [hstore, Nat.zero_add] at hfinal
        rw [appendFrames_bytes_of_ok
          (fun other hother => hrest other (List.mem_of_mem_tail hother))
          h.offset (by rw [h.capacity]; omega) hfinal, h.bytes, Nat.add_zero,
          storedBytes_of_stored h hrest]

omit [DecidableEq α] in
theorem HasShare.of_stored {message other : α} {frame : FrameData α}
    {frames : List (FrameData α)} {heap next : Heap α} {final : Message}
    (h : HasShare other frames next final)
    (hstored : Stored message 0 frame heap next) (hne : other ≠ message)
    (havoids : ∀ frame ∈ frames, frame.Avoids message) :
    HasShare other frames heap final := by
  have hother := hstored.others other hne
  have hsize : storedSize other frames next = storedSize other frames heap := by
    rw [storedSize, storedSize, hother]
  have hframe : ∀ later ∈ frames, later.bytes next = later.bytes heap :=
    fun later hlater =>
      FrameData.bytes_of_avoids (havoids later hlater) hstored.others
  rcases h with
    ⟨hunchanged, hcapacity, hfinalSize, hcontents, hoffset, hfirst, hfinal⟩
  rw [hother] at hunchanged hcapacity hfirst
  rw [hsize] at hfinalSize hcontents
  refine ⟨hunchanged, hcapacity, hfinalSize, hcontents, hoffset, ?_, ?_⟩
  · rintro first rest rfl
    have hinside := hfirst first rest rfl
    rwa [hframe first (by simp)] at hinside
  rintro first rest rfl
  have hbytes : storedBytes other rest next = storedBytes other rest heap := by
    unfold storedBytes
    apply List.flatMap_congr
    intro later hlater
    rw [hframe later (List.mem_cons_of_mem first hlater), hother]
  rw [hfinal first rest rfl, hbytes, hother, hframe first (by simp)]

theorem hasShare_of_distribute {messages : List α}
    {frames : List (FrameData α)} {heap final : Heap α}
    (hnodup : messages.Nodup)
    (havoids : ∀ frame ∈ frames, ∀ message ∈ messages, frame.Avoids message)
    (hfinal : distribute messages frames heap = .ok final)
    {i : ℕ} {message : α} (hmessage : messages[i]? = some message) :
    HasShare message (share messages.length frames i) heap (final message) := by
  induction messages generalizing frames heap i with
  | nil => simp at hmessage
  | cons first rest ih =>
      cases frames with
      | nil =>
          rw [distribute_nil] at hfinal
          obtain rfl := Outcome.ok.inj hfinal
          have hnil : share (first :: rest).length ([] : List (FrameData α)) i =
              [] := share_eq_nil_iff.mpr (Nat.zero_le _)
          rw [hnil]
          exact @hasShare_of_appendFrames _ _ message [] heap heap (by simp) rfl
      | cons frame frames =>
          cases i with
          | zero =>
              obtain rfl : first = message := by simpa using hmessage
              obtain ⟨stored, happend, heq⟩ := distribute_head_of_ok
                (List.nodup_cons.mp hnodup).1 (by simp) hfinal
              rw [heq]
              refine hasShare_of_appendFrames ?_ happend
              exact fun other hother =>
                havoids other (mem_of_mem_share hother) first (by simp)
          | succ i =>
              rw [List.getElem?_cons_succ] at hmessage
              have hmem := List.mem_of_getElem? hmessage
              obtain ⟨next, others, rfl⟩ :=
                List.exists_cons_of_ne_nil (List.ne_nil_of_mem hmem)
              rw [distribute] at hfinal
              cases hstore : storeFrame first 0 frame heap with
              | none => simp [hstore] at hfinal
              | some stored =>
                  simp only [hstore] at hfinal
                  have hrest := ih (List.nodup_cons.mp hnodup).2
                    (fun other hother target htarget =>
                      havoids other (List.mem_cons_of_mem frame hother) target
                        (List.mem_cons_of_mem first htarget)) hfinal hmessage
                  rw [List.length_cons, share_succ]
                  refine hrest.of_stored (stored_of_storeFrame hstore) ?_ ?_
                  · rintro rfl
                    exact (List.nodup_cons.mp hnodup).1 hmem
                  · intro other hother
                    exact havoids other
                      (List.mem_cons_of_mem frame (mem_of_mem_share hother))
                      first (by simp)

omit [DecidableEq α] in
/-- A message without an offset holds its share from the start. -/
theorem HasShare.bytes_zero {message : α} {frames : List (FrameData α)}
    {heap : Heap α} {final : Message} (h : HasShare message frames heap final)
    (hoffset : (heap message).offset = 0) :
    final.bytes =
      overwrite (heap message).bytes 0 (storedBytes message frames heap) := by
  cases frames with
  | nil =>
      rw [h.unchanged rfl, storedBytes, List.flatMap_nil, overwrite_nil]
  | cons frame rest =>
      have hcut : ((frame.bytes heap).take
          (cpySize frame (heap message))).length =
            cpySize frame (heap message) :=
        List.length_take_of_le (h.first frame rest rfl).1
      have hcons : storedBytes message (frame :: rest) heap =
          (frame.bytes heap).take (cpySize frame (heap message)) ++
            storedBytes message rest heap := rfl
      rw [h.bytes frame rest rfl, hoffset, hcons,
        ← overwrite_overwrite (Nat.zero_le _), hcut, Nat.zero_add]

omit [DecidableEq α] in
theorem length_storedBytes {message : α} {frames : List (FrameData α)}
    {heap : Heap α} (hwhole : ∀ frame ∈ frames, frame.Whole heap) :
    (storedBytes message frames heap).length =
      storedSize message frames heap := by
  induction frames with
  | nil => rfl
  | cons frame rest ih =>
      have hsource : cpySize frame (heap message) ≤
          (frame.bytes heap).length := by
        rw [hwhole frame (by simp), cpySize_eq_min]
        exact Nat.min_le_left _ _
      rw [storedSize_cons, storedBytes, List.flatMap_cons, List.length_append,
        List.length_take, Nat.min_eq_left hsource, ← storedBytes,
        ih fun other hother => hwhole other (List.mem_cons_of_mem frame hother)]

/-- What a message shows of its share.  In front of the first frame stand the
bytes in front of the offset that the message had; that frame loses as many, and
the others stand where they belong. -/
def shareShown (message : α) (heap : Heap α) :
    List (FrameData α) → ℕ × List UInt8
  | [] => ((heap message).size, (heap message).visible)
  | frame :: rest =>
      (storedSize message (frame :: rest) heap,
        (heap message).bytes.take
            (min (cpySize frame (heap message)) (heap message).offset) ++
          ((frame.bytes heap).take (cpySize frame (heap message))).take
            (cpySize frame (heap message) - (heap message).offset) ++
          storedBytes message rest heap)

omit [DecidableEq α] in
theorem HasShare.shown {message : α} {frames : List (FrameData α)}
    {heap : Heap α} {final : Message} (h : HasShare message frames heap final)
    (hwhole : ∀ frame ∈ frames, frame.Whole heap) :
    (final.size, final.visible) = shareShown message heap frames := by
  cases frames with
  | nil =>
      rw [h.unchanged rfl]
      rfl
  | cons frame rest =>
      obtain ⟨hsource, hinside⟩ := h.first frame rest rfl
      have hcut : ((frame.bytes heap).take
          (cpySize frame (heap message))).length =
            cpySize frame (heap message) :=
        List.length_take_of_le hsource
      have hrest : (storedBytes message rest heap).length =
          storedSize message rest heap :=
        length_storedBytes fun other hother =>
          hwhole other (List.mem_cons_of_mem frame hother)
      have hbehind := @take_overwrite_behind _ (heap message).bytes
        ((frame.bytes heap).take (cpySize frame (heap message)))
        (storedBytes message rest heap) (heap message).offset
        (by rw [hcut, (heap message).bytes_length]; exact hinside)
      rw [hcut, hrest, ← storedSize_cons] at hbehind
      rw [Message.visible, h.offset (by simp), List.drop_zero,
        h.size (by simp), h.bytes frame rest rfl, hbehind]
      rfl

omit [DecidableEq α] in
/-- A message with room for all bytes of its frames takes all of them. -/
theorem stored_eq_payload {message : α} {frames : List (FrameData α)}
    {heap : Heap α} (hwhole : ∀ frame ∈ frames, frame.Whole heap)
    (hfits : (payload heap frames).length ≤ (heap message).capacity) :
    storedBytes message frames heap = payload heap frames ∧
      storedSize message frames heap = (payload heap frames).length := by
  have hbytes : storedBytes message frames heap = payload heap frames := by
    apply List.flatMap_congr
    intro frame hframe
    have hsize : frame.size ≤ (payload heap frames).length := by
      rw [← hwhole frame hframe, payload, List.flatMap_def]
      exact (List.sublist_flatten_of_mem (List.mem_map_of_mem hframe)).length_le
    exact (take_cpySize (hwhole frame hframe) (hsize.trans hfits)).2
  rw [← length_storedBytes hwhole, hbytes]
  exact ⟨rfl, rfl⟩

omit [DecidableEq α] in
theorem HasShare.received {message : α} {frames : List (FrameData α)}
    {heap final : Heap α}
    (h : HasShare message frames heap (final message))
    (hoffset : (heap message).offset = 0)
    (hwhole : ∀ frame ∈ frames, frame.Whole heap)
    (hfits : (payload heap frames).length ≤ (heap message).capacity) :
    Received heap final message frames := by
  obtain ⟨hstored, hlength⟩ := stored_eq_payload hwhole hfits
  have hbytes := h.bytes_zero hoffset
  rw [hstored, overwrite_zero] at hbytes
  unfold Received
  split
  · rename_i hnone
    exact h.unchanged hnone
  · rename_i hsome
    refine ⟨?_, h.offset hsome, ?_, ?_⟩
    · rw [h.size hsome, hlength]
    · rw [h.contentsSize hsome, hlength]
    · rw [Message.visible, h.offset hsome, List.drop_zero, h.size hsome, hlength,
        hbytes, List.take_left']
      rfl

theorem appendFrames_ok_or_undefined (message : α)
    (frames : List (FrameData α)) (bufferOffset : ℕ) (heap : Heap α) :
    (∃ final, appendFrames message frames bufferOffset heap = .ok final) ∨
      appendFrames message frames bufferOffset heap = .stuck .undefined := by
  induction frames generalizing bufferOffset heap with
  | nil => exact Or.inl ⟨heap, rfl⟩
  | cons frame rest ih =>
      rw [appendFrames]
      cases storeFrame message bufferOffset frame heap with
      | none => exact Or.inr rfl
      | some next => exact ih _ next

/-- With a message to fill, the loop never runs out of messages. -/
theorem distribute_ok_or_undefined (message : α) (rest : List α)
    (frames : List (FrameData α)) (heap : Heap α) :
    (∃ final, distribute (message :: rest) frames heap = .ok final) ∨
      distribute (message :: rest) frames heap = .stuck .undefined := by
  induction rest generalizing message frames heap with
  | nil =>
      rw [distribute_singleton]
      exact appendFrames_ok_or_undefined message frames 0 heap
  | cons next rest ih =>
      cases frames with
      | nil =>
          rw [distribute_nil]
          exact Or.inl ⟨heap, rfl⟩
      | cons frame frames =>
          rw [distribute]
          cases storeFrame message 0 frame heap with
          | none => exact Or.inr rfl
          | some stored => exact ih next frames stored

end Store

end Dpn
