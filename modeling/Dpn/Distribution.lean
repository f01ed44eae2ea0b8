import Dpn.Receive

/-!
# What the copy loop stores where

The loop over a moving message index is the same as a recursion on the data:
each message but the last takes one frame, and the last one takes the rest,
appended one after another.  From this form follow the frame conditions: only
the messages named change, and no message gets another capacity.
-/

namespace Dpn

open ByteBuffer

variable {α : Type*} [DecidableEq α]

/-- One round of the loop: the copy and the resize that follows it. -/
def storeFrame (message : α) (bufferOffset : ℕ) (frame : FrameData α)
    (heap : Heap α) : Option (Heap α) :=
  (copyFrame message bufferOffset frame heap).map fun copied =>
    Function.update heap message
      (copied.resize (bufferOffset + cpySize frame (heap message)) 0)

def appendFrames (message : α) :
    List (FrameData α) → ℕ → Heap α → Outcome Exn (Heap α)
  | [], _, heap => .ok heap
  | frame :: rest, bufferOffset, heap =>
      match storeFrame message bufferOffset frame heap with
      | none => .stuck .undefined
      | some next =>
          appendFrames message rest
            (bufferOffset + cpySize frame (heap message)) next

/-- The copy loop by recursion on the messages still to be filled. -/
def distribute :
    List α → List (FrameData α) → Heap α → Outcome Exn (Heap α)
  | _, [], heap => .ok heap
  | [], _ :: _, heap => .throw .outOfRange heap
  | [message], frames, heap => appendFrames message frames 0 heap
  | message :: next :: messages, frame :: frames, heap =>
      match storeFrame message 0 frame heap with
      | none => .stuck .undefined
      | some stored => distribute (next :: messages) frames stored

@[simp] theorem distribute_nil (messages : List α) (heap : Heap α) :
    distribute messages [] heap = .ok heap := by
  rcases messages with _ | ⟨message, _ | ⟨next, rest⟩⟩ <;> rfl

@[simp] theorem distribute_singleton (message : α)
    (frames : List (FrameData α)) (heap : Heap α) :
    distribute [message] frames heap = appendFrames message frames 0 heap := by
  cases frames <;> rfl

theorem copyLoop_cons (messages : List α) (frame : FrameData α)
    (rest : List (FrameData α)) (bufferOffset messageIdx : ℕ) (heap : Heap α)
    {message : α} (hmessage : messages[messageIdx]? = some message) :
    copyLoop messages (frame :: rest) bufferOffset messageIdx heap =
      match storeFrame message bufferOffset frame heap with
      | none => .stuck .undefined
      | some next =>
          if messageIdx < messages.length - 1 then
            copyLoop messages rest 0 (messageIdx + 1) next
          else copyLoop messages rest
            (bufferOffset + cpySize frame (heap message)) messageIdx next := by
  simp only [copyLoop, hmessage, storeFrame]
  cases copyFrame message bufferOffset frame heap <;> rfl

theorem copyLoop_last (messages : List α) (frames : List (FrameData α))
    (bufferOffset messageIdx : ℕ) (heap : Heap α) {message : α}
    (hmessage : messages[messageIdx]? = some message)
    (hlast : ¬(messageIdx < messages.length - 1)) :
    copyLoop messages frames bufferOffset messageIdx heap =
      appendFrames message frames bufferOffset heap := by
  induction frames generalizing bufferOffset heap with
  | nil => rfl
  | cons frame rest ih =>
      rw [copyLoop_cons messages frame rest bufferOffset messageIdx heap hmessage,
        appendFrames]
      cases storeFrame message bufferOffset frame heap with
      | none => rfl
      | some next =>
          simp only [hlast, if_false]
          exact ih _ next

theorem copyLoop_drop (messages : List α) (frames : List (FrameData α))
    (messageIdx : ℕ) (heap : Heap α) (hidx : messageIdx < messages.length) :
    copyLoop messages frames 0 messageIdx heap =
      distribute (messages.drop messageIdx) frames heap := by
  induction frames generalizing messageIdx heap with
  | nil => rw [copyLoop, distribute_nil]
  | cons frame rest ih =>
      have hmessage : messages[messageIdx]? = some messages[messageIdx] :=
        List.getElem?_eq_getElem hidx
      rw [List.drop_eq_getElem_cons hidx]
      rcases Nat.lt_or_ge (messageIdx + 1) messages.length with hmore | hend
      · have hcursor : messageIdx < messages.length - 1 := by omega
        rw [copyLoop_cons messages frame rest 0 messageIdx heap hmessage,
          List.drop_eq_getElem_cons hmore, distribute]
        cases storeFrame messages[messageIdx] 0 frame heap with
        | none => rfl
        | some next =>
            simp only [hcursor, if_true]
            rw [ih (messageIdx + 1) next hmore,
              ← List.drop_eq_getElem_cons hmore]
      · rw [List.drop_eq_nil_of_le hend, distribute_singleton]
        exact copyLoop_last messages (frame :: rest) 0 messageIdx heap hmessage
          (by omega)

/-- The loop of the vector overload is the recursion. -/
theorem copyLoop_eq_distribute (messages : List α)
    (frames : List (FrameData α)) (heap : Heap α) :
    copyLoop messages frames 0 0 heap = distribute messages frames heap := by
  cases messages with
  | nil =>
      cases frames with
      | nil => rfl
      | cons frame rest => rfl
  | cons message rest =>
      simpa using copyLoop_drop (message :: rest) frames 0 heap (by simp)

/-! ## One round -/

omit [DecidableEq α] in
theorem cpySize_eq_min (frame : FrameData α) (message : Message) :
    cpySize frame message = min frame.size message.capacity := by
  unfold cpySize
  split <;> omega

structure Stored (message : α) (bufferOffset : ℕ) (frame : FrameData α)
    (heap next : Heap α) : Prop where
  source : cpySize frame (heap message) ≤ (frame.bytes heap).length
  inside : (heap message).offset + bufferOffset +
    cpySize frame (heap message) ≤ (heap message).capacity
  others : ∀ address, address ≠ message → next address = heap address
  size : (next message).size = bufferOffset + cpySize frame (heap message)
  offset : (next message).offset = 0
  capacity : (next message).capacity = (heap message).capacity
  contentsSize :
    (next message).contentsSize = bufferOffset + cpySize frame (heap message)
  bytes : (next message).bytes =
    overwrite (heap message).bytes ((heap message).offset + bufferOffset)
      ((frame.bytes heap).take (cpySize frame (heap message)))

theorem stored_of_storeFrame {message : α} {bufferOffset : ℕ}
    {frame : FrameData α} {heap next : Heap α}
    (hstore : storeFrame message bufferOffset frame heap = some next) :
    Stored message bufferOffset frame heap next := by
  obtain ⟨copied, hcopy, rfl⟩ := Option.map_eq_some_iff.mp hstore
  unfold copyFrame Message.memcpy at hcopy
  split at hcopy
  · rename_i hsource
    obtain ⟨hinside, _, _, hcapacity, _, hbytes⟩ := Message.write_eq_some.mp hcopy
    rw [List.length_take, Nat.min_eq_left hsource] at hinside
    have hresize := Message.resize_of_le
      (show bufferOffset + cpySize frame (heap message) + 0 ≤ copied.capacity by
        omega)
    constructor
    · exact hsource
    · exact hinside
    · intro address hne
      exact Function.update_of_ne hne _ _
    · rw [Function.update_self, hresize]
    · rw [Function.update_self, hresize]
    · rw [Function.update_self, hresize]
      exact hcapacity
    · rw [Function.update_self, hresize]
    · rw [Function.update_self, hresize]
      exact hbytes
  · contradiction

theorem storeFrame_eq_none_iff {message : α} {bufferOffset : ℕ}
    {frame : FrameData α} {heap : Heap α}
    (hframe : (frame.bytes heap).length = frame.size) :
    storeFrame message bufferOffset frame heap = none ↔
      (heap message).capacity < (heap message).offset + bufferOffset +
        cpySize frame (heap message) := by
  have hsource : cpySize frame (heap message) ≤ (frame.bytes heap).length := by
    rw [hframe, cpySize_eq_min]
    exact Nat.min_le_left _ _
  rw [storeFrame, Option.map_eq_none_iff, copyFrame,
    Message.memcpy_eq_none hsource]

theorem exists_storeFrame {message : α} {bufferOffset : ℕ}
    {frame : FrameData α} {heap : Heap α}
    (hframe : (frame.bytes heap).length = frame.size)
    (hinside : (heap message).offset + bufferOffset +
      cpySize frame (heap message) ≤ (heap message).capacity) :
    ∃ next, storeFrame message bufferOffset frame heap = some next := by
  apply Option.ne_none_iff_exists'.mp
  rw [Ne, storeFrame_eq_none_iff hframe]
  omega

/-! ## Frame conditions -/

/-- Capacities never change, and neither do messages that are not named. -/
structure OnlyChanges (messages : List α) (heap next : Heap α) : Prop where
  others : ∀ address, address ∉ messages → next address = heap address
  capacity : ∀ address, (next address).capacity = (heap address).capacity

omit [DecidableEq α] in
theorem OnlyChanges.refl (messages : List α) (heap : Heap α) :
    OnlyChanges messages heap heap :=
  ⟨fun _ _ => rfl, fun _ => rfl⟩

omit [DecidableEq α] in
theorem OnlyChanges.trans {messages : List α} {heap next final : Heap α}
    (hfirst : OnlyChanges messages heap next)
    (hsecond : OnlyChanges messages next final) :
    OnlyChanges messages heap final where
  others := fun address hnotMem =>
    (hsecond.others address hnotMem).trans (hfirst.others address hnotMem)
  capacity := fun address =>
    (hsecond.capacity address).trans (hfirst.capacity address)

omit [DecidableEq α] in
theorem OnlyChanges.mono {messages more : List α} {heap next : Heap α}
    (h : OnlyChanges messages heap next) (hsub : messages ⊆ more) :
    OnlyChanges more heap next where
  others := fun address hnotMem =>
    h.others address fun hmem => hnotMem (hsub hmem)
  capacity := h.capacity

theorem Stored.onlyChanges {message : α} {bufferOffset : ℕ}
    {frame : FrameData α} {heap next : Heap α}
    (h : Stored message bufferOffset frame heap next) :
    OnlyChanges [message] heap next where
  others := fun address hnotMem =>
    h.others address (by simpa using hnotMem)
  capacity := by
    intro address
    by_cases heq : address = message
    · subst address
      exact h.capacity
    · rw [h.others address heq]

theorem appendFrames_onlyChanges (message : α) (frames : List (FrameData α))
    (bufferOffset : ℕ) (heap : Heap α) :
    (appendFrames message frames bufferOffset heap).Holds
      (OnlyChanges [message] heap) := by
  induction frames generalizing bufferOffset heap with
  | nil => exact OnlyChanges.refl _ _
  | cons frame rest ih =>
      rw [appendFrames]
      cases hstore : storeFrame message bufferOffset frame heap with
      | none => trivial
      | some next =>
          have hfirst := (stored_of_storeFrame hstore).onlyChanges
          exact (ih _ next).mono fun final hfinal => hfirst.trans hfinal

theorem distribute_onlyChanges (messages : List α)
    (frames : List (FrameData α)) (heap : Heap α) :
    (distribute messages frames heap).Holds (OnlyChanges messages heap) := by
  induction messages generalizing frames heap with
  | nil => cases frames <;> exact OnlyChanges.refl _ _
  | cons message rest ih =>
      cases frames with
      | nil =>
          rw [distribute_nil]
          exact OnlyChanges.refl _ _
      | cons frame frames =>
          cases rest with
          | nil =>
              rw [distribute_singleton]
              exact appendFrames_onlyChanges message (frame :: frames) 0 heap
          | cons next rest =>
              rw [distribute]
              cases hstore : storeFrame message 0 frame heap with
              | none => trivial
              | some stored =>
                  have hfirst := (stored_of_storeFrame hstore).onlyChanges.mono
                    (show [message] ⊆ message :: next :: rest by simp)
                  exact (ih frames stored).mono fun final hfinal =>
                    hfirst.trans (hfinal.mono (List.subset_cons_self _ _))

/-- A property of single messages that survives a round survives the loop. -/
theorem distribute_preserves {p : Message → Prop}
    (hround : ∀ (message : α) (bufferOffset : ℕ) (frame : FrameData α)
      (heap next : Heap α), Stored message bufferOffset frame heap next →
      p (heap message) → p (next message))
    (messages : List α) (frames : List (FrameData α)) (heap : Heap α)
    {address : α} (hp : p (heap address)) :
    (distribute messages frames heap).Holds fun final => p (final address) := by
  have hstored : ∀ (message : α) (bufferOffset : ℕ) (frame : FrameData α)
      (heap next : Heap α), storeFrame message bufferOffset frame heap = some next →
      p (heap address) → p (next address) := by
    intro message bufferOffset frame heap next hstore hp
    have h := stored_of_storeFrame hstore
    by_cases heq : address = message
    · subst address
      exact hround message bufferOffset frame heap next h hp
    · rw [h.others address heq]
      exact hp
  have happend : ∀ (message : α) (frames : List (FrameData α))
      (bufferOffset : ℕ) (heap : Heap α), p (heap address) →
      (appendFrames message frames bufferOffset heap).Holds
        fun final => p (final address) := by
    intro message frames
    induction frames with
    | nil => exact fun _ _ hp => hp
    | cons frame rest ih =>
        intro bufferOffset heap hp
        rw [appendFrames]
        cases hstore : storeFrame message bufferOffset frame heap with
        | none => trivial
        | some next => exact ih _ next (hstored _ _ _ _ _ hstore hp)
  induction messages generalizing frames heap with
  | nil => cases frames <;> exact hp
  | cons message rest ih =>
      cases frames with
      | nil =>
          rw [distribute_nil]
          exact hp
      | cons frame frames =>
          cases rest with
          | nil =>
              rw [distribute_singleton]
              exact happend message (frame :: frames) 0 heap hp
          | cons next rest =>
              rw [distribute]
              cases hstore : storeFrame message 0 frame heap with
              | none => trivial
              | some stored => exact ih frames stored (hstored _ _ _ _ _ hstore hp)

/-! ## Contents -/

/-- The frame is not a reference to the buffer of the message. -/
def FrameData.Avoids (message : α) : FrameData α → Prop
  | .owned _ => True
  | .shared source _ => source ≠ message

/-- Every byte the frame announces is there to be read. -/
def FrameData.Whole (heap : Heap α) (frame : FrameData α) : Prop :=
  (frame.bytes heap).length = frame.size

def payload (heap : Heap α) (frames : List (FrameData α)) : List UInt8 :=
  frames.flatMap fun frame => frame.bytes heap

structure Message.Shows (message : Message) (content : List UInt8) : Prop where
  size : message.size = content.length
  offset : message.offset = 0
  contentsSize : message.contentsSize = content.length
  visible : message.visible = content

omit [DecidableEq α] in
theorem FrameData.bytes_of_avoids {message : α} {frame : FrameData α}
    {heap next : Heap α} (havoids : frame.Avoids message)
    (hnext : ∀ address, address ≠ message → next address = heap address) :
    frame.bytes next = frame.bytes heap := by
  cases frame with
  | owned bytes => rfl
  | shared source size =>
      simp only [FrameData.bytes]
      rw [hnext source havoids]

omit [DecidableEq α] in
@[simp] theorem payload_nil (heap : Heap α) : payload heap [] = [] := rfl

omit [DecidableEq α] in
@[simp] theorem payload_cons (heap : Heap α) (frame : FrameData α)
    (rest : List (FrameData α)) :
    payload heap (frame :: rest) = frame.bytes heap ++ payload heap rest := rfl

omit [DecidableEq α] in
theorem take_cpySize {frame : FrameData α} {heap : Heap α} {message : Message}
    (hwhole : frame.Whole heap) (hfits : frame.size ≤ message.capacity) :
    cpySize frame message = (frame.bytes heap).length ∧
      (frame.bytes heap).take (cpySize frame message) = frame.bytes heap := by
  have hsize : cpySize frame message = (frame.bytes heap).length := by
    rw [cpySize_eq_min, Nat.min_eq_left hfits, hwhole]
  exact ⟨hsize, by rw [hsize, List.take_length]⟩

/-- The frames that message `i` out of `count` gets: one each, and the last
message everything that is left. -/
def share {β : Type*} (count : ℕ) (frames : List β) (i : ℕ) : List β :=
  if i + 1 < count then (frames.drop i).take 1 else frames.drop i

omit [DecidableEq α] in
theorem share_succ {β : Type*} (count : ℕ) (frame : β) (frames : List β) (i : ℕ) :
    share (count + 1) (frame :: frames) (i + 1) = share count frames i := by
  simp [share]

omit [DecidableEq α] in
theorem mem_of_mem_share {β : Type*} {count i : ℕ} {frames : List β} {frame : β}
    (hframe : frame ∈ share count frames i) : frame ∈ frames := by
  unfold share at hframe
  split at hframe
  · exact List.mem_of_mem_drop (List.mem_of_mem_take hframe)
  · exact List.mem_of_mem_drop hframe

omit [DecidableEq α] in
theorem share_map {β γ : Type*} (f : β → γ) (count : ℕ) (frames : List β)
    (i : ℕ) : share count (frames.map f) i = (share count frames i).map f := by
  unfold share
  split <;> simp [List.map_drop, List.map_take]

omit [DecidableEq α] in
theorem share_of_lt {β : Type*} {count i : ℕ} {frames : List β} {frame : β}
    (hcount : i + 1 < count) (hframe : frames[i]? = some frame) :
    share count frames i = [frame] := by
  obtain ⟨hi, rfl⟩ := List.getElem?_eq_some_iff.mp hframe
  rw [share, if_pos hcount, List.drop_eq_getElem_cons hi]
  rfl

omit [DecidableEq α] in
theorem share_eq_nil_iff {β : Type*} {count i : ℕ} {frames : List β} :
    share count frames i = [] ↔ frames.length ≤ i := by
  unfold share
  split <;> simp

/-- A message that gets frames shows exactly their bytes; the others are left
as they were. -/
def Received (heap final : Heap α) (message : α)
    (frames : List (FrameData α)) : Prop :=
  if frames = [] then final message = heap message
  else (final message).Shows (payload heap frames)

end Dpn
