import Dpn.MessageBoundaries
import Dpn.Storage

/-!
# Where the copies of a receive call go

Both copy loops truncate a frame to the capacity of the message, whatever is in
the message already and wherever its buffer starts.  This file records the
destination of every copy and says exactly when all of them lie inside the
allocation: the lengths of the frames are the sender's choice.
-/

namespace Dpn

variable {α : Type*} [DecidableEq α]

/-! ## Destinations -/

/-- A destination, counted from the start of the allocation. -/
structure Copy (α : Type*) where
  message : α
  start : ℕ
  size : ℕ
  deriving DecidableEq, Repr

def Copy.Inside (heap : Heap α) (copy : Copy α) : Prop :=
  copy.start + copy.size ≤ (heap copy.message).capacity

def copyTo (message : α) (bufferOffset : ℕ) (frame : FrameData α)
    (heap : Heap α) : Copy α :=
  ⟨message, (heap message).offset + bufferOffset, cpySize frame (heap message)⟩

/-- The copies that `copyLoopOne` makes; nothing is said about what follows a
copy outside the allocation. -/
def copiesOne (message : α) :
    List (FrameData α) → ℕ → Heap α → List (Copy α)
  | [], _, _ => []
  | frame :: rest, bufferOffset, heap =>
      copyTo message bufferOffset frame heap ::
        match copyFrame message bufferOffset frame heap with
        | none => []
        | some copied =>
            copiesOne message rest
              (bufferOffset + cpySize frame (heap message))
              (Function.update heap message copied)

/-- The copies that `copyLoop` makes. -/
def copies (messages : List α) :
    List (FrameData α) → ℕ → ℕ → Heap α → List (Copy α)
  | [], _, _, _ => []
  | frame :: rest, bufferOffset, messageIdx, heap =>
      match messages[messageIdx]? with
      | none => []
      | some message =>
          copyTo message bufferOffset frame heap ::
            match copyFrame message bufferOffset frame heap with
            | none => []
            | some copied =>
                let copyEnd := bufferOffset + cpySize frame (heap message)
                let heap := Function.update heap message
                  (copied.resize copyEnd 0)
                if messageIdx < messages.length - 1 then
                  copies messages rest 0 (messageIdx + 1) heap
                else copies messages rest copyEnd messageIdx heap

def ReceiveCall.loopCopies :
    ReceiveCall α → List (FrameData α) → Heap α → List (Copy α)
  | .one message _ => fun frames heap => copiesOne message frames 0 heap
  | .vector messages _ => fun frames heap => copies messages frames 0 0 heap

/-- The copies of a call that takes the next multipart of its port. -/
def ReceiveCall.copies (call : ReceiveCall α) (state : ReceiveState α) :
    List (Copy α) :=
  match state.port.nextMultipart with
  | none => []
  | some frames =>
      call.loopCopies (packageFrames state.heap frames) state.heap

/-- No copy of the call leaves the allocation of its message. -/
def ReceiveCall.Inside (call : ReceiveCall α) (state : ReceiveState α) : Prop :=
  ∀ copy ∈ call.copies state, copy.Inside state.heap

/-! ## Copies inside the allocation are defined -/

theorem copyFrame_eq_none_iff {message : α} {bufferOffset : ℕ}
    {frame : FrameData α} {heap : Heap α} (hwhole : frame.Whole heap) :
    copyFrame message bufferOffset frame heap = none ↔
      ¬(copyTo message bufferOffset frame heap).Inside heap := by
  have hnone := @storeFrame_eq_none_iff _ _ message bufferOffset _ _ hwhole
  rw [storeFrame, Option.map_eq_none_iff] at hnone
  rw [hnone, Copy.Inside, copyTo, not_le]

/-- What a copy leaves as it is. -/
structure Copied (message : α) (heap : Heap α) (copied : Message) : Prop where
  offset : copied.offset = (heap message).offset
  capacity : copied.capacity = (heap message).capacity

omit [DecidableEq α] in
theorem copied_of_copyFrame {message : α} {bufferOffset : ℕ}
    {frame : FrameData α} {heap : Heap α} {copied : Message}
    (hcopy : copyFrame message bufferOffset frame heap = some copied) :
    Copied message heap copied := by
  unfold copyFrame Message.memcpy at hcopy
  split at hcopy
  · obtain ⟨-, -, hoffset, hcapacity, -, -⟩ := Message.write_eq_some.mp hcopy
    exact ⟨hoffset, hcapacity⟩
  · contradiction

theorem capacity_update {message : α} {heap : Heap α} {copied : Message}
    (hcapacity : copied.capacity = (heap message).capacity) (address : α) :
    (Function.update heap message copied address).capacity =
      (heap address).capacity := by
  by_cases heq : address = message
  · subst address
    rw [Function.update_self, hcapacity]
  · rw [Function.update_of_ne heq]

omit [DecidableEq α] in
theorem Copy.inside_congr {heap other : Heap α} (copy : Copy α)
    (hcapacity : ∀ address, (other address).capacity = (heap address).capacity) :
    copy.Inside other ↔ copy.Inside heap := by
  rw [Copy.Inside, Copy.Inside, hcapacity]

theorem copiesOne_inside_iff {message : α} {frames : List (FrameData α)}
    {bufferOffset : ℕ} {heap : Heap α}
    (hwhole : ∀ frame ∈ frames, frame.Whole heap) :
    (∀ copy ∈ copiesOne message frames bufferOffset heap, copy.Inside heap) ↔
      ∃ final, copyLoopOne message frames bufferOffset heap = .ok final := by
  induction frames generalizing bufferOffset heap with
  | nil => simp [copiesOne, copyLoopOne]
  | cons frame rest ih =>
      have hnone := @copyFrame_eq_none_iff _ _ message bufferOffset _ _
        (hwhole frame (by simp))
      simp only [copiesOne, copyLoopOne, List.forall_mem_cons]
      cases hcopy : copyFrame message bufferOffset frame heap with
      | none => simp [hnone.mp hcopy]
      | some copied =>
          have hinside : (copyTo message bufferOffset frame heap).Inside heap := by
            by_contra hnot
            rw [hnone.mpr hnot] at hcopy
            contradiction
          have hcapacity :=
            capacity_update (copied_of_copyFrame hcopy).capacity
          have hrest : ∀ other ∈ rest,
              other.Whole (Function.update heap message copied) :=
            fun other hother =>
              (hwhole other (List.mem_cons_of_mem frame hother)).of_capacity_eq
                hcapacity
          simp only [hinside, true_and, ← ih hrest,
            Copy.inside_congr _ hcapacity]

theorem copies_inside_iff {messages : List α} {frames : List (FrameData α)}
    {bufferOffset messageIdx : ℕ} {heap : Heap α}
    (hidx : messageIdx < messages.length)
    (hwhole : ∀ frame ∈ frames, frame.Whole heap) :
    (∀ copy ∈ copies messages frames bufferOffset messageIdx heap,
        copy.Inside heap) ↔
      ∃ final,
        copyLoop messages frames bufferOffset messageIdx heap = .ok final := by
  induction frames generalizing bufferOffset messageIdx heap with
  | nil => simp [copies, copyLoop]
  | cons frame rest ih =>
      have hmessage : messages[messageIdx]? = some messages[messageIdx] :=
        List.getElem?_eq_getElem hidx
      have hnone := @copyFrame_eq_none_iff _ _ messages[messageIdx]
        bufferOffset _ _ (hwhole frame (by simp))
      simp only [copies, copyLoop, hmessage, List.forall_mem_cons]
      cases hcopy : copyFrame messages[messageIdx] bufferOffset frame heap with
      | none => simp [hnone.mp hcopy]
      | some copied =>
          have hinside : (copyTo messages[messageIdx] bufferOffset frame
              heap).Inside heap := by
            by_contra hnot
            rw [hnone.mpr hnot] at hcopy
            contradiction
          have hcapacity := @capacity_update _ _ messages[messageIdx] heap
            (copied.resize (bufferOffset +
              cpySize frame (heap messages[messageIdx])) 0)
            (by rw [Message.resize_capacity,
              (copied_of_copyFrame hcopy).capacity])
          have hrest : ∀ other ∈ rest, other.Whole
              (Function.update heap messages[messageIdx]
                (copied.resize (bufferOffset +
                  cpySize frame (heap messages[messageIdx])) 0)) :=
            fun other hother =>
              (hwhole other (List.mem_cons_of_mem frame hother)).of_capacity_eq
                hcapacity
          simp only [hinside, true_and]
          split
          · rename_i hmore
            rw [← ih (by omega) hrest]
            simp only [Copy.inside_congr _ hcapacity]
          · rw [← ih hidx hrest]
            simp only [Copy.inside_congr _ hcapacity]

/-! ## When the loops are defined -/

theorem exists_copyLoopOne_iff {message : α} {frames : List (FrameData α)}
    {bufferOffset : ℕ} {heap : Heap α}
    (hwhole : ∀ frame ∈ frames, frame.Whole heap) :
    (∃ final, copyLoopOne message frames bufferOffset heap = .ok final) ↔
      (frames ≠ [] → (heap message).offset + bufferOffset +
        storedSize message frames heap ≤ (heap message).capacity) := by
  induction frames generalizing bufferOffset heap with
  | nil => simp [copyLoopOne]
  | cons frame rest ih =>
      have hnone := @copyFrame_eq_none_iff _ _ message bufferOffset _ _
        (hwhole frame (by simp))
      have hsum := storedSize_cons message frame rest heap
      simp only [Copy.Inside, copyTo, not_le] at hnone
      simp only [copyLoopOne, ne_eq, reduceCtorEq, not_false_eq_true,
        forall_true_left]
      cases hcopy : copyFrame message bufferOffset frame heap with
      | none =>
          have hover := hnone.mp hcopy
          simp only [reduceCtorEq, exists_false, false_iff]
          omega
      | some copied =>
          have h := copied_of_copyFrame hcopy
          have hinside : ¬((heap message).capacity <
              (heap message).offset + bufferOffset +
                cpySize frame (heap message)) := by
            intro hover
            rw [hnone.mpr hover] at hcopy
            contradiction
          have hrest : ∀ other ∈ rest,
              other.Whole (Function.update heap message copied) :=
            fun other hother =>
              (hwhole other (List.mem_cons_of_mem frame hother)).of_capacity_eq
                (capacity_update h.capacity)
          have hstored : storedSize message rest
              (Function.update heap message copied) =
                storedSize message rest heap := by
            unfold storedSize
            simp only [Function.update_self, cpySize_of_capacity_eq h.capacity]
          simp only [ih hrest, Function.update_self, h.offset, h.capacity,
            hstored]
          by_cases hnil : rest = []
          · have hzero : storedSize message rest heap = 0 := by
              rw [hnil]
              rfl
            simp only [hnil, ne_eq, not_true_eq_false, false_implies, true_iff]
            rw [hnil] at hsum hzero
            omega
          · simp only [ne_eq, hnil, not_false_eq_true, forall_true_left]
            omega

/-- Where the buffer of a message starts when the loop comes to it: storing a
frame takes the offset away. -/
def startOffset (earlier : List α) (message : α) (heap : Heap α) : ℕ :=
  if message ∈ earlier then 0 else (heap message).offset

/-- Every message that gets frames has room for the first one behind the start
of its buffer, and for all of them behind the start of its allocation. -/
def VectorFits (messages : List α) (frames : List (FrameData α))
    (heap : Heap α) : Prop :=
  ∀ i message frame rest, messages[i]? = some message →
    share messages.length frames i = frame :: rest →
    startOffset (messages.take i) message heap + cpySize frame (heap message) ≤
        (heap message).capacity ∧
      storedSize message (frame :: rest) heap ≤ (heap message).capacity

theorem vectorFits_iff_forall_fin {messages : List α}
    {frames : List (FrameData α)} {heap : Heap α} :
    VectorFits messages frames heap ↔ ∀ i : Fin messages.length,
      ∀ frame ∈ (share messages.length frames i).head?,
        startOffset (messages.take i) messages[i] heap +
            cpySize frame (heap messages[i]) ≤ (heap messages[i]).capacity ∧
          storedSize messages[i] (share messages.length frames i) heap ≤
            (heap messages[i]).capacity := by
  constructor
  · intro hfits i frame hframe
    obtain ⟨rest, hshare⟩ := List.head?_eq_some_iff.mp hframe
    rw [hshare]
    exact hfits i messages[i] frame rest
      (List.getElem?_eq_getElem i.isLt) hshare
  · intro hfits i message frame rest hmessage hshare
    obtain ⟨hi, rfl⟩ := List.getElem?_eq_some_iff.mp hmessage
    have hi := hfits ⟨i, hi⟩ frame (by simp [hshare])
    rwa [hshare] at hi

instance (messages : List α) (frames : List (FrameData α)) (heap : Heap α) :
    Decidable (VectorFits messages frames heap) :=
  decidable_of_iff _ vectorFits_iff_forall_fin.symm

theorem vectorFits_singleton {message : α} {frames : List (FrameData α)}
    {heap : Heap α} :
    VectorFits [message] frames heap ↔ CopiesFit (heap message) frames := by
  cases frames with
  | nil => simp [VectorFits, CopiesFit, share]
  | cons frame rest =>
      constructor
      · intro hfits
        exact hfits 0 message frame rest rfl rfl
      · rintro hfits (_ | i) other first others hother hshare
        · obtain rfl : message = other := by simpa using hother
          obtain ⟨rfl, rfl⟩ := List.cons.inj hshare
          exact hfits
        · simp at hother

theorem vectorFits_cons {message next : α} {rest : List α}
    {frame : FrameData α} {frames : List (FrameData α)} {heap stored : Heap α}
    (h : Stored message 0 frame heap stored) :
    VectorFits (message :: next :: rest) (frame :: frames) heap ↔
      VectorFits (next :: rest) frames stored := by
  have hstart : ∀ i other, startOffset ((message :: next :: rest).take (i + 1))
      other heap = startOffset ((next :: rest).take i) other stored := by
    intro i other
    simp only [startOffset, List.take_succ_cons, List.mem_cons]
    by_cases heq : other = message
    · subst other
      simp [h.offset]
    · simp only [heq, false_or, h.others other heq]
  have hsame : ∀ other, (stored other).capacity = (heap other).capacity :=
    h.onlyChanges.capacity
  have hstored : ∀ other frames, storedSize other frames stored =
      storedSize other frames heap := by
    intro other frames
    unfold storedSize
    simp only [cpySize_of_capacity_eq (hsame other)]
  constructor
  · intro hfits i other first others hother hshare
    have hrest := hfits (i + 1) other first others hother
      (by rw [List.length_cons, share_succ]; exact hshare)
    rwa [hstart, ← hsame other, ← cpySize_of_capacity_eq (hsame other),
      ← hstored] at hrest
  · rintro hfits (_ | i) other first others hother hshare
    · obtain rfl : message = other := by simpa using hother
      have hone : share (message :: next :: rest).length (frame :: frames) 0 =
          [frame] := share_of_lt (by simp) rfl
      obtain ⟨rfl, rfl⟩ := List.cons.inj (hone.symm.trans hshare)
      have hinside := h.inside
      simp only [startOffset, List.take_zero, List.not_mem_nil, if_false,
        storedSize, List.map_cons, List.map_nil, List.sum_cons, List.sum_nil]
      omega
    · rw [List.length_cons, share_succ] at hshare
      have hrest := hfits i other first others hother hshare
      rwa [hstart, ← hsame other, ← cpySize_of_capacity_eq (hsame other),
        ← hstored]

theorem exists_distribute_iff {messages : List α} {frames : List (FrameData α)}
    {heap : Heap α} (hmessages : messages ≠ [])
    (hwhole : ∀ frame ∈ frames, frame.Whole heap) :
    (∃ final, distribute messages frames heap = .ok final) ↔
      VectorFits messages frames heap := by
  induction messages generalizing frames heap with
  | nil => contradiction
  | cons message rest ih =>
      cases rest with
      | nil =>
          rw [vectorFits_singleton, ← exists_appendFrames_zero_iff hwhole]
          simp only [distribute_singleton]
      | cons next rest =>
          cases frames with
          | nil => simp [VectorFits, share]
          | cons frame frames =>
              have hframe := hwhole frame (by simp)
              rw [distribute]
              cases hstore : storeFrame message 0 frame heap with
              | none =>
                  have hover := (storeFrame_eq_none_iff hframe).mp hstore
                  simp only [reduceCtorEq, exists_false, false_iff]
                  intro hfits
                  have hfirst := (hfits 0 message frame [] rfl
                    (share_of_lt (by simp) rfl)).1
                  rw [startOffset, if_neg (by simp)] at hfirst
                  omega
              | some stored =>
                  have h := stored_of_storeFrame hstore
                  have hrest : ∀ other ∈ frames, other.Whole stored :=
                    fun other hother =>
                      (hwhole other
                        (List.mem_cons_of_mem frame hother)).of_capacity_eq
                          h.onlyChanges.capacity
                  rw [vectorFits_cons h]
                  exact ih (by simp) hrest

/-- Distinct messages with offset zero, none of them a source of the frames,
each large enough for its share: the loop ends and every message has received
its share. -/
theorem distribute_received {messages : List α} {frames : List (FrameData α)}
    {heap : Heap α} (hmessages : messages ≠ []) (hnodup : messages.Nodup)
    (hoffset : ∀ message ∈ messages, (heap message).offset = 0)
    (havoids : ∀ frame ∈ frames, ∀ message ∈ messages, frame.Avoids message)
    (hwhole : ∀ frame ∈ frames, frame.Whole heap)
    (hfits : ∀ i message, messages[i]? = some message →
      (payload heap (share messages.length frames i)).length ≤
        (heap message).capacity) :
    ∃ final, distribute messages frames heap = .ok final ∧
      ∀ i message, messages[i]? = some message →
        Received heap final message (share messages.length frames i) := by
  have hshareWhole : ∀ i, ∀ frame ∈ share messages.length frames i,
      frame.Whole heap :=
    fun i frame hframe => hwhole frame (mem_of_mem_share hframe)
  have hroom : VectorFits messages frames heap := by
    intro i message frame rest hmessage hshare
    have hstart : startOffset (messages.take i) message heap = 0 := by
      rw [startOffset, hoffset message (List.mem_of_getElem? hmessage), ite_self]
    rw [← hshare, (stored_eq_payload (hshareWhole i)
      (hfits i message hmessage)).2, hstart, Nat.zero_add, cpySize_eq_min]
    exact ⟨Nat.min_le_right _ _, hfits i message hmessage⟩
  obtain ⟨final, hfinal⟩ := (exists_distribute_iff hmessages hwhole).mpr hroom
  refine ⟨final, hfinal, fun i message hmessage => ?_⟩
  exact (hasShare_of_distribute hnodup havoids hfinal hmessage).received
    (hoffset message (List.mem_of_getElem? hmessage)) (hshareWhole i)
    (hfits i message hmessage)

/-! ## Calls -/

def ReceiveCall.HasTarget : ReceiveCall α → Prop
  | .one _ _ => True
  | .vector messages _ => messages ≠ []

def ReceiveCall.Fits :
    ReceiveCall α → List (FrameData α) → Heap α → Prop
  | .one message _ => fun frames heap =>
      (heap message).offset + storedSize message frames heap ≤
        (heap message).capacity
  | .vector messages _ => fun frames heap => VectorFits messages frames heap

theorem ReceiveCall.exists_store_iff {call : ReceiveCall α}
    {frames : List (FrameData α)} {heap : Heap α} (htarget : call.HasTarget)
    (hframes : frames ≠ []) (hwhole : ∀ frame ∈ frames, frame.Whole heap) :
    (∃ final, call.store frames heap = .ok final) ↔ call.Fits frames heap := by
  cases call with
  | one message flags =>
      have hloop := @exists_copyLoopOne_iff _ _ message frames 0 heap hwhole
      rw [Nat.add_zero] at hloop
      exact hloop.trans (forall_prop_of_true hframes)
  | vector messages flags =>
      have hloop := exists_distribute_iff htarget hwhole
      simp only [← copyLoop_eq_distribute] at hloop
      exact hloop

theorem ReceiveCall.loopCopies_inside_iff {call : ReceiveCall α}
    {frames : List (FrameData α)} {heap : Heap α} (htarget : call.HasTarget)
    (hwhole : ∀ frame ∈ frames, frame.Whole heap) :
    (∀ copy ∈ call.loopCopies frames heap, copy.Inside heap) ↔
      ∃ final, call.store frames heap = .ok final := by
  cases call with
  | one message flags => exact copiesOne_inside_iff hwhole
  | vector messages flags =>
      exact copies_inside_iff (List.length_pos_iff.mpr htarget) hwhole

/-- A call of either overload on a package copies into its messages only, if
and only if the single message has room for all frames behind its offset, or
each message of the vector for its share. -/
theorem receive_inside_iff {call : ReceiveCall α} {state : ReceiveState α}
    {socketID nextFrame : FrameData α} {contents : List (FrameData α)}
    {rest : List (WireFrame α)} (hopen : state.port.closed = false)
    (hincoming : state.port.incoming =
      toWire (socketID :: nextFrame :: contents) ++ rest)
    (hcontents : contents ≠ []) (hlength : contents.length + 2 ≤ messageVecSize)
    (hempty : nextFrame.bytes state.heap = [])
    (hwhole : ∀ frame ∈ contents, frame.Whole state.heap)
    (htarget : call.HasTarget) :
    call.Inside state ↔ call.Fits contents state.heap := by
  have hnext := nextMultipart_toWire hopen hincoming (List.cons_ne_nil _ _)
    hlength
  obtain ⟨content, others, rfl⟩ := List.exists_cons_of_ne_nil hcontents
  have hpackage : packageFrames state.heap
      (socketID :: nextFrame :: content :: others) = content :: others := by
    rw [packageFrames, if_pos hempty]
  simp only [ReceiveCall.Inside, ReceiveCall.copies, hnext, hpackage]
  rw [ReceiveCall.loopCopies_inside_iff htarget hwhole]
  exact ReceiveCall.exists_store_iff htarget hcontents hwhole

/-! ## Two frames for one message -/

instance (heap : Heap α) (copy : Copy α) : Decidable (copy.Inside heap) :=
  inferInstanceAs (Decidable (_ ≤ _))

instance (call : ReceiveCall α) (state : ReceiveState α) :
    Decidable (call.Inside state) :=
  inferInstanceAs (Decidable (∀ copy ∈ call.copies state, _))

/-- A queued package of two frames of three bytes, and messages of four bytes. -/
def overfullState : ReceiveState ℕ where
  portName := []
  port :=
    { portName := [99]
      transport := .inproc
      socket := 0
      closed := false
      routes := []
      incoming := toWire [.owned (portNameToSocketID [97] .inproc), .owned [],
        .owned [1, 2, 3], .owned [4, 5, 6]] ++ [] }
  heap := fun _ => Message.new [0, 0, 0, 0]

/-- One message that is taken for both frames has no room for them, two
messages have. -/
theorem receive_inside_two :
    (ReceiveCall.vector [0, 1] .none).Inside overfullState := by
  apply (receive_inside_iff rfl rfl (by simp) (by decide) rfl ?_ ?_).mpr
  · rintro (_ | _ | i) message frame rest hmessage hshare
    · simp at hmessage hshare
      obtain ⟨rfl, rfl, rfl⟩ := And.intro hmessage hshare
      decide
    · simp at hmessage hshare
      obtain ⟨rfl, rfl, rfl⟩ := And.intro hmessage hshare
      decide
    · simp at hmessage
  · intro frame hframe
    simp only [List.mem_cons, List.not_mem_nil, or_false] at hframe
    rcases hframe with rfl | rfl <;> rfl
  · simp [ReceiveCall.HasTarget]

/-- Neither frame is longer than the message, but together they leave it. -/
theorem receive_leaves_message :
    (overfullState.heap 0).offset + (overfullState.heap 0).size ≤
        (overfullState.heap 0).capacity ∧
      ¬(ReceiveCall.one 0 .none).Inside overfullState ∧
      ¬(ReceiveCall.vector [0] .none).Inside overfullState := by
  decide

end Dpn
