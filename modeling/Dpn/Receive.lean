import Dpn.Port

/-!
# Receiving on a port

Both overloads of `Port::Receive` read one multipart frame by frame into a
vector of ten, decode the sender, and differ only in the loop that copies the
content frames into messages.  The single-message loop appends every frame and
resizes once; the other resizes after every frame and moves on to the next
message as long as there is one.
-/

namespace Dpn

open TextStream

variable {α : Type*}

/-! ## Reading a multipart -/

/-- How the loop `while (more)` is left. -/
inductive RecvLoop (α : Type*) where
  | done (rv : Bool) (multiMessage : List (FrameData α))
      (rest : List (WireFrame α))
  | outOfRange (rest : List (WireFrame α))
  | blocked
  deriving DecidableEq

def messageVecSize : ℕ := 10

/-- The loop reads into `messageVec.at(idx)`, so the index is checked before
the socket is asked for a frame. -/
def recvLoop (flags : RecvFlags) :
    ℕ → List (FrameData α) → List (WireFrame α) → RecvLoop α
  | idx, multiMessage, [] =>
      if messageVecSize ≤ idx then .outOfRange []
      else match flags with
        | .none => .blocked
        | .dontwait => .done false multiMessage []
  | idx, multiMessage, frame :: rest =>
      if messageVecSize ≤ idx then .outOfRange (frame :: rest)
      else if frame.more then
        recvLoop flags (idx + 1) (multiMessage ++ [frame.data]) rest
      else .done true (multiMessage ++ [frame.data]) rest

/-- A queued multipart of at most ten frames is read whole; a longer one is
left where the vector ended. -/
theorem recvLoop_toWire (flags : RecvFlags) {frames : List (FrameData α)}
    (hframes : frames ≠ []) (rest : List (WireFrame α))
    (multiMessage : List (FrameData α)) {idx : ℕ} (hidx : idx ≤ messageVecSize) :
    recvLoop flags idx multiMessage (toWire frames ++ rest) =
      if idx + frames.length ≤ messageVecSize then
        .done true (multiMessage ++ frames) rest
      else .outOfRange ((toWire frames ++ rest).drop (messageVecSize - idx)) := by
  induction frames generalizing idx multiMessage with
  | nil => contradiction
  | cons frame tail ih =>
      rcases Nat.lt_or_ge idx messageVecSize with hlt | hge
      · cases tail with
        | nil =>
            have hle : idx + 1 ≤ messageVecSize := hlt
            simp [toWire, recvLoop, Nat.not_le.mpr hlt, hle]
        | cons next tail =>
            have hdrop : messageVecSize - idx = messageVecSize - (idx + 1) + 1 := by
              omega
            have hrec := ih (by simp) (multiMessage ++ [frame])
              (show idx + 1 ≤ messageVecSize from hlt)
            simp only [toWire, List.cons_append, recvLoop, Nat.not_le.mpr hlt,
              if_false, if_true, hrec, hdrop, List.drop_succ_cons,
              List.length_cons, List.append_assoc, List.nil_append]
            congr 2
            omega
      -- The vector is full, and the index is checked before the frame is read.
      · have heq : idx = messageVecSize := by omega
        have hlong : ¬(idx + (frame :: tail).length ≤ messageVecSize) := by
          simp [heq]
        rw [if_neg hlong, heq, Nat.sub_self, List.drop_zero]
        cases tail with
        | nil => simp [toWire, recvLoop]
        | cons next tail => simp [toWire, recvLoop]

structure ReceiveState (α : Type*) where
  portName : PortName
  port : Port α
  heap : Heap α

def ReceiveState.withIncoming (state : ReceiveState α)
    (incoming : List (WireFrame α)) : ReceiveState α :=
  { state with port := { state.port with incoming := incoming } }

/-- What is done with the frames once they are read.  An incomplete package and
one without an empty second frame are only logged. -/
def unpack
    (store : List (FrameData α) → Heap α → Outcome Exn (Heap α))
    (multiMessage : List (FrameData α)) (state : ReceiveState α) :
    Outcome Exn (ReceiveState α) :=
  match multiMessage with
  | socketID :: nextFrame :: content :: contents =>
      let named := { state with
        portName := portNameFromSocketID (socketID.bytes state.heap) }
      if nextFrame.bytes state.heap = [] then
        (store (content :: contents) state.heap).map fun heap =>
          { named with heap := heap }
      else .ok named
  | _ => .ok state

/-- The body that the overloads of `Port::Receive` share, over the loop that
stores the content frames. -/
def receiveWith
    (store : List (FrameData α) → Heap α → Outcome Exn (Heap α))
    (flags : RecvFlags) (state : ReceiveState α) :
    Outcome Exn (ReceiveState α) :=
  if state.port.closed then .throw .zmqError state
  else
    match recvLoop flags 0 [] state.port.incoming with
    | .done true multiMessage rest =>
        unpack store multiMessage (state.withIncoming rest)
    | .done false _ rest => .ok (state.withIncoming rest)
    | .outOfRange rest => .throw .outOfRange (state.withIncoming rest)
    | .blocked => .stuck .blocked

/-- The multipart the next call on the port reads, if there is a whole one of
at most ten frames. -/
def Port.nextMultipart (port : Port α) : Option (List (FrameData α)) :=
  if port.closed then none
  else
    match recvLoop .none 0 [] port.incoming with
    | .done true multiMessage _ => some multiMessage
    | _ => none

theorem receiveWith_toWire
    (store : List (FrameData α) → Heap α → Outcome Exn (Heap α))
    (flags : RecvFlags) {state : ReceiveState α} {frames : List (FrameData α)}
    {rest : List (WireFrame α)} (hopen : state.port.closed = false)
    (hincoming : state.port.incoming = toWire frames ++ rest)
    (hframes : frames ≠ []) (hlength : frames.length ≤ messageVecSize) :
    receiveWith store flags state =
      unpack store frames (state.withIncoming rest) := by
  have hloop : recvLoop flags 0 [] state.port.incoming =
      .done true frames rest := by
    rw [hincoming, recvLoop_toWire flags hframes rest [] (Nat.zero_le _),
      if_pos (by omega), List.nil_append]
  simp only [receiveWith, hopen, Bool.false_eq_true, if_false, hloop]

/-- A multipart of more than ten frames makes the call throw, and the frames
beyond the tenth stay in the queue. -/
theorem receiveWith_toWire_of_lt
    (store : List (FrameData α) → Heap α → Outcome Exn (Heap α))
    (flags : RecvFlags) {state : ReceiveState α} {frames : List (FrameData α)}
    {rest : List (WireFrame α)} (hopen : state.port.closed = false)
    (hincoming : state.port.incoming = toWire frames ++ rest)
    (hlength : messageVecSize < frames.length) :
    receiveWith store flags state =
      .throw .outOfRange
        (state.withIncoming ((toWire frames ++ rest).drop messageVecSize)) := by
  have hframes : frames ≠ [] := by
    rintro rfl
    simp at hlength
  have hloop : recvLoop flags 0 [] state.port.incoming =
      .outOfRange ((toWire frames ++ rest).drop messageVecSize) := by
    rw [hincoming, recvLoop_toWire flags hframes rest [] (Nat.zero_le _),
      if_neg (by omega), Nat.sub_zero]
  simp only [receiveWith, hopen, Bool.false_eq_true, if_false, hloop]

theorem nextMultipart_toWire {port : Port α} {frames : List (FrameData α)}
    {rest : List (WireFrame α)} (hopen : port.closed = false)
    (hincoming : port.incoming = toWire frames ++ rest)
    (hframes : frames ≠ []) (hlength : frames.length ≤ messageVecSize) :
    port.nextMultipart = some frames := by
  simp only [Port.nextMultipart, hopen, Bool.false_eq_true, if_false,
    hincoming, recvLoop_toWire .none hframes rest [] (Nat.zero_le _),
    Nat.zero_add, hlength, if_true, List.nil_append]

/-! ## Storing the content frames -/

section Store

variable [DecidableEq α]

/-- A frame longer than the message is truncated to its capacity. -/
def cpySize (frame : FrameData α) (message : Message) : ℕ :=
  if frame.size > message.capacity then message.capacity else frame.size

/-- The copy that both loops make; `none` is a copy outside an allocation. -/
def copyFrame (message : α) (bufferOffset : ℕ) (frame : FrameData α)
    (heap : Heap α) : Option Message :=
  (heap message).memcpy bufferOffset (frame.bytes heap)
    (cpySize frame (heap message))

def copyLoopOne (message : α) :
    List (FrameData α) → ℕ → Heap α → Outcome Exn (Heap α)
  | [], bufferOffset, heap =>
      .ok (Function.update heap message ((heap message).resize bufferOffset 0))
  | frame :: rest, bufferOffset, heap =>
      match copyFrame message bufferOffset frame heap with
      | none => .stuck .undefined
      | some copied =>
          copyLoopOne message rest
            (bufferOffset + cpySize frame (heap message))
            (Function.update heap message copied)

def copyLoop (messages : List α) :
    List (FrameData α) → ℕ → ℕ → Heap α → Outcome Exn (Heap α)
  | [], _, _, heap => .ok heap
  | frame :: rest, bufferOffset, messageIdx, heap =>
      match messages[messageIdx]? with
      | none => .throw .outOfRange heap
      | some message =>
          match copyFrame message bufferOffset frame heap with
          | none => .stuck .undefined
          | some copied =>
              let copyEnd := bufferOffset + cpySize frame (heap message)
              let heap := Function.update heap message (copied.resize copyEnd 0)
              if messageIdx < messages.length - 1 then
                copyLoop messages rest 0 (messageIdx + 1) heap
              else copyLoop messages rest copyEnd messageIdx heap

def Port.receiveOne (message : α) (flags : RecvFlags)
    (state : ReceiveState α) : Outcome Exn (ReceiveState α) :=
  receiveWith (fun frames heap => copyLoopOne message frames 0 heap) flags state

def Port.receive (messages : List α) (flags : RecvFlags)
    (state : ReceiveState α) : Outcome Exn (ReceiveState α) :=
  receiveWith (fun frames heap => copyLoop messages frames 0 0 heap) flags state

end Store

end Dpn
