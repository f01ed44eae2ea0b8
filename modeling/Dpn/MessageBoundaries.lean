import Dpn.Receive

/-!
# Message boundaries of a port

A run of receive calls on a queue of multiparts should consume one multipart
per call, so that the name a call reports is decoded from the identity frame of
the very multipart whose content it copies.  The fixed vector of ten frames
makes this true exactly for queues whose multiparts have at most ten frames:
the eleventh frame is left in the queue, and the next call takes it for the
identity of its sender.
-/

namespace Dpn

open TextStream

variable {α : Type*}

/-- A multipart as ZMQ queues it: the identity of its sender comes first. -/
structure Multipart (α : Type*) where
  identity : SocketID
  content : List (FrameData α)
  deriving DecidableEq

def Multipart.frames (multipart : Multipart α) : List (FrameData α) :=
  .owned multipart.identity :: multipart.content

def queued (multiparts : List (Multipart α)) : List (WireFrame α) :=
  multiparts.flatMap fun multipart => toWire multipart.frames

@[simp] theorem queued_cons (multipart : Multipart α)
    (rest : List (Multipart α)) :
    queued (multipart :: rest) = toWire multipart.frames ++ queued rest := rfl

section Calls

variable [DecidableEq α]

inductive ReceiveCall (α : Type*) where
  | one (message : α) (flags : RecvFlags)
  | vector (messages : List α) (flags : RecvFlags)

def ReceiveCall.store :
    ReceiveCall α → List (FrameData α) → Heap α → Outcome Exn (Heap α)
  | .one message _ => fun frames heap => copyLoopOne message frames 0 heap
  | .vector messages _ => fun frames heap => copyLoop messages frames 0 0 heap

def ReceiveCall.flags : ReceiveCall α → RecvFlags
  | .one _ flags => flags
  | .vector _ flags => flags

def ReceiveCall.run (call : ReceiveCall α) (state : ReceiveState α) :
    Outcome Exn (ReceiveState α) :=
  match call with
  | .one message flags => Port.receiveOne message flags state
  | .vector messages flags => Port.receive messages flags state

theorem ReceiveCall.run_eq (call : ReceiveCall α) (state : ReceiveState α) :
    call.run state = receiveWith call.store call.flags state := by
  cases call <;> rfl

/-- The call consumed exactly the frames of this multipart, and the name and
the content it leaves behind come from it. -/
structure TakesOne (call : ReceiveCall α) (multipart : Multipart α)
    (rest : List (Multipart α)) (state final : ReceiveState α) : Prop where
  consumed : final.port.incoming = queued rest
  named : final.portName = state.portName ∨
    final.portName = portNameFromSocketID multipart.identity
  copied : final.heap = state.heap ∨
    final.portName = portNameFromSocketID multipart.identity ∧
      (call.store (multipart.content.drop 1) state.heap).state? =
        some final.heap

/-- Every call of the run, whether it returns or throws, takes one multipart
of the queue. -/
def KeepsBoundaries :
    List (ReceiveCall α) → List (Multipart α) → ReceiveState α → Prop
  | [], _, _ => True
  | _ :: _, [], _ => True
  | call :: calls, multipart :: rest, state =>
      ∀ final, (call.run state).state? = some final →
        TakesOne call multipart rest state final ∧
          KeepsBoundaries calls rest final

omit [DecidableEq α] in
theorem unpack_frames (store : List (FrameData α) → Heap α → Outcome Exn (Heap α))
    (multipart : Multipart α) {state final : ReceiveState α}
    (hfinal : (unpack store multipart.frames state).state? = some final) :
    final.port = state.port ∧
      (final.portName = state.portName ∨
        final.portName = portNameFromSocketID multipart.identity) ∧
      (final.heap = state.heap ∨
        final.portName = portNameFromSocketID multipart.identity ∧
          (store (multipart.content.drop 1) state.heap).state? =
            some final.heap) := by
  rcases hcontent : multipart.content with _ | ⟨nextFrame, _ | ⟨content, contents⟩⟩
  · simp only [Multipart.frames, hcontent, unpack, Outcome.state?_ok,
      Option.some.injEq] at hfinal
    subst final
    exact ⟨rfl, Or.inl rfl, Or.inl rfl⟩
  · simp only [Multipart.frames, hcontent, unpack, Outcome.state?_ok,
      Option.some.injEq] at hfinal
    subst final
    exact ⟨rfl, Or.inl rfl, Or.inl rfl⟩
  · simp only [Multipart.frames, hcontent, unpack, FrameData.bytes_owned] at hfinal
    split at hfinal
    · cases hstore : store (content :: contents) state.heap with
      | ok heap =>
          simp only [hstore, Outcome.map_ok, Outcome.state?_ok,
            Option.some.injEq] at hfinal
          subst final
          exact ⟨rfl, Or.inr rfl, Or.inr ⟨rfl, by simp [hstore]⟩⟩
      | throw error heap =>
          simp only [hstore, Outcome.map_throw, Outcome.state?_throw,
            Option.some.injEq] at hfinal
          subst final
          exact ⟨rfl, Or.inr rfl, Or.inr ⟨rfl, by simp [hstore]⟩⟩
      | stuck reason => simp [hstore] at hfinal
    · simp only [Outcome.state?_ok, Option.some.injEq] at hfinal
      subst final
      exact ⟨rfl, Or.inr rfl, Or.inl rfl⟩

theorem ReceiveCall.run_queued (call : ReceiveCall α) {multipart : Multipart α}
    {rest : List (Multipart α)} {state : ReceiveState α}
    (hopen : state.port.closed = false)
    (hincoming : state.port.incoming = queued (multipart :: rest))
    (hlength : multipart.frames.length ≤ messageVecSize) :
    call.run state =
      unpack call.store multipart.frames (state.withIncoming (queued rest)) := by
  rw [call.run_eq]
  exact receiveWith_toWire call.store call.flags hopen hincoming
    (List.cons_ne_nil _ _) hlength

theorem takesOne_of_length_le (call : ReceiveCall α) {multipart : Multipart α}
    {rest : List (Multipart α)} {state final : ReceiveState α}
    (hopen : state.port.closed = false)
    (hincoming : state.port.incoming = queued (multipart :: rest))
    (hlength : multipart.frames.length ≤ messageVecSize)
    (hfinal : (call.run state).state? = some final) :
    TakesOne call multipart rest state final ∧ final.port.closed = false := by
  rw [call.run_queued hopen hincoming hlength] at hfinal
  obtain ⟨hport, hnamed, hcopied⟩ := unpack_frames call.store multipart hfinal
  exact ⟨⟨by rw [hport]; rfl, hnamed, hcopied⟩, by rw [hport]; exact hopen⟩

theorem not_takesOne_of_lt (call : ReceiveCall α) {multipart : Multipart α}
    {rest : List (Multipart α)} {state : ReceiveState α}
    (hopen : state.port.closed = false)
    (hincoming : state.port.incoming = queued (multipart :: rest))
    (hlength : messageVecSize < multipart.frames.length) :
    ∃ final, (call.run state).state? = some final ∧
      ¬TakesOne call multipart rest state final := by
  rw [queued_cons] at hincoming
  rw [call.run_eq, receiveWith_toWire_of_lt call.store call.flags hopen
    hincoming hlength]
  refine ⟨_, rfl, ?_⟩
  intro htakes
  have hlengths := congrArg List.length htakes.consumed
  simp only [ReceiveState.withIncoming, List.length_drop,
    List.length_append, length_toWire] at hlengths
  omega

theorem keepsBoundaries_of_length_le {calls : List (ReceiveCall α)}
    {multiparts : List (Multipart α)} {state : ReceiveState α}
    (hopen : state.port.closed = false)
    (hincoming : state.port.incoming = queued multiparts)
    (hlength : ∀ multipart ∈ multiparts,
      multipart.frames.length ≤ messageVecSize) :
    KeepsBoundaries calls multiparts state := by
  induction calls generalizing multiparts state with
  | nil => trivial
  | cons call calls ih =>
      cases multiparts with
      | nil => trivial
      | cons multipart rest =>
          intro final hfinal
          obtain ⟨htakes, hstillOpen⟩ := takesOne_of_length_le call hopen
            hincoming (hlength multipart (by simp)) hfinal
          exact ⟨htakes, ih hstillOpen htakes.consumed fun other hother =>
            hlength other (List.mem_cons_of_mem multipart hother)⟩

/-- A call into no messages at all never copies, so it always ends. -/
theorem exists_final_of_no_messages {multipart : Multipart α}
    {rest : List (Multipart α)} {state : ReceiveState α}
    (hopen : state.port.closed = false)
    (hincoming : state.port.incoming = queued (multipart :: rest))
    (hlength : multipart.frames.length ≤ messageVecSize) :
    ∃ final,
      ((ReceiveCall.vector [] .none).run state).state? = some final := by
  rw [ReceiveCall.run_queued _ hopen hincoming hlength]
  rcases hcontent : multipart.content with _ | ⟨nextFrame, _ | ⟨content, contents⟩⟩
  · exact ⟨_, by simp [Multipart.frames, hcontent, unpack]; rfl⟩
  · exact ⟨_, by simp [Multipart.frames, hcontent, unpack]; rfl⟩
  · simp only [Multipart.frames, hcontent, unpack, ReceiveCall.store]
    split
    · exact ⟨_, rfl⟩
    · exact ⟨_, rfl⟩

theorem length_le_of_keepsBoundaries {multiparts : List (Multipart α)}
    {state : ReceiveState α} (hopen : state.port.closed = false)
    (hincoming : state.port.incoming = queued multiparts)
    (hkeeps : KeepsBoundaries
      (List.replicate multiparts.length (.vector [] .none)) multiparts state) :
    ∀ multipart ∈ multiparts, multipart.frames.length ≤ messageVecSize := by
  induction multiparts generalizing state with
  | nil => simp
  | cons multipart rest ih =>
      rw [List.length_cons, List.replicate_succ] at hkeeps
      -- A call that takes a longer multipart leaves frames in the queue.
      have hlength : multipart.frames.length ≤ messageVecSize := by
        by_contra hlong
        obtain ⟨final, hfinal, hnot⟩ := not_takesOne_of_lt
          (.vector [] .none) hopen hincoming (by omega)
        exact hnot (hkeeps final hfinal).1
      obtain ⟨final, hfinal⟩ :=
        exists_final_of_no_messages hopen hincoming hlength
      obtain ⟨htakes, hstillOpen⟩ := takesOne_of_length_le
        (.vector [] .none) hopen hincoming hlength hfinal
      intro other hother
      rcases List.mem_cons.mp hother with rfl | hmem
      · exact hlength
      · exact ih hstillOpen htakes.consumed (hkeeps final hfinal).2 other hmem

/-- Every run of receive calls on a queue keeps the boundaries of its
multiparts if and only if each of them has at most ten frames, the identity
included. -/
theorem receive_keeps_boundaries_iff (multiparts : List (Multipart α)) :
    (∀ (calls : List (ReceiveCall α)) (state : ReceiveState α),
        state.port.closed = false →
        state.port.incoming = queued multiparts →
        KeepsBoundaries calls multiparts state) ↔
      ∀ multipart ∈ multiparts,
        multipart.frames.length ≤ messageVecSize := by
  constructor
  · intro hkeeps
    let state : ReceiveState α :=
      { portName := []
        port :=
          { portName := []
            transport := .inproc
            socket := 0
            closed := false
            routes := []
            incoming := queued multiparts }
        heap := fun _ => Message.new [] }
    have hopen : state.port.closed = false := rfl
    have hincoming : state.port.incoming = queued multiparts := rfl
    exact length_le_of_keepsBoundaries hopen hincoming
      (hkeeps _ state hopen hincoming)
  · intro hlength calls state hopen hincoming
    exact keepsBoundaries_of_length_le hopen hincoming hlength

end Calls

/-! ## A frame taken for an identity -/

/-- Eleven content frames behind the empty one.  The last three of them look
like a package from another sender. -/
def longMultipart : Multipart ℕ where
  identity := portNameToSocketID [97] .inproc
  content :=
    .owned [] :: (List.replicate 8 (.owned [1]) ++
      [.owned (portNameToSocketID [98] .inproc), .owned [], .owned [2]])

def longState : ReceiveState ℕ where
  portName := []
  port :=
    { portName := [99]
      transport := .inproc
      socket := 0
      closed := false
      routes := []
      incoming := queued [longMultipart] }
  heap := fun _ => Message.new [0, 0, 0, 0]

/-- After the first call has thrown, the second one reports the port `b`, the
name in the ninth content frame of a multipart that was sent by `a`. -/
theorem receive_takes_content_for_identity :
    (Outcome.run ReceiveCall.run
        [.vector [0] .none, .vector [0] .none] longState).map
          ReceiveState.portName = some [98] ∧
      ¬KeepsBoundaries [.vector [0] .none] [longMultipart] longState := by
  refine ⟨by decide, ?_⟩
  intro hkeeps
  have hincoming : longState.port.incoming = queued [longMultipart] := rfl
  obtain ⟨final, hfinal, hnot⟩ :=
    not_takesOne_of_lt (.vector [0] .none) rfl hincoming (by decide)
  exact hnot (hkeeps final hfinal).1

end Dpn
