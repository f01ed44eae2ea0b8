import Dpn.AddressCodec
import Dpn.Bounds
import Dpn.Fanout
import Dpn.Stores

/-!
# How much a failed receive of a hub leaves behind

`Port::Receive` tells its caller nothing but what it stored: a short package
leaves the name of the sender empty, and one without the empty frame sets the
name and stores nothing.  The hub hands the name to `SetPortName` in any case,
which replaces the hub name before it can throw.
-/

namespace Dpn

open ByteBuffer TextStream

namespace PortSpecification

/-- The specification already is what `SetPortName` makes of the name. -/
structure NamedBy (spec : PortSpecification) (portName : PortName) : Prop where
  hubName : spec.hubName = before 45 portName
  portID : ∀ value, stoi (before 45 (after 45 portName)) = .ok value →
    spec.portID = UInt16.ofInt value

def Decodable (portName : PortName) : Prop :=
  ∃ value, stoi (before 45 (after 45 portName)) = .ok value

theorem not_decodable_nil : ¬Decodable [] := by
  rintro ⟨value, hvalue⟩
  have herror : stoi (before 45 (after 45 [])) = .error .invalidArgument := by
    decide
  rw [herror] at hvalue
  contradiction

theorem setPortName_of_decodable {portName : PortName}
    (hdecodable : Decodable portName) (spec : PortSpecification) :
    ∃ decoded, spec.setPortName portName = .ok decoded ∧
      (decoded = spec ↔ spec.NamedBy portName) := by
  obtain ⟨value, hvalue⟩ := hdecodable
  refine ⟨_, setPortName_eq_ok_iff.mpr ⟨value, hvalue, rfl⟩, ?_⟩
  constructor
  · rintro rfl
    refine ⟨rfl, fun other hother => ?_⟩
    obtain rfl : value = other := Except.ok.inj (hvalue.symm.trans hother)
    rfl
  · intro hnamed
    rw [← hnamed.hubName, ← hnamed.portID value hvalue]

/-- Where the port number is rejected, the hub name is already replaced. -/
theorem setPortName_of_not_decodable {portName : PortName}
    (hdecodable : ¬Decodable portName) (spec : PortSpecification) :
    ∃ error left, spec.setPortName portName = .throw error left ∧
      (left = spec ↔ spec.NamedBy portName) := by
  have hhub : ((IStream.ofStr portName).getline spec.hubName 45).1 =
      before 45 portName := by
    rw [IStream.ofStr, getline_good]
  cases hset : spec.setPortName portName with
  | ok decoded =>
      obtain ⟨value, hvalue, -⟩ := setPortName_eq_ok_iff.mp hset
      exact absurd ⟨value, hvalue⟩ hdecodable
  | throw error left =>
      have hleft : left = { spec with hubName := before 45 portName } := by
        simp only [setPortName, hhub] at hset
        split at hset
        · contradiction
        · exact (Outcome.throw.inj hset).2.symm
      refine ⟨error, left, rfl, ?_⟩
      rw [hleft]
      constructor
      · intro heq
        refine ⟨(congrArg PortSpecification.hubName heq).symm, ?_⟩
        exact fun value hvalue => absurd ⟨value, hvalue⟩ hdecodable
      · intro hnamed
        rw [← hnamed.hubName]
  | stuck reason => exact absurd hset (setPortName_ne_stuck _ _ _)

end PortSpecification

section Store

variable {α : Type*} [DecidableEq α]

/-- What the frames store is in the messages already: the stores in a message,
one after another, make of it what it is, and its frame exposes all of it. -/
def AlreadyStored (messages : List α) (frames : List (FrameData α))
    (heap : Heap α) : Prop :=
  ∀ message ∈ messages, storesInto message messages frames heap ≠ [] →
    Restores (storesInto message messages frames heap) (heap message) ∧
      (heap message).contentsSize = (heap message).size

theorem alreadyStored_iff_unchanged {messages : List α}
    {frames : List (FrameData α)} {heap stored : Heap α}
    (hstore : distribute messages frames heap = .ok stored) :
    AlreadyStored messages frames heap ↔
      ∀ message ∈ messages, stored message = heap message :=
  forall₂_congr fun message _ => (eq_iff_of_distribute hstore message).symm

theorem AlreadyStored.heap_eq {messages : List α} {frames : List (FrameData α)}
    {heap stored : Heap α} (h : AlreadyStored messages frames heap)
    (hstore : distribute messages frames heap = .ok stored) :
    stored = heap := by
  funext address
  by_cases hmem : address ∈ messages
  · exact (alreadyStored_iff_unchanged hstore).mp h address hmem
  · exact ((distribute_onlyChanges messages frames heap).of_ok hstore).others
      address hmem

/-- A message that would look the same with the frames stored in it. -/
structure AlreadyHolds (message : α) (frames : List (FrameData α))
    (heap : Heap α) : Prop where
  size : (heap message).size = storedSize message frames heap
  contentsSize : (heap message).contentsSize = storedSize message frames heap
  offset : (heap message).offset = 0
  bytes : storedBytes message frames heap <+: (heap message).bytes

omit [DecidableEq α] in
theorem HasShare.eq_iff {message : α} {frames : List (FrameData α)}
    {heap : Heap α} {final : Message} (h : HasShare message frames heap final) :
    final = heap message ↔ (frames ≠ [] → AlreadyHolds message frames heap) := by
  constructor
  · intro heq hframes
    have hoffset : (heap message).offset = 0 := by
      rw [← heq, h.offset hframes]
    refine ⟨?_, ?_, hoffset, ?_⟩
    · rw [← heq, h.size hframes]
    · rw [← heq, h.contentsSize hframes]
    · have hbytes := h.bytes_zero hoffset
      rw [heq, overwrite_zero] at hbytes
      exact List.prefix_iff_eq_append.mpr hbytes.symm
  · intro hholds
    by_cases hframes : frames = []
    · exact h.unchanged hframes
    · have halready := hholds hframes
      ext1
      · rw [h.size hframes, halready.size]
      · rw [h.offset hframes, halready.offset]
      · exact h.capacity
      · rw [h.contentsSize hframes, halready.contentsSize]
      · rw [h.bytes_zero halready.offset, overwrite_zero]
        exact List.prefix_iff_eq_append.mp halready.bytes

/-- Where no message stands in the vector twice, and no frame refers to one of
them, every message that gets frames holds its own share of them. -/
theorem alreadyStored_iff_share {messages : List α} {frames : List (FrameData α)}
    {heap : Heap α} (hmessages : messages ≠ []) (hnodup : messages.Nodup)
    (havoids : ∀ frame ∈ frames, ∀ message ∈ messages, frame.Avoids message)
    (hwhole : ∀ frame ∈ frames, frame.Whole heap)
    (hfits : VectorFits messages frames heap) :
    AlreadyStored messages frames heap ↔
      ∀ i message, messages[i]? = some message →
        share messages.length frames i ≠ [] →
        AlreadyHolds message (share messages.length frames i) heap := by
  obtain ⟨stored, hstored⟩ := (exists_distribute_iff hmessages hwhole).mpr hfits
  rw [alreadyStored_iff_unchanged hstored]
  constructor
  · intro hsame i message hmessage
    exact (hasShare_of_distribute hnodup havoids hstored hmessage).eq_iff.mp
      (hsame message (List.mem_of_getElem? hmessage))
  · intro hholds message hmem
    obtain ⟨i, hmessage⟩ := List.mem_iff_getElem?.mp hmem
    exact (hasShare_of_distribute hnodup havoids hstored hmessage).eq_iff.mpr
      (hholds i message hmessage)

end Store

namespace Hub

variable {α : Type*} [DecidableEq α]

/-- A whole multipart of at most ten frames waits on the port, and the messages
have room for its content frames. -/
structure Waiting (localPortID : PortID) (messages : List α)
    (frames : List (FrameData α)) (state : Reception α) : Prop where
  multipart : ∃ port, state.hub.findPort localPortID = some port ∧
    port.nextMultipart = some frames
  target : frames.drop 2 ≠ [] → messages ≠ []
  whole : ∀ frame ∈ frames.drop 2, frame.Whole state.heap
  fits : VectorFits messages (frames.drop 2) state.heap

/-- The specification names the sender, and the messages hold the content
frames. -/
structure Delivered (messages : List α) (frames : List (FrameData α))
    (state received : Reception α) : Prop where
  portSpec : ∃ socketID rest, frames = socketID :: rest ∧
    state.portSpec.decode (socketID.bytes state.heap) = .ok received.portSpec
  stored : distribute messages (frames.drop 2) state.heap = .ok received.heap

structure Untouched (messages : List α) (state left : Reception α) : Prop where
  portSpec : left.portSpec = state.portSpec
  messages : ∀ message ∈ messages, left.heap message = state.heap message

def AllOrNothing (localPortID : PortID) (messages : List α)
    (frames : List (FrameData α)) (state : Reception α) : Prop :=
  (∃ received, receive localPortID messages state = .ok received ∧
      Delivered messages frames state received) ∨
    ∃ left, (receive localPortID messages state).state? = some left ∧
      Untouched messages state left

/-- A package has a sender, an empty frame and some content. -/
def Complete (frames : List (FrameData α)) (heap : Heap α) : Prop :=
  ∃ socketID nextFrame content contents,
    frames = socketID :: nextFrame :: content :: contents ∧
      nextFrame.bytes heap = []

omit [DecidableEq α] in
theorem Complete.packageFrames_eq {frames : List (FrameData α)} {heap : Heap α}
    (h : Complete frames heap) : packageFrames heap frames = frames.drop 2 := by
  obtain ⟨socketID, nextFrame, content, contents, rfl, hempty⟩ := h
  rw [packageFrames, if_pos hempty]
  rfl

omit [DecidableEq α] in
theorem packageFrames_of_not_complete {frames : List (FrameData α)}
    {heap : Heap α} (h : ¬Complete frames heap) :
    packageFrames heap frames = [] := by
  unfold packageFrames
  split
  · rename_i socketID nextFrame content contents
    rw [if_neg]
    exact fun hempty => h ⟨_, _, _, _, rfl, hempty⟩
  · rfl

omit [DecidableEq α] in
/-- Only the first of at least three frames is ever decoded as a sender. -/
theorem exists_sender_of_decodable {frames : List (FrameData α)} {heap : Heap α}
    (hdecodable : PortSpecification.Decodable (senderName heap frames)) :
    ∃ socketID rest, frames = socketID :: rest ∧
      senderName heap frames = portNameFromSocketID (socketID.bytes heap) := by
  unfold senderName at hdecodable ⊢
  split at hdecodable
  · exact ⟨_, _, rfl, rfl⟩
  · exact absurd hdecodable PortSpecification.not_decodable_nil

theorem exists_distribute_of_fits {messages : List α}
    {frames : List (FrameData α)} {heap : Heap α}
    (htarget : frames ≠ [] → messages ≠ [])
    (hwhole : ∀ frame ∈ frames, frame.Whole heap)
    (hfits : VectorFits messages frames heap) :
    ∃ stored, distribute messages frames heap = .ok stored := by
  by_cases hframes : frames = []
  · exact ⟨heap, by rw [hframes, distribute_nil]⟩
  · exact (exists_distribute_iff (htarget hframes) hwhole).mpr hfits

/-- What storing the content frames would make of the heap, and what the port
makes of it. -/
structure PackageStored (messages : List α) (frames : List (FrameData α))
    (heap content package : Heap α) : Prop where
  contentStored : distribute messages (frames.drop 2) heap = .ok content
  packageStored :
    distribute messages (packageFrames heap frames) heap = .ok package
  complete : Complete frames heap → package = content
  incomplete : ¬Complete frames heap → package = heap

theorem Waiting.exists_packageStored {localPortID : PortID}
    {messages : List α} {frames : List (FrameData α)} {state : Reception α}
    (h : Waiting localPortID messages frames state) :
    ∃ content package,
      PackageStored messages frames state.heap content package := by
  obtain ⟨content, hcontent⟩ := exists_distribute_of_fits h.target h.whole h.fits
  by_cases hcomplete : Complete frames state.heap
  · exact ⟨content, content, hcontent,
      by rw [hcomplete.packageFrames_eq, hcontent], fun _ => rfl,
      fun hnot => absurd hcomplete hnot⟩
  · refine ⟨content, state.heap, hcontent, ?_,
      fun hyes => absurd hyes hcomplete, fun _ => rfl⟩
    rw [packageFrames_of_not_complete hcomplete, distribute_nil]

theorem PackageStored.unchanged_iff {messages : List α}
    {frames : List (FrameData α)} {heap content package : Heap α}
    (h : PackageStored messages frames heap content package) :
    (∀ message ∈ messages, package message = heap message) ↔
      (Complete frames heap → AlreadyStored messages (frames.drop 2) heap) := by
  by_cases hcomplete : Complete frames heap
  · rw [alreadyStored_iff_unchanged h.contentStored, h.complete hcomplete]
    simp [hcomplete]
  · simp [h.incomplete hcomplete, hcomplete]

theorem PackageStored.holds_content_iff {messages : List α}
    {frames : List (FrameData α)} {heap content package : Heap α}
    (h : PackageStored messages frames heap content package) :
    distribute messages (frames.drop 2) heap = .ok package ↔
      Complete frames heap ∨ AlreadyStored messages (frames.drop 2) heap := by
  by_cases hcomplete : Complete frames heap
  · rw [h.contentStored, h.complete hcomplete]
    simp [hcomplete]
  · constructor
    · intro hstored
      obtain rfl : content = package :=
        Outcome.ok.inj (h.contentStored.symm.trans hstored)
      refine Or.inr ((alreadyStored_iff_unchanged h.contentStored).mpr ?_)
      intro message _
      rw [h.incomplete hcomplete]
    · rintro (hyes | hstores)
      · exact absurd hyes hcomplete
      · rw [h.incomplete hcomplete, h.contentStored,
          hstores.heap_eq h.contentStored]

/-- The two steps of a receive: what the port stores, then what `SetPortName`
makes of the name it read. -/
theorem Waiting.receive_eq {localPortID : PortID} {messages : List α}
    {frames : List (FrameData α)} {state : Reception α} {package : Heap α}
    (h : Waiting localPortID messages frames state)
    (hpackage : distribute messages (packageFrames state.heap frames)
      state.heap = .ok package) :
    ∃ hub, receive localPortID messages state =
      (state.portSpec.setPortName (senderName state.heap frames)).map
        fun portSpec => ⟨portSpec, hub, package⟩ := by
  obtain ⟨port, hport, hnext⟩ := h.multipart
  refine ⟨state.hub.setPort localPortID port.consume, ?_⟩
  simp only [receive, hport, receive_of_next hnext, hpackage, Outcome.map_ok,
    Outcome.andThen_ok]

/-- A receive is all or nothing if and only if the sender's name can be decoded
and the package is complete or its content is in the messages already, or the
specification already is what `SetPortName` makes of the name and nothing is
stored that the messages do not hold. -/
theorem receive_allOrNothing_iff {localPortID : PortID} {messages : List α}
    {frames : List (FrameData α)} {state : Reception α}
    (hwaiting : Waiting localPortID messages frames state) :
    AllOrNothing localPortID messages frames state ↔
      (PortSpecification.Decodable (senderName state.heap frames) ∧
        (Complete frames state.heap ∨
          AlreadyStored messages (frames.drop 2) state.heap)) ∨
      (state.portSpec.NamedBy (senderName state.heap frames) ∧
        (Complete frames state.heap →
          AlreadyStored messages (frames.drop 2) state.heap)) := by
  obtain ⟨content, package, hstored⟩ := hwaiting.exists_packageStored
  obtain ⟨hub, hreceive⟩ := hwaiting.receive_eq hstored.packageStored
  have huntouched : ∀ portSpec : PortSpecification,
      Untouched messages state ⟨portSpec, hub, package⟩ ↔
        portSpec = state.portSpec ∧ (Complete frames state.heap →
          AlreadyStored messages (frames.drop 2) state.heap) := by
    intro portSpec
    rw [← hstored.unchanged_iff]
    exact ⟨fun h => ⟨h.portSpec, h.messages⟩, fun h => ⟨h.1, h.2⟩⟩
  unfold AllOrNothing
  rw [hreceive]
  by_cases hdecodable : PortSpecification.Decodable
      (senderName state.heap frames)
  · obtain ⟨decoded, hdecoded, hnamed⟩ :=
      PortSpecification.setPortName_of_decodable hdecodable state.portSpec
    obtain ⟨socketID, rest, hframes, hsender⟩ :=
      exists_sender_of_decodable hdecodable
    have hdelivered : Delivered messages frames state ⟨decoded, hub, package⟩ ↔
        Complete frames state.heap ∨
          AlreadyStored messages (frames.drop 2) state.heap := by
      rw [← hstored.holds_content_iff]
      refine ⟨fun h => h.stored, fun h => ⟨⟨socketID, rest, hframes, ?_⟩, h⟩⟩
      rw [PortSpecification.decode, ← hsender, hdecoded]
    rw [hdecoded, Outcome.map_ok]
    simp only [Outcome.ok.injEq, Outcome.state?_ok, Option.some.injEq,
      exists_eq_left', hdelivered, huntouched, hnamed, hdecodable, true_and]
  · obtain ⟨error, left, hleft, hnamed⟩ :=
      PortSpecification.setPortName_of_not_decodable hdecodable state.portSpec
    rw [hleft, Outcome.map_throw]
    simp only [reduceCtorEq, false_and, exists_false, false_or,
      Outcome.state?_throw, Option.some.injEq, exists_eq_left', huntouched,
      hnamed, hdecodable]

end Hub

/-! ## A whole package, a short one, and one without a port number -/

def waitingState (portSpec : PortSpecification) (frames : List (FrameData ℕ)) :
    Hub.Reception ℕ where
  portSpec := portSpec
  hub := onePortHub 1 [] (toWire frames)
  heap := fun _ => Message.new [0, 0]

def packageFrom (portName : PortName) : List (FrameData ℕ) :=
  [.owned (portNameToSocketID portName .inproc), .owned [], .owned [7]]

def shortPackage : List (FrameData ℕ) :=
  [.owned (socketIDOf 2), .owned []]

theorem waiting_packageFrom (portSpec : PortSpecification)
    (portName : PortName) :
    Hub.Waiting 0 [0] (packageFrom portName)
      (waitingState portSpec (packageFrom portName)) where
  multipart := ⟨_, rfl, rfl⟩
  target := by simp
  whole := by
    intro frame hframe
    obtain rfl : frame = .owned [7] := by simpa [packageFrom] using hframe
    rfl
  fits := by
    have hfits : CopiesFit (Message.new [0, 0])
        ([.owned [7]] : List (FrameData ℕ)) := by
      decide
    exact vectorFits_singleton.mpr hfits

theorem waiting_shortPackage (portSpec : PortSpecification) :
    Hub.Waiting 0 [0] shortPackage (waitingState portSpec shortPackage) where
  multipart := ⟨_, rfl, rfl⟩
  target := by simp
  whole := by simp [shortPackage]
  fits := vectorFits_singleton.mpr trivial

theorem receive_allOrNothing_whole :
    Hub.Waiting 0 [0] (packageFrom [50, 45, 48])
        (waitingState ⟨[97], 3⟩ (packageFrom [50, 45, 48])) ∧
      Hub.AllOrNothing 0 [0] (packageFrom [50, 45, 48])
        (waitingState ⟨[97], 3⟩ (packageFrom [50, 45, 48])) := by
  have hwaiting := waiting_packageFrom ⟨[97], 3⟩ [50, 45, 48]
  refine ⟨hwaiting, (Hub.receive_allOrNothing_iff hwaiting).mpr (Or.inl ⟨?_, ?_⟩)⟩
  · exact ⟨0, by decide⟩
  · exact Or.inl ⟨_, _, _, _, rfl, rfl⟩

/-- A short package takes the hub name away, and one from a sender without a
port number is stored before the call throws. -/
theorem receive_partly_done :
    (Hub.Waiting 0 [0] shortPackage (waitingState ⟨[97], 3⟩ shortPackage) ∧
      (Hub.receive 0 [0] (waitingState ⟨[97], 3⟩ shortPackage)).map
        Hub.Reception.portSpec = .throw .invalidArgument ⟨[], 3⟩ ∧
      ¬Hub.AllOrNothing 0 [0] shortPackage
        (waitingState ⟨[97], 3⟩ shortPackage)) ∧
    (Hub.Waiting 0 [0] (packageFrom [97])
        (waitingState ⟨[97], 3⟩ (packageFrom [97])) ∧
      (Hub.receive 0 [0] (waitingState ⟨[97], 3⟩ (packageFrom [97]))).map
        (fun left => (left.heap 0).visible) = .throw .invalidArgument [7] ∧
      ¬Hub.AllOrNothing 0 [0] (packageFrom [97])
        (waitingState ⟨[97], 3⟩ (packageFrom [97]))) := by
  constructor
  · have hrun : (Hub.receive 0 [0] (waitingState ⟨[97], 3⟩ shortPackage)).map
        Hub.Reception.portSpec = .throw .invalidArgument ⟨[], 3⟩ := by
      decide
    refine ⟨waiting_shortPackage _, hrun, ?_⟩
    rintro (⟨received, hok, -⟩ | ⟨left, hleft, huntouched⟩)
    · rw [hok] at hrun
      contradiction
    · have hspec := congrArg Outcome.state? hrun
      rw [Outcome.state?_map, hleft, Option.map_some, huntouched.portSpec] at hspec
      exact absurd hspec (by decide)
  · have hrun : (Hub.receive 0 [0]
        (waitingState ⟨[97], 3⟩ (packageFrom [97]))).map
        (fun left => (left.heap 0).visible) = .throw .invalidArgument [7] := by
      decide
    refine ⟨waiting_packageFrom _ _, hrun, ?_⟩
    rintro (⟨received, hok, -⟩ | ⟨left, hleft, huntouched⟩)
    · rw [hok] at hrun
      contradiction
    · have hstored := congrArg Outcome.state? hrun
      rw [Outcome.state?_map, hleft, Option.map_some,
        huntouched.messages 0 (by simp)] at hstored
      exact absurd hstored (by decide)

end Dpn
