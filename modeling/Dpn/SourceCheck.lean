import Dpn.AddressCodec
import Dpn.Dispatch

/-!
# What the source check lets pass

`ReceiveMessages` compares the source that a label names with two numbers it
reads out of the name of the sending port.  Both are read by cutting the name
at delimiters and by `stoi`, so other names than the one of the source are
taken for it.
-/

namespace Dpn

open TextStream ByteBuffer

/-! ## Names read as a source -/

/-- The text starts with a number that is the word once it is narrowed. -/
def NamesWord (text : Str) (word : UInt16) : Prop :=
  ∃ value, StartsWith text value ∧ -2 ^ 31 ≤ value ∧ value < 2 ^ 31 ∧
    value % 2 ^ 16 = word.toNat

/-- Up to its first slash, the name has a number for the peer before its first
dash and one for the port behind it. -/
def ReadsAs (sender : PortName) (source : InterfaceDescription) : Prop :=
  NamesWord (before 45 (before 47 sender)) source.peerID ∧
    NamesWord (before 45 (after 45 (before 47 sender))) source.portID

/-- The name of the port that a label names as its source. -/
def canonicalName (source : InterfaceDescription) : PortName :=
  PortSpecification.getPortName
    ⟨peerIDtoHubName source.peerID, source.portID⟩

theorem ofInt_eq_iff {value : ℤ} {word : UInt16} :
    UInt16.ofInt value = word ↔ value % 2 ^ 16 = word.toNat := by
  have hlt := word.toNat_lt
  rw [UInt16.ofInt, ← UInt16.toNat_inj, UInt16.toNat_ofNat']
  omega

theorem stoi_narrowed_iff {text : Str} {word : UInt16} :
    (∃ value, stoi text = .ok value ∧ UInt16.ofInt value = word) ↔
      NamesWord text word := by
  simp only [stoi_eq_ok_iff, ofInt_eq_iff, NamesWord, and_assoc]

namespace Peer

theorem checkSource_eq_ok_none_iff {contents : Contents}
    {spec : PortSpecification} :
    checkSource contents spec = .ok none ↔
      spec.portID = contents.src.portID ∧
        ∃ value, stoi spec.hubName = .ok value ∧
          UInt16.ofInt value = contents.src.peerID := by
  unfold checkSource hubNametoPeerID
  by_cases hport : contents.src.portID ≠ spec.portID
  · simp [hport, Ne.symm hport]
  · rw [if_neg hport, not_not.mp hport]
    cases stoi spec.hubName with
    | error error => simp [Except.map]
    | ok value =>
        by_cases hpeer : contents.src.peerID ≠ UInt16.ofInt value
        · simp [Except.map, hpeer, Ne.symm hpeer]
        · simp [Except.map, not_not.mp hpeer]

/-- The name of a port is read as the source of a label. -/
theorem readsAs_iff {sender : PortName} {contents : Contents} :
    (∃ spec, (⟨[], 0⟩ : PortSpecification).setPortName (before 47 sender) =
        .ok spec ∧ checkSource contents spec = .ok none) ↔
      ReadsAs sender contents.src := by
  simp only [PortSpecification.setPortName_eq_ok_iff, checkSource_eq_ok_none_iff,
    ReadsAs, ← stoi_narrowed_iff]
  constructor
  · rintro ⟨spec, ⟨value, hvalue, rfl⟩, hport, hpeer⟩
    exact ⟨hpeer, value, hvalue, hport⟩
  · rintro ⟨hpeer, value, hvalue, hport⟩
    exact ⟨_, ⟨value, hvalue, rfl⟩, hport, hpeer⟩

theorem readsAs_canonicalName (contents : Contents) :
    ReadsAs (canonicalName contents.src) contents.src := by
  have hdash := not_mem_peerIDtoHubName (show isDigit 45 = false by decide)
    contents.src.peerID
  have hslash : 47 ∉ PortSpecification.getPortName
      ⟨peerIDtoHubName contents.src.peerID, contents.src.portID⟩ :=
    PortSpecification.slash_notMem_getPortName
      (not_mem_peerIDtoHubName (by decide) contents.src.peerID)
  have hbound : contents.src.peerID.toNat < 2 ^ 31 := by
    have hlt := contents.src.peerID.toNat_lt
    omega
  apply readsAs_iff.mp
  refine ⟨⟨peerIDtoHubName contents.src.peerID, contents.src.portID⟩, ?_,
    checkSource_eq_ok_none_iff.mpr ⟨rfl, _, stoi_toString hbound,
      PortSpecification.ofInt_toNat _⟩⟩
  rw [canonicalName, before_of_notMem hslash]
  exact PortSpecification.setPortName_getPortName _ _ hdash

/-! ## The call with its warning -/

variable {ι : Type*} [DecidableEq ι]

/-- `Peer::ReceiveMessages` with the warning it logs, if it comes to the
comparison. -/
def receiveMessagesWarning (destPortID : PortID) (package : Package)
    (world : World ι) : Outcome Exn (World ι × Option SourceWarning) :=
  match world.peer.hub.findPort destPortID with
  | none => .stuck .undefined
  | some _ =>
      let logged := world.logReceived destPortID package
      let after := fun received : Hub.Reception (Addr ι) =>
        { logged.withHub received.hub with heap := received.heap }
      (Hub.receive destPortID (world.tempPackage package)
        ⟨⟨[], 0⟩, world.peer.hub, world.heap⟩).andThen
        (fun received => (after received, none))
        fun received =>
          match checkSource (after received).labelContents received.portSpec with
          | .ok warning => .ok (after received, warning)
          | .error error => .throw (Exn.ofStoi error) (after received, none)

theorem receiveMessages_eq_map_fst (destPortID : PortID) (package : Package)
    (world : World ι) :
    receiveMessages destPortID package world =
      (receiveMessagesWarning destPortID package world).map Prod.fst := by
  unfold receiveMessages receiveMessagesWarning
  cases world.peer.hub.findPort destPortID with
  | none => rfl
  | some port =>
      dsimp only
      cases Hub.receive destPortID (world.tempPackage package)
        ⟨⟨[], 0⟩, world.peer.hub, world.heap⟩ with
      | ok received =>
          simp only [Outcome.andThen_ok]
          split <;> simp_all
      | throw error received => rfl
      | stuck reason => rfl

/-- The call returns, and it has not warned of a bad source. -/
def Silent (destPortID : PortID) (package : Package) (world : World ι) : Prop :=
  ∃ final, receiveMessagesWarning destPortID package world = .ok (final, none)

theorem silent_iff {destPortID : PortID} {package : Package} {world : World ι}
    {port : Port (Addr ι)} {frames : List (FrameData (Addr ι))}
    (hport : world.peer.hub.findPort destPortID = some port)
    (hnext : port.nextMultipart = some frames) :
    Silent destPortID package world ↔
      ∃ heap spec, distribute (world.tempPackage package)
          (packageFrames world.heap frames) world.heap = .ok heap ∧
        (⟨[], 0⟩ : PortSpecification).setPortName
          (senderName world.heap frames) = .ok spec ∧
        checkSource (afterReceive destPortID package port frames world
          heap).labelContents spec = .ok none := by
  have hlogged : world.logReceived destPortID package =
      world.log (.received destPortID package
        (frames.map fun frame => frame.bytes world.heap)) := by
    simp only [World.logReceived, hport, Option.bind_some, hnext]
  simp only [Silent, receiveMessagesWarning, hport, Hub.receive,
    receive_of_next hnext, hlogged]
  cases distribute (world.tempPackage package)
    (packageFrames world.heap frames) world.heap with
  | throw error heap => simp
  | stuck reason => simp
  | ok heap =>
      simp only [Outcome.map_ok, Outcome.andThen_ok]
      cases (⟨[], 0⟩ : PortSpecification).setPortName
          (senderName world.heap frames) with
      | throw error spec => simp
      | stuck reason => simp
      | ok spec =>
          simp only [Outcome.map_ok, Outcome.andThen_ok, Outcome.ok.injEq,
            exists_eq_left', exists_and_left]
          split
          · rename_i warning hcheck
            have hafter : checkSource (afterReceive destPortID package port
                frames world heap).labelContents spec = .ok warning := hcheck
            rw [hafter]
            simp
          · rename_i error hcheck
            have hafter : checkSource (afterReceive destPortID package port
                frames world heap).labelContents spec = .error error := hcheck
            rw [hafter]
            simp

/-! ## Well-formed packages -/

/-- The source check is exact for a sender and a well-formed package if and
only if the package of the genuine sender is stored inside the messages, and
no stored package of another sender comes with a name that is read as the
source. -/
theorem source_check_exact_iff {interfaces : Table InterfaceID (Interface ι)}
    {destPortID : PortID} {package : Package} {world : World ι}
    {port : Port (Addr ι)} {socketID : FrameData (Addr ι)}
    {others : List (FrameData (Addr ι))} {sender : PortName} {label : Contents}
    (hreachable : Reachable interfaces world)
    (hport : world.peer.hub.findPort destPortID = some port)
    (hnext : port.nextMultipart = some (socketID :: others))
    (hsender : socketID.bytes world.heap = portNameToSocketID sender .inproc)
    (hlabel : WellFormed world.heap (socketID :: others) label)
    (hwhole : ∀ frame ∈ socketID :: others, frame.Whole world.heap) :
    (Silent destPortID package world ↔ sender = canonicalName label.src) ↔
      (sender = canonicalName label.src →
          VectorFits (world.tempPackage package)
            (packageFrames world.heap (socketID :: others)) world.heap) ∧
        (VectorFits (world.tempPackage package)
            (packageFrames world.heap (socketID :: others)) world.heap →
          ReadsAs sender label.src → sender = canonicalName label.src) := by
  have hshape := hreachable.labelShape
  have hname : senderName world.heap (socketID :: others) = before 47 sender := by
    obtain ⟨first, second, third, rest, hframes, -⟩ := hlabel.exists_frames
    obtain ⟨rfl, rfl⟩ := List.cons.inj hframes
    rw [senderName, hsender, portNameFromSocketID_inproc]
  have hfits := @exists_distribute_iff _ _ (world.tempPackage package)
    (packageFrames world.heap (socketID :: others)) world.heap
    (List.cons_ne_nil _ _) (whole_of_mem_packageFrames hwhole)
  have hafter : ∀ heap, distribute (world.tempPackage package)
      (packageFrames world.heap (socketID :: others)) world.heap = .ok heap →
      (afterReceive destPortID package port (socketID :: others) world
        heap).labelContents = label := by
    intro heap hstore
    rw [@labelContents_of_distribute _ _ package world
      (afterReceive destPortID package port (socketID :: others) world heap)
      _ hshape hstore rfl]
    exact labelAfter_of_wellFormed package hshape hwhole hlabel
  have hsilent : Silent destPortID package world ↔
      VectorFits (world.tempPackage package)
        (packageFrames world.heap (socketID :: others)) world.heap ∧
        ReadsAs sender label.src := by
    rw [silent_iff hport hnext, hname, ← hfits, ← readsAs_iff]
    constructor
    · rintro ⟨heap, spec, hstore, hspec, hcheck⟩
      rw [hafter heap hstore] at hcheck
      exact ⟨⟨heap, hstore⟩, spec, hspec, hcheck⟩
    · rintro ⟨⟨heap, hstore⟩, spec, hspec, hcheck⟩
      refine ⟨heap, spec, hstore, hspec, ?_⟩
      rwa [hafter heap hstore]
  have hcanonical : sender = canonicalName label.src →
      ReadsAs sender label.src :=
    fun heq => heq ▸ readsAs_canonicalName label
  rw [hsilent]
  constructor
  · intro hexact
    exact ⟨fun heq => (hexact.mpr heq).1,
      fun hstored hreads => hexact.mp ⟨hstored, hreads⟩⟩
  · rintro ⟨hgenuine, hforged⟩
    exact ⟨fun h => hforged h.1 h.2,
      fun heq => ⟨hgenuine heq, hcanonical heq⟩⟩

end Peer

/-! ## A name with a leading zero -/

/-- A package without a body whose label names port 0 of peer 2. -/
def sentBy (sender : PortName) : List (FrameData (Addr Unit)) :=
  [.owned (portNameToSocketID sender .inproc), .owned [],
    .owned (Contents.encode ⟨9, 0, ⟨2, 0, 7⟩, ⟨1, 0, 6⟩⟩)]

theorem wellFormed_sentBy (sender : PortName) (heap : Heap (Addr Unit)) :
    Peer.WellFormed heap (sentBy sender) ⟨9, 0, ⟨2, 0, 7⟩, ⟨1, 0, 6⟩⟩ :=
  ⟨_, _, [], rfl, length_encode _, (decode_encode _).symm⟩

theorem source_check_exact_genuine :
    Peer.Silent 0 [0] (peerOne [2] (toWire (sentBy (canonicalName ⟨2, 0, 7⟩)))) ↔
      canonicalName ⟨2, 0, 7⟩ = canonicalName ⟨2, 0, 7⟩ := by
  have hincoming : toWire (sentBy (canonicalName ⟨2, 0, 7⟩)) =
      toWire (sentBy (canonicalName ⟨2, 0, 7⟩)) ++ [] :=
    (List.append_nil _).symm
  refine (Peer.source_check_exact_iff (reachable_peerOne ∅ _ _) rfl
    (nextMultipart_toWire rfl hincoming (List.cons_ne_nil _ _) (by decide)) rfl
    (wellFormed_sentBy _ _) ?_).mpr ⟨fun _ => ?_, fun _ _ => rfl⟩
  · intro frame hframe
    simp only [List.mem_cons, List.not_mem_nil, or_false] at hframe
    rcases hframe with rfl | rfl | rfl <;> rfl
  · rintro (_ | i) message frame rest hmessage hshare
    · obtain rfl : Addr.label () = message := Option.some.inj hmessage
      obtain ⟨rfl, rfl⟩ := List.cons.inj hshare
      decide
    · have hlength := congrArg List.length hshare
      simp [share, packageFrames, sentBy, World.tempPackage] at hlength

/-- The port `02-0` is taken for port 0 of peer 2. -/
theorem forged_source_accepted :
    ∃ (world : World Unit) (port : Port (Addr Unit)) (label : Contents),
      Peer.Reachable ∅ world ∧
      world.peer.hub.findPort 0 = some port ∧
      port.nextMultipart = some (sentBy [48, 50, 45, 48]) ∧
      Peer.WellFormed world.heap (sentBy [48, 50, 45, 48]) label ∧
      ¬(Peer.Silent 0 [0] world ↔ [48, 50, 45, 48] = canonicalName label.src) := by
  have hincoming : toWire (sentBy [48, 50, 45, 48]) =
      toWire (sentBy [48, 50, 45, 48]) ++ [] :=
    (List.append_nil _).symm
  refine ⟨peerOne [2] (toWire (sentBy [48, 50, 45, 48])), _, _,
    reachable_peerOne ∅ _ _, rfl, nextMultipart_toWire rfl hincoming
      (List.cons_ne_nil _ _) (by decide), wellFormed_sentBy _ _, ?_⟩
  have hwarning : (Peer.receiveMessagesWarning 0 [0] (peerOne [2]
      (toWire (sentBy [48, 50, 45, 48])))).map Prod.snd = .ok none := by
    decide
  have hsilent : Peer.Silent 0 [0]
      (peerOne [2] (toWire (sentBy [48, 50, 45, 48]))) := by
    obtain ⟨⟨final, warning⟩, hok, hnone⟩ := Outcome.map_eq_ok.mp hwarning
    obtain rfl : warning = none := hnone
    exact ⟨final, hok⟩
  intro hexact
  exact absurd (hexact.mp hsilent) (by decide)

end Dpn
