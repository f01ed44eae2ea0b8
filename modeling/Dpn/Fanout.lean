import Dpn.PeerRun
import Dpn.RoundTrip

/-!
# Publishing to several subscribers

Publish pushes one and the same list of messages to every stored subscription,
and every push empties the frames it sends.  The first subscriber therefore
gets what the frames expose, and all later ones get empty bodies.
-/

namespace Dpn

/-- The frames behind the address, the empty frame and the label. -/
def SendRecord.bodies {ι : Type*} (record : SendRecord ι) :
    List (List UInt8) :=
  (record.frames.drop 3).map SentFrame.bytes

namespace Peer

variable {ι : Type*} [DecidableEq ι]

/-! ## The bodies of one send -/

def bodyFrames (package : Package) (heap : Heap (Addr ι)) :
    List (List UInt8) :=
  (handOver (package.map Addr.message) heap).map SentFrame.bytes

theorem handOver_congr {α : Type*} [DecidableEq α] {messages : List α}
    {first second : Heap α}
    (hsame : ∀ message ∈ messages, first message = second message) :
    handOver messages first = handOver messages second := by
  induction messages generalizing first second with
  | nil => rfl
  | cons message rest ih =>
      have hmessage := hsame message (by simp)
      rw [handOver, handOver, hmessage]
      congr 1
      apply ih
      intro other hother
      by_cases heq : other = message
      · subst other
        simp
      · rw [Function.update_of_ne heq, Function.update_of_ne heq]
        exact hsame other (List.mem_cons_of_mem message hother)

theorem count_map_message (package : Package) (index : ℕ) :
    (package.map (Addr.message : ℕ → Addr ι)).count (.message index) =
      package.count index := by
  apply List.count_map_of_injective
  intro first second heq
  exact Addr.message.inj heq

theorem bodyFrames_eq_iff {package : Package} {heap : Heap (Addr ι)}
    {target : ℕ → List UInt8} :
    bodyFrames package heap = package.map target ↔
      (∀ index ∈ package, (heap (.message index)).frameBytes = target index) ∧
        ∀ index, 2 ≤ package.count index → target index = [] := by
  let lifted : Addr ι → List UInt8
    | .label _ => []
    | .message index => target index
  have hmap : package.map target =
      (package.map (Addr.message : ℕ → Addr ι)).map lifted := by
    rw [List.map_map]
    rfl
  rw [bodyFrames, hmap, map_bytes_handOver_eq_iff]
  constructor
  · rintro ⟨hexposed, honce⟩
    constructor
    · intro index hindex
      exact hexposed (.message index) (List.mem_map_of_mem hindex)
    · intro index htwice
      exact honce (.message index) (by rwa [count_map_message])
  · rintro ⟨hexposed, honce⟩
    constructor
    · intro address haddress
      obtain ⟨index, hindex, rfl⟩ := List.mem_map.mp haddress
      exact hexposed index hindex
    · intro address htwice
      cases address with
      | label peer => rfl
      | message index =>
          exact honce index (by rwa [count_map_message] at htwice)

theorem bodyFrames_of_drained {package : Package} {heap : Heap (Addr ι)}
    (hdrained : ∀ index ∈ package, (heap (.message index)).contentsSize = 0) :
    bodyFrames package heap = package.map fun _ => [] := by
  apply bodyFrames_eq_iff.mpr
  constructor
  · intro index hindex
    rw [Message.frameBytes, hdrained index hindex, List.take_zero]
  · exact fun _ _ => rfl

/-! ## A push that reaches its subscriber -/

/-- A record addresses the subscriber of a receipt in the name of this peer. -/
structure Addressed (world : World ι) (receipt : Label)
    (record : SendRecord ι) : Prop where
  localPort : record.localPort = receipt.getPortID .src
  portName : record.portName = destPortName receipt
  dest : record.written.dest = receipt.contents.dest
  src : record.written.src =
    { receipt.contents.src with peerID := world.peer.peerID }
  multipart : ∃ address label,
    IsMultipart address (label :: record.bodies) record.frames

structure Reached (receipt : Label) (package : Package) (world : World ι)
    (result : Label × World ι) (record : SendRecord ι) : Prop where
  stamp : result.1 = stamped receipt world
  peer : result.2.peer =
    { world.peer with messageID := world.peer.messageID + 1 }
  trace : result.2.trace = world.trace ++ [.sent record]
  addressed : Addressed world receipt record
  bodies : record.bodies = bodyFrames package world.heap
  drained : ∀ index ∈ package,
    (result.2.heap (.message index)).contentsSize = 0
  shape : result.2.LabelShape

theorem push_of_reaches {receipt : Label} {package : Package}
    {world : World ι} (hshape : world.LabelShape)
    (hreaches : Reaches receipt world) :
    ∃ result record, push receipt package world = .ok result ∧
      Reached receipt package world result record := by
  obtain ⟨result, heap, frames, hspec, -, hok⟩ :=
    @sendMessages_spec ι _ receipt package world hshape
  obtain ⟨hheap, address, hframes⟩ := hspec.reached hreaches
  have hhandOver : handOver (world.tempPackage package) heap =
      ⟨.shared (.label world.peer.self)
          (heap (.label world.peer.self)).contentsSize,
        (heap (.label world.peer.self)).frameBytes,
        !(package.map (Addr.message : ℕ → Addr ι)).isEmpty⟩ ::
      handOver (package.map Addr.message) world.heap := by
    rw [World.tempPackage, handOver]
    congr 1
    apply handOver_congr
    intro message hmessage
    have hne := ne_of_mem_of_not_mem hmessage
      (label_notMem world.peer.self package)
    rw [Function.update_of_ne hne]
    exact hspec.labelled.others message hne
  let record : SendRecord ι :=
    ⟨receipt.getPortID .src, destPortName receipt, written receipt world, frames⟩
  have hbodies : record.bodies = bodyFrames package world.heap := by
    simp only [SendRecord.bodies, record, hframes, hhandOver, List.drop_succ_cons,
      List.drop_zero, bodyFrames]
  have hmultipart := isMultipart_handOver address heap
    (show world.tempPackage package ≠ [] from List.cons_ne_nil _ _)
  rw [hhandOver, List.map_cons, ← bodyFrames, ← hbodies, ← hhandOver] at hmultipart
  have hframesEq : record.frames = _ := hframes
  refine ⟨result, record, hok hreaches, hspec.stamp, hspec.peer, hspec.trace,
    ⟨rfl, rfl, rfl, rfl, address, _, hframesEq ▸ hmultipart⟩, hbodies, ?_,
    hspec.sentLabel.shape⟩
  intro index hindex
  have hmem : Addr.message index ∈ world.tempPackage package :=
    List.mem_cons_of_mem _ (List.mem_map_of_mem hindex)
  rw [hheap, emptyAll, if_pos hmem, Message.emptied_contentsSize]

omit [DecidableEq ι] in
theorem Reaches.of_hub_eq {receipt : Label} {world next : World ι}
    (h : Reaches receipt world) (hhub : next.peer.hub = world.peer.hub) :
    Reaches receipt next := by
  unfold Reaches
  rw [hhub]
  exact h

/-! ## The loop -/

def fannedBodies (package : Package) (heap : Heap (Addr ι)) :
    List Label → List (List (List UInt8))
  | [] => []
  | _ :: rest =>
      bodyFrames package heap :: rest.map fun _ => package.map fun _ => []

/-- After the first push the messages are drained, so the rest of the loop
sends empty bodies. -/
theorem fannedBodies_of_drained {package : Package} {heap : Heap (Addr ι)}
    (hdrained : ∀ index ∈ package, (heap (.message index)).contentsSize = 0)
    (receipts : List Label) :
    fannedBodies package heap receipts =
      receipts.map fun _ => package.map fun _ => [] := by
  cases receipts with
  | nil => rfl
  | cons receipt rest =>
      rw [fannedBodies, bodyFrames_of_drained hdrained, List.map_cons]

theorem publishLoop_of_reaches {package : Package} {receipts : List Label}
    {world : World ι} (hshape : world.LabelShape)
    (hreaches : ∀ receipt ∈ receipts, Reaches receipt world) :
    ∃ final records,
      publishLoop package receipts world =
        .ok (receipts.map fun receipt => stamped receipt world, final) ∧
      final.trace = world.trace ++ records.map Event.sent ∧
      final.peer =
        { world.peer with messageID := final.peer.messageID } ∧
      List.Forall₂ (Addressed world) receipts records ∧
      records.map SendRecord.bodies =
        fannedBodies package world.heap receipts := by
  induction receipts generalizing world with
  | nil => exact ⟨world, [], rfl, by simp, rfl, .nil, rfl⟩
  | cons receipt rest ih =>
      obtain ⟨result, record, hpush, h⟩ := @push_of_reaches ι _ receipt package
        world hshape (hreaches receipt (by simp))
      have hhub : result.2.peer.hub = world.peer.hub := by rw [h.peer]
      have hpeerID : result.2.peer.peerID = world.peer.peerID := by rw [h.peer]
      obtain ⟨final, records, hloop, htrace, hpeer, haddressed, hbodies⟩ :=
        ih h.shape fun other hother =>
          (hreaches other (List.mem_cons_of_mem receipt hother)).of_hub_eq hhub
      -- A push changes neither the hub nor the peer ID, so the induction
      -- hypothesis applies to the world behind it.
      have hstamped : ∀ other : Label,
          stamped other result.2 = stamped other world := by
        intro other
        rw [stamped, hpeerID, stamped]
      refine ⟨final, record :: records, ?_, ?_, ?_, ?_, ?_⟩
      · rw [publishLoop, hpush, Outcome.andThen_ok, hloop, Outcome.map_ok,
          h.stamp]
        simp only [hstamped, List.map_cons]
      · rw [htrace, h.trace, List.append_assoc]
        rfl
      · rw [hpeer, h.peer]
      · refine .cons h.addressed (haddressed.imp ?_)
        intro other sent haddr
        exact ⟨haddr.localPort, haddr.portName, haddr.dest,
          hpeerID ▸ haddr.src, haddr.multipart⟩
      · rw [List.map_cons, h.bodies, hbodies, fannedBodies_of_drained h.drained,
          fannedBodies]

/-! ## When all subscribers get the same -/

/-- Publish sends every stored subscription one multipart whose bodies are the
`size()` bytes of the messages. -/
def FansOut (label : Label) (package : Package) (receipts : List Label)
    (world : World ι) : Prop :=
  ∃ final records, publish label package world = .ok final ∧
    final.trace = world.trace ++ records.map Event.sent ∧
    List.Forall₂ (Addressed world) receipts records ∧
    ∀ record ∈ records,
      record.bodies =
          package.map (fun index => (world.heap (.message index)).visible) ∧
        ∀ index ∈ package, (world.heap (.message index)).visible.length =
          (world.heap (.message index)).size

/-- The frames of a package show the messages, and nothing is lost when they
are sent `count` times over. -/
structure Repeatable (package : Package) (count : ℕ)
    (heap : Heap (Addr ι)) : Prop where
  inside : ∀ index ∈ package, (heap (.message index)).size ≤
    (heap (.message index)).capacity - (heap (.message index)).offset
  exposed : ∀ index ∈ package,
    (heap (.message index)).bytes.take (heap (.message index)).size =
      (heap (.message index)).visible
  once : ∀ index, 2 ≤ package.count index →
    (heap (.message index)).size = 0
  alone : 2 ≤ count → ∀ index ∈ package, (heap (.message index)).size = 0

theorem Repeatable.of_fannedBodies {package : Package}
    {heap : Heap (Addr ι)} {receipt : Label} {rest : List Label}
    (hframe : ∀ index ∈ package, (heap (.message index)).frameBytes =
      (heap (.message index)).bytes.take (heap (.message index)).size)
    (hall : ∀ bodies ∈ fannedBodies package heap (receipt :: rest),
      bodies = package.map (fun index => (heap (.message index)).visible) ∧
      ∀ index ∈ package, (heap (.message index)).visible.length =
        (heap (.message index)).size) :
    Repeatable package (receipt :: rest).length heap := by
  obtain ⟨hbodies, hlength⟩ := hall (bodyFrames package heap)
    (by simp [fannedBodies])
  obtain ⟨hexposed, honce⟩ := bodyFrames_eq_iff.mp hbodies
  have hinside : ∀ index ∈ package, (heap (.message index)).size ≤
      (heap (.message index)).capacity - (heap (.message index)).offset :=
    fun index hindex =>
      Message.length_visible_eq_size_iff.mp (hlength index hindex)
  constructor
  · exact hinside
  · intro index hindex
    rw [← hframe index hindex, hexposed index hindex]
  · intro index htwice
    have hindex : index ∈ package := List.count_pos_iff.mp (by omega)
    exact (Message.visible_eq_nil_iff (hinside index hindex)).mp
      (honce index htwice)
  · intro htwo index hindex
    obtain ⟨other, others, rfl⟩ : ∃ other others, rest = other :: others :=
      List.exists_cons_of_ne_nil (by rintro rfl; simp at htwo)
    have hblank := (hall (package.map fun _ => []) (by simp [fannedBodies])).1
    have hnil := List.map_inj_left.mp hblank index hindex
    exact (Message.visible_eq_nil_iff (hinside index hindex)).mp hnil.symm

theorem Repeatable.fannedBodies_eq {package : Package}
    {heap : Heap (Addr ι)} {receipt : Label} {rest : List Label}
    (hframe : ∀ index ∈ package, (heap (.message index)).frameBytes =
      (heap (.message index)).bytes.take (heap (.message index)).size)
    (h : Repeatable package (receipt :: rest).length heap)
    {bodies : List (List UInt8)}
    (hbodies : bodies ∈ fannedBodies package heap (receipt :: rest)) :
    bodies = package.map fun index => (heap (.message index)).visible := by
  rw [fannedBodies, List.mem_cons] at hbodies
  rcases hbodies with rfl | hrest
  · apply bodyFrames_eq_iff.mpr
    constructor
    · intro index hindex
      rw [hframe index hindex, h.exposed index hindex]
    · intro index htwice
      have hindex : index ∈ package := List.count_pos_iff.mp (by omega)
      exact (Message.visible_eq_nil_iff (h.inside index hindex)).mpr
        (h.once index htwice)
  · obtain ⟨other, hother, rfl⟩ := List.mem_map.mp hrest
    have hpos := List.length_pos_of_mem hother
    have htwo : 2 ≤ (receipt :: rest).length := by
      rw [List.length_cons]
      omega
    apply List.map_congr_left
    intro index hindex
    exact ((Message.visible_eq_nil_iff (h.inside index hindex)).mpr
      (h.alone htwo index hindex)).symm

theorem fannedBodies_eq_iff {package : Package} {heap : Heap (Addr ι)}
    {receipts : List Label}
    (hresized : ∀ index ∈ package, (heap (.message index)).contentsSize =
      (heap (.message index)).size) :
    (∀ bodies ∈ fannedBodies package heap receipts,
        bodies = package.map (fun index => (heap (.message index)).visible) ∧
        ∀ index ∈ package, (heap (.message index)).visible.length =
          (heap (.message index)).size) ↔
      receipts = [] ∨ Repeatable package receipts.length heap := by
  have hframe : ∀ index ∈ package, (heap (.message index)).frameBytes =
      (heap (.message index)).bytes.take (heap (.message index)).size := by
    intro index hindex
    rw [Message.frameBytes, hresized index hindex]
  cases receipts with
  | nil => simp [fannedBodies]
  | cons receipt rest =>
      constructor
      · exact fun hall => Or.inr (Repeatable.of_fannedBodies hframe hall)
      · rintro (hnone | h) bodies hbodies
        · contradiction
        · exact ⟨h.fannedBodies_eq hframe hbodies, fun index hindex =>
            Message.length_visible_eq_size_iff.mpr (h.inside index hindex)⟩

theorem publish_of_reaches {label : Label} {package : Package}
    {receipts : List Label} {world : World ι} (hshape : world.LabelShape)
    (hlookup : world.peer.pubMap.lookup (label.getInterfaceID .src) =
      some receipts)
    (hreaches : ∀ receipt ∈ receipts, Reaches receipt world) :
    ∃ final records, publish label package world = .ok final ∧
      final.trace = world.trace ++ records.map Event.sent ∧
      List.Forall₂ (Addressed world) receipts records ∧
      records.map SendRecord.bodies =
        fannedBodies package world.heap receipts := by
  obtain ⟨final, records, hloop, htrace, -, haddressed, hbodies⟩ :=
    @publishLoop_of_reaches ι _ package receipts world hshape hreaches
  refine ⟨setReceipts (label.getInterfaceID .src)
    (receipts.map fun receipt => stamped receipt world) final, records, ?_,
    htrace, haddressed, hbodies⟩
  simp only [publish, hlookup, hloop, Outcome.map_ok]

/-- Publish gives every reachable subscriber the messages of a package if and
only if there is no subscriber, or the frames show what `buffer()` shows, no
message with content is listed twice, and, with two subscribers or more, no
message has any content. -/
theorem publish_fansOut_iff {label : Label} {package : Package}
    {receipts : List Label} {world : World ι} (hshape : world.LabelShape)
    (hlookup : world.peer.pubMap.lookup (label.getInterfaceID .src) =
      some receipts)
    (hreaches : ∀ receipt ∈ receipts, Reaches receipt world)
    (hresized : ∀ index ∈ package,
      (world.heap (.message index)).contentsSize =
        (world.heap (.message index)).size) :
    FansOut label package receipts world ↔
      receipts = [] ∨ Repeatable package receipts.length world.heap := by
  obtain ⟨final, records, hpublish, htrace, haddressed, hbodies⟩ :=
    @publish_of_reaches ι _ label package receipts world hshape hlookup hreaches
  rw [← fannedBodies_eq_iff hresized, ← hbodies]
  constructor
  · rintro ⟨otherFinal, otherRecords, hother, hotherTrace, -, hall⟩
    obtain rfl : final = otherFinal :=
      Outcome.ok.inj (hpublish.symm.trans hother)
    have hsame : otherRecords = records := by
      rw [htrace, List.append_cancel_left_eq] at hotherTrace
      exact (List.map_injective_iff.mpr (fun _ _ h => Event.sent.inj h)
        hotherTrace).symm
    intro bodies hmem
    obtain ⟨record, hrecord, rfl⟩ := List.mem_map.mp hmem
    exact hall record (hsame ▸ hrecord)
  · intro hall
    refine ⟨final, records, hpublish, htrace, haddressed, ?_⟩
    intro record hrecord
    exact hall record.bodies (List.mem_map_of_mem hrecord)

end Peer

/-! ## Two subscribers -/

def socketIDOf (peerID : PeerID) : SocketID :=
  portNameToSocketID
    (PortSpecification.getPortName ⟨peerIDtoHubName peerID, 0⟩) .inproc

/-- A hub with one registered port 0 that has pipes to some peers. -/
def onePortHub {α : Type*} (peerID : PeerID) (routes : List PeerID)
    (incoming : List (WireFrame α)) : Hub α where
  hubName := peerIDtoHubName peerID
  poller := [⟨0, pollin, 0⟩]
  ports := (∅ : Table PortID (Port α)).insert 0
    { portName := PortSpecification.getPortName ⟨peerIDtoHubName peerID, 0⟩
      transport := .inproc
      socket := 0
      closed := false
      routes := routes.map socketIDOf
      incoming := incoming }
  pollPortID := 0
  pollEventFlags := 0

def freshPeer : World Unit :=
  Peer.construct () 1 0 (List.replicate contentsSizeof 0) (List.replicate 8 0)
    fun _ => (Message.new [7, 8, 9, 10]).resize 1 0

def peerOne (routes : List PeerID) (incoming : List (WireFrame (Addr Unit))) :
    World Unit :=
  freshPeer.withHub (onePortHub 1 routes incoming)

def receiptOf (peerID : PeerID) : Label :=
  ⟨⟨0, 0, ⟨1, 0, 5⟩, ⟨peerID, 0, 6⟩⟩⟩

def twoSubscribers : World Unit :=
  Peer.setReceipts 5 [receiptOf 2, receiptOf 3] (peerOne [2, 3] [])

theorem reaches_twoSubscribers :
    ∀ receipt ∈ [receiptOf 2, receiptOf 3],
      Peer.Reaches receipt twoSubscribers := by
  intro receipt hreceipt
  rcases List.mem_pair.mp hreceipt with rfl | rfl
  · exact ⟨_, rfl, rfl, by decide⟩
  · exact ⟨_, rfl, rfl, by decide⟩

theorem publish_fansOut_one :
    Peer.FansOut (receiptOf 2) [1] [receiptOf 2]
      (Peer.setReceipts 5 [receiptOf 2] (peerOne [2] [])) := by
  have hshape : (Peer.setReceipts 5 [receiptOf 2] (peerOne [2] [])).LabelShape :=
    ⟨by decide, by decide⟩
  have hreaches : ∀ receipt ∈ [receiptOf 2], Peer.Reaches receipt
      (Peer.setReceipts 5 [receiptOf 2] (peerOne [2] [])) := by
    intro receipt hreceipt
    obtain rfl : receipt = receiptOf 2 := by simpa using hreceipt
    exact ⟨_, rfl, rfl, by decide⟩
  apply (Peer.publish_fansOut_iff hshape (by decide) hreaches (by decide)).mpr
  refine Or.inr ⟨by decide, by decide, ?_, by decide⟩
  intro index htwice
  have honce : [1].count index ≤ 1 := List.count_le_length
  omega

/-- The second of two subscribers gets an empty body. -/
theorem publish_drains_second :
    (∀ receipt ∈ [receiptOf 2, receiptOf 3],
        Peer.Reaches receipt twoSubscribers) ∧
      (Peer.publish (receiptOf 2) [1] twoSubscribers).map
        (fun final => (final.trace.filterMap Event.sent?).map
          SendRecord.bodies) = .ok [[[7]], [[]]] ∧
      ¬Peer.FansOut (receiptOf 2) [1] [receiptOf 2, receiptOf 3]
        twoSubscribers := by
  have hrun : (Peer.publish (receiptOf 2) [1] twoSubscribers).map
      (fun final => (final.trace.filterMap Event.sent?).map
        SendRecord.bodies) = .ok [[[7]], [[]]] := by
    decide
  refine ⟨reaches_twoSubscribers, hrun, ?_⟩
  rintro ⟨final, records, hpublish, htrace, -, hall⟩
  have hrecords : (records.map Event.sent).filterMap Event.sent? = records := by
    rw [List.filterMap_map]
    exact List.filterMap_some
  have hbefore : twoSubscribers.trace = [] := rfl
  rw [hpublish, Outcome.map_ok, htrace, hbefore, List.nil_append,
    hrecords] at hrun
  have hbodies : records.map SendRecord.bodies = [[[7]], [[]]] :=
    Outcome.ok.inj hrun
  have hmem : [[]] ∈ records.map SendRecord.bodies := by
    rw [hbodies]
    simp
  obtain ⟨record, hrecord, hempty⟩ := List.mem_map.mp hmem
  have hfull := (hall record hrecord).1
  rw [hempty] at hfull
  exact absurd hfull (by decide)

end Dpn
