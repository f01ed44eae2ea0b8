import Dpn.Loans

/-!
# Packages from peer to peer

A package is a label and its bodies.  Where label frames are whole, no size
wraps and messages on loan are left alone, the channels between ports carry
packages, and every label names the ports that its channel connects.
-/

namespace Dpn

open ByteBuffer

variable {ι : Type*} [DecidableEq ι]

/-! ## Reading a package -/

/-- An empty frame, a label of the right size, and bodies. -/
def parsePackage :
    List (List UInt8) → Option (Contents × List (List UInt8))
  | [] :: label :: bodies =>
      if label.length = contentsSizeof then some (Contents.decode label, bodies)
      else none
  | _ => none

omit [DecidableEq ι] in
theorem parsePackage_eq_some {frames : List (List UInt8)} {label : Contents}
    {bodies : List (List UInt8)}
    (hparse : parsePackage frames = some (label, bodies)) :
    ∃ labelFrame, frames = [] :: labelFrame :: bodies ∧
      labelFrame.length = contentsSizeof ∧
      label = Contents.decode labelFrame := by
  unfold parsePackage at hparse
  split at hparse
  · rename_i labelFrame others
    split at hparse
    · rename_i hlength
      obtain ⟨rfl, rfl⟩ := Prod.mk.inj (Option.some.inj hparse)
      exact ⟨labelFrame, rfl, hlength, rfl⟩
    · contradiction
  · contradiction

/-- The package as it was sent, with the label that was written for it. -/
def Parcel.package (parcel : Parcel ι) :
    Option (Contents × List (List UInt8)) :=
  some (parcel.record.written, parcel.sentBytes.drop 2)

/-- The channel connects the two ports that the label names. -/
structure Channel.Connects (channel : Channel) (label : Contents) : Prop where
  source : channel.source = peerSocketID label.src.peerID label.src.portID
  dest : channel.dest = peerSocketID label.dest.peerID label.dest.portID

namespace Network

/-- The package that a receiver finds in the frames, if they announce no bytes
that are not there. -/
def readPackage (heap : Heap (Addr ι)) (content : List (FrameData (Addr ι))) :
    Option (Contents × List (List UInt8)) :=
  if ∀ frame ∈ content, (frame.bytes heap).length = frame.size then
    parsePackage (readBytes heap content)
  else none

omit [DecidableEq ι] in
theorem readPackage_congr {heap next : Heap (Addr ι)}
    {content : List (FrameData (Addr ι))}
    (hsame : readBytes next content = readBytes heap content) :
    readPackage next content = readPackage heap content := by
  have hframes : ∀ frame ∈ content, frame.bytes next = frame.bytes heap :=
    List.map_inj_left.mp hsame
  have hwhole : (∀ frame ∈ content, (frame.bytes next).length = frame.size) ↔
      ∀ frame ∈ content, (frame.bytes heap).length = frame.size := by
    constructor
    · intro h frame hframe
      rw [← hframes frame hframe]
      exact h frame hframe
    · intro h frame hframe
      rw [hframes frame hframe]
      exact h frame hframe
  rw [readPackage, readPackage, hsame]
  simp only [hwhole]

/-! ## What is kept in a run -/

/-- The label frame that a send hands out is whole. -/
def Step.WholeLabel : Step ι → Network ι → Prop
  | .act peer (.send label _), network =>
      Peer.Reaches label (network.world peer) →
        (network.world peer).labelMessage.contentsSize = contentsSizeof
  | _, _ => True

/-- No size that is asked for wraps. -/
def Step.NeverWraps : Step ι → Network ι → Prop
  | .act peer single, network => single.StaysAllocated (network.world peer)
  | .deliver _ _ _, _ => True

/-- Nothing is lost, nothing is written while it is on loan, labels are sent
whole, and no size wraps. -/
structure Step.Proper (single : Step ι) (network : Network ι) : Prop where
  disciplined : single.Disciplined network
  wholeLabel : single.WholeLabel network
  neverWraps : single.NeverWraps network

instance (label : Label) (world : World ι) : Decidable (Peer.Reaches label world) :=
  inferInstanceAs (Decidable (∃ port ∈ world.peer.hub.findPort _, _))

instance (single : Peer.Act ι) (world : World ι) :
    Decidable (single.StaysAllocated world) :=
  match single with
  | .resize _ _ _ => inferInstanceAs (Decidable (_ < _))
  | .called _ _ _ => inferInstanceAs (Decidable (_ = _))
  | .remote _ _ => decidable_of_iff (_ ∧ _)
      ⟨fun h => ⟨h.1, h.2⟩, fun h => ⟨h.1, h.2⟩⟩
  | .send _ _ | .poll _ _ | .receipts _ _ | .subscribe _ | .reset _
  | .write _ _ _ | .changePackage _ | .arrive _ _ | .managePorts _ =>
      .isTrue trivial

instance [Fintype ι] (single : Step ι) (network : Network ι) :
    Decidable (single.Proper network) :=
  have : Decidable (single.WholeLabel network) :=
    match single with
    | .act _ (.send _ _) => inferInstanceAs (Decidable (_ → _ = _))
    | .act _ (.poll _ _) | .act _ (.receipts _ _) | .act _ (.subscribe _)
    | .act _ (.called _ _ _) | .act _ (.resize _ _ _) | .act _ (.reset _)
    | .act _ (.write _ _ _) | .act _ (.changePackage _) | .act _ (.arrive _ _)
    | .act _ (.managePorts _) | .act _ (.remote _ _) | .deliver _ _ _ =>
        .isTrue trivial
  have : Decidable (single.NeverWraps network) :=
    match single with
    | .act _ single => inferInstanceAs (Decidable (single.StaysAllocated _))
    | .deliver _ _ _ => .isTrue trivial
  decidable_of_iff (_ ∧ _ ∧ _) ⟨fun h => ⟨h.1, h.2.1, h.2.2⟩,
    fun h => ⟨h.disciplined, h.wholeLabel, h.neverWraps⟩⟩

/-- Packages are on their way as they should be, and every message shows bytes
of its allocation only. -/
structure Sane (peerIDs : ι → PeerID) (network : Network ι) : Prop where
  carries : ∃ waiting, Carries peerIDs waiting network
  allocated : ∀ address, Peer.InAllocation (network.heap address)

variable {peerIDs : ι → PeerID} {waiting : List (Parcel ι)}
  {network : Network ι}

theorem allocated_act {peer : ι} {single : Peer.Act ι} {final : World ι}
    (hcarries : Carries peerIDs waiting network)
    (hallocated : ∀ address, Peer.InAllocation (network.heap address))
    (hnever : single.StaysAllocated (network.world peer))
    (hfinal : (Peer.act single (network.world peer)).state? = some final)
    (address : Addr ι) : Peer.InAllocation (final.heap address) := by
  have hstart : Peer.InOrder peer (network.world peer) :=
    ⟨hcarries.shape peer, hcarries.self peer, hallocated, by simp [world]⟩
  exact (Outcome.holds_iff_state?.mp (Peer.act_inOrder single hstart hnever)
    final hfinal).messages address

theorem Sane.step (hdistinct : Function.Injective peerIDs)
    (h : Sane peerIDs network) {single : Step ι}
    (hproper : single.Proper network) :
    (Network.step single network).Holds (Sane peerIDs) := by
  obtain ⟨⟨waiting, hcarries⟩, hallocated⟩ := h
  apply Outcome.holds_iff_state?.mpr
  intro next hnext
  constructor
  · obtain ⟨later, moved, hadvances⟩ := @advances_step _ _ _ _ _ _ Parcel.content
      (fun _ content => content) hdistinct hcarries _ _
      hproper.disciplined.lossless (fun _ _ => rfl) hnext
    exact ⟨later, hadvances.carries⟩
  · cases single with
    | deliver index peer portID =>
        have hheap : next.heap = network.heap := heap_deliver hnext
        rw [hheap]
        exact hallocated
    | act peer single =>
        rw [Network.step, Outcome.state?_map] at hnext
        obtain ⟨final, hfinal, rfl⟩ := Option.map_eq_some_iff.mp hnext
        exact allocated_act hcarries hallocated hproper.neverWraps hfinal

/-! ## Packages as they are read -/

theorem whole_launched {peer : ι} {single : Peer.Act ι} {final : World ι}
    (hcarries : Carries peerIDs waiting network)
    (hallocated : ∀ address, Peer.InAllocation (network.heap address))
    (hnever : single.StaysAllocated (network.world peer))
    (hfinal : (Peer.act single (network.world peer)).state? = some final)
    {parcel : Parcel ι}
    (hparcel : parcel ∈ launches (.act peer single) network) :
    ∀ frame ∈ parcel.content, frame.Whole final.heap := by
  have hstart : Peer.InOrder peer (network.world peer) :=
    ⟨hcarries.shape peer, hcarries.self peer, hallocated, by simp [world]⟩
  have horder := Outcome.holds_iff_state?.mp
    (Peer.act_inOrder single hstart hnever) final hfinal
  obtain ⟨label, package, result, heap, frames, -, rfl, hspec, -, hrecord⟩ :=
    send_of_launches (hcarries.shape peer) hfinal hparcel
  intro frame hframe
  rw [Parcel.content, hrecord] at hframe
  obtain ⟨sent, hsent, rfl⟩ := List.mem_map.mp hframe
  have hevent : Event.sent ⟨label.getPortID .src, Peer.destPortName label,
      Peer.written label (network.world peer), frames⟩ ∈ result.2.trace := by
    rw [hspec.trace]
    exact List.mem_append_right _ (List.mem_singleton_self _)
  have hbacked : Peer.Backed peer result.2.heap sent.data :=
    horder.trace _ hevent sent (List.mem_of_mem_tail hsent)
  exact hbacked.whole

theorem parsePackage_launched {peer : ι} {single : Peer.Act ι} {final : World ι}
    (hshape : (network.world peer).LabelShape)
    (hwholeLabel : (Step.act peer single).WholeLabel network)
    (hfinal : (Peer.act single (network.world peer)).state? = some final)
    {parcel : Parcel ι}
    (hparcel : parcel ∈ launches (.act peer single) network) :
    parsePackage parcel.sentBytes = parcel.package := by
  obtain ⟨label, package, result, heap, frames, rfl, rfl, hspec, hreaches,
    hrecord⟩ := send_of_launches hshape hfinal hparcel
  obtain ⟨-, address, hsent⟩ := hspec.reached hreaches
  have hencode : (Peer.written label (network.world peer)).encode.length =
      contentsSizeof := length_encode _
  have hlabel : (heap (.label (network.world peer).peer.self)).frameBytes =
      (Peer.written label (network.world peer)).encode := by
    rw [Message.frameBytes, hspec.labelled.bytes, hspec.labelled.contentsSize,
      hwholeLabel hreaches, ← hencode, List.take_length]
  rw [Parcel.package, Parcel.sentBytes, hrecord, hsent, List.tail_cons,
    List.map_cons, World.tempPackage, handOver, List.map_cons, hlabel,
    parsePackage, if_pos hencode, decode_encode]
  rfl

theorem preserves_package : Preserves peerIDs
    (fun single network => single.Proper network ∧ Sane peerIDs network)
    Parcel.package
    (readPackage : Heap (Addr ι) → List (FrameData (Addr ι)) → _) := by
  rintro single network next waiting h ⟨hproper, hsane⟩ hintact hnext parcel
    hparcel
  rcases hparcel with hold | hnew
  · rw [readPackage_congr (readBytes_step h hproper.disciplined hnext hold)]
    exact hintact parcel hold
  · cases single with
    | deliver index peer portID => contradiction
    | act peer single =>
        rw [step, Outcome.state?_map] at hnext
        obtain ⟨final, hfinal, rfl⟩ := Option.map_eq_some_iff.mp hnext
        have hwhole := whole_launched h hsane.allocated hproper.neverWraps
          hfinal hnew
        have hbytes := readBytes_launched (h.shape peer) hfinal hnew
        have hparse := parsePackage_launched (h.shape peer) hproper.wholeLabel
          hfinal hnew
        exact (if_pos hwhole).trans ((congrArg parsePackage hbytes).trans hparse)

theorem run_packages {steps : List (Step ι)} {initial final : Network ι}
    (hinitial : initial.Initial)
    (hallocated : ∀ address, Peer.InAllocation (initial.heap address))
    (hmeets : Outcome.RunMeets step Step.Proper steps initial)
    (hrun : Outcome.run step steps initial = some final) :
    ∃ later moved, Moved (fun peer => (initial.peers peer).peerID)
      Parcel.package readPackage steps initial final [] later moved := by
  have hstart : Sane (fun peer => (initial.peers peer).peerID) initial :=
    ⟨⟨[], hinitial.carries⟩, hallocated⟩
  have hsane := Outcome.runMeets_and_invariant
    (fun _ _ h hproper => h.step hinitial.distinct hproper) hstart hmeets
  exact run_moved hinitial.distinct
    (fun _ _ hcondition => hcondition.1.disciplined.lossless) preserves_package
    hinitial.carries (by simp [hinitial.inFlight]) hsane hrun

/-- Where packages have at most seven messages, queues and names of ports are
kept, label frames are whole, no size wraps and messages on loan are left alone,
the channels carry packages: the labels and the bodies that are read from a
channel are those that were sent on it, in order, and every label names the two
ports that the channel connects. -/
theorem channels_carry_packages {steps : List (Step ι)}
    {initial final : Network ι} (hinitial : initial.Initial)
    (hallocated : ∀ address, Peer.InAllocation (initial.heap address))
    (hmeets : Outcome.RunMeets step Step.Proper steps initial)
    (hrun : Outcome.run step steps initial = some final) :
    (∃ waiting, Fifo (fun peer => (initial.peers peer).peerID) Parcel.package
      (Outcome.collect step (moves Parcel.package readPackage) steps initial)
      final waiting) ∧
    ∀ move ∈ Outcome.collect step (moves Parcel.package readPackage) steps
        initial,
      ∃ label bodies, move.item = some (label, bodies) ∧
        move.key.Connects label := by
  obtain ⟨later, moved, hmoved⟩ :=
    run_packages hinitial hallocated hmeets hrun
  refine ⟨⟨later, hmoved.fifo hinitial⟩, ?_⟩
  intro move hmove
  rw [hmoved.observed] at hmove
  obtain ⟨found, hfound, rfl⟩ := List.mem_map.mp hmove
  obtain ⟨hkey, hsound⟩ := hmoved.keyed found hfound
  refine ⟨found.item.record.written, found.item.sentBytes.drop 2, ?_, ?_⟩
  · cases found <;> rfl
  · have hsame : (found.map Parcel.package).key = found.key := by
      cases found <;> rfl
    rw [hsame, hkey]
    exact ⟨hsound.source, hsound.address⟩

end Network

theorem inAllocation_twoNetwork (address : Addr Bool) :
    Peer.InAllocation (twoNetwork.heap address) := by
  cases address with
  | label peer =>
      exact show Peer.InAllocation (twoNetwork.heap (.label true)) from
        ⟨by decide, by decide⟩
  | message index =>
      exact show Peer.InAllocation (twoNetwork.heap (.message 0)) from
        ⟨by decide, by decide⟩

theorem channels_carry_packages_oneWay :
    ∃ final,
      (∃ waiting, Network.Fifo (fun peer => (twoNetwork.peers peer).peerID)
        Parcel.package (Outcome.collect Network.step
          (Network.moves Parcel.package Network.readPackage) oneWay twoNetwork)
        final waiting) ∧
      ∀ move ∈ Outcome.collect Network.step
          (Network.moves Parcel.package Network.readPackage) oneWay twoNetwork,
        ∃ label bodies, move.item = some (label, bodies) ∧
          move.key.Connects label := by
  obtain ⟨final, hrun⟩ := exists_run_oneWay
  exact ⟨final, Network.channels_carry_packages initial_twoNetwork
    inAllocation_twoNetwork (by decide +kernel) hrun⟩

end Dpn
