import Dpn.ByValue
import Dpn.Packages

/-!
# Peers on their own

As long as no peer names a message of another one and messages on loan are left
alone, the peers of a process share nothing but the packages they send.  What
one of them does it does on its own as well, with the same packages by value,
whatever the others do in between.
-/

namespace Dpn

variable {ι : Type*} [DecidableEq ι]

/-! ## Owners -/

/-- The peer that a message belongs to. -/
def Addr.owner (owner : ℕ → ι) : Addr ι → ι
  | .label peer => peer
  | .message index => owner index

def ownedBy (owner : ℕ → ι) (peer : ι) : Set (Addr ι) :=
  {address | address.owner owner = peer}

instance (owner : ℕ → ι) (peer : ι) : DecidablePred (· ∈ ownedBy owner peer) :=
  fun address => inferInstanceAs (Decidable (address.owner owner = peer))

omit [DecidableEq ι] in
theorem ownedBy_subset_compl {owner : ℕ → ι} {peer other : ι}
    (hne : other ≠ peer) : ownedBy owner peer ⊆ (ownedBy owner other)ᶜ := by
  intro address hpeer hother
  exact hne (Eq.trans (Eq.symm hother) hpeer)

namespace Peer

/-- An act of a peer on its own; only what happens in it is noted down. -/
def actAlone (single : Act ι) (world : World ι) : Outcome Exn (World ι) :=
  act single { world with trace := [] }

/-- How an act ends, and what happens in it. -/
def happensAlone (single : Act ι) (world : World ι) :
    List (Outcome Exn (List (Event ι))) :=
  [(actAlone single world).map World.trace]

end Peer

namespace Network

/-- The package that ZMQ queues in a step, if it can. -/
def queued (index : ℕ) (peer : ι) (portID : PortID) (network : Network ι) :
    Option (Parcel ι) :=
  match network.inFlight[index]?, (network.peers peer).hub.findPort portID with
  | some parcel, some port =>
      if port.closed = false ∧
          parcel.address = portNameToSocketID port.portName port.transport ∧
          ∀ other ∈ network.inFlight.take index,
            other.channel ≠ parcel.channel then
        some parcel
      else none
  | _, _ => none

/-- What a step is for one peer: an act of its own, or the arrival of a
package. -/
def ownActs (peer : ι) : Step ι → Network ι → List (Peer.Act ι)
  | .act other single, _ => if other = peer then [single] else []
  | .deliver index other portID, network =>
      if other = peer then
        match network.queued index peer portID with
        | none => []
        | some parcel => [.arrive portID parcel.wire]
      else []

/-- The same with the packages by value. -/
def actsAlone (owner : ℕ → ι) (peer : ι) (single : Step ι)
    (network : Network ι) : List (Peer.Act ι) :=
  (ownActs peer single network).map
    (Peer.Act.byValue (ownedBy owner peer) network.heap)

/-- How the acts of the peer in the network end, and what happens in them. -/
def happens (peer : ι) (single : Step ι) (network : Network ι) :
    List (Outcome Exn (List (Event ι))) :=
  (ownActs peer single network).map fun own =>
    (Peer.act own (network.world peer)).map World.trace

/-- A peer names its own messages only. -/
def Step.Own (owner : ℕ → ι) : Step ι → Prop
  | .act peer single => single.Names (ownedBy owner peer)
  | .deliver _ _ _ => True

variable {peerIDs : ι → PeerID} {waiting : List (Parcel ι)}
  {network : Network ι} {owner : ℕ → ι}

theorem step_deliver (index : ℕ) (peer : ι) (portID : PortID) :
    step (.deliver index peer portID) network =
      match network.queued index peer portID with
      | none => .ok network
      | some parcel => .ok { network with
          peers := Function.update network.peers peer
            ((network.world peer).arrive portID parcel.wire).peer
          inFlight := network.inFlight.eraseIdx index } := by
  rw [step, queued]
  cases network.inFlight[index]? with
  | none => rfl
  | some parcel =>
      cases (network.peers peer).hub.findPort portID with
      | none => rfl
      | some port =>
          dsimp only
          split <;> rfl

/-- An act of the peer, or an arrival, changes the world of the peer as it
would have changed it anyway. -/
theorem world_of_ownActs {peer : ι} {single : Step ι} {next : Network ι}
    {own : Peer.Act ι} (hown : ownActs peer single network = [own])
    (hnext : (step single network).state? = some next) :
    ∃ final, (Peer.act own (network.world peer)).state? = some final ∧
      next.world peer = { final with trace := [] } := by
  cases single with
  | act other single =>
      rw [ownActs] at hown
      split at hown
      · rename_i heq
        subst heq
        obtain rfl := List.singleton_inj.mp hown
        rw [step, Outcome.state?_map] at hnext
        obtain ⟨final, hfinal, rfl⟩ := Option.map_eq_some_iff.mp hnext
        refine ⟨final, hfinal, ?_⟩
        rw [world, after]
        dsimp only
        rw [Function.update_self]
      · contradiction
  | deliver index other portID =>
      rw [step_deliver] at hnext
      rw [ownActs] at hown
      split at hown
      · rename_i heq
        subst heq
        split at hown
        · contradiction
        · rename_i parcel hqueued
          obtain rfl := List.singleton_inj.mp hown
          rw [hqueued] at hnext
          obtain rfl := Option.some.inj hnext
          refine ⟨_, rfl, ?_⟩
          rw [world]
          dsimp only
          rw [Function.update_self]
          rfl
      · contradiction

theorem ownActs_cases {single : Step ι} (hown : single.Own owner) (peer : ι) :
    ownActs peer single network = [] ∨
      ∃ own, ownActs peer single network = [own] ∧
        own.Names (ownedBy owner peer) := by
  cases single with
  | act other single =>
      rw [ownActs]
      by_cases heq : other = peer
      · subst heq
        exact Or.inr ⟨single, if_pos rfl, hown⟩
      · exact Or.inl (if_neg heq)
  | deliver index other portID =>
      rw [ownActs]
      by_cases heq : other = peer
      · rw [if_pos heq]
        cases network.queued index peer portID with
        | none => exact Or.inl rfl
        | some parcel => exact Or.inr ⟨_, rfl, trivial⟩
      · exact Or.inl (if_neg heq)

/-! ## What is queued -/

omit [DecidableEq ι] in
theorem Carries.data_of_incoming (h : Carries peerIDs waiting network)
    {peer : ι} {portID : PortID} {port : Port (Addr ι)}
    (hport : (network.peers peer).hub.findPort portID = some port)
    {frame : WireFrame (Addr ι)} (hframe : frame ∈ port.incoming) :
    ∃ parcel ∈ waiting, frame.data ∈ .owned parcel.source :: parcel.content := by
  have hqueued := h.queued peer portID
  rw [Hub.incomingAt, hport] at hqueued
  dsimp only at hqueued
  rw [hqueued, List.mem_flatMap] at hframe
  obtain ⟨parcel, hparcel, hwire⟩ := hframe
  have hmem := List.mem_of_mem_filter hparcel
  have hsound := h.sound parcel (List.mem_append_left _ hmem)
  rw [hsound.wire] at hwire
  have hdata := List.mem_map_of_mem (f := WireFrame.data) hwire
  rw [map_data_toWire] at hdata
  exact ⟨parcel, hmem, hdata⟩

omit [DecidableEq ι] in
theorem whole_of_readPackage {heap : Heap (Addr ι)}
    {content : List (FrameData (Addr ι))}
    {package : Contents × List (List UInt8)}
    (hread : readPackage heap content = some package) :
    ∀ frame ∈ content, frame.Whole heap := by
  rw [readPackage] at hread
  split at hread
  · assumption
  · contradiction

/-- Packages are on their way as they should be, and read as they were sent. -/
structure Faithful (peerIDs : ι → PeerID) (network : Network ι) : Prop where
  sane : Sane peerIDs network
  intact : ∃ waiting, Carries peerIDs waiting network ∧
    ∀ parcel ∈ waiting ++ network.inFlight,
      readPackage network.heap parcel.content = parcel.package

theorem Initial.faithful (h : network.Initial)
    (hallocated : ∀ address, Peer.InAllocation (network.heap address)) :
    Faithful (fun peer => (network.peers peer).peerID) network :=
  ⟨⟨⟨[], h.carries⟩, hallocated⟩, [], h.carries, by simp [h.inFlight]⟩

theorem Faithful.step (hdistinct : Function.Injective peerIDs)
    (h : Faithful peerIDs network) {single : Step ι}
    (hproper : single.Proper network) :
    (Network.step single network).Holds (Faithful peerIDs) := by
  obtain ⟨hsane, waiting, hcarries, hintact⟩ := h
  apply Outcome.holds_iff_state?.mpr
  intro next hnext
  obtain ⟨later, moved, hadvances⟩ := advances_step hdistinct hcarries
    hproper.disciplined.lossless
    (fun parcel hparcel => hintact parcel (List.mem_append_left _ hparcel))
    hnext
  refine ⟨Outcome.holds_iff_state?.mp (hsane.step hdistinct hproper) next hnext,
    later, hadvances.carries, ?_⟩
  intro parcel hparcel
  exact preserves_package single network next waiting hcarries
    ⟨hproper, hsane⟩ hintact hnext parcel (hadvances.kept parcel hparcel)

omit [DecidableEq ι] in
theorem Faithful.queuesSized (h : Faithful peerIDs network) (peer : ι)
    (known : Set (Addr ι)) [DecidablePred (· ∈ known)] :
    Peer.QueuesSized known (network.world peer) := by
  obtain ⟨-, waiting, hcarries, hintact⟩ := h
  intro portID port hport frame hframe
  obtain ⟨parcel, hparcel, hdata⟩ := hcarries.data_of_incoming hport hframe
  apply FrameData.sized_of_whole
  rcases List.mem_cons.mp hdata with hsource | hcontent
  · rw [hsource]
    rfl
  · exact whole_of_readPackage
      (hintact parcel (List.mem_append_left _ hparcel)) _ hcontent

/-- What a port of another peer is to receive does not change its bytes. -/
theorem Faithful.bytes_step (h : Faithful peerIDs network) {single : Step ι}
    {next : Network ι} (hproper : single.Proper network)
    (hnext : (Network.step single network).state? = some next) {peer : ι}
    {portID : PortID} {port : Port (Addr ι)}
    (hport : (network.peers peer).hub.findPort portID = some port)
    {frame : WireFrame (Addr ι)} (hframe : frame ∈ port.incoming) :
    frame.data.bytes next.heap = frame.data.bytes network.heap := by
  obtain ⟨-, waiting, hcarries, -⟩ := h
  obtain ⟨parcel, hparcel, hdata⟩ := hcarries.data_of_incoming hport hframe
  rcases List.mem_cons.mp hdata with hsource | hcontent
  · rw [hsource]
    rfl
  · have hbytes := readBytes_step hcarries hproper.disciplined hnext
      (List.mem_append_left _ hparcel)
    exact List.map_inj_left.mp hbytes frame.data hcontent

/-! ## What the others do -/

theorem heap_of_act (h : Faithful peerIDs network) {peer : ι}
    {single : Peer.Act ι} (hnames : single.Names (ownedBy owner peer))
    {final : World ι}
    (hfinal : (Peer.act single (network.world peer)).state? = some final) :
    Set.EqOn network.heap final.heap (ownedBy owner peer)ᶜ := by
  obtain ⟨waiting, hcarries⟩ := h.sane.carries
  have hlabel : .label (network.world peer).peer.self ∈ ownedBy owner peer :=
    hcarries.self peer
  have hself : (network.world peer).ByValue (ownedBy owner peer)
      ⟨network.heap, { network.peers peer with
        hub := (network.peers peer).hub.byValue (ownedBy owner peer)
          network.heap }, []⟩ := ⟨fun _ _ => rfl, rfl, rfl⟩
  obtain ⟨later, -, hafter⟩ := (Peer.act_byValue hself hlabel hnames
    (h.queuesSized peer _)).exists_state? hfinal
  exact hafter.off

/-- What another peer does, or is sent, leaves the peer, its messages and what it
is to receive alone. -/
theorem byValue_of_others (h : Faithful peerIDs network) {single : Step ι}
    (hproper : single.Proper network) (hown : single.Own owner)
    {next : Network ι}
    (hnext : (Network.step single network).state? = some next) {peer : ι}
    (hothers : ownActs peer single network = []) {alone : World ι}
    (hbyValue : (network.world peer).ByValue (ownedBy owner peer) alone) :
    (next.world peer).ByValue (ownedBy owner peer) alone := by
  have hkept : next.peers peer = network.peers peer ∧
      Set.EqOn network.heap next.heap (ownedBy owner peer) := by
    cases single with
    | act other single =>
        rw [ownActs] at hothers
        split at hothers
        · contradiction
        · rename_i hne
          rw [Network.step, Outcome.state?_map] at hnext
          obtain ⟨final, hfinal, rfl⟩ := Option.map_eq_some_iff.mp hnext
          exact ⟨Function.update_of_ne (Ne.symm hne) _ _,
            (heap_of_act h hown hfinal).mono (ownedBy_subset_compl hne)⟩
    | deliver index other portID =>
        have hheap : next.heap = network.heap := heap_deliver hnext
        refine ⟨?_, fun _ _ => by rw [hheap]⟩
        rw [step_deliver] at hnext
        rw [ownActs] at hothers
        by_cases heq : other = peer
        · subst heq
          rw [if_pos rfl] at hothers
          cases hqueued : network.queued index other portID with
          | none =>
              rw [hqueued] at hnext
              obtain rfl := Option.some.inj hnext
              rfl
          | some parcel =>
              rw [hqueued] at hothers
              contradiction
        · cases hqueued : network.queued index other portID with
          | none =>
              rw [hqueued] at hnext
              obtain rfl := Option.some.inj hnext
              rfl
          | some parcel =>
              rw [hqueued] at hnext
              obtain rfl := Option.some.inj hnext
              exact Function.update_of_ne (Ne.symm heq) _ _
  obtain ⟨hpeer, hheap⟩ := hkept
  have hhub : (network.peers peer).hub.byValue (ownedBy owner peer) next.heap =
      (network.peers peer).hub.byValue (ownedBy owner peer) network.heap :=
    Hub.byValue_of_bytes_eq fun portID port hport frame hframe =>
      h.bytes_step hproper hnext hport hframe
  refine ⟨hheap.symm.trans hbyValue.heap, ?_, hbyValue.trace⟩
  rw [hbyValue.peer, world, world, hpeer, hhub]

/-! ## Runs -/

/-- A step of the network is, for one peer, a step of its own or none. -/
theorem alone_step (h : Faithful peerIDs network) {single : Step ι}
    (hproper : single.Proper network) (hown : single.Own owner)
    {next : Network ι}
    (hnext : (Network.step single network).state? = some next) {peer : ι}
    {alone : World ι}
    (hbyValue : (network.world peer).ByValue (ownedBy owner peer)
      { alone with trace := [] }) :
    ∃ later, Outcome.run Peer.actAlone (actsAlone owner peer single network)
        alone = some later ∧
      (next.world peer).ByValue (ownedBy owner peer)
        { later with trace := [] } ∧
      Outcome.collect Peer.actAlone Peer.happensAlone
        (actsAlone owner peer single network) alone =
          happens peer single network := by
  obtain ⟨waiting, hcarries⟩ := h.sane.carries
  have hlabel : .label (network.world peer).peer.self ∈ ownedBy owner peer :=
    hcarries.self peer
  rcases ownActs_cases hown peer with hnone | ⟨own, hsome, hnames⟩
  · rw [actsAlone, happens, hnone]
    exact ⟨alone, rfl, byValue_of_others h hproper hown hnext hnone hbyValue,
      rfl⟩
  · obtain ⟨final, hfinal, hworld⟩ := world_of_ownActs hsome hnext
    have hrelated := Peer.act_byValue hbyValue hlabel hnames
      (h.queuesSized peer _)
    obtain ⟨later, hlater, hafter⟩ := hrelated.exists_state? hfinal
    have hevents := hrelated.map_eq fun _ _ hstate => hstate.worlds.trace.symm
    rw [actsAlone, happens, hsome]
    refine ⟨later, ?_, ?_, ?_⟩
    · rw [List.map_singleton, Outcome.run_cons]
      exact Option.bind_eq_some_iff.mpr ⟨later, hlater, rfl⟩
    · rw [hworld]
      exact ⟨hafter.worlds.heap, hafter.worlds.peer, rfl⟩
    · have hstate : (Peer.actAlone
          (own.byValue (ownedBy owner peer) network.heap) alone).state? =
            some later := hlater
      rw [List.map_singleton, List.map_singleton, Outcome.collect, hstate]
      exact (List.append_nil _).trans (congrArg (fun ending => [ending]) hevents.symm)

/-- The condition of the runs: packages have at most seven messages, whoever
manages ports keeps their queues and names, nobody writes to what is on loan, no
size wraps, labels are sent whole, and every peer names its own messages only. -/
structure Step.Separate (owner : ℕ → ι) (single : Step ι)
    (network : Network ι) : Prop where
  proper : single.Proper network
  own : single.Own owner

theorem Initial.byValue (h : network.Initial) (peer : ι)
    (known : Set (Addr ι)) [DecidablePred (· ∈ known)] :
    (network.world peer).ByValue known (network.world peer) := by
  obtain ⟨self, peerID, recvMessage, labelMemory, recvMemory, heap, -,
    hworld⟩ := h.peers peer
  rw [hworld]
  exact ⟨fun _ _ => rfl, rfl, rfl⟩

/-- As long as every step is `Separate`, what a peer does in a network it does on
its own, if the packages are delivered to it by value: its acts end in the same
way, the same happens in them, and its messages and its ports become the same,
whatever the other peers do in between. -/
theorem peers_alone {steps : List (Step ι)} {initial final : Network ι}
    (hinitial : initial.Initial)
    (hallocated : ∀ address, Peer.InAllocation (initial.heap address))
    (hmeets : Outcome.RunMeets step (Step.Separate owner) steps initial)
    (hrun : Outcome.run step steps initial = some final) (peer : ι) :
    ∃ alone, Outcome.run Peer.actAlone
        (Outcome.collect step (actsAlone owner peer) steps initial)
        (initial.world peer) = some alone ∧
      (final.world peer).ByValue (ownedBy owner peer)
        { alone with trace := [] } ∧
      Outcome.collect Peer.actAlone Peer.happensAlone
          (Outcome.collect step (actsAlone owner peer) steps initial)
          (initial.world peer) =
        Outcome.collect step (happens peer) steps initial := by
  have hfaithful := Outcome.runMeets_and_invariant
    (fun _ _ h hseparate => h.step hinitial.distinct hseparate.proper)
    (hinitial.faithful hallocated) hmeets
  exact Outcome.run_part
    (fun _ _ _ _ hcondition hbyValue hnext => alone_step hcondition.2
      hcondition.1.proper hcondition.1.own hnext hbyValue)
    (hinitial.byValue peer _) hfaithful hrun

/-- In two runs of `Separate` steps in which every peer makes the same calls and
is delivered the same packages in the same order, the same happens to every peer
and all messages become the same, however the peers take turns. -/
theorem interleavings_agree {steps others : List (Step ι)}
    {initial final last : Network ι} (hinitial : initial.Initial)
    (hallocated : ∀ address, Peer.InAllocation (initial.heap address))
    (hmeets : Outcome.RunMeets step (Step.Separate owner) steps initial)
    (hrun : Outcome.run step steps initial = some final)
    (hothers : Outcome.RunMeets step (Step.Separate owner) others initial)
    (hlast : Outcome.run step others initial = some last)
    (hsame : ∀ peer, Outcome.collect step (actsAlone owner peer) others initial =
      Outcome.collect step (actsAlone owner peer) steps initial) :
    last.heap = final.heap ∧
      ∀ peer, Outcome.collect step (happens peer) others initial =
        Outcome.collect step (happens peer) steps initial := by
  have hboth : ∀ peer, Set.EqOn last.heap final.heap (ownedBy owner peer) ∧
      Outcome.collect step (happens peer) others initial =
        Outcome.collect step (happens peer) steps initial := by
    intro peer
    obtain ⟨alone, halone, hbyValue, hhappens⟩ :=
      peers_alone hinitial hallocated hmeets hrun peer
    obtain ⟨later, hlater, hlaterByValue, hlaterHappens⟩ :=
      peers_alone hinitial hallocated hothers hlast peer
    rw [hsame peer] at hlater hlaterHappens
    obtain rfl := Option.some.inj (halone.symm.trans hlater)
    exact ⟨hlaterByValue.heap.trans hbyValue.heap.symm,
      hlaterHappens.symm.trans hhappens⟩
  refine ⟨?_, fun peer => (hboth peer).2⟩
  funext address
  exact (hboth (address.owner owner)).1 rfl

end Network

instance (known : Set (Addr ι)) [DecidablePred (· ∈ known)]
    (single : Peer.Act ι) : Decidable (single.Names known) :=
  match single with
  | .send _ package => List.decidableBAll (fun message =>
      Addr.message message ∈ known) package
  | .poll _ package => List.decidableBAll (fun message =>
      Addr.message message ∈ known) package
  | .resize message _ _ | .reset message | .write message _ _ =>
      inferInstanceAs (Decidable (Addr.message message ∈ known))
  | .remote peer _ => inferInstanceAs (Decidable (Addr.label peer ∈ known))
  | .receipts _ _ | .subscribe _ | .called _ _ _ | .changePackage _
  | .arrive _ _ | .managePorts _ => .isTrue trivial

instance [Fintype ι] (owner : ℕ → ι) (single : Network.Step ι)
    (network : Network ι) : Decidable (single.Separate owner network) :=
  have : Decidable (single.Own owner) :=
    match single with
    | .act _ single => inferInstanceAs (Decidable (single.Names _))
    | .deliver _ _ _ => .isTrue trivial
  decidable_of_iff (_ ∧ _) ⟨fun h => ⟨h.1, h.2⟩, fun h => ⟨h.proper, h.own⟩⟩

/-- The receive buffer belongs to the second peer. -/
def bufferOwner (message : ℕ) : Bool :=
  message == 0

theorem separate_oneWay :
    Outcome.RunMeets Network.step (Network.Step.Separate bufferOwner) oneWay
      twoNetwork := by
  decide +kernel

theorem peers_alone_oneWay :
    ∃ final alone, Outcome.run Peer.actAlone
        (Outcome.collect Network.step (Network.actsAlone bufferOwner true) oneWay
          twoNetwork) (twoNetwork.world true) = some alone ∧
      (Network.world final true).ByValue (ownedBy bufferOwner true)
        { alone with trace := [] } ∧
      Outcome.collect Peer.actAlone Peer.happensAlone
          (Outcome.collect Network.step (Network.actsAlone bufferOwner true)
            oneWay twoNetwork) (twoNetwork.world true) =
        Outcome.collect Network.step (Network.happens true) oneWay
          twoNetwork := by
  obtain ⟨final, hrun⟩ := exists_run_oneWay
  exact ⟨final, Network.peers_alone initial_twoNetwork inAllocation_twoNetwork
    separate_oneWay hrun true⟩

/-- The two peers get their ports in the other order. -/
def portsTurned : List (Network.Step Bool) :=
  [.act true (.managePorts (onePortHub 2 [1] [])),
    .act false (.managePorts (onePortHub 1 [2] []))]

theorem run_portsTurned :
    ∃ middle, Outcome.run Network.step portsTurned twoNetwork = some middle ∧
      Outcome.run Network.step (oneWay.take 2) twoNetwork = some middle := by
  refine ⟨_, rfl, ?_⟩
  apply congrArg some
  have hpeers : Function.update (Function.update twoNetwork.peers false
      { twoNetwork.peers false with hub := onePortHub 1 [2] [] }) true
        { twoNetwork.peers true with hub := onePortHub 2 [1] [] } =
      Function.update (Function.update twoNetwork.peers true
        { twoNetwork.peers true with hub := onePortHub 2 [1] [] }) false
          { twoNetwork.peers false with hub := onePortHub 1 [2] [] } :=
    Function.update_comm (by decide) _ _ _
  exact congrArg (fun peers => Network.mk twoNetwork.heap peers []) hpeers

theorem interleavings_agree_oneWay :
    let turned := portsTurned ++ oneWay.drop 2
    ∃ final last,
      Outcome.run Network.step oneWay twoNetwork = some final ∧
      Outcome.run Network.step turned twoNetwork = some last ∧
      last.heap = final.heap ∧
      ∀ peer, Outcome.collect Network.step (Network.happens peer) turned
          twoNetwork =
        Outcome.collect Network.step (Network.happens peer) oneWay
          twoNetwork := by
  obtain ⟨final, hrun⟩ := exists_run_oneWay
  obtain ⟨middle, hturned, htaken⟩ := run_portsTurned
  have hsplit : oneWay = oneWay.take 2 ++ oneWay.drop 2 :=
    (List.take_append_drop 2 oneWay).symm
  have hlast : Outcome.run Network.step (portsTurned ++ oneWay.drop 2)
      twoNetwork = some final := by
    rw [Outcome.run_append, hturned, ← htaken, ← Outcome.run_append, ← hsplit]
    exact hrun
  refine ⟨final, final, hrun, hlast, Network.interleavings_agree
    initial_twoNetwork inAllocation_twoNetwork separate_oneWay hrun
    (by decide +kernel) hlast ?_⟩
  intro peer
  conv_rhs => rw [hsplit]
  rw [Outcome.collect_append hturned, Outcome.collect_append htaken]
  cases peer <;> rfl

end Dpn
