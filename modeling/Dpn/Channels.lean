import Dpn.Network

/-!
# Ports connected by channels

Every step of a network moves packages along their channels or leaves them
where they are.  Whatever peers do in whatever order, a run is therefore a run
of first-in first-out channels, one between every two ports.
-/

namespace Dpn

variable {ι : Type*}

namespace Network

variable {peerIDs : ι → PeerID} {waiting : List (Parcel ι)}
  {network : Network ι}

/-! ## One step -/

variable [DecidableEq ι]

theorem Carries.after (h : Carries peerIDs waiting network) {peer : ι}
    {final : World ι} {next : List (Parcel ι)}
    (hkeeps : Peer.Keeps (network.world peer) final)
    (hnamed : ∀ portID port, final.peer.hub.findPort portID = some port →
      port.Named (peerIDs peer) portID)
    (hown : ∀ portID, final.peer.hub.incomingAt portID =
      (FifoQueues.byKey Parcel.address next
        (peerSocketID (peerIDs peer) portID)).flatMap Parcel.wire)
    (hothers : ∀ other, other ≠ peer → ∀ portID,
      FifoQueues.byKey Parcel.address next
          (peerSocketID (peerIDs other) portID) =
        FifoQueues.byKey Parcel.address waiting
          (peerSocketID (peerIDs other) portID))
    (hheld : ∀ parcel ∈ next, ∃ peer portID,
      parcel.address = peerSocketID (peerIDs peer) portID)
    (hsound : ∀ parcel ∈ next ++ (network.after peer final).inFlight,
      parcel.Sound peerIDs) :
    Carries peerIDs next (network.after peer final) := by
  have hpeer : (network.after peer final).peers peer = final.peer :=
    Function.update_self ..
  have hrest : ∀ other, other ≠ peer →
      (network.after peer final).peers other = network.peers other :=
    fun other hother => Function.update_of_ne hother ..
  have hself : final.peer.self = peer := hkeeps.self.trans (h.self peer)
  constructor
  · intro other
    by_cases hother : other = peer
    · rw [hother, hpeer, hself]
    · rw [hrest other hother, h.self]
  · intro other
    by_cases hother : other = peer
    · rw [hother, hpeer]
      exact hkeeps.peerID.trans (h.peerID peer)
    · rw [hrest other hother, h.peerID]
  · intro other
    by_cases hother : other = peer
    · subst other
      have hmessage : ((network.after peer final).world peer).labelMessage =
          final.labelMessage := by
        rw [World.labelMessage, world, hpeer]
        rfl
      exact Peer.labelShape_of_eq hkeeps.shape hmessage
    · have hkept := hkeeps.others other (by rw [world, h.self]; exact hother)
      have hmessage : ((network.after peer final).world other).labelMessage =
          (network.world other).labelMessage := by
        rw [World.labelMessage, world, hrest other hother, World.labelMessage,
          world]
        dsimp only
        rw [h.self]
        exact hkept
      exact Peer.labelShape_of_eq (h.shape other) hmessage
  · intro other portID port hport
    by_cases hother : other = peer
    · subst other
      rw [hpeer] at hport
      exact hnamed portID port hport
    · rw [hrest other hother] at hport
      exact h.named other portID port hport
  · intro other portID
    by_cases hother : other = peer
    · subst other
      rw [hpeer]
      exact hown portID
    · rw [hrest other hother, h.queued, hothers other hother]
  · exact hheld
  · exact hsound

theorem Carries.after_same (h : Carries peerIDs waiting network) {peer : ι}
    {final : World ι} (hkeeps : Peer.Keeps (network.world peer) final)
    (hnamed : ∀ portID port, final.peer.hub.findPort portID = some port →
      port.Named (peerIDs peer) portID)
    (hincoming : ∀ portID, final.peer.hub.incomingAt portID =
      (network.peers peer).hub.incomingAt portID)
    (hsound : ∀ parcel ∈ launched peer (network.peers peer).hub final.trace,
      parcel.Sound peerIDs) :
    Carries peerIDs waiting (network.after peer final) := by
  refine h.after hkeeps hnamed ?_ (fun _ _ _ => rfl) h.held ?_
  · intro portID
    rw [hincoming, h.queued]
  · intro parcel hparcel
    rcases List.mem_append.mp hparcel with hwaiting | hflight
    · exact h.sound parcel (List.mem_append_left _ hwaiting)
    · rcases List.mem_append.mp hflight with hold | hnew
      · exact h.sound parcel (List.mem_append_right _ hold)
      · exact hsound parcel hnew

/-- What becomes of a port that is to receive other packages than before, while
all others keep theirs. -/
theorem Carries.after_setPort (hdistinct : Function.Injective peerIDs)
    (h : Carries peerIDs waiting network) {peer : ι} {portID : PortID}
    {port changed : Port (Addr ι)} {final : World ι} {next : List (Parcel ι)}
    (hkeeps : Peer.Keeps (network.world peer) final)
    (hport : (network.peers peer).hub.findPort portID = some port)
    (hports : ∀ other, final.peer.hub.findPort other =
      ((network.peers peer).hub.setPort portID changed).findPort other)
    (hchanged : changed = { port with
      incoming := (FifoQueues.byKey Parcel.address next
        (peerSocketID (peerIDs peer) portID)).flatMap Parcel.wire })
    (hothers : ∀ address, address ≠ peerSocketID (peerIDs peer) portID →
      FifoQueues.byKey Parcel.address next address =
        FifoQueues.byKey Parcel.address waiting address)
    (hheld : ∀ parcel ∈ next, ∃ peer portID,
      parcel.address = peerSocketID (peerIDs peer) portID)
    (hsound : ∀ parcel ∈ next ++ (network.after peer final).inFlight,
      parcel.Sound peerIDs) :
    Carries peerIDs next (network.after peer final) := by
  have hnamed := h.named peer portID port hport
  subst hchanged
  refine h.after hkeeps ?_ ?_ ?_ hheld hsound
  · intro other otherPort hother
    rw [hports] at hother
    by_cases heq : other = portID
    · rw [heq, Hub.findPort_setPort_self] at hother
      rw [heq, ← Option.some.inj hother]
      exact ⟨hnamed.portName, hnamed.transport⟩
    · rw [Hub.findPort_setPort_of_ne _ _ heq] at hother
      exact h.named peer other otherPort hother
  · intro other
    rw [Hub.incomingAt, hports]
    by_cases heq : other = portID
    · rw [heq, Hub.findPort_setPort_self]
    · have hqueued := h.queued peer other
      rw [Hub.incomingAt] at hqueued
      rw [Hub.findPort_setPort_of_ne _ _ heq, hqueued, hothers]
      exact fun hsame => heq (peerSocketID_inj.mp hsame).2
  · intro other hother otherPort
    apply hothers
    exact fun hsame => hother (hdistinct (peerSocketID_inj.mp hsame).1)

section Advances

variable {β : Type*} {sent : Parcel ι → β}
  {read : Heap (Addr ι) → List (FrameData (Addr ι)) → β}

/-- A step moves packages along their channels, and the sender and the receiver
see these moves. -/
structure Advances (peerIDs : ι → PeerID) (sent : Parcel ι → β)
    (read : Heap (Addr ι) → List (FrameData (Addr ι)) → β) (single : Step ι)
    (network next : Network ι) (waiting later : List (Parcel ι))
    (moved : List (FifoQueues.Move Channel (Parcel ι))) : Prop where
  carries : Carries peerIDs later next
  moves : FifoQueues.Moves
    (FifoQueues.byKey Parcel.channel (waiting ++ network.inFlight)) moved
    (FifoQueues.byKey Parcel.channel (later ++ next.inFlight))
  keyed : ∀ move ∈ moved, move.key = move.item.channel ∧
    move.item.Sound peerIDs
  observed : Network.moves sent read single network =
    moved.map (FifoQueues.Move.map sent)
  kept : ∀ parcel ∈ later ++ next.inFlight,
    parcel ∈ waiting ++ network.inFlight ∨ parcel ∈ launches single network

omit [DecidableEq ι] in
theorem launched_eq_nil {peer : ι} {hub : Hub (Addr ι)} {trace : List (Event ι)}
    (hquiet : trace.filterMap Event.sent? = []) :
    launched peer hub trace = [] := by
  rw [launched, hquiet]
  rfl

theorem launches_act {peer : ι} {single : Peer.Act ι} {final : World ι}
    (hfinal : (Peer.act single (network.world peer)).state? = some final) :
    launches (.act peer single) network =
      launched peer (network.peers peer).hub final.trace := by
  rw [launches, hfinal]

theorem advances_quiet (h : Carries peerIDs waiting network) {peer : ι}
    {single : Peer.Act ι} {final : World ι}
    (hlocal : single.Local)
    (hfinal : (Peer.act single (network.world peer)).state? = some final)
    (hnamed : ∀ portID port, final.peer.hub.findPort portID = some port →
      port.Named (peerIDs peer) portID)
    (hincoming : ∀ portID, final.peer.hub.incomingAt portID =
      (network.peers peer).hub.incomingAt portID)
    (hlaunched : launched peer (network.peers peer).hub final.trace = [])
    (hreceives : receives read (.act peer single) network = []) :
    Advances peerIDs sent read (.act peer single) network
      (network.after peer final) waiting waiting [] := by
  have hflight : (network.after peer final).inFlight = network.inFlight := by
    rw [after, hlaunched, List.append_nil]
  refine ⟨?_, ?_, by simp, ?_, ?_⟩
  · exact h.after_same (Peer.act_keeps (h.shape peer) hlocal hfinal) hnamed
      hincoming (by simp [hlaunched])
  · rw [hflight]
    exact .nil _
  · rw [Network.moves, launches_act hfinal, hlaunched, hreceives]
    rfl
  · intro parcel hparcel
    rw [hflight] at hparcel
    exact Or.inl hparcel

/-- An act that leaves the ports alone and sends nothing. -/
theorem advances_of_hub_eq (h : Carries peerIDs waiting network) {peer : ι}
    {single : Peer.Act ι} {final : World ι} (hlocal : single.Local)
    (hfinal : (Peer.act single (network.world peer)).state? = some final)
    (hports : ∀ portID, final.peer.hub.findPort portID =
      (network.peers peer).hub.findPort portID)
    (hlaunched : launched peer (network.peers peer).hub final.trace = [])
    (hreceives : receives read (.act peer single) network = []) :
    Advances peerIDs sent read (.act peer single) network
      (network.after peer final) waiting waiting [] := by
  apply advances_quiet h hlocal hfinal ?_ ?_ hlaunched hreceives
  · intro portID port hport
    rw [hports] at hport
    exact h.named peer portID port hport
  · intro portID
    rw [Hub.incomingAt, hports, Hub.incomingAt]

/-! ### Sending -/

omit [DecidableEq ι] in
theorem Carries.routingID (h : Carries peerIDs waiting network) {peer : ι}
    {portID : PortID} {port : Port (Addr ι)}
    (hport : (network.peers peer).hub.findPort portID = some port) :
    System.routingID (network.peers peer).hub portID =
      peerSocketID (peerIDs peer) portID := by
  rw [System.routingID, hport]
  exact (h.named peer portID port hport).socketID

theorem sound_of_send (h : Carries peerIDs waiting network) {peer : ι}
    {label : Label} {package : Package} {result : Label × World ι}
    {heap : Heap (Addr ι)} {frames : List (SentFrame (Addr ι))}
    (hlength : package.length + 3 ≤ messageVecSize)
    (hresult : (Peer.sendMessages label package (network.world peer)).state? =
      some result)
    (hspec : Peer.SendSpec label package (network.world peer) result heap
      frames) (hreaches : Peer.Reaches label (network.world peer)) :
    Parcel.Sound peerIDs ⟨peer,
      System.routingID (network.peers peer).hub (label.getPortID .src),
      ⟨label.getPortID .src, Peer.destPortName label,
        Peer.written label (network.world peer), frames⟩⟩ := by
  obtain ⟨-, address, hframes⟩ := hspec.reached hreaches
  obtain ⟨port, hport, -, -⟩ := hreaches
  have hnamed := h.named peer _ port hport
  have hpeerID : (Peer.written label (network.world peer)).src.peerID =
      peerIDs peer := h.peerID peer
  constructor
  · rw [Parcel.wire, Parcel.content, hframes, deliver, List.map_cons,
      List.tail_cons, List.map_cons, map_handOver_eq_toWire]
    rfl
  · rw [Parcel.content, hframes, List.tail_cons, List.map_cons,
      List.length_cons, List.length_map, length_handOver, World.tempPackage,
      List.length_cons, List.length_map]
    omega
  · exact hpeerID
  · rw [h.routingID hport, hpeerID]
    rfl
  · obtain ⟨frame, rest, hfirst, hbytes⟩ :=
      Peer.sendMessages_address (h.shape peer) hport hresult hspec.trace
        (by simp [hframes])
    rw [Parcel.address, hfirst]
    dsimp only
    rw [hbytes, hnamed.transport, Peer.destPortName, peerSocketID]
    rfl

theorem advances_send (h : Carries peerIDs waiting network) {peer : ι}
    {label : Label} {package : Package} {final : World ι}
    (hlength : package.length + 3 ≤ messageVecSize)
    (hfinal : (Peer.act (.send label package) (network.world peer)).state? =
      some final) :
    ∃ moved, Advances peerIDs sent read (.act peer (.send label package))
      network (network.after peer final) waiting waiting moved := by
  have hlocal : (Peer.Act.send label package : Peer.Act ι).Local := trivial
  have hkeeps := Peer.act_keeps (h.shape peer) hlocal hfinal
  rw [Peer.act, Outcome.state?_map] at hfinal
  obtain ⟨result, hresult, rfl⟩ := Option.map_eq_some_iff.mp hfinal
  have hspecs : (Peer.sendMessages label package (network.world peer)).Holds
      fun result => ∃ heap frames, Peer.SendSpec label package
        (network.world peer) result heap frames :=
    Peer.sendMessages_holds (h.shape peer)
      fun _ heap frames hspec => ⟨heap, frames, hspec⟩
  obtain ⟨heap, frames, hspec⟩ :=
    Outcome.holds_iff_state?.mp hspecs result hresult
  have hhub : result.2.peer.hub = (network.peers peer).hub := by
    rw [hspec.peer]
    rfl
  have hact : (Peer.act (.send label package) (network.world peer)).state? =
      some result.2 := by
    rw [Peer.act, Outcome.state?_map, hresult]
    rfl
  by_cases hreaches : Peer.Reaches label (network.world peer)
  · obtain ⟨parcel, hsound, hlaunched⟩ : ∃ parcel : Parcel ι,
        parcel.Sound peerIDs ∧
        launched peer (network.peers peer).hub result.2.trace = [parcel] := by
      refine ⟨_, sound_of_send h hlength hresult hspec hreaches, ?_⟩
      obtain ⟨-, address, hframes⟩ := hspec.reached hreaches
      have hnonempty : frames ≠ [] := by simp [hframes]
      rw [hspec.trace]
      simp [launched, world, Event.sent?, hnonempty]
    refine ⟨[.put parcel.channel parcel], ?_, ?_, ?_, ?_, ?_⟩
    · apply h.after_same hkeeps
      · intro portID port hport
        rw [hhub] at hport
        exact h.named peer portID port hport
      · intro portID
        rw [hhub]
      · intro other hother
        rw [hlaunched] at hother
        rw [List.mem_singleton.mp hother]
        exact hsound
    · rw [after, hlaunched, ← List.append_assoc, FifoQueues.byKey_concat]
      exact .put _ _ (.nil _)
    · intro move hmove
      obtain rfl := List.mem_singleton.mp hmove
      exact ⟨rfl, hsound⟩
    · rw [Network.moves, launches_act hact, hlaunched]
      rfl
    · intro other hother
      rw [launches_act hact]
      rw [after, ← List.append_assoc] at hother
      exact List.mem_append.mp hother
  · obtain ⟨hnone, -⟩ := hspec.unreached hreaches
    refine ⟨[], ?_⟩
    have hlaunched : launched peer (network.peers peer).hub result.2.trace =
        [] := by
      rw [hspec.trace, hnone]
      simp [launched, world, Event.sent?]
    exact advances_of_hub_eq h hlocal hact (fun portID => by rw [hhub])
      hlaunched rfl

/-! ### Receiving -/

omit [DecidableEq ι] in
/-- What a port reads next is the first waiting package that is addressed to
it. -/
theorem Carries.first_of_next (h : Carries peerIDs waiting network) {peer : ι}
    {portID : PortID} {port : Port (Addr ι)} {frames : List (FrameData (Addr ι))}
    (hport : (network.peers peer).hub.findPort portID = some port)
    (hnext : port.nextMultipart = some frames) :
    ∃ before parcel after, waiting = before ++ parcel :: after ∧
      (∀ other ∈ before, other.address ≠ parcel.address) ∧
      parcel.address = peerSocketID (peerIDs peer) portID ∧
      frames = .owned parcel.source :: parcel.content ∧
      port.consume = { port with
        incoming := (FifoQueues.byKey Parcel.address (before ++ after)
          (peerSocketID (peerIDs peer) portID)).flatMap Parcel.wire } := by
  have hopen : port.closed = false := by
    by_contra hclosed
    rw [Port.nextMultipart, if_pos (by simpa using hclosed)] at hnext
    contradiction
  have hincoming := h.queued peer portID
  rw [Hub.incomingAt, hport] at hincoming
  dsimp only at hincoming
  cases hqueue : FifoQueues.byKey Parcel.address waiting
      (peerSocketID (peerIDs peer) portID) with
  | nil =>
      rw [hqueue, List.flatMap_nil] at hincoming
      rw [Port.nextMultipart, hincoming, hopen] at hnext
      contradiction
  | cons parcel rest =>
      obtain ⟨before, after, hwaiting, hbefore, haddress, hrest⟩ :=
        List.filter_eq_cons_iff.mp hqueue
      have hdest : parcel.address = peerSocketID (peerIDs peer) portID := by
        simpa using haddress
      have hsound := h.sound parcel (by simp [hwaiting])
      have hleft : FifoQueues.byKey Parcel.address (before ++ after)
          (peerSocketID (peerIDs peer) portID) = rest := by
        rw [FifoQueues.byKey_append, FifoQueues.byKey_eq_nil (by simpa using
          hbefore), List.nil_append, FifoQueues.byKey, hrest]
      have hwire : port.incoming = toWire (.owned parcel.source ::
          parcel.content) ++ rest.flatMap Parcel.wire := by
        rw [hincoming, hqueue, List.flatMap_cons, hsound.wire]
      have hlength : (FrameData.owned parcel.source ::
          parcel.content).length ≤ messageVecSize := hsound.length
      refine ⟨before, parcel, after, hwaiting, ?_, hdest, ?_, ?_⟩
      · intro other hother
        rw [hdest]
        simpa using hbefore other hother
      · rw [nextMultipart_toWire hopen hwire (List.cons_ne_nil _ _) hlength]
          at hnext
        exact (Option.some.inj hnext).symm
      · rw [hleft]
        exact consume_toWire hwire (List.cons_ne_nil _ _) hlength

theorem advances_poll (hdistinct : Function.Injective peerIDs)
    (h : Carries peerIDs waiting network) {peer : ι} {ready : List Hub.Ready}
    {package : Package} {final : World ι}
    (hread : ∀ parcel ∈ waiting, read network.heap parcel.content = sent parcel)
    (hfinal : (Peer.act (.poll ready package) (network.world peer)).state? =
      some final) :
    ∃ later moved, Advances peerIDs sent read (.act peer (.poll ready package))
      network (network.after peer final) waiting later moved := by
  have hlocal : (Peer.Act.poll ready package : Peer.Act ι).Local := trivial
  have hkeeps := Peer.act_keeps (h.shape peer) hlocal hfinal
  have htakes := Outcome.holds_iff_state?.mp (@Peer.poll_takes _ _ ready package
    (network.world peer) (h.queuesWhole peer)) final hfinal
  rcases htakes with
    ⟨hnone, huntaken⟩ | ⟨portID, port, frames, hpolled, htaken⟩
  · refine ⟨waiting, [], advances_of_hub_eq h hlocal hfinal huntaken.ports ?_ ?_⟩
    · rw [huntaken.trace]
      rfl
    · rw [receives, hnone]
  · have hport : (network.peers peer).hub.findPort portID = some port :=
      htaken.found
    obtain ⟨before, parcel, after, hwaiting, hbefore, haddress, rfl, hconsume⟩ :=
      h.first_of_next hport htaken.next
    have hlaunched : launched peer (network.peers peer).hub final.trace = [] := by
      apply launched_eq_nil
      rw [htaken.trace]
      rfl
    have hflight : (network.after peer final).inFlight = network.inFlight := by
      rw [Network.after, hlaunched, List.append_nil]
    refine ⟨before ++ after, [.take parcel.channel parcel], ?_, ?_, ?_, ?_, ?_⟩
    · apply h.after_setPort hdistinct hkeeps hport htaken.ports hconsume
      · intro address hother
        rw [hwaiting, FifoQueues.byKey_remove]
        rw [haddress]
        exact Ne.symm hother
      · intro other hother
        apply h.held
        rw [hwaiting]
        simp only [List.mem_append, List.mem_cons] at hother ⊢
        tauto
      · intro other hother
        rw [hflight] at hother
        apply h.sound
        rw [hwaiting]
        simp only [List.mem_append, List.mem_cons] at hother ⊢
        tauto
    · rw [hflight, hwaiting]
      simp only [List.append_assoc, List.cons_append]
      apply FifoQueues.moves_take_first
      intro other hother hchannel
      exact hbefore other hother (congrArg Channel.dest hchannel)
    · intro move hmove
      obtain rfl := List.mem_singleton.mp hmove
      exact ⟨rfl, h.sound parcel (by simp [hwaiting])⟩
    · rw [Network.moves, launches_act hfinal, hlaunched, receives, hpolled]
      dsimp only
      rw [h.routingID hport, hread parcel (by simp [hwaiting]), ← haddress]
      rfl
    · intro other hother
      rw [hflight] at hother
      refine Or.inl ?_
      rw [hwaiting]
      simp only [List.mem_append, List.mem_cons] at hother ⊢
      tauto

/-! ### Queueing on a port -/

theorem advances_deliver (hdistinct : Function.Injective peerIDs)
    (h : Carries peerIDs waiting network) {index : ℕ} {peer : ι}
    {portID : PortID} {parcel : Parcel ι} {port : Port (Addr ι)}
    (hparcel : network.inFlight[index]? = some parcel)
    (hport : (network.peers peer).hub.findPort portID = some port)
    (haddress : parcel.address =
      portNameToSocketID port.portName port.transport)
    (hfirst : ∀ other ∈ network.inFlight.take index,
      other.channel ≠ parcel.channel) :
    Advances peerIDs sent read (.deliver index peer portID) network
      { network with
        peers := Function.update network.peers peer
          ((network.world peer).arrive portID parcel.wire).peer
        inFlight := network.inFlight.eraseIdx index }
      waiting (waiting ++ [parcel]) [] := by
  have hnamed := h.named peer portID port hport
  have hdest : parcel.address = peerSocketID (peerIDs peer) portID :=
    haddress.trans hnamed.socketID
  have hflight : network.inFlight = network.inFlight.take index ++
      parcel :: network.inFlight.drop (index + 1) := by
    have hdrop := List.drop_eq_getElem?_toList_append (l := network.inFlight)
      (i := index)
    rw [hparcel, Option.toList_some, List.singleton_append] at hdrop
    rw [← hdrop, List.take_append_drop]
  have hmem : parcel ∈ network.inFlight := List.mem_of_getElem? hparcel
  have harrived : ((network.world peer).arrive portID parcel.wire).peer.hub =
      (network.peers peer).hub.setPort portID
        { port with incoming := port.incoming ++ parcel.wire } := by
    simp only [World.arrive, World.withHub, Hub.arrive, world, hport]
  have hkeeps : Peer.Keeps (network.world peer)
      ((network.world peer).arrive portID parcel.wire) :=
    ⟨rfl, rfl, Peer.labelShape_of_eq (h.shape peer) rfl, fun _ _ => rfl⟩
  have hsound : ∀ other ∈ waiting ++ [parcel] ++ network.inFlight,
      other.Sound peerIDs := by
    intro other hother
    apply h.sound
    simp only [List.mem_append, List.mem_singleton] at hother ⊢
    rcases hother with (hwaiting | rfl) | hold
    · exact Or.inl hwaiting
    · exact Or.inr hmem
    · exact Or.inr hold
  have hafter : Carries peerIDs (waiting ++ [parcel])
      (network.after peer ((network.world peer).arrive portID parcel.wire)) := by
    apply h.after_setPort hdistinct hkeeps hport (fun other => by rw [harrived])
    · have hqueued := h.queued peer portID
      rw [Hub.incomingAt, hport] at hqueued
      dsimp only at hqueued
      rw [FifoQueues.byKey_append, List.flatMap_append, ← hqueued]
      simp [FifoQueues.byKey, hdest]
    · intro address hother
      rw [FifoQueues.byKey_concat_of_ne]
      rw [hdest]
      exact Ne.symm hother
    · intro other hother
      rcases List.mem_append.mp hother with hwaiting | hnew
      · exact h.held other hwaiting
      · exact ⟨peer, portID, List.mem_singleton.mp hnew ▸ hdest⟩
    · intro other hother
      apply hsound
      rwa [Network.after, launched_eq_nil rfl, List.append_nil] at hother
  have herase : network.inFlight.eraseIdx index =
      network.inFlight.take index ++ network.inFlight.drop (index + 1) :=
    List.eraseIdx_eq_take_drop_succ ..
  refine ⟨⟨hafter.self, hafter.peerID, hafter.shape, hafter.named,
    hafter.queued, hafter.held, ?_⟩, ?_, by simp, rfl, ?_⟩
  · intro other hother
    apply hsound
    rcases List.mem_append.mp hother with hwaiting | hold
    · exact List.mem_append_left _ hwaiting
    · exact List.mem_append_right _ (List.mem_of_mem_eraseIdx hold)
  · have hsame : FifoQueues.byKey Parcel.channel (waiting ++ network.inFlight) =
        FifoQueues.byKey Parcel.channel
          (waiting ++ [parcel] ++ network.inFlight.eraseIdx index) := by
      funext channel
      rw [List.append_assoc, FifoQueues.byKey_append, FifoQueues.byKey_append,
        herase, List.singleton_append,
        ← FifoQueues.byKey_advance hfirst, ← hflight]
    rw [hsame]
    exact .nil _
  · intro other hother
    refine Or.inl ?_
    simp only [List.mem_append, List.mem_singleton] at hother ⊢
    rcases hother with (hwaiting | rfl) | hold
    · exact Or.inl hwaiting
    · exact Or.inr hmem
    · exact Or.inr (List.mem_of_mem_eraseIdx hold)

/-! ### Every step -/

theorem advances_step (hdistinct : Function.Injective peerIDs)
    (h : Carries peerIDs waiting network) {single : Step ι} {next : Network ι}
    (hlossless : single.Lossless network)
    (hread : ∀ parcel ∈ waiting, read network.heap parcel.content = sent parcel)
    (hnext : (step single network).state? = some next) :
    ∃ later moved, Advances peerIDs sent read single network next waiting later
      moved := by
  cases single with
  | deliver index peer portID =>
      have hidle : Advances peerIDs sent read (.deliver index peer portID)
          network network waiting waiting [] :=
        ⟨h, .nil _, by simp, rfl, fun _ hparcel => Or.inl hparcel⟩
      rw [step] at hnext
      split at hnext
      · rename_i parcel port hparcel hport
        split at hnext
        · rename_i hqueues
          obtain rfl := Option.some.inj hnext
          exact ⟨_, _, advances_deliver hdistinct h hparcel hport hqueues.2.1
            hqueues.2.2⟩
        · obtain rfl := Option.some.inj hnext
          exact ⟨_, _, hidle⟩
      · obtain rfl := Option.some.inj hnext
        exact ⟨_, _, hidle⟩
  | act peer single =>
      have hlocal := hlossless.act_local
      rw [step, Outcome.state?_map] at hnext
      obtain ⟨final, hfinal, rfl⟩ := Option.map_eq_some_iff.mp hnext
      have hquiet : ∀ {changed : World ι}, final = changed →
          changed.peer.hub = (network.peers peer).hub →
          changed.trace.filterMap Event.sent? = [] →
          receives read (.act peer single) network = [] →
          ∃ later moved, Advances peerIDs sent read (.act peer single) network
            (network.after peer final) waiting later moved := by
        rintro changed rfl hhub htrace hreceives
        exact ⟨_, _, advances_of_hub_eq h hlocal hfinal
          (fun portID => by rw [hhub]) (launched_eq_nil htrace) hreceives⟩
      cases single with
      | send label package =>
          exact ⟨_, advances_send h hlossless hfinal⟩
      | poll ready package => exact advances_poll hdistinct h hread hfinal
      | receipts topic receipts =>
          exact hquiet (Option.some.inj hfinal).symm rfl rfl rfl
      | subscribe label =>
          rw [Peer.act, Peer.subscribe_eq_setReceipts] at hfinal
          exact hquiet (Option.some.inj hfinal).symm rfl rfl rfl
      | called interfaceID label view =>
          exact hquiet (Option.some.inj hfinal).symm rfl rfl rfl
      | resize message size offset =>
          exact hquiet (Option.some.inj hfinal).symm rfl rfl rfl
      | reset message =>
          exact hquiet (Option.some.inj hfinal).symm rfl rfl rfl
      | write message position source =>
          have hwritten := hfinal
          rw [Peer.act] at hwritten
          split at hwritten
          · contradiction
          · exact hquiet (Option.some.inj hwritten).symm rfl rfl rfl
      | changePackage package =>
          exact hquiet (Option.some.inj hfinal).symm rfl rfl rfl
      | arrive portID frames => exact absurd hlocal id
      | managePorts hub =>
          obtain rfl := Option.some.inj hfinal
          obtain ⟨hincoming, hnamed⟩ := hlossless
          rw [h.peerID] at hnamed
          exact ⟨_, _, advances_quiet h hlocal hfinal hnamed hincoming rfl rfl⟩
      | remote peer labelMessage => exact absurd hlocal id

/-! ## Runs -/

/-- The receiver of a package reads what was sent, whatever happens on the
way. -/
def Preserves (peerIDs : ι → PeerID) (condition : Step ι → Network ι → Prop)
    (sent : Parcel ι → β)
    (read : Heap (Addr ι) → List (FrameData (Addr ι)) → β) : Prop :=
  ∀ single network next waiting, Carries peerIDs waiting network →
    condition single network →
    (∀ parcel ∈ waiting ++ network.inFlight,
      read network.heap parcel.content = sent parcel) →
    (step single network).state? = some next →
    ∀ parcel, parcel ∈ waiting ++ network.inFlight ∨
        parcel ∈ launches single network →
      read next.heap parcel.content = sent parcel

/-- Where the packages are at the end of a run, and what was moved in it. -/
structure Moved (peerIDs : ι → PeerID) (sent : Parcel ι → β)
    (read : Heap (Addr ι) → List (FrameData (Addr ι)) → β)
    (steps : List (Step ι)) (network final : Network ι)
    (waiting later : List (Parcel ι))
    (moved : List (FifoQueues.Move Channel (Parcel ι))) : Prop where
  carries : Carries peerIDs later final
  intact : ∀ parcel ∈ later ++ final.inFlight,
    read final.heap parcel.content = sent parcel
  moves : FifoQueues.Moves
    (FifoQueues.byKey Parcel.channel (waiting ++ network.inFlight)) moved
    (FifoQueues.byKey Parcel.channel (later ++ final.inFlight))
  keyed : ∀ move ∈ moved, move.key = move.item.channel ∧
    move.item.Sound peerIDs
  observed : Outcome.collect step (Network.moves sent read) steps network =
    moved.map (FifoQueues.Move.map sent)

theorem run_moved {condition : Step ι → Network ι → Prop}
    (hdistinct : Function.Injective peerIDs)
    (hlossless : ∀ single network, condition single network →
      single.Lossless network)
    (hpreserves : Preserves peerIDs condition sent read)
    {steps : List (Step ι)} {final : Network ι}
    (h : Carries peerIDs waiting network)
    (hintact : ∀ parcel ∈ waiting ++ network.inFlight,
      read network.heap parcel.content = sent parcel)
    (hmeets : Outcome.RunMeets step condition steps network)
    (hrun : Outcome.run step steps network = some final) :
    ∃ later moved, Moved peerIDs sent read steps network final waiting later
      moved := by
  induction steps generalizing network waiting with
  | nil =>
      obtain rfl := Option.some.inj hrun
      exact ⟨waiting, [], h, hintact, .nil _, by simp, rfl⟩
  | cons single rest ih =>
      rw [Outcome.run_cons] at hrun
      obtain ⟨next, hnext, hrest⟩ := Option.bind_eq_some_iff.mp hrun
      obtain ⟨hcondition, hothers⟩ := hmeets
      obtain ⟨middle, first, hadvances⟩ := advances_step hdistinct h
        (hlossless single network hcondition)
        (fun parcel hparcel => hintact parcel (List.mem_append_left _ hparcel))
        hnext
      have hkept : ∀ parcel ∈ middle ++ next.inFlight,
          read next.heap parcel.content = sent parcel :=
        fun parcel hparcel => hpreserves single network next waiting h
          hcondition hintact hnext parcel (hadvances.kept parcel hparcel)
      obtain ⟨later, second, hmoved⟩ :=
        ih hadvances.carries hkept (hothers next hnext) hrest
      refine ⟨later, first ++ second, hmoved.carries, hmoved.intact,
        hadvances.moves.append hmoved.moves, ?_, ?_⟩
      · intro move hmove
        rcases List.mem_append.mp hmove with hfirst | hsecond
        · exact hadvances.keyed move hfirst
        · exact hmoved.keyed move hsecond
      · rw [Outcome.collect, hnext, List.map_append, ← hadvances.observed,
          ← hmoved.observed]

end Advances

/-- Peers with different IDs before any port is added. -/
structure Initial (network : Network ι) : Prop where
  self : ∀ peer, (network.peers peer).self = peer
  peers : ∀ peer, Peer.Initial (network.world peer)
  distinct : Function.Injective fun peer => (network.peers peer).peerID
  inFlight : network.inFlight = []

theorem Initial.carries (h : network.Initial) :
    Carries (fun peer => (network.peers peer).peerID) [] network := by
  have hempty : ∀ peer portID,
      (network.peers peer).hub.findPort portID = none := by
    intro peer portID
    obtain ⟨self, peerID, recvMessage, labelMemory, recvMemory, heap, -,
      hworld⟩ := h.peers peer
    have hpeer : network.peers peer = (Peer.construct self peerID recvMessage
      labelMemory recvMemory heap).peer := congrArg World.peer hworld
    rw [hpeer]
    rfl
  refine ⟨h.self, fun _ => rfl, fun peer => (h.peers peer).labelShape.1, ?_, ?_,
    ?_, ?_⟩
  · intro peer portID port hport
    rw [hempty] at hport
    contradiction
  · intro peer portID
    rw [Hub.incomingAt, hempty]
    rfl
  · simp
  · simp [h.inFlight]

/-- Where the packages of a run that started without any are: the queues of the
ports and what is in flight are what the senders put on their channels and the
receivers have not taken, channel by channel and in order. -/
structure Fifo {β : Type*} (peerIDs : ι → PeerID) (sent : Parcel ι → β)
    (observed : List (FifoQueues.Move Channel β)) (final : Network ι)
    (waiting : List (Parcel ι)) : Prop where
  carries : Carries peerIDs waiting final
  moves : FifoQueues.Moves (fun _ => []) observed fun channel =>
    (FifoQueues.byKey Parcel.channel (waiting ++ final.inFlight) channel).map
      sent
  received : ∀ channel, FifoQueues.takes channel observed <+:
    FifoQueues.puts channel observed

theorem Moved.fifo {β : Type*} {sent : Parcel ι → β}
    {read : Heap (Addr ι) → List (FrameData (Addr ι)) → β}
    {steps : List (Step ι)} {final : Network ι} {later : List (Parcel ι)}
    {moved : List (FifoQueues.Move Channel (Parcel ι))}
    (hinitial : network.Initial)
    (h : Moved peerIDs sent read steps network final [] later moved) :
    Fifo peerIDs sent (Outcome.collect step (Network.moves sent read) steps
      network) final later := by
  have hmoves := h.moves.map sent
  have hnone : (fun channel => (FifoQueues.byKey Parcel.channel
      ([] ++ network.inFlight) channel).map sent) = fun _ => [] := by
    rw [hinitial.inFlight]
    rfl
  rw [hnone, ← h.observed] at hmoves
  exact ⟨h.carries, hmoves, fun channel => hmoves.takes_prefix channel⟩

/-- Any number of peers act in whatever order, and ZMQ queues their packages in
whatever order.  As long as packages have at most seven messages, and whoever
manages ports keeps their queues and their names, every pair of ports is
connected by one first-in first-out channel that loses and repeats nothing. -/
theorem channels_fifo {steps : List (Step ι)} {initial final : Network ι}
    (hinitial : initial.Initial)
    (hmeets : Outcome.RunMeets step Step.Lossless steps initial)
    (hrun : Outcome.run step steps initial = some final) :
    ∃ waiting, Fifo (fun peer => (initial.peers peer).peerID) Parcel.content
      (Outcome.collect step
        (moves Parcel.content fun _ content => content) steps initial)
      final waiting := by
  have hpreserves : Preserves (fun peer => (initial.peers peer).peerID)
      Step.Lossless Parcel.content fun _ content => content :=
    fun _ _ _ _ _ _ _ _ _ _ => rfl
  obtain ⟨later, moved, hmoved⟩ := run_moved hinitial.distinct
    (fun _ _ hlossless => hlossless) hpreserves hinitial.carries
    (fun _ _ => rfl) hmeets hrun
  exact ⟨later, hmoved.fifo hinitial⟩

end Network

/-! ## Two peers that send to each other -/

def twoNetwork : Network Bool :=
  ⟨twoPeers.heap, twoPeers.peers, []⟩

theorem initial_twoNetwork : twoNetwork.Initial where
  self := initial_twoPeers.self
  peers := initial_twoPeers.peers
  distinct := by decide
  inFlight := rfl

/-- What the two do once both have their ports. -/
def exchange (steps : List (Network.Step Bool)) : List (Network.Step Bool) :=
  .act false (.managePorts (onePortHub 1 [2] [])) ::
    .act true (.managePorts (onePortHub 2 [1] [])) :: steps

def oneWay : List (Network.Step Bool) :=
  exchange [.act false (.resize 1 3 0),
    .act false (.send ⟨⟨0, 0, ⟨1, 0, 5⟩, ⟨2, 0, 6⟩⟩⟩ [1]),
    .deliver 0 true 0, .act true (.poll portReady [0])]

theorem exists_run_oneWay :
    ∃ final, Outcome.run Network.step oneWay twoNetwork = some final :=
  Option.isSome_iff_exists.mp (by decide +kernel)

theorem channels_fifo_oneWay :
    ∃ final waiting,
      Network.Fifo (fun peer => (twoNetwork.peers peer).peerID) Parcel.content
        (Outcome.collect Network.step
          (Network.moves Parcel.content fun _ content => content) oneWay
          twoNetwork) final waiting := by
  obtain ⟨final, hrun⟩ := exists_run_oneWay
  exact ⟨final, Network.channels_fifo initial_twoNetwork (by decide +kernel) hrun⟩

end Dpn
