import Dpn.Request

/-!
# When a request gets its reply

The reply carries the number of sends of the peer that replies, and the request
waits for the number of sends of the peer that asked.  The two peers count for
themselves, so the reply is accepted exactly if their counters agree, and if no
package before the reply ends the wait.
-/

namespace Dpn

open TextStream

/-! ## The names of peers -/

def peerSocketID (peerID : PeerID) (portID : PortID) : SocketID :=
  portNameToSocketID
    (PortSpecification.getPortName ⟨peerIDtoHubName peerID, portID⟩) .inproc

theorem portNameFromSocketID_peerSocketID (peerID : PeerID) (portID : PortID) :
    portNameFromSocketID (peerSocketID peerID portID) =
      PortSpecification.getPortName ⟨peerIDtoHubName peerID, portID⟩ := by
  have hhub : (47 : UInt8) ∉ peerIDtoHubName peerID :=
    not_mem_toString_of_not_isDigit (by decide)
  have hport : (47 : UInt8) ∉ TextStream.toString portID.toNat :=
    not_mem_toString_of_not_isDigit (by decide)
  apply portNameFromSocketID_portNameToSocketID
  rw [PortSpecification.getPortName, List.mem_append, List.mem_cons]
  rintro (hmem | hmem | hmem)
  · exact hhub hmem
  · exact absurd hmem (by decide)
  · exact hport hmem

theorem hubNametoPeerID_peerIDtoHubName (peerID : PeerID) :
    hubNametoPeerID (peerIDtoHubName peerID) = .ok peerID := by
  have hbound : peerID.toNat < 2 ^ 31 := by
    have hlt := peerID.toNat_lt
    omega
  rw [hubNametoPeerID, peerIDtoHubName, stoi_toString hbound]
  simp only [Except.map, PortSpecification.ofInt_toNat]

namespace Peer

/-- The name of a port of a peer is never rejected, whatever the label says. -/
theorem senderError_getPortName (peerID : PeerID) (portID : PortID)
    (contents : Contents) :
    senderError (PortSpecification.getPortName
      ⟨peerIDtoHubName peerID, portID⟩) contents = none := by
  have hdash : (45 : UInt8) ∉ peerIDtoHubName peerID :=
    not_mem_toString_of_not_isDigit (by decide)
  rw [senderError, PortSpecification.setPortName_getPortName _ _ hdash]
  simp only [checkSource]
  by_cases hport : contents.src.portID ≠ portID
  · rw [if_pos hport]
  · rw [if_neg hport, hubNametoPeerID_peerIDtoHubName]
    rfl

variable {ι : Type*} [DecidableEq ι]

/-! ## The peer that replies -/

/-- `ServiceInterfaces` receives the label of a request, the reply interface it
names passes after its calls have led to the world `before`, and this is what
the reply is sent as. -/
def Replies (interfaces : Table InterfaceID (Interface ι)) (depth : ℕ)
    (ready : List Hub.Ready) (world : World ι) (request : Contents)
    (before : World ι) (result : Label × World ι) (reply : SendRecord ι) :
    Prop :=
  ∃ polled handleReply script returnPackage,
    getPendingPackage ready world.peer.recvPackage Label.new world =
      .ok (⟨request⟩, polled) ∧
    interfaces.lookup request.dest.interfaceID = some (.reply handleReply) ∧
    script = handleReply ⟨request⟩ (polled.log (.called
      request.dest.interfaceID ⟨request⟩
      (polled.view polled.peer.recvPackage))) ∧
    Outcome.survive (call interfaces depth) script.calls (polled.log (.called
      request.dest.interfaceID ⟨request⟩
      (polled.view polled.peer.recvPackage))) = .ok before ∧
    script.result = .ok (.pass returnPackage) ∧
    push script.label.swap returnPackage before = .ok result ∧
    result.2.trace = before.trace ++ [.sent reply]

theorem Replies.serviceInterfaces
    {interfaces : Table InterfaceID (Interface ι)} {depth : ℕ}
    {ready : List Hub.Ready} {world before : World ι} {request : Contents}
    {result : Label × World ι} {reply : SendRecord ι}
    (h : Replies interfaces depth ready world request before result reply) :
    call interfaces (depth + 1) (.serviceInterfaces ready) world =
      .ok result.2 := by
  obtain ⟨polled, handleReply, script, returnPackage, hpending, hlookup,
    hscript, hcalls, hpass, hpush, -⟩ := h
  have hfound : interfaces.lookup ((⟨request⟩ : Label).getInterfaceID .dest) =
      some (.reply handleReply) := hlookup
  have hservice : call interfaces (depth + 1) (.serviceInterfaces ready) world =
      handleIncomingMessage (call interfaces depth) (.reply handleReply)
        ⟨request⟩ (polled.log (.called request.dest.interfaceID ⟨request⟩
          (polled.view polled.peer.recvPackage))) := by
    rw [call, perform, Peer.serviceInterfaces, hpending]
    dsimp only
    rw [hfound]
    rfl
  rw [hservice, handleIncomingMessage]
  rw [← hscript, Script.run, hcalls, Outcome.andThen_ok, hpass]
  dsimp only
  rw [hpush, Outcome.map_ok]

/-- The ID of a reply is the next one of the peer that sends it. -/
theorem Replies.written {interfaces : Table InterfaceID (Interface ι)}
    {depth : ℕ} {ready : List Hub.Ready} {world before : World ι}
    {request : Contents} {result : Label × World ι} {reply : SendRecord ι}
    (hreachable : Reachable interfaces world)
    (h : Replies interfaces depth ready world request before result reply) :
    reply.written.messageID = before.peer.messageID + 1 := by
  obtain ⟨polled, handleReply, script, returnPackage, hpending, -, -, hcalls,
    -, hpush, htrace⟩ := h
  have hpolled : polled.LabelShape := by
    have hholds := labelShape_invariant.getPendingPackage ready
      world.peer.recvPackage Label.new hreachable.labelShape
    rw [hpending] at hholds
    exact hholds
  have hlogged := labelShape_invariant.called request.dest.interfaceID
    ⟨request⟩ (polled.view polled.peer.recvPackage) polled hpolled
  have hsurvive : (Outcome.survive (call interfaces depth) script.calls
      (polled.log (.called request.dest.interfaceID ⟨request⟩
        (polled.view polled.peer.recvPackage)))).Holds World.LabelShape :=
    Outcome.Holds.survive hlogged fun other _ next hnext =>
      labelShape_invariant.call (handlersAllowed_true interfaces) depth trivial
        hnext
  rw [hcalls, Outcome.holds_ok] at hsurvive
  obtain ⟨heap, frames, hspec⟩ := sendSpec_of_ok hsurvive hpush
  have hrecord := hspec.trace.symm.trans htrace
  rw [List.append_cancel_left_eq] at hrecord
  obtain rfl := Event.sent.inj (List.cons.inj hrecord).1
  rfl

/-! ## The peer that asks -/

/-- The rounds before the last one end before the timeout, and the last one, if
it is reached, takes the reply as it was sent. -/
structure Waits (recvPackage : Package) (timeout startTime : ℤ)
    (earlier : List (Round ι)) (last : Round ι) (world : World ι)
    (replier : PeerID) (reply : SendRecord ι) : Prop where
  clock : ∀ round ∈ earlier, round.now - startTime ≤ timeout
  delivered : ∀ ready state,
    (pollStates recvPackage timeout startTime (earlier ++ [last]) timeout
      world)[earlier.length]? = some (ready, state) →
    ∃ hub port frames, Takes ready state hub port frames ∧
      (∀ frame ∈ frames, frame.Whole state.heap) ∧
      ∃ bodies, frames.map (fun frame => frame.bytes state.heap) =
        peerSocketID replier reply.localPort :: [] :: reply.written.encode ::
          bodies

/-- The request ends with a match in the round after `count` others. -/
def MatchedAfter (count : ℕ) (outcome : Outcome Exn (Requested ι)) : Prop :=
  ∃ requested, outcome = .ok requested ∧ requested.ended = .matched ∧
    requested.polls.length = count + 1

/-- Every poll before the reply takes a package of at most ten frames, which is
stored, comes from a sender whose name is not rejected, and leaves another ID
than the awaited one in the label buffer. -/
def EarlierPassOver (recvPackage : Package) (awaited : MessageID) (count : ℕ)
    (states : List (List Hub.Ready × World ι)) : Prop :=
  ∀ earlier < count, ∀ (ready : List Hub.Ready) (state : World ι),
    states[earlier]? = some (ready, state) →
    ∃ hub port frames, Takes ready state hub port frames ∧
      Returns recvPackage frames state ∧
      (labelAfter recvPackage frames state).messageID ≠ awaited

/-- The copies of the package that poll `count` takes are defined. -/
def Storable (recvPackage : Package) (count : ℕ)
    (states : List (List Hub.Ready × World ι)) : Prop :=
  ∀ (ready : List Hub.Ready) (state : World ι) (hub : Hub (Addr ι))
    (port : Port (Addr ι)) (frames : List (FrameData (Addr ι))),
    states[count]? = some (ready, state) →
    Takes ready state hub port frames →
    ∃ heap, distribute (state.tempPackage recvPackage)
      (packageFrames state.heap frames) state.heap = .ok heap

omit [DecidableEq ι] in
theorem Takes.frames_eq {ready : List Hub.Ready} {world : World ι}
    {hub other : Hub (Addr ι)} {port otherPort : Port (Addr ι)}
    {frames others : List (FrameData (Addr ι))}
    (h : Takes ready world hub port frames)
    (hother : Takes ready world other otherPort others) : frames = others :=
  Option.some.inj (h.nextTaken.symm.trans hother.nextTaken)

theorem takes_reply {recvPackage : Package} {timeout startTime : ℤ}
    {earlier : List (Round ι)} {last : Round ι} {world : World ι}
    {replier : PeerID} {reply : SendRecord ι} (hshape : world.LabelShape)
    (hwaits : Waits recvPackage timeout startTime earlier last world replier
      reply)
    {ready : List Hub.Ready} {state : World ι} {hub : Hub (Addr ι)}
    {port : Port (Addr ι)} {frames : List (FrameData (Addr ι))}
    (hstate : (pollStates recvPackage timeout startTime (earlier ++ [last])
      timeout world)[earlier.length]? = some (ready, state))
    (htakes : Takes ready state hub port frames) :
    labelAfter recvPackage frames state = reply.written ∧
      (Returns recvPackage frames state ↔
        ∃ heap, distribute (state.tempPackage recvPackage)
          (packageFrames state.heap frames) state.heap = .ok heap) := by
  obtain ⟨taken, takenPort, takenFrames, htaken, hwhole, bodies, hframes⟩ :=
    hwaits.delivered ready state hstate
  obtain rfl := htakes.frames_eq htaken
  have hkept := pollStates_keep hshape (List.mem_of_getElem? hstate)
  have hwellFormed : WellFormed state.heap frames reply.written :=
    ⟨_, _, bodies, hframes, length_encode _, (decode_encode _).symm⟩
  have hafter := labelAfter_of_wellFormed recvPackage hkept.1 hwhole hwellFormed
  have hname : senderName state.heap frames = PortSpecification.getPortName
      ⟨peerIDtoHubName replier, reply.localPort⟩ := by
    obtain ⟨first, second, third, rest, rfl, hfirst, -⟩ :=
      exists_frames_of_map_bytes hframes
    rw [senderName, hfirst, portNameFromSocketID_peerSocketID]
  refine ⟨hafter, ?_⟩
  rw [Returns, hname, senderError_getPortName]
  simp

/-- A request ends in its last round if and only if the packages before are
passed over and the last one leaves the awaited ID in the label buffer. -/
theorem matchedAfter_iff {world : World ι} {label : Label}
    {sendPackage recvPackage : Package} {sent : Label × World ι}
    {timeout startTime : ℤ} {earlier : List (Round ι)} {last : Round ι}
    {replier : PeerID} {reply : SendRecord ι} (hshape : world.LabelShape)
    (hsent : push label sendPackage world = .ok sent)
    (hwaits : Waits recvPackage timeout startTime earlier last sent.2 replier
      reply) :
    MatchedAfter earlier.length (requestImpl recvPackage timeout startTime
        (earlier ++ [last]) sent.2) ↔
      EarlierPassOver recvPackage (written label world).messageID
        earlier.length (pollStates recvPackage timeout startTime
          (earlier ++ [last]) timeout sent.2) ∧
      ∀ ready state hub port frames,
        (pollStates recvPackage timeout startTime (earlier ++ [last]) timeout
          sent.2)[earlier.length]? = some (ready, state) →
        Takes ready state hub port frames →
        Returns recvPackage frames state ∧
          (labelAfter recvPackage frames state).messageID =
            (written label world).messageID := by
  have hshows : ∀ (p : MessageID → MessageID → Prop) (count : ℕ)
      (ready : List Hub.Ready) (state : World ι) (hub : Hub (Addr ι))
      (port : Port (Addr ι)) (frames : List (FrameData (Addr ι))),
      (pollStates recvPackage timeout startTime (earlier ++ [last]) timeout
        sent.2)[count]? = some (ready, state) →
      Takes ready state hub port frames →
      (PollShows p recvPackage ready state ↔
        Returns recvPackage frames state ∧
          p (labelAfter recvPackage frames state).messageID
            (written label world).messageID) := by
    intro p count ready state hub port frames hstate htakes
    exact pollShows_of_push hshape hsent (List.mem_of_getElem? hstate) htakes
  constructor
  · intro hmatched
    obtain ⟨ready, state, hstate, haccepts⟩ :=
      requestLoop_matched_iff.mp hmatched
    constructor
    · intro count hcount ready' state' hstate'
      obtain ⟨_, _, hsame, hpasses⟩ := passesOver_of_lt hstate hcount
      obtain ⟨rfl, rfl⟩ := Prod.mk.inj (Option.some.inj
        (hsame.symm.trans hstate'))
      obtain ⟨hub, port, frames, htakes⟩ := takes_of_pollShows hpasses
      exact ⟨hub, port, frames, htakes,
        (hshows (· ≠ ·) _ _ _ _ _ _ hstate' htakes).mp hpasses⟩
    · intro ready' state' hub port frames hstate' htakes
      obtain ⟨rfl, rfl⟩ := Prod.mk.inj (Option.some.inj
        (hstate.symm.trans hstate'))
      exact (hshows (· = ·) _ _ _ _ _ _ hstate' htakes).mp haccepts
  · rintro ⟨hearlier, hlast⟩
    have hclock : ∀ round ∈ (earlier ++ [last]).take earlier.length,
        round.now - startTime ≤ timeout := by
      intro round hround
      rw [List.take_left] at hround
      exact hwaits.clock round hround
    obtain ⟨state, hstate⟩ := exists_pollState (le_refl timeout) hclock
      (show (earlier ++ [last])[earlier.length]? = some last by simp)
      (fun count hcount ready state hstate => by
        obtain ⟨hub, port, frames, htakes, hdiffers⟩ :=
          hearlier count hcount ready state hstate
        exact (hshows (· ≠ ·) _ _ _ _ _ _ hstate htakes).mpr hdiffers)
    obtain ⟨hub, port, frames, htakes, -⟩ :=
      hwaits.delivered last.ready state hstate
    apply requestLoop_matched_iff.mpr
    exact ⟨last.ready, state, hstate,
      (hshows (· = ·) _ _ _ _ _ _ hstate htakes).mpr
        (hlast _ _ _ _ _ hstate htakes)⟩

/-- A reply is accepted in its round if and only if the counter of the peer that
replies equals that of the peer that asks, every earlier package is passed over,
and the copies of the reply are defined. -/
theorem reply_accepted_iff
    {interfaces otherInterfaces : Table InterfaceID (Interface ι)}
    {world other before : World ι} {label : Label}
    {sendPackage recvPackage : Package} {sent result : Label × World ι}
    {depth : ℕ} {ready : List Hub.Ready} {reply : SendRecord ι}
    {timeout startTime : ℤ} {earlier : List (Round ι)} {last : Round ι}
    (hreachable : Reachable interfaces world)
    (hother : Reachable otherInterfaces other)
    (hsent : push label sendPackage world = .ok sent)
    (hreplies : Replies otherInterfaces depth ready other (written label world)
      before result reply)
    (hwaits : Waits recvPackage timeout startTime earlier last sent.2
      before.peer.peerID reply) :
    reply.written.messageID = (written label world).messageID ∧
        MatchedAfter earlier.length (requestImpl recvPackage timeout startTime
          (earlier ++ [last]) sent.2) ↔
      before.peer.messageID = world.peer.messageID ∧
        EarlierPassOver recvPackage (written label world).messageID
          earlier.length (pollStates recvPackage timeout startTime
            (earlier ++ [last]) timeout sent.2) ∧
        Storable recvPackage earlier.length (pollStates recvPackage timeout
          startTime (earlier ++ [last]) timeout sent.2) := by
  obtain ⟨heap, sentFrames, hspec⟩ :=
    sendSpec_of_ok hreachable.labelShape hsent
  have hcounters : reply.written.messageID = (written label world).messageID ↔
      before.peer.messageID = world.peer.messageID := by
    rw [hreplies.written hother]
    exact UInt32.add_left_inj 1
  rw [hcounters, matchedAfter_iff hreachable.labelShape hsent hwaits]
  apply and_congr_right
  intro hequal
  apply and_congr_right'
  constructor
  · intro hlast ready state hub port frames hstate htakes
    exact (hlast ready state hub port frames hstate htakes).1.1
  · intro hstorable ready state hub port frames hstate htakes
    obtain ⟨hlabel, hreturns⟩ :=
      takes_reply hspec.sentLabel.shape hwaits hstate htakes
    rw [hlabel]
    exact ⟨hreturns.mpr (hstorable _ _ _ _ _ hstate htakes),
      hcounters.mpr hequal⟩

end Peer

/-! ## A peer that has pushed before it replies -/

def replyAt (interfaceID : InterfaceID) :
    Table InterfaceID (Peer.Interface Unit) :=
  (∅ : Table InterfaceID (Peer.Interface Unit)).insert interfaceID
    (.reply fun label _ => ⟨[], label, .ok (.pass [])⟩)

def freshReplier : World Unit :=
  Peer.construct () 2 0 (List.replicate contentsSizeof 0) (List.replicate 8 0)
    fun _ => Message.new []

def asked (history : List (Peer.Call Unit)) : List (Peer.Call Unit) :=
  .managePorts (onePortHub 2 [1] (toWire [.owned (socketIDOf 1), .owned [],
    .owned (Peer.written (receiptOf 2) (peerOne [2] [])).encode])) :: history

def replier (history : List (Peer.Call Unit)) : World Unit :=
  (Outcome.run (Peer.call (replyAt 6) 0) (asked history) freshReplier).getD
    freshReplier

theorem reachable_replier {history : List (Peer.Call Unit)}
    (hrun : (Outcome.run (Peer.call (replyAt 6) 0) (asked history)
      freshReplier).isSome) : Peer.Reachable (replyAt 6) (replier history) := by
  obtain ⟨world, hworld⟩ := Option.isSome_iff_exists.mp hrun
  refine ⟨freshReplier, 0, asked history,
    ⟨(), 2, 0, _, _, _, List.length_replicate, rfl⟩, ?_⟩
  rw [replier, hworld, Option.getD_some]

theorem polls_replyOf {messageID : MessageID} {ready : List Hub.Ready}
    {state : World Unit} (hmem : (ready, state) ∈ Peer.pollStates [0] 10 0
      [arriving (replyOf messageID)] 10 requesting.2) :
    ready = portReady ∧
      state = (arriving (replyOf messageID)).arrive requesting.2 ∧
      ∃ hub port, Peer.Takes ready state hub port (replyOf messageID) := by
  rw [Peer.pollStates, if_neg (by decide)] at hmem
  rcases List.mem_cons.mp hmem with hfirst | hrest
  · obtain ⟨rfl, rfl⟩ := Prod.mk.inj hfirst
    refine ⟨rfl, rfl, { onePortHub 1 [2] (toWire (replyOf messageID)) with
      pollEventFlags := pollin }, _, rfl, ?_, rfl, rfl⟩
    exact show pollEventPresent pollin pollin = true by decide
  · simp only [Peer.pollStates, ite_self] at hrest
    split at hrest <;> simp at hrest

theorem waits_replyOf {reply : SendRecord Unit} {messageID : MessageID}
    {earlier : List (Peer.Round Unit)} (hport : reply.localPort = 0)
    (hwritten : reply.written = ⟨messageID, 0, ⟨2, 0, 6⟩, ⟨1, 0, 5⟩⟩)
    (hclock : ∀ round ∈ earlier, round.now - 0 ≤ 10)
    (hlast : ∀ ready state, (Peer.pollStates [0] 10 0
        (earlier ++ [arriving (replyOf messageID)]) 10
        requesting.2)[earlier.length]? = some (ready, state) →
      ∃ hub port, Peer.Takes ready state hub port (replyOf messageID)) :
    Peer.Waits [0] 10 0 earlier (arriving (replyOf messageID)) requesting.2 2
      reply := by
  refine ⟨hclock, ?_⟩
  intro ready state hpoll
  obtain ⟨hub, port, htakes⟩ := hlast ready state hpoll
  rw [hport, hwritten]
  refine ⟨hub, port, _, htakes, ?_, [], rfl⟩
  intro frame hframe
  simp only [replyOf, List.mem_cons, List.not_mem_nil, or_false] at hframe
  rcases hframe with rfl | rfl | rfl <;> rfl

def foreignArrived : World Unit := (arriving (foreign 9)).arrive requesting.2

/-- The package of peer 3 is taken, and then the reply arrives. -/
def replyArrived : World Unit :=
  (arriving (replyOf 1)).arrive
    ((Peer.poll portReady [0] foreignArrived).state?.getD foreignArrived)

theorem pollStates_replyArrived :
    Peer.pollStates [0] 10 0 ([arriving (foreign 9)] ++ [arriving (replyOf 1)])
      10 requesting.2 =
        [(portReady, foreignArrived), (portReady, replyArrived)] := rfl

theorem takes_foreignArrived :
    ∃ hub port, Peer.Takes portReady foreignArrived hub port (foreign 9) := by
  obtain ⟨hub, port, frames, htakes⟩ := @Peer.takes_of_pollShows _ _ (· ≠ ·)
    portReady [0] foreignArrived ⟨_, rfl, by decide⟩
  obtain rfl : frames = foreign 9 :=
    Option.some.inj (htakes.nextTaken.symm.trans (by decide))
  exact ⟨hub, port, htakes⟩

theorem takes_replyArrived :
    ∃ hub port, Peer.Takes portReady replyArrived hub port (replyOf 1) := by
  obtain ⟨hub, port, frames, htakes⟩ := @Peer.takes_of_pollShows _ _ (· = ·)
    portReady [0] replyArrived ⟨_, rfl, by decide⟩
  obtain rfl : frames = replyOf 1 :=
    Option.some.inj (htakes.nextTaken.symm.trans (by decide))
  exact ⟨hub, port, htakes⟩

/-- A package of peer 3 is passed over, and the reply behind it is accepted. -/
theorem reply_accepted_fresh :
    ∃ before result reply,
      Peer.Replies (replyAt 6) 0 portReady (replier [])
        (Peer.written (receiptOf 2) (peerOne [2] [])) before result reply ∧
      reply.written.messageID =
        (Peer.written (receiptOf 2) (peerOne [2] [])).messageID ∧
      Peer.MatchedAfter 1 (Peer.requestImpl [0] 10 0
        ([arriving (foreign 9)] ++ [arriving (replyOf 1)]) requesting.2) := by
  have hreplies : ∃ before result reply,
      Peer.Replies (replyAt 6) 0 portReady (replier [])
        (Peer.written (receiptOf 2) (peerOne [2] [])) before result reply ∧
      before.peer.messageID = 0 ∧ before.peer.peerID = 2 ∧
      reply.localPort = 0 ∧
      reply.written = ⟨1, 0, ⟨2, 0, 6⟩, ⟨1, 0, 5⟩⟩ :=
    ⟨_, _, _, ⟨_, _, _, [], rfl, rfl, rfl, rfl, rfl, rfl, rfl⟩, rfl, rfl, rfl,
      by decide⟩
  obtain ⟨before, result, reply, hreplies, hcounter, hpeerID, hport, hwritten⟩ :=
    hreplies
  have hwaits : Peer.Waits [0] 10 0 [arriving (foreign 9)]
      (arriving (replyOf 1)) requesting.2 before.peer.peerID reply := by
    rw [hpeerID]
    apply waits_replyOf hport hwritten (by decide)
    intro ready state hpoll
    rw [pollStates_replyArrived] at hpoll
    obtain ⟨rfl, rfl⟩ := Prod.mk.inj (Option.some.inj hpoll)
    exact takes_replyArrived
  refine ⟨before, result, reply, hreplies, ?_⟩
  apply (Peer.reply_accepted_iff (reachable_peerOne (replyAt 6) [2] [])
    (reachable_replier (by decide)) push_requesting hreplies hwaits).mpr
  rw [pollStates_replyArrived]
  refine ⟨hcounter, ?_, ?_⟩
  · intro count hcount ready state hpoll
    obtain rfl : count = 0 := Nat.lt_one_iff.mp hcount
    obtain ⟨rfl, rfl⟩ := Prod.mk.inj (Option.some.inj hpoll)
    obtain ⟨hub, port, htakes⟩ := takes_foreignArrived
    exact ⟨hub, port, _, htakes, ⟨⟨_, rfl⟩, by decide⟩, by decide⟩
  · intro ready state other otherPort frames hpoll hother
    obtain ⟨rfl, rfl⟩ := Prod.mk.inj (Option.some.inj hpoll)
    obtain ⟨hub, port, htakes⟩ := takes_replyArrived
    obtain rfl := hother.frames_eq htakes
    exact ⟨_, rfl⟩

def pushed : List (Peer.Call Unit) :=
  [.push ⟨⟨0, 0, ⟨2, 0, 6⟩, ⟨1, 0, 5⟩⟩⟩ []]

/-- A single push of the other peer before the request, and the reply is not
recognized. -/
theorem reply_lost_after_push :
    ∃ before result reply,
      Peer.Reachable (replyAt 6) (replier pushed) ∧
      Peer.Replies (replyAt 6) 0 portReady (replier pushed)
        (Peer.written (receiptOf 2) (peerOne [2] [])) before result reply ∧
      Peer.Waits [0] 10 0 [] (arriving (replyOf 2)) requesting.2
        before.peer.peerID reply ∧
      reply.written.messageID ≠
        (Peer.written (receiptOf 2) (peerOne [2] [])).messageID ∧
      ¬Peer.MatchedAfter 0 (Peer.requestImpl [0] 10 0
        ([] ++ [arriving (replyOf 2)]) requesting.2) := by
  have hreplies : ∃ before result reply,
      Peer.Replies (replyAt 6) 0 portReady (replier pushed)
        (Peer.written (receiptOf 2) (peerOne [2] [])) before result reply ∧
      before.peer.peerID = 2 ∧ reply.localPort = 0 ∧
      reply.written = ⟨2, 0, ⟨2, 0, 6⟩, ⟨1, 0, 5⟩⟩ :=
    ⟨_, _, _, ⟨_, _, _, [], rfl, rfl, rfl, rfl, rfl, rfl, rfl⟩, rfl, rfl,
      by decide⟩
  obtain ⟨before, result, reply, hreplies, hpeerID, hport, hwritten⟩ := hreplies
  refine ⟨before, result, reply, reachable_replier (by decide), hreplies,
    hpeerID ▸ waits_replyOf hport hwritten (by simp) ?_, ?_, ?_⟩
  · intro ready state hpoll
    exact (polls_replyOf (List.mem_of_getElem? hpoll)).2.2
  · rw [hwritten]
    decide
  · have hblocked : Peer.requestImpl [0] 10 0 ([] ++ [arriving (replyOf 2)])
        requesting.2 = .stuck .blocked := rfl
    rintro ⟨requested, hrequested, -⟩
    rw [hblocked] at hrequested
    contradiction

end Dpn
