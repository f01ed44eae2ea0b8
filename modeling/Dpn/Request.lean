import Dpn.Dispatch

/-!
# Waiting for a reply

A request polls until the label buffer shows the ID of its own label, which
stands in the buffer from the send on.  What ends the wait is therefore the
first package that leaves that ID there, whoever sent it.
-/

namespace Dpn

namespace Peer

variable {ι : Type*} [DecidableEq ι]

/-! ## The polls of a request -/

/-- The poll returns, and the ID in the label buffer compares like this to the
ID the peer waits for. -/
def PollShows (p : MessageID → MessageID → Prop) (package : Package)
    (ready : List Hub.Ready) (world : World ι) : Prop :=
  ∃ polled, poll ready package world = .ok polled ∧
    p polled.labelContents.messageID polled.peer.messageID

abbrev Accepts (package : Package) (ready : List Hub.Ready)
    (world : World ι) : Prop :=
  PollShows (· = ·) package ready world

abbrev PassesOver (package : Package) (ready : List Hub.Ready)
    (world : World ι) : Prop :=
  PollShows (· ≠ ·) package ready world

/-- The events and the worlds of the polls of a request. -/
def pollStates (package : Package) (timeout startTime : ℤ) :
    List (Round ι) → ℤ → World ι → List (List Hub.Ready × World ι)
  | [], _, _ => []
  | round :: rounds, elapsedTimeout, world =>
      if timeout < elapsedTimeout then []
      else
        (round.ready, round.arrive world) ::
          match poll round.ready package (round.arrive world) with
          | .ok polled =>
              if polled.labelContents.messageID = polled.peer.messageID then []
              else pollStates package timeout startTime rounds
                (round.now - startTime) polled
          | .throw _ _ => []
          | .stuck _ => []

/-- What a round of a request that returns can do: nothing after the deadline,
or a poll that throws, that matches, or that is followed by the other rounds. -/
theorem requestLoop_cons_cases {package : Package}
    {timeout startTime currTimeout elapsedTimeout : ℤ} {round : Round ι}
    {rounds : List (Round ι)} {world : World ι} {requested : Requested ι}
    (hloop : requestLoop package timeout startTime (round :: rounds) currTimeout
      elapsedTimeout world = .ok requested) :
    (timeout < elapsedTimeout ∧ requested = ⟨world, [], .deadline⟩) ∨
      ¬timeout < elapsedTimeout ∧ ∃ polled,
        (∃ error, poll round.ready package (round.arrive world) =
            .throw error polled ∧
          requested = ⟨polled, [currTimeout], .pollThrew⟩) ∨
        poll round.ready package (round.arrive world) = .ok polled ∧
          ((polled.labelContents.messageID = polled.peer.messageID ∧
            requested = ⟨polled, [currTimeout], .matched⟩) ∨
          polled.labelContents.messageID ≠ polled.peer.messageID ∧
            ∃ result, requestLoop package timeout startTime rounds
                (timeout - (round.now - startTime)) (round.now - startTime)
                polled = .ok result ∧
              requested = { result with polls := currTimeout :: result.polls }) := by
  rw [requestLoop] at hloop
  by_cases hclock : timeout < elapsedTimeout
  · rw [if_pos hclock] at hloop
    exact Or.inl ⟨hclock, (Outcome.ok.inj hloop).symm⟩
  rw [if_neg hclock] at hloop
  refine Or.inr ⟨hclock, ?_⟩
  cases hpoll : poll round.ready package (round.arrive world) with
  | stuck reason => simp [hpoll] at hloop
  | throw error polled =>
      simp only [hpoll] at hloop
      exact ⟨polled, Or.inl ⟨error, rfl, (Outcome.ok.inj hloop).symm⟩⟩
  | ok polled =>
      simp only [hpoll] at hloop
      refine ⟨polled, Or.inr ⟨rfl, ?_⟩⟩
      split at hloop
      · rename_i hmatch
        exact Or.inl ⟨hmatch, (Outcome.ok.inj hloop).symm⟩
      · rename_i hother
        obtain ⟨result, hresult, rfl⟩ := Outcome.map_eq_ok.mp hloop
        exact Or.inr ⟨hother, result, hresult, rfl⟩

theorem polls_ne_nil_of_matched {package : Package}
    {timeout startTime currTimeout elapsedTimeout : ℤ}
    {rounds : List (Round ι)} {world : World ι} {requested : Requested ι}
    (hloop : requestLoop package timeout startTime rounds currTimeout
      elapsedTimeout world = .ok requested)
    (hended : requested.ended = .matched) : requested.polls ≠ [] := by
  cases rounds with
  | nil =>
      rw [requestLoop] at hloop
      split at hloop
      · obtain rfl := Outcome.ok.inj hloop
        contradiction
      · contradiction
  | cons round rounds =>
      rcases requestLoop_cons_cases hloop with
        ⟨-, rfl⟩ | ⟨-, polled, ⟨error, -, rfl⟩ | ⟨-, ⟨-, rfl⟩ |
          ⟨-, result, -, rfl⟩⟩⟩
      · contradiction
      · simp
      · simp
      · simp

/-- A request ends with a match in its poll `count` if that poll is made and
accepts. -/
theorem requestLoop_matched_iff {package : Package}
    {timeout startTime currTimeout elapsedTimeout : ℤ}
    {rounds : List (Round ι)} {world : World ι} {count : ℕ} :
    (∃ requested, requestLoop package timeout startTime rounds currTimeout
        elapsedTimeout world = .ok requested ∧
      requested.ended = .matched ∧ requested.polls.length = count + 1) ↔
      ∃ ready state, (pollStates package timeout startTime rounds
        elapsedTimeout world)[count]? = some (ready, state) ∧
        Accepts package ready state := by
  induction rounds generalizing currTimeout elapsedTimeout world count with
  | nil =>
      rw [requestLoop, pollStates]
      split <;> simp
  | cons round rounds ih =>
      rw [requestLoop, pollStates]
      by_cases hclock : timeout < elapsedTimeout
      · simp [hclock]
      simp only [hclock, if_false]
      cases hpoll : poll round.ready package (round.arrive world) with
      | stuck reason =>
          cases count with
          | zero => simp [PollShows, hpoll]
          | succ count => simp
      | throw error polled =>
          cases count with
          | zero => simp [PollShows, hpoll]
          | succ count => simp
      | ok polled =>
          by_cases hmatch :
              polled.labelContents.messageID = polled.peer.messageID
          · simp only [hmatch, if_true]
            cases count with
            | zero => simp [PollShows, hpoll, hmatch]
            | succ count => simp
          · simp only [hmatch, if_false]
            cases count with
            | zero =>
                simp only [zero_add, List.length_eq_one_iff, Outcome.map_eq_ok]
                constructor
                · rintro ⟨requested, ⟨result, hresult, rfl⟩, hended, hpolls⟩
                  have hnone := polls_ne_nil_of_matched hresult hended
                  simp_all
                · rintro ⟨ready, state, hstate, other, hother, hsame⟩
                  obtain ⟨rfl, rfl⟩ := Prod.mk.inj (Option.some.inj hstate)
                  obtain rfl := Outcome.ok.inj (hpoll.symm.trans hother)
                  contradiction
            -- The loop goes round: the remaining polls are those of the rest.
            | succ count =>
                rw [List.getElem?_cons_succ, ← @ih
                  (timeout - (round.now - startTime)) _ polled count]
                constructor
                · rintro ⟨requested, hloop, hended, hpolls⟩
                  obtain ⟨result, hresult, rfl⟩ := Outcome.map_eq_ok.mp hloop
                  exact ⟨result, hresult, hended, Nat.succ.inj hpolls⟩
                · rintro ⟨result, hresult, hended, hpolls⟩
                  refine ⟨_, Outcome.map_eq_ok.mpr ⟨result, hresult, rfl⟩,
                    hended, ?_⟩
                  rw [List.length_cons, hpolls]

/-- A poll is made only if all polls before it returned with another ID. -/
theorem passesOver_of_lt {package : Package} {timeout startTime : ℤ}
    {rounds : List (Round ι)} {elapsedTimeout : ℤ} {world : World ι}
    {count earlier : ℕ} {ready : List Hub.Ready} {state : World ι}
    (hcount : (pollStates package timeout startTime rounds elapsedTimeout
      world)[count]? = some (ready, state)) (hearlier : earlier < count) :
    ∃ ready state, (pollStates package timeout startTime rounds elapsedTimeout
      world)[earlier]? = some (ready, state) ∧
      PassesOver package ready state := by
  induction rounds generalizing elapsedTimeout world count earlier with
  | nil => simp [pollStates] at hcount
  | cons round rounds ih =>
      rw [pollStates] at hcount ⊢
      by_cases hclock : timeout < elapsedTimeout
      · simp [hclock] at hcount
      obtain ⟨count, rfl⟩ : ∃ before, count = before + 1 :=
        ⟨count - 1, by omega⟩
      simp only [hclock, if_false, List.getElem?_cons_succ] at hcount ⊢
      cases hpoll : poll round.ready package (round.arrive world) with
      | stuck reason => simp [hpoll] at hcount
      | throw error polled => simp [hpoll] at hcount
      | ok polled =>
          by_cases hmatch :
              polled.labelContents.messageID = polled.peer.messageID
          · simp [hpoll, hmatch] at hcount
          simp only [hpoll, hmatch, if_false] at hcount ⊢
          cases earlier with
          | zero => exact ⟨_, _, rfl, polled, hpoll, hmatch⟩
          | succ earlier =>
              rw [List.getElem?_cons_succ]
              exact ih hcount (by omega)

/-- While the clock stays within the timeout, the request polls as long as all
polls return with another ID. -/
theorem exists_pollState {package : Package} {timeout startTime : ℤ}
    {rounds : List (Round ι)} {elapsedTimeout : ℤ} {world : World ι}
    {count : ℕ} (hclock : elapsedTimeout ≤ timeout)
    (hrounds : ∀ round ∈ rounds.take count, round.now - startTime ≤ timeout)
    {round : Round ι} (hround : rounds[count]? = some round)
    (hpasses : ∀ earlier < count, ∀ ready state,
      (pollStates package timeout startTime rounds elapsedTimeout
        world)[earlier]? = some (ready, state) →
      PassesOver package ready state) :
    ∃ state, (pollStates package timeout startTime rounds elapsedTimeout
      world)[count]? = some (round.ready, state) := by
  induction rounds generalizing elapsedTimeout world count with
  | nil => simp at hround
  | cons first rounds ih =>
      rw [pollStates, if_neg (not_lt.mpr hclock)] at hpasses ⊢
      cases count with
      | zero =>
          obtain rfl : first = round := by simpa using hround
          exact ⟨first.arrive world, rfl⟩
      | succ count =>
          obtain ⟨polled, hpoll, hother⟩ := hpasses 0 (Nat.succ_pos count) _ _ rfl
          simp only [hpoll, hother, if_false, List.getElem?_cons_succ] at hpasses ⊢
          apply ih (hrounds first (by simp))
            (fun next hnext => hrounds next (by simp [hnext]))
            (by simpa using hround)
          intro earlier hearlier ready state hstate
          exact hpasses (earlier + 1) (Nat.succ_lt_succ hearlier) ready state
            hstate

/-! ## What the polls leave unchanged -/

theorem poll_peer (ready : List Hub.Ready) (package : Package)
    (world : World ι) :
    (poll ready package world).Holds fun polled =>
      polled.peer = { world.peer with hub := polled.peer.hub } := by
  unfold poll
  cases world.peer.hub.poll pollin ready with
  | ok hub =>
      rw [Outcome.andThen_ok]
      split
      · exact (receiveMessages_spec _ _ _).mono fun polled hspec => hspec.peer
      · rfl
  | throw error hub => rfl
  | stuck reason => trivial

omit [DecidableEq ι] in
theorem arrive_peer (round : Round ι) (world : World ι) :
    (round.arrive world).peer =
      { world.peer with hub := (round.arrive world).peer.hub } := by
  unfold Round.arrive
  induction round.arrivals generalizing world with
  | nil => rfl
  | cons arrival rest ih => exact ih (world.arrive arrival.1 arrival.2)

theorem pollStates_keep {package : Package} {timeout startTime : ℤ}
    {rounds : List (Round ι)} {elapsedTimeout : ℤ} {world : World ι}
    (hshape : world.LabelShape) {ready : List Hub.Ready} {state : World ι}
    (hstate : (ready, state) ∈ pollStates package timeout startTime rounds
      elapsedTimeout world) :
    state.LabelShape ∧ state.peer.messageID = world.peer.messageID := by
  induction rounds generalizing elapsedTimeout world with
  | nil => simp [pollStates] at hstate
  | cons round rounds ih =>
      have harrived : (round.arrive world).LabelShape :=
        labelShape_invariant.arrive round hshape
      have hmessageID : (round.arrive world).peer.messageID =
          world.peer.messageID := by
        rw [arrive_peer]
      rw [pollStates] at hstate
      split at hstate
      · simp at hstate
      rcases List.mem_cons.mp hstate with hfirst | hrest
      · obtain ⟨rfl, rfl⟩ := Prod.mk.inj hfirst
        exact ⟨harrived, hmessageID⟩
      · have hpolled := labelShape_invariant.poll round.ready package harrived
        have hpeer := poll_peer round.ready package (round.arrive world)
        cases hpoll : poll round.ready package (round.arrive world) with
        | stuck reason => simp [hpoll] at hrest
        | throw error polled => simp [hpoll] at hrest
        | ok polled =>
            rw [hpoll, Outcome.holds_ok] at hpolled hpeer
            simp only [hpoll] at hrest
            split at hrest
            · simp at hrest
            · obtain ⟨hkept, hsame⟩ := ih hpolled hrest
              refine ⟨hkept, ?_⟩
              rw [hsame, hpeer, hmessageID]

/-! ## When a poll accepts a package -/

/-- The copies are defined and the sender's name is not rejected. -/
def Returns (package : Package) (frames : List (FrameData (Addr ι)))
    (world : World ι) : Prop :=
  (∃ heap, distribute (world.tempPackage package)
      (packageFrames world.heap frames) world.heap = .ok heap) ∧
    senderError (senderName world.heap frames)
      (labelAfter package frames world) = none

theorem pollShows_iff {p : MessageID → MessageID → Prop}
    {ready : List Hub.Ready} {package : Package} {world : World ι}
    {hub : Hub (Addr ι)} {port : Port (Addr ι)}
    {frames : List (FrameData (Addr ι))} (hshape : world.LabelShape)
    (htakes : Takes ready world hub port frames) :
    PollShows p package ready world ↔
      Returns package frames world ∧
        p (labelAfter package frames world).messageID world.peer.messageID := by
  rcases @poll_of_takes _ _ _ package _ _ _ _ hshape htakes with
    ⟨heap, hstore, hlabel, hpoll⟩ | ⟨hstuck, hpoll⟩
  · have hmessageID : (afterReceive hub.pollPortID package port frames
        (world.withHub hub) heap).peer.messageID = world.peer.messageID := rfl
    rw [PollShows, hpoll, Returns, hstore]
    cases senderError (senderName world.heap frames)
      (labelAfter package frames world) with
    | none => simp [hlabel, hmessageID]
    | some error => simp
  · rw [PollShows, hpoll, Returns, hstuck]
    simp

/-! ## Whose package is accepted -/

/-- Who sent a package, and which request it answers, if any.  The frames do
not say it. -/
structure Origin where
  sender : InterfaceDescription
  request : Option ℕ

/-- The package comes from the destination of the label and answers the given
request. -/
def Origin.Answers (origin : Origin) (label : Label) (request : ℕ) : Prop :=
  origin.sender = label.contents.dest ∧ origin.request = some request

/-- A match is the answer to the request. -/
def OwnReply (label : Label) (request : ℕ) (origins : ℕ → Origin)
    (outcome : Outcome Exn (Requested ι)) : Prop :=
  ∀ requested, outcome = .ok requested → requested.ended = .matched →
    (origins (requested.polls.length - 1)).Answers label request

/-- Every poll that takes another package than the answer and returns finds
another ID in the label buffer than the one of the request. -/
def OthersDiffer (package : Package) (label : Label) (request : ℕ)
    (origins : ℕ → Origin) (awaited : MessageID)
    (states : List (List Hub.Ready × World ι)) : Prop :=
  ∀ (count : ℕ) (ready : List Hub.Ready) (state : World ι) (hub : Hub (Addr ι))
    (port : Port (Addr ι)) (frames : List (FrameData (Addr ι))),
    states[count]? = some (ready, state) →
    Takes ready state hub port frames →
    ¬(origins count).Answers label request →
    Returns package frames state →
    (labelAfter package frames state).messageID ≠ awaited

def nextTaken (ready : List Hub.Ready) (world : World ι) :
    Option (List (FrameData (Addr ι))) :=
  (world.peer.hub.poll pollin ready).state?.bind fun hub =>
    (hub.findPort hub.pollPortID).bind Port.nextMultipart

omit [DecidableEq ι] in
theorem Takes.nextTaken {ready : List Hub.Ready} {world : World ι}
    {hub : Hub (Addr ι)} {port : Port (Addr ι)}
    {frames : List (FrameData (Addr ι))}
    (h : Takes ready world hub port frames) :
    nextTaken ready world = some frames := by
  rw [Peer.nextTaken, h.polled, Outcome.state?_ok, Option.bind_some, h.found,
    Option.bind_some, h.next]

theorem takes_of_pollShows {p : MessageID → MessageID → Prop}
    {ready : List Hub.Ready} {package : Package} {world : World ι}
    (hshows : PollShows p package ready world) :
    ∃ hub port frames, Takes ready world hub port frames := by
  obtain ⟨polled, hpoll, -⟩ := hshows
  unfold poll at hpoll
  obtain ⟨hub, hhub, hreceive⟩ := Outcome.andThen_eq_ok.mp hpoll
  split at hreceive
  · rename_i hreadable
    cases hport : hub.findPort hub.pollPortID with
    | none =>
        have hnone : (world.withHub hub).peer.hub.findPort hub.pollPortID =
            none := hport
        simp [receiveMessages, hnone] at hreceive
    | some port =>
        cases hnext : port.nextMultipart with
        | some frames => exact ⟨hub, port, frames, hhub, hreadable, hport, hnext⟩
        | none =>
            have hfound : (world.withHub hub).peer.hub.findPort hub.pollPortID =
                some port := hport
            rcases @receiveMessages_of_no_next _ _ _ package _ _ hfound hnext with
              ⟨error, consumed, hthrow⟩ | hstuck
            · rw [hthrow] at hreceive
              contradiction
            · rw [hstuck] at hreceive
              contradiction
  · contradiction

/-- A poll of a request shows how the label in the buffer compares to the one
the request has written. -/
theorem pollShows_of_push {p : MessageID → MessageID → Prop} {world : World ι}
    {label : Label} {sendPackage recvPackage : Package}
    {sent : Label × World ι} {timeout startTime elapsedTimeout : ℤ}
    {rounds : List (Round ι)} (hshape : world.LabelShape)
    (hsent : push label sendPackage world = .ok sent)
    {ready : List Hub.Ready} {state : World ι} {hub : Hub (Addr ι)}
    {port : Port (Addr ι)} {frames : List (FrameData (Addr ι))}
    (hstate : (ready, state) ∈ pollStates recvPackage timeout startTime rounds
      elapsedTimeout sent.2)
    (htakes : Takes ready state hub port frames) :
    PollShows p recvPackage ready state ↔ Returns recvPackage frames state ∧
      p (labelAfter recvPackage frames state).messageID
        (written label world).messageID := by
  obtain ⟨heap, sentFrames, hspec⟩ := sendSpec_of_ok hshape hsent
  have hawaited : sent.2.peer.messageID = (written label world).messageID := by
    rw [hspec.peer]
    rfl
  obtain ⟨hkept, hmessageID⟩ := pollStates_keep hspec.sentLabel.shape hstate
  rw [pollShows_iff hkept htakes, hmessageID, hawaited]

/-- A request of a reachable peer accepts nothing but its answer if and only if
every other package that its polls take leaves another ID in the label buffer
than that of the label the request wrote there. -/
theorem ownReply_iff {interfaces : Table InterfaceID (Interface ι)}
    {world : World ι} {label : Label} {sendPackage recvPackage : Package}
    {sent : Label × World ι} {timeout startTime : ℤ} {rounds : List (Round ι)}
    {request : ℕ} {origins : ℕ → Origin}
    (hreachable : Reachable interfaces world)
    (hsent : push label sendPackage world = .ok sent) :
    OwnReply label request origins
        (requestImpl recvPackage timeout startTime rounds sent.2) ↔
      OthersDiffer recvPackage label request origins
        (written label world).messageID
        (pollStates recvPackage timeout startTime rounds timeout sent.2) := by
  have haccepts : ∀ (count : ℕ) (ready : List Hub.Ready) (state : World ι)
      (hub : Hub (Addr ι)) (port : Port (Addr ι))
      (frames : List (FrameData (Addr ι))),
      (pollStates recvPackage timeout startTime rounds timeout
        sent.2)[count]? = some (ready, state) →
      Takes ready state hub port frames →
      (Accepts recvPackage ready state ↔ Returns recvPackage frames state ∧
        (labelAfter recvPackage frames state).messageID =
          (written label world).messageID) := by
    intro count ready state hub port frames hstate htakes
    exact pollShows_of_push hreachable.labelShape hsent
      (List.mem_of_getElem? hstate) htakes
  constructor
  · intro hown count ready state hub port frames hstate htakes hother hreturns
      hsame
    have hmatch := (haccepts _ _ _ _ _ _ hstate htakes).mpr ⟨hreturns, hsame⟩
    have hmatched : ∃ requested,
        requestImpl recvPackage timeout startTime rounds sent.2 =
          .ok requested ∧ requested.ended = .matched ∧
          requested.polls.length = count + 1 :=
      requestLoop_matched_iff.mpr ⟨ready, state, hstate, hmatch⟩
    obtain ⟨requested, hloop, hended, hpolls⟩ := hmatched
    have hanswers := hown requested hloop hended
    rw [hpolls] at hanswers
    exact hother hanswers
  · intro hdiffer requested hloop hended
    have hnonempty := polls_ne_nil_of_matched hloop hended
    obtain ⟨count, hpolls⟩ : ∃ count, requested.polls.length = count + 1 :=
      Nat.exists_eq_succ_of_ne_zero (by simpa using hnonempty)
    obtain ⟨ready, state, hstate, hmatch⟩ := requestLoop_matched_iff.mp
      ⟨requested, hloop, hended, hpolls⟩
    obtain ⟨hub, port, frames, htakes⟩ := takes_of_pollShows hmatch
    obtain ⟨hreturns, hsame⟩ := (haccepts _ _ _ _ _ _ hstate htakes).mp hmatch
    rw [hpolls]
    by_contra hother
    exact hdiffer count ready state hub port frames hstate htakes hother
      hreturns hsame

end Peer

/-! ## Two packages between a request and its reply -/

def foreign (messageID : MessageID) : List (FrameData (Addr Unit)) :=
  [.owned (socketIDOf 3), .owned [],
    .owned (Contents.encode ⟨messageID, 0, ⟨3, 0, 7⟩, ⟨1, 0, 5⟩⟩)]

def replyOf (messageID : MessageID) : List (FrameData (Addr Unit)) :=
  [.owned (socketIDOf 2), .owned [],
    .owned (Contents.encode ⟨messageID, 0, ⟨2, 0, 6⟩, ⟨1, 0, 5⟩⟩)]

def arriving (frames : List (FrameData (Addr Unit))) : Peer.Round Unit :=
  ⟨[(0, toWire frames)], portReady, 0⟩

def requesting : Label × World Unit :=
  (Peer.push (receiptOf 2) [] (peerOne [2] [])).state?.getD
    (receiptOf 2, peerOne [2] [])

theorem push_requesting :
    Peer.push (receiptOf 2) [] (peerOne [2] []) = .ok requesting := rfl

def foreignFirst (count : ℕ) : Peer.Origin :=
  if count = 0 then ⟨⟨3, 0, 7⟩, none⟩ else ⟨⟨2, 0, 6⟩, some 0⟩

theorem ownReply_foreignFirst :
    Peer.OwnReply (receiptOf 2) 0 foreignFirst
      (Peer.requestImpl [0] 10 0 [arriving (foreign 9), arriving (replyOf 1)]
        requesting.2) := by
  apply (Peer.ownReply_iff (reachable_peerOne (pullAt 6) [2] [])
    push_requesting).mpr
  intro count ready state hub port frames hstate htakes hother _
  cases count with
  | zero =>
      obtain ⟨rfl, rfl⟩ := Prod.mk.inj (Option.some.inj hstate)
      have hframes : frames = foreign 9 :=
        Option.some.inj (htakes.nextTaken.symm.trans (by decide))
      rw [hframes]
      decide
  | succ count => exact absurd ⟨rfl, rfl⟩ hother

/-- The request ends with a match on the package, which is not its answer. -/
def TakenForReply (frames : List (FrameData (Addr Unit))) : Prop :=
  ∃ requested, Peer.requestImpl [0] 10 0 [arriving frames] requesting.2 =
      .ok requested ∧
    requested.ended = .matched ∧ requested.polls.length = 1 ∧
    ¬Peer.OwnReply (receiptOf 2) 0 foreignFirst
      (Peer.requestImpl [0] 10 0 [arriving frames] requesting.2)

theorem takenForReply_of_ends {frames : List (FrameData (Addr Unit))}
    (hends : (Peer.requestImpl [0] 10 0 [arriving frames] requesting.2).map
      (fun requested => (requested.ended, requested.polls.length)) =
        .ok (.matched, 1)) : TakenForReply frames := by
  obtain ⟨requested, hrequested, hresult⟩ := Outcome.map_eq_ok.mp hends
  obtain ⟨hended, hpolls⟩ := Prod.mk.inj hresult
  refine ⟨requested, hrequested, hended, hpolls, ?_⟩
  intro hown
  have hanswers := hown requested hrequested hended
  rw [hpolls] at hanswers
  exact absurd hanswers.2 (by decide)

/-- A foreign package with the ID of the request is accepted, and so is a
package that leaves the label of the request in the buffer. -/
theorem request_accepts_foreign :
    TakenForReply (foreign 1) ∧ TakenForReply misframed :=
  ⟨takenForReply_of_ends (by decide), takenForReply_of_ends (by decide)⟩

end Dpn
