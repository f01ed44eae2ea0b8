import Dpn.Polling
import Dpn.Stores

/-!
# What a failed request leaves in the package

Every poll of a request receives straight into the caller's package, and the ID
is compared afterwards.  So a request that ends without a match has stored what
the dropped packages carried.  This file lists the stores of all its polls and
says exactly when the package is as it was.
-/

namespace Dpn

/-! ## The stores of a request -/

namespace Peer

variable {ι : Type*} [DecidableEq ι]

/-- What a poll stores in the target. -/
def pollStores (target : Addr ι) (package : Package) (ready : List Hub.Ready)
    (world : World ι) : List Store :=
  match polledMultipart ready world with
  | none => []
  | some (_, frames) =>
      storesInto target (world.tempPackage package)
        (packageFrames world.heap frames) world.heap

theorem poll_leaves (target : Addr ι) (package : Package)
    (ready : List Hub.Ready) (world : World ι) :
    (poll ready package world).Holds fun polled =>
      Leaves (pollStores target package ready world) (world.heap target)
        (polled.heap target) := by
  have hkept : Leaves [] (world.heap target) (world.heap target) := .refl _
  rw [poll, pollStores, polledMultipart]
  cases hpoll : world.peer.hub.poll pollin ready with
  | stuck reason => trivial
  | throw error hub => exact hkept
  | ok hub =>
      dsimp only
      rw [Outcome.andThen_ok]
      by_cases hreadable : pollEventPresent hub.pollEventFlags pollin = true
      · rw [if_pos hreadable, if_pos hreadable]
        cases hport : hub.findPort hub.pollPortID with
        | none =>
            have hnone : (world.withHub hub).peer.hub.findPort
                hub.pollPortID = none := hport
            simp only [receiveMessages, hnone]
            trivial
        | some port =>
            rw [Option.bind_some]
            cases hnext : port.nextMultipart with
            | none =>
                rcases @receiveMessages_of_no_next _ _ hub.pollPortID package
                    (world.withHub hub) port hport hnext with
                  ⟨error, consumed, hthrow⟩ | hstuck
                · rw [hthrow]
                  exact hkept
                · rw [hstuck]
                  trivial
            | some frames =>
                exact (@receiveMessages_stores _ _ hub.pollPortID package
                  (world.withHub hub) port frames hport hnext).mono
                    fun received hreceived =>
                      leaves_of_distribute hreceived.2
      · rw [if_neg hreadable, if_neg hreadable]
        exact hkept

/-- What the polls of a request store in the target. -/
def requestStores (target : Addr ι) (package : Package)
    (timeout startTime : ℤ) (rounds : List (Round ι)) (elapsedTimeout : ℤ)
    (world : World ι) : List Store :=
  (pollStates package timeout startTime rounds elapsedTimeout world).flatMap
    fun state => pollStores target package state.1 state.2

omit [DecidableEq ι] in
theorem arrive_heap (round : Round ι) (world : World ι) :
    (round.arrive world).heap = world.heap := by
  unfold Round.arrive
  induction round.arrivals generalizing world with
  | nil => rfl
  | cons arrival rest ih => exact ih (world.arrive arrival.1 arrival.2)

theorem requestLoop_leaves {target : Addr ι} {package : Package}
    {timeout startTime currTimeout elapsedTimeout : ℤ}
    {rounds : List (Round ι)} {world : World ι} {requested : Requested ι}
    (hloop : requestLoop package timeout startTime rounds currTimeout
      elapsedTimeout world = .ok requested) :
    Leaves (requestStores target package timeout startTime rounds
      elapsedTimeout world) (world.heap target)
      (requested.world.heap target) := by
  induction rounds generalizing currTimeout elapsedTimeout world requested with
  | nil =>
      rw [requestLoop] at hloop
      split at hloop
      · obtain rfl := Outcome.ok.inj hloop
        exact .refl _
      · contradiction
  | cons round rounds ih =>
      have hfirst := poll_leaves target package round.ready (round.arrive world)
      rw [arrive_heap] at hfirst
      rw [requestStores, pollStates]
      rcases requestLoop_cons_cases hloop with
        ⟨hclock, rfl⟩ | ⟨hclock, polled, ⟨error, hpoll, rfl⟩ |
          ⟨hpoll, ⟨hmatch, rfl⟩ | ⟨hother, result, hresult, rfl⟩⟩⟩
      · rw [if_pos hclock]
        exact .refl _
      · rw [hpoll, Outcome.holds_throw] at hfirst
        simpa only [if_neg hclock, hpoll, List.flatMap_cons, List.flatMap_nil,
          List.append_nil] using hfirst
      · rw [hpoll, Outcome.holds_ok] at hfirst
        simpa only [if_neg hclock, hpoll, if_pos hmatch, List.flatMap_cons,
          List.flatMap_nil, List.append_nil] using hfirst
      · rw [hpoll, Outcome.holds_ok] at hfirst
        simp only [if_neg hclock, hpoll, if_neg hother, List.flatMap_cons]
        exact hfirst.trans (ih hresult)

/-! ## Failed requests -/

/-- The messages of the package have the size, the offset and the bytes they
had. -/
def KeepsPackage (package : Package) (world final : World ι) : Prop :=
  ∀ index ∈ package,
    (final.heap (.message index)).Same (world.heap (.message index))

/-- The request returns, and has not matched a reply: the deadline has passed,
or a poll has thrown. -/
def FailedWith (package : Package) (timeout startTime : ℤ)
    (rounds : List (Round ι)) (world : World ι) (requested : Requested ι) :
    Prop :=
  requestImpl package timeout startTime rounds world = .ok requested ∧
    requested.ended ≠ .matched

/-- No multipart that is taken has a frame for the message: the first frame
behind the empty one is the label, and the others go to the messages of the
package in their order. -/
def GetsNoFrame (package : Package) (index : ℕ)
    (states : List (List Hub.Ready × World ι)) : Prop :=
  ∀ state ∈ states, ∀ taken, polledMultipart state.1 state.2 = some taken →
    ∀ position, package[position]? = some index →
      (packageFrames state.2.heap taken.2).length ≤ position + 1

/-- A send takes the frame from a message, and nothing else. -/
theorem push_same {label : Label} {package : Package} {world : World ι}
    {sent : Label × World ι} (hshape : world.LabelShape)
    (hsent : push label package world = .ok sent) (index : ℕ) :
    (sent.2.heap (.message index)).Same (world.heap (.message index)) := by
  obtain ⟨heap, frames, hspec⟩ := sendSpec_of_ok hshape hsent
  have hother : heap (.message index) = world.heap (.message index) :=
    hspec.labelled.others _ (by simp)
  by_cases hreaches : Reaches label world
  · rw [(hspec.reached hreaches).1, emptyAll, hother]
    split <;> exact ⟨rfl, rfl, rfl⟩
  · rw [(hspec.unreached hreaches).2, hother]
    exact ⟨rfl, rfl, rfl⟩

omit [DecidableEq ι] in
theorem takes_of_polledMultipart {ready : List Hub.Ready} {world : World ι}
    {taken : PortID × List (FrameData (Addr ι))}
    (htaken : polledMultipart ready world = some taken) :
    ∃ hub port, Takes ready world hub port taken.2 := by
  unfold polledMultipart at htaken
  split at htaken
  · rename_i hub hpoll
    split at htaken
    · rename_i hreadable
      obtain ⟨frames, hframes, rfl⟩ := Option.map_eq_some_iff.mp htaken
      obtain ⟨port, hport, hnext⟩ := Option.bind_eq_some_iff.mp hframes
      exact ⟨hub, port, hpoll, hreadable, hport, hnext⟩
    · contradiction
  · contradiction
  · contradiction

theorem exists_distribute_of_polled {package : Package}
    {ready : List Hub.Ready} {world polled : World ι}
    {taken : PortID × List (FrameData (Addr ι))}
    (htaken : polledMultipart ready world = some taken)
    (hpolled : (poll ready package world).state? = some polled) :
    ∃ heap, distribute (world.tempPackage package)
      (packageFrames world.heap taken.2) world.heap = .ok heap := by
  obtain ⟨hub, port, htakes⟩ := takes_of_polledMultipart htaken
  have hstores := @receiveMessages_stores _ _ hub.pollPortID package
    (world.withHub hub) port _ htakes.found htakes.next
  rw [poll, htakes.polled, Outcome.andThen_ok, if_pos htakes.readable]
    at hpolled
  exact ⟨polled.heap, (Outcome.holds_iff_state?.mp hstores polled hpolled).2⟩

theorem pollStores_eq_nil_iff {index : ℕ} {package : Package}
    {ready : List Hub.Ready} {world polled : World ι}
    (hpolled : (poll ready package world).state? = some polled) :
    pollStores (.message index) package ready world = [] ↔
      ∀ taken, polledMultipart ready world = some taken →
        ∀ position, package[position]? = some index →
          (packageFrames world.heap taken.2).length ≤ position + 1 := by
  rw [pollStores]
  cases htaken : polledMultipart ready world with
  | none => simp
  | some taken =>
      obtain ⟨heap, hstore⟩ := exists_distribute_of_polled htaken hpolled
      simp only [Option.some.injEq, forall_eq']
      rw [storesInto_eq_nil_iff hstore]
      constructor
      · intro hall position hposition
        apply hall (position + 1)
        rw [World.tempPackage, List.getElem?_cons_succ, List.getElem?_map,
          hposition, Option.map_some]
      · rintro hall (_ | position) hmessage
        · simp [World.tempPackage] at hmessage
        · rw [World.tempPackage, List.getElem?_cons_succ, List.getElem?_map]
            at hmessage
          obtain ⟨found, hfound, heq⟩ := Option.map_eq_some_iff.mp hmessage
          obtain rfl := Addr.message.inj heq
          exact hall position hfound

theorem polls_return {package : Package}
    {timeout startTime currTimeout elapsedTimeout : ℤ}
    {rounds : List (Round ι)} {world : World ι} {requested : Requested ι}
    (hloop : requestLoop package timeout startTime rounds currTimeout
      elapsedTimeout world = .ok requested)
    {state : List Hub.Ready × World ι}
    (hstate : state ∈ pollStates package timeout startTime rounds
      elapsedTimeout world) :
    ∃ polled, (poll state.1 package state.2).state? = some polled := by
  induction rounds generalizing currTimeout elapsedTimeout world requested with
  | nil => simp [pollStates] at hstate
  | cons round rounds ih =>
      rw [pollStates] at hstate
      rcases requestLoop_cons_cases hloop with
        ⟨hclock, -⟩ | ⟨hclock, polled, ⟨error, hpoll, -⟩ |
          ⟨hpoll, ⟨hmatch, -⟩ | ⟨hother, result, hresult, -⟩⟩⟩
      · simp [hclock] at hstate
      · simp only [if_neg hclock, hpoll, List.mem_singleton] at hstate
        subst state
        exact ⟨polled, by rw [hpoll, Outcome.state?_throw]⟩
      · simp only [if_neg hclock, hpoll, if_pos hmatch, List.mem_singleton]
          at hstate
        subst state
        exact ⟨polled, by rw [hpoll, Outcome.state?_ok]⟩
      · simp only [if_neg hclock, hpoll, if_neg hother] at hstate
        rcases List.mem_cons.mp hstate with rfl | hrest
        · exact ⟨polled, by rw [hpoll, Outcome.state?_ok]⟩
        · exact ih hresult hrest

/-- A failed request leaves the package alone if and only if, for each of its
messages, no multipart that was taken has a frame for it, or the frames stored
in it are what was there already. -/
theorem failed_keeps_package_iff
    {interfaces : Table InterfaceID (Interface ι)} {world : World ι}
    {label : Label} {sendPackage recvPackage : Package}
    {sent : Label × World ι} {timeout startTime : ℤ} {rounds : List (Round ι)}
    {requested : Requested ι} (hreachable : Reachable interfaces world)
    (hsent : push label sendPackage world = .ok sent)
    (hfailed : FailedWith recvPackage timeout startTime rounds sent.2
      requested) :
    KeepsPackage recvPackage world requested.world ↔
      ∀ index ∈ recvPackage,
        GetsNoFrame recvPackage index (pollStates recvPackage timeout startTime
            rounds timeout sent.2) ∨
          Restores (requestStores (.message index) recvPackage timeout
            startTime rounds timeout sent.2) (world.heap (.message index)) := by
  apply forall₂_congr
  intro index _
  have hleaves : Leaves (requestStores (.message index) recvPackage timeout
      startTime rounds timeout sent.2) (sent.2.heap (.message index))
      (requested.world.heap (.message index)) :=
    requestLoop_leaves hfailed.1
  have hnone : requestStores (.message index) recvPackage timeout startTime
      rounds timeout sent.2 = [] ↔ GetsNoFrame recvPackage index
        (pollStates recvPackage timeout startTime rounds timeout sent.2) := by
    rw [requestStores, List.flatMap_eq_nil_iff]
    apply forall₂_congr
    intro state hstate
    obtain ⟨polled, hpolled⟩ := polls_return hfailed.1 hstate
    exact pollStores_eq_nil_iff hpolled
  rw [← hnone]
  exact (hleaves.of_same (push_same hreachable.labelShape hsent index)).same_iff

end Peer

/-! ## A package with a body that is dropped -/

def foreignWith (body : List (FrameData (Addr Unit))) : Peer.Round Unit :=
  ⟨[(0, toWire (foreign 9 ++ body))], portReady, 11⟩

theorem failed_keeps_package_label :
    ∃ requested,
      Peer.FailedWith [1] 10 0 [foreignWith []] requesting.2 requested ∧
      Peer.KeepsPackage [1] (peerOne [2] []) requested.world := by
  have hends : (Peer.requestImpl [1] 10 0 [foreignWith []] requesting.2).map
      Peer.Requested.ended = .ok .deadline := by
    decide
  obtain ⟨requested, hrequested, hended⟩ := Outcome.map_eq_ok.mp hends
  have hfailed : Peer.FailedWith [1] 10 0 [foreignWith []] requesting.2
      requested := ⟨hrequested, by rw [hended]; decide⟩
  refine ⟨requested, hfailed, ?_⟩
  apply (Peer.failed_keeps_package_iff (reachable_peerOne ∅ [2] [])
    push_requesting hfailed).mpr
  intro index _
  apply Or.inl
  intro state hstate taken htaken position _
  have hlabels : ∀ state ∈ Peer.pollStates [1] 10 0 [foreignWith []] 10
      requesting.2, ∀ taken ∈ Peer.polledMultipart state.1 state.2,
      (packageFrames state.2.heap taken.2).length ≤ 1 := by
    decide
  have hlabel := hlabels state hstate taken htaken
  omega

/-- The deadline passes after a package of peer 3, and its body stays in the
message, which had one byte before. -/
theorem dropped_package_stays :
    ∃ requested,
      Peer.FailedWith [1] 10 0 [foreignWith [.owned [3, 4]]] requesting.2
        requested ∧
      ¬Peer.KeepsPackage [1] (peerOne [2] []) requested.world := by
  have hends : (Peer.requestImpl [1] 10 0 [foreignWith [.owned [3, 4]]]
      requesting.2).map (fun requested =>
        (requested.ended, (requested.world.heap (.message 1)).size)) =
        .ok (.deadline, 2) := by
    decide
  obtain ⟨requested, hrequested, hresult⟩ := Outcome.map_eq_ok.mp hends
  obtain ⟨hended, hsize⟩ := Prod.mk.inj hresult
  refine ⟨requested, ⟨hrequested, by rw [hended]; decide⟩, ?_⟩
  intro hkeeps
  have hsame := (hkeeps 1 (List.mem_singleton_self 1)).size
  rw [hsize] at hsame
  exact absurd hsame (by decide)

end Dpn
