import Dpn.ActEffects

/-!
# How many polls it takes to receive everything

The poller calls the handlers of all ports that are ready, and a poll receives
from the port whose handler came last.  So a port may be passed over again and
again, but not for ever: every poll that finds a package takes one, and as many
polls as there are packages receive all of them.
-/

namespace Dpn

/-- The packages that the ports of the hub are to receive, by their last
frames. -/
def Hub.waiting {α : Type*} (hub : Hub α) : ℕ :=
  FifoQueues.waiting hub.ports.keys fun portID =>
    (hub.incomingAt portID).filter fun frame => !frame.more

variable {ι : Type*}

theorem countP_toWire {α : Type*} {frames : List (FrameData α)}
    (hframes : frames ≠ []) :
    (toWire frames).countP (fun frame => !frame.more) = 1 := by
  induction frames with
  | nil => contradiction
  | cons first rest ih =>
      cases rest with
      | nil => rfl
      | cons next rest =>
          rw [toWire, List.countP_cons_of_neg (by simp), ih (by simp)]

theorem countP_flatMap_toWire {α : Type*} {queue : List (List (FrameData α))}
    (hqueue : ∀ frames ∈ queue, frames ≠ []) :
    (queue.flatMap toWire).countP (fun frame => !frame.more) =
      queue.length := by
  induction queue with
  | nil => rfl
  | cons frames rest ih =>
      rw [List.flatMap_cons, List.countP_append,
        countP_toWire (hqueue frames (by simp)),
        ih fun other hother => hqueue other (List.mem_cons_of_mem frames hother),
        List.length_cons, Nat.add_comm]

theorem Queued.waiting_eq {queues : PortID → List (List (FrameData (Addr ι)))}
    {hub : Hub (Addr ι)} (h : Queued queues hub) :
    hub.waiting = FifoQueues.waiting hub.ports.keys queues := by
  apply FifoQueues.waiting_congr
  intro portID hportID
  obtain ⟨port, hport⟩ : ∃ port, hub.findPort portID = some port :=
    Option.isSome_iff_exists.mp (AList.lookup_isSome.mpr hportID)
  rw [Hub.incomingAt, hport]
  dsimp only
  rw [h.incoming hport, ← List.countP_eq_length_filter]
  exact countP_flatMap_toWire fun frames hframes =>
    (h.fromPeer portID frames hframes).ne_nil

namespace Peer

variable [DecidableEq ι]

/-- What a run of polls and arrivals leaves. -/
theorem run_moves {queues : PortID → List (List (FrameData (Addr ι)))}
    {calls : List (PollingCall ι)} {world final : World ι}
    (hserving : world.peer.hub.Serving) (hqueued : Queued queues world.peer.hub)
    (hmeets : Outcome.RunMeets pollingStep PollingMeets calls world)
    (hrun : Outcome.run pollingStep calls world = some final) :
    ∃ current, final.peer.hub.Serving ∧ Queued current final.peer.hub ∧
      FifoQueues.Moves queues
        (Outcome.collect pollingStep pollingMoves calls world) current := by
  induction calls generalizing queues world with
  | nil =>
      obtain rfl := Option.some.inj hrun
      exact ⟨queues, hserving, hqueued, .nil queues⟩
  | cons call rest ih =>
      obtain ⟨next, middle, hnext, hkept, hmiddle, hmoves⟩ :=
        pollingStep_moves hserving hqueued hmeets.1
      rw [Outcome.run_cons, hnext] at hrun
      obtain ⟨current, hlast, hcurrent, hothers⟩ :=
        ih hkept hmiddle (hmeets.2 next hnext) hrun
      refine ⟨current, hlast, hcurrent, ?_⟩
      rw [Outcome.collect, hnext]
      exact hmoves.append hothers

/-- A poll leaves one package less, or there was none. -/
theorem poll_drains {queues : PortID → List (List (FrameData (Addr ι)))}
    {keys : List PortID} {ready : List Hub.Ready} {package : Package}
    {world : World ι} (hserving : world.peer.hub.Serving)
    (hqueued : Queued queues world.peer.hub)
    (hmeets : PollingMeets (.poll ready package) world) (hkeys : keys.Nodup)
    (hothers : ∀ portID, portID ∉ keys → queues portID = []) :
    ∃ next current,
      (pollingStep (.poll ready package) world).state? = some next ∧
      next.peer.hub.Serving ∧ Queued current next.peer.hub ∧
      FifoQueues.Moves queues (pollingMoves (.poll ready package) world)
        current ∧
      (∀ portID, portID ∉ keys → current portID = []) ∧
      FifoQueues.waiting keys current = FifoQueues.waiting keys queues - 1 := by
  by_cases hwaiting : ∃ portID, queues portID ≠ []
  · obtain ⟨polled, portID, frames, rest, htakes, hkept, htaken⟩ :=
      poll_takesHead hserving hqueued hmeets hwaiting
    have hkey : portID ∈ keys := by
      by_contra hother
      exact absurd ((hothers portID hother).symm.trans htakes.head)
        (List.cons_ne_nil _ _).symm
    have hless := FifoQueues.waiting_take hkeys hkey htakes.head
    refine ⟨polled, _, ?_, hkept, htakes.left, ?_, ?_, by omega⟩
    · rw [pollingStep, htakes.returned, Outcome.state?_ok]
    · rw [pollingMoves, htaken]
      exact .take htakes.head (.nil _)
    · intro other hother
      rw [Function.update_of_ne (ne_of_mem_of_not_mem hkey hother).symm]
      exact hothers other hother
  · push Not at hwaiting
    obtain ⟨failed, hthrow, hkept, hcurrent, hnone⟩ :=
      @poll_idle _ _ _ _ package _ hserving hqueued hmeets.1 hwaiting
    refine ⟨failed, queues, ?_, hkept, hcurrent, ?_, hothers, ?_⟩
    · rw [pollingStep, hthrow, Outcome.state?_throw]
    · rw [pollingMoves, hnone]
      exact .nil _
    · rw [FifoQueues.waiting_eq_zero_iff.mpr fun portID _ => hwaiting portID]

def polling (polls : List (List Hub.Ready × Package)) :
    List (PollingCall ι) :=
  polls.map fun call => .poll call.1 call.2

/-- With as many polls as there are packages none is left. -/
theorem polls_drain {queues : PortID → List (List (FrameData (Addr ι)))}
    {keys : List PortID} {polls : List (List Hub.Ready × Package)}
    {world : World ι} (hserving : world.peer.hub.Serving)
    (hqueued : Queued queues world.peer.hub)
    (hmeets : Outcome.RunMeets pollingStep PollingMeets (polling polls) world)
    (hkeys : keys.Nodup) (hothers : ∀ portID, portID ∉ keys → queues portID = [])
    (henough : FifoQueues.waiting keys queues ≤ polls.length) :
    ∃ final, Outcome.run pollingStep (polling polls) world = some final ∧
      Queued (fun _ => []) final.peer.hub ∧
      FifoQueues.Moves queues (Outcome.collect pollingStep pollingMoves
        (polling polls) world) fun _ => [] := by
  induction polls generalizing queues world with
  | nil =>
      have hempty : queues = fun _ => [] := by
        funext portID
        by_cases hkey : portID ∈ keys
        · exact FifoQueues.waiting_eq_zero_iff.mp (Nat.le_zero.mp henough)
            portID hkey
        · exact hothers portID hkey
      rw [hempty] at hqueued ⊢
      exact ⟨world, rfl, hqueued, .nil _⟩
  | cons call rest ih =>
      obtain ⟨next, current, hnext, hkept, hcurrent, hmoves, hleft, hless⟩ :=
        poll_drains hserving hqueued hmeets.1 hkeys hothers
      rw [List.length_cons] at henough
      obtain ⟨final, hfinal, hempty, hmoved⟩ := ih hkept hcurrent
        (hmeets.2 next hnext) hleft (by omega)
      refine ⟨final, ?_, hempty, ?_⟩
      · rw [polling, List.map_cons, Outcome.run_cons, hnext]
        exact hfinal
      · rw [polling, List.map_cons, Outcome.collect, hnext]
        exact hmoves.append hmoved

/-- The ports were each added once, what waits and what comes are packages of peers
with three to ten frames, the poller reports all that is readable, and the copies
of every poll fit.  Then from every state that polls and arrivals lead to, as
many polls as there are packages receive everything that is still there, in
whatever order the poller reports: port by port, what was received in the whole
run is what was there at its start and what came, in order. -/
theorem polls_receive_all {queues : PortID → List (List (FrameData (Addr ι)))}
    {calls : List (PollingCall ι)} {polls : List (List Hub.Ready × Package)}
    {world middle : World ι} (hadded : world.peer.hub.AddedOnce)
    (hqueued : Queued queues world.peer.hub)
    (hmeets : Outcome.RunMeets pollingStep PollingMeets
      (calls ++ polling polls) world)
    (hrun : Outcome.run pollingStep calls world = some middle)
    (henough : middle.peer.hub.waiting ≤ polls.length) :
    ∃ final, Outcome.run pollingStep (calls ++ polling polls) world =
        some final ∧
      final.peer.hub.waiting = 0 ∧
      ∀ portID, FifoQueues.takes portID (Outcome.collect pollingStep pollingMoves
          (calls ++ polling polls) world) =
        queues portID ++ FifoQueues.puts portID
          (Outcome.collect pollingStep pollingMoves
            (calls ++ polling polls) world) := by
  obtain ⟨hcalls, hpolls⟩ := Outcome.runMeets_append.mp hmeets
  obtain ⟨current, hserving, hcurrent, hmoves⟩ :=
    run_moves hadded.serving hqueued hcalls hrun
  have hothers : ∀ portID, portID ∉ middle.peer.hub.ports.keys →
      current portID = [] :=
    fun portID hother => hcurrent.unknown (AList.lookup_eq_none.mpr hother)
  rw [hcurrent.waiting_eq] at henough
  obtain ⟨final, hfinal, hempty, hmoved⟩ := polls_drain hserving hcurrent
    (hpolls middle hrun) middle.peer.hub.ports.keys_nodup hothers henough
  refine ⟨final, ?_, ?_, ?_⟩
  · rw [Outcome.run_append, hrun]
    exact hfinal
  · rw [hempty.waiting_eq]
    exact FifoQueues.waiting_eq_zero_iff.mpr fun _ _ => rfl
  · intro portID
    rw [Outcome.collect_append hrun]
    exact (hmoves.append hmoved).takes_of_empty portID

end Peer

theorem queued_twoPortPeer :
    Queued (fun _ => []) twoPortPeer.peer.hub := by
  have hempty : ∀ port ∈ twoPortPeer.peer.hub.ports.entries.map Sigma.snd,
      port.incoming = [] := by
    decide
  exact ⟨fun hport => hempty _ (Hub.mem_ports_iff.mpr ⟨_, hport⟩), fun _ => rfl,
    by simp⟩

/-- The second poll finds nothing. -/
theorem polls_receive_all_two :
    ∃ final, Outcome.run Peer.pollingStep
        ([.arrive 2 (sentTo 2)] ++
          Peer.polling [([⟨1, pollin⟩], [0]), ([], [0])]) twoPortPeer =
        some final ∧
      final.peer.hub.waiting = 0 ∧
      ∀ portID, FifoQueues.takes portID
          (Outcome.collect Peer.pollingStep Peer.pollingMoves
            ([.arrive 2 (sentTo 2)] ++
              Peer.polling [([⟨1, pollin⟩], [0]), ([], [0])]) twoPortPeer) =
        [] ++ FifoQueues.puts portID
          (Outcome.collect Peer.pollingStep Peer.pollingMoves
            ([.arrive 2 (sentTo 2)] ++
              Peer.polling [([⟨1, pollin⟩], [0]), ([], [0])]) twoPortPeer) := by
  refine Peer.polls_receive_all addedOnce_twoPortPeer queued_twoPortPeer ?_ rfl
    (by decide +kernel)
  refine ⟨⟨fromPeer_sentTo 2, _, rfl⟩, ?_⟩
  rintro first ⟨⟩
  refine ⟨⟨?_, ?_⟩, ?_⟩
  · rw [Hub.ReportsAll]
    decide
  · intro portID port frames hport hnext
    have hnexts : ∀ port ∈ (twoPortPeer.arrive 2
        (toWire (sentTo 2))).peer.hub.ports.entries.map Sigma.snd,
        port.nextMultipart = some (sentTo 2) ∨ port.nextMultipart = none := by
      decide
    rcases hnexts port (Hub.mem_ports_iff.mpr ⟨portID, hport⟩) with htwo | hnone
    · obtain rfl := Option.some.inj (hnext.symm.trans htwo)
      exact receivable_sentTo 2
    · rw [hnone] at hnext
      contradiction
  · intro second hsecond
    have hidle : ∀ next ∈ (Peer.pollingStep (.poll [⟨1, pollin⟩] [0])
        (twoPortPeer.arrive 2 (toWire (sentTo 2)))).state?,
        next.peer.hub.readable = [] ∧
        ∀ port ∈ next.peer.hub.ports.entries.map Sigma.snd,
          port.nextMultipart = none := by
      decide +kernel
    obtain ⟨hreadable, hnone⟩ := hidle second hsecond
    refine ⟨⟨?_, ?_⟩, fun _ _ => trivial⟩
    · rw [Hub.ReportsAll, hreadable]
    · intro portID port frames hport hnext
      rw [hnone port (Hub.mem_ports_iff.mpr ⟨portID, hport⟩)] at hnext
      contradiction

end Dpn
