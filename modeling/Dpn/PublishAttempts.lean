import Dpn.Subscription

/-!
# Publishing to unreachable subscribers

The loop of Publish has no handler, so the first push that ZMQ refuses ends it.
A subscription without its local port is no such case: the hub only warns, and
the loop goes on.
-/

namespace Dpn

namespace Peer

variable {ι : Type*} [DecidableEq ι]

/-- The local port of the label is there, and ZMQ throws on its socket. -/
def Refused (label : Label) (world : World ι) : Prop :=
  (∃ port, world.peer.hub.findPort (label.getPortID .src) = some port) ∧
    ¬Reaches label world

/-- The push of a receipt; a reachable subscriber is sent the label and every
message of the package. -/
structure AttemptFor (package : Package) (world : World ι) (receipt : Label)
    (record : SendRecord ι) : Prop where
  localPort : record.localPort = receipt.getPortID .src
  portName : record.portName = destPortName receipt
  dest : record.written.dest = receipt.contents.dest
  sent : Reaches receipt world →
    record.bodies.length = package.length ∧
      ∃ address label, IsMultipart address (label :: record.bodies) record.frames

/-- Publish pushes every stored subscription, whether it then returns or
throws. -/
def AttemptsAll (label : Label) (package : Package) (world : World ι) : Prop :=
  ∃ final records, (publish label package world).state? = some final ∧
    final.trace = world.trace ++ records.map Event.sent ∧
    List.Forall₂ (AttemptFor package world)
      (receipts (label.getInterfaceID .src) world) records

/-! ## One push -/

omit [DecidableEq ι] in
theorem Reaches.hub_iff {receipt : Label} {world next : World ι}
    (hhub : next.peer.hub = world.peer.hub) :
    Reaches receipt next ↔ Reaches receipt world :=
  ⟨fun h => h.of_hub_eq hhub.symm, fun h => h.of_hub_eq hhub⟩

omit [DecidableEq ι] in
theorem Refused.hub_iff {receipt : Label} {world next : World ι}
    (hhub : next.peer.hub = world.peer.hub) :
    Refused receipt next ↔ Refused receipt world := by
  rw [Refused, Refused, Reaches.hub_iff hhub, hhub]

omit [DecidableEq ι] in
theorem AttemptFor.of_hub_eq {package : Package} {world next : World ι}
    {receipt : Label} {record : SendRecord ι}
    (h : AttemptFor package next receipt record)
    (hhub : next.peer.hub = world.peer.hub) :
    AttemptFor package world receipt record where
  localPort := h.localPort
  portName := h.portName
  dest := h.dest
  sent := fun hreaches => h.sent ((Reaches.hub_iff hhub).mpr hreaches)

theorem push_throws_iff {receipt : Label} {package : Package}
    {world : World ι} (hshape : world.LabelShape) :
    (∃ error result, push receipt package world = .throw error result) ↔
      Refused receipt world := by
  obtain ⟨heap, -, hsend⟩ :=
    @sendMessages_eq_hub_send ι _ receipt package world hshape
  rw [push, hsend, Refused]
  rcases hub_send_cases receipt world (world.tempPackage package) heap with
    ⟨hreaches, address, hdone⟩ | ⟨hunreached, hport, hdone⟩ |
      ⟨hunreached, hport, hdone⟩
  · rw [hdone]
    simp [hreaches]
  · rw [hdone]
    simp [hport]
  · rw [hdone]
    simp [hport, hunreached]

/-- All that the loop needs of a push, whether it returns or throws. -/
structure PushSpec (receipt : Label) (package : Package) (world : World ι)
    (result : Label × World ι) (record : SendRecord ι) : Prop where
  hub : result.2.peer.hub = world.peer.hub
  trace : result.2.trace = world.trace ++ [.sent record]
  attempt : AttemptFor package world receipt record
  shape : result.2.LabelShape

theorem push_spec {receipt : Label} {package : Package} {world : World ι}
    (hshape : world.LabelShape) :
    ∃ result record, PushSpec receipt package world result record ∧
      ((¬Refused receipt world ∧ push receipt package world = .ok result) ∨
        (Refused receipt world ∧ ∃ error,
          push receipt package world = .throw error result)) := by
  by_cases hreaches : Reaches receipt world
  · obtain ⟨result, record, hpush, h⟩ :=
      @push_of_reaches ι _ receipt package world hshape hreaches
    have hlength : record.bodies.length = package.length := by
      rw [h.bodies, bodyFrames, List.length_map, length_handOver,
        List.length_map]
    refine ⟨result, record, ⟨by rw [h.peer], h.trace, ?_, h.shape⟩,
      Or.inl ⟨fun hrefused => hrefused.2 hreaches, hpush⟩⟩
    exact ⟨h.addressed.localPort, h.addressed.portName, h.addressed.dest,
      fun _ => ⟨hlength, h.addressed.multipart⟩⟩
  · obtain ⟨result, heap, frames, hspec, hend, -⟩ :=
      @sendMessages_spec ι _ receipt package world hshape
    refine ⟨result, _, ⟨by rw [hspec.peer], hspec.trace,
      ⟨rfl, rfl, rfl, fun h => absurd h hreaches⟩, hspec.sentLabel.shape⟩, ?_⟩
    have hthrows := @push_throws_iff ι _ receipt package world hshape
    rcases hend with hok | hthrow
    · refine Or.inl ⟨fun hrefused => ?_, hok⟩
      obtain ⟨error, other, hthrow⟩ := hthrows.mpr hrefused
      exact absurd (hok.symm.trans hthrow) (by simp)
    · exact Or.inr ⟨hthrows.mp ⟨_, _, hthrow⟩, _, hthrow⟩

/-! ## The loop -/

/-- The loop pushes the receipts in front, and only a refusal of the last of
these keeps it from the ones behind. -/
structure LoopSpec (package : Package) (world : World ι)
    (front back : List Label) (records : List (SendRecord ι)) : Prop where
  attempts : List.Forall₂ (AttemptFor package world) front records
  returned : ∀ receipt ∈ front.dropLast, ¬Refused receipt world
  stopped : back ≠ [] → ∃ init last, front = init ++ [last] ∧
    Refused last world

theorem publishLoop_spec {package : Package} {receipts : List Label}
    {world : World ι} (hshape : world.LabelShape) :
    ∃ final front back records, receipts = front ++ back ∧
      (publishLoop package receipts world).state? = some final ∧
      final.2.trace = world.trace ++ records.map Event.sent ∧
      LoopSpec package world front back records := by
  induction receipts generalizing world with
  | nil =>
      exact ⟨([], world), [], [], [], rfl, rfl, by simp,
        ⟨.nil, by simp, fun h => absurd rfl h⟩⟩
  | cons receipt rest ih =>
      obtain ⟨result, record, hspec, ⟨hreturned, hpush⟩ | ⟨hrefused, error, hpush⟩⟩ :=
        @push_spec ι _ receipt package world hshape
      · obtain ⟨final, front, back, records, hrest, hloop, htrace, h⟩ :=
          ih hspec.shape
        refine ⟨(result.1 :: final.1, final.2), receipt :: front, back,
          record :: records, by rw [hrest, List.cons_append], ?_, ?_, ?_⟩
        · rw [publishLoop, hpush, Outcome.andThen_ok, Outcome.state?_map, hloop,
            Option.map_some]
        · rw [htrace, hspec.trace, List.append_assoc]
          rfl
        · constructor
          · refine .cons hspec.attempt (h.attempts.imp ?_)
            exact fun _ _ hattempt => hattempt.of_hub_eq hspec.hub
          · intro other hother
            cases front with
            | nil => simp at hother
            | cons second others =>
                rw [List.dropLast_cons_cons, List.mem_cons] at hother
                rcases hother with rfl | hother
                · exact hreturned
                · rw [← Refused.hub_iff hspec.hub]
                  exact h.returned other hother
          · intro hback
            obtain ⟨init, last, hfront, hlast⟩ := h.stopped hback
            exact ⟨receipt :: init, last, by rw [hfront, List.cons_append],
              (Refused.hub_iff hspec.hub).mp hlast⟩
      · refine ⟨(result.1 :: rest, result.2), [receipt], rest, [record], rfl,
          ?_, hspec.trace, ?_⟩
        · rw [publishLoop, hpush]
          rfl
        · exact ⟨.cons hspec.attempt .nil, by simp,
            fun _ => ⟨[], receipt, rfl, hrefused⟩⟩

omit [DecidableEq ι] in
theorem LoopSpec.all_iff {package : Package} {world : World ι}
    {front back : List Label} {records : List (SendRecord ι)}
    (h : LoopSpec package world front back records) :
    back = [] ↔ ∀ receipt ∈ (front ++ back).dropLast,
      ¬Refused receipt world := by
  constructor
  · rintro rfl
    rw [List.append_nil]
    exact h.returned
  · intro hall
    by_contra hback
    obtain ⟨init, last, rfl, hlast⟩ := h.stopped hback
    refine hall last ?_ hlast
    rw [List.dropLast_append_of_ne_nil hback]
    simp

/-! ## All attempts of a publication -/

theorem publish_spec {label : Label} {package : Package} {world : World ι}
    (hshape : world.LabelShape) :
    ∃ final front back records,
      receipts (label.getInterfaceID .src) world = front ++ back ∧
      (publish label package world).state? = some final ∧
      final.trace = world.trace ++ records.map Event.sent ∧
      LoopSpec package world front back records := by
  rw [receipts]
  cases hlookup : world.peer.pubMap.lookup (label.getInterfaceID .src) with
  | none =>
      refine ⟨world, [], [], [], rfl, ?_, by simp,
        ⟨.nil, by simp, fun h => absurd rfl h⟩⟩
      simp only [publish, hlookup, Outcome.state?_ok]
  | some stored =>
      obtain ⟨final, front, back, records, hstored, hloop, htrace, h⟩ :=
        @publishLoop_spec ι _ package stored world hshape
      refine ⟨setReceipts (label.getInterfaceID .src) final.1 final.2, front,
        back, records, hstored, ?_, htrace, h⟩
      simp only [publish, hlookup, Outcome.state?_map, hloop, Option.map_some]

/-- Publish pushes every stored subscription if and only if none is refused
but possibly the last. -/
theorem publish_attemptsAll_iff {interfaces : Table InterfaceID (Interface ι)}
    {label : Label} {package : Package} {world : World ι}
    (hreachable : Reachable interfaces world) :
    AttemptsAll label package world ↔
      ∀ receipt ∈ (receipts (label.getInterfaceID .src) world).dropLast,
        ¬Refused receipt world := by
  obtain ⟨final, front, back, records, hreceipts, hpublish, htrace, h⟩ :=
    @publish_spec ι _ label package world hreachable.labelShape
  rw [hreceipts, ← h.all_iff]
  constructor
  · rintro ⟨other, otherRecords, hother, hotherTrace, hattempts⟩
    obtain rfl : final = other := Option.some.inj (hpublish.symm.trans hother)
    have hsame : records.map Event.sent = otherRecords.map Event.sent :=
      List.append_cancel_left (htrace.symm.trans hotherTrace)
    have hlength := congrArg List.length hsame
    rw [List.length_map, List.length_map, ← h.attempts.length_eq,
      ← hattempts.length_eq, hreceipts, List.length_append] at hlength
    exact List.length_eq_zero_iff.mp (by omega)
  · rintro rfl
    rw [List.append_nil] at hreceipts
    refine ⟨final, records, hpublish, htrace, ?_⟩
    rw [hreceipts]
    exact h.attempts

end Peer

/-! ## Two subscribers, one of which is gone -/

def subscriptions : List (Peer.Call Unit) :=
  [.managePorts (onePortHub 1 [2, 3] (toWire (subscribing 2))),
    .serviceInterfaces portReady,
    .managePorts (onePortHub 1 [2, 3] (toWire (subscribing 3))),
    .serviceInterfaces portReady]

/-- Peers 2 and 3 have subscribed, and there are pipes to `routes`. -/
def subscribedPeer (routes : List PeerID) : World Unit :=
  ((Outcome.run (Peer.call (subscribeTo 6) 1) subscriptions freshPeer).getD
    freshPeer).withHub (onePortHub 1 routes [])

def topicLabel : Label := ⟨⟨0, 0, ⟨0, 0, 6⟩, ⟨0, 0, 0⟩⟩⟩

def subscriptionReceipt (peerID : PeerID) : Label :=
  ⟨⟨1, 0, ⟨1, 0, 6⟩, ⟨peerID, 0, 7⟩⟩⟩

theorem reachable_subscribedPeer (routes : List PeerID) :
    Peer.Reachable (subscribeTo 6) (subscribedPeer routes) := by
  have hrun : (Outcome.run (Peer.call (subscribeTo 6) 1) subscriptions
      freshPeer).isSome := by
    decide +kernel
  obtain ⟨world, hworld⟩ := Option.isSome_iff_exists.mp hrun
  refine ⟨freshPeer, 1,
    subscriptions ++ [.managePorts (onePortHub 1 routes [])],
    Peer.initial_freshPeer, ?_⟩
  rw [Outcome.run_append, subscribedPeer, hworld, Option.getD_some,
    Option.bind_some]
  rfl

theorem receipts_subscribedPeer (routes : List PeerID) :
    Peer.receipts (topicLabel.getInterfaceID .src) (subscribedPeer routes) =
      [subscriptionReceipt 2, subscriptionReceipt 3] := by
  have hreceipts : Peer.receipts 6 ((Outcome.run (Peer.call (subscribeTo 6) 1)
      subscriptions freshPeer).getD freshPeer) =
        [subscriptionReceipt 2, subscriptionReceipt 3] := by
    decide +kernel
  exact hreceipts

theorem not_refused_subscribedPeer {peerID : PeerID} {routes : List PeerID}
    (hroute : portNameToSocketID (Peer.destPortName (subscriptionReceipt peerID))
      .inproc ∈ routes.map socketIDOf) :
    ¬Peer.Refused (subscriptionReceipt peerID) (subscribedPeer routes) :=
  fun hrefused => hrefused.2 ⟨_, rfl, rfl, hroute⟩

theorem publish_attemptsAll_last_gone :
    Peer.Reachable (subscribeTo 6) (subscribedPeer [2]) ∧
      Peer.AttemptsAll topicLabel [1] (subscribedPeer [2]) := by
  refine ⟨reachable_subscribedPeer [2],
    (Peer.publish_attemptsAll_iff (reachable_subscribedPeer [2])).mpr ?_⟩
  rw [receipts_subscribedPeer]
  intro receipt hreceipt
  obtain rfl : receipt = subscriptionReceipt 2 := by simpa using hreceipt
  exact not_refused_subscribedPeer (by decide)

/-- The departed first subscriber silences the second one. -/
theorem publish_stops_at_first :
    Peer.Reachable (subscribeTo 6) (subscribedPeer [3]) ∧
      Peer.receipts (topicLabel.getInterfaceID .src) (subscribedPeer [3]) =
        [subscriptionReceipt 2, subscriptionReceipt 3] ∧
      Peer.Reaches (subscriptionReceipt 3) (subscribedPeer [3]) ∧
      (Peer.publish topicLabel [1] (subscribedPeer [3])).state?.map
        (fun final => ((final.trace.drop (subscribedPeer [3]).trace.length
          ).filterMap Event.sent?).map
            fun record => (record.written.dest.peerID, record.frames)) =
        some [(2, [])] ∧
      ¬Peer.AttemptsAll topicLabel [1] (subscribedPeer [3]) := by
  have hrun : (Peer.publish topicLabel [1] (subscribedPeer [3])).state?.map
      (fun final => ((final.trace.drop (subscribedPeer [3]).trace.length
        ).filterMap Event.sent?).map
          fun record => (record.written.dest.peerID, record.frames)) =
      some [(2, [])] := by
    decide +kernel
  refine ⟨reachable_subscribedPeer [3], receipts_subscribedPeer [3],
    ⟨_, rfl, rfl, by decide⟩, hrun, ?_⟩
  rintro ⟨final, records, hpublish, htrace, hattempts⟩
  rw [receipts_subscribedPeer] at hattempts
  rw [hpublish, Option.map_some, htrace, List.drop_left, List.filterMap_map,
    show Event.sent? ∘ Event.sent = (some : SendRecord Unit → _) from rfl,
    List.filterMap_some] at hrun
  have hlength := congrArg List.length (Option.some.inj hrun)
  rw [List.length_map, ← hattempts.length_eq] at hlength
  simp at hlength

end Dpn
