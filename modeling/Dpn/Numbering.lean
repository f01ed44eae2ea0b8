import Dpn.PeerActs

/-!
# The labels that a peer writes

The counter of a peer is advanced by every send, also by one that ZMQ refuses,
and by nothing else.  Whatever users, handlers and other peers do in between,
the labels written in a run are numbered without a gap, and all of them name
the peer as their source and the port they are sent from.
-/

namespace Dpn

namespace Peer

variable {ι : Type*}

def sends (world : World ι) : List (SendRecord ι) :=
  world.trace.filterMap Event.sent?

/-- The record shows the label it was made for. -/
structure Faithful (peerID : PeerID) (record : SendRecord ι) : Prop where
  peerID : record.written.src.peerID = peerID
  localPort : record.localPort = record.written.src.portID
  portName : record.portName = PortSpecification.getPortName
    ⟨peerIDtoHubName record.written.dest.peerID, record.written.dest.portID⟩

/-- What was sent since a world with the given peer ID, counter and sends. -/
structure Numbered (peerID : PeerID) (start : MessageID)
    (before : List (SendRecord ι)) (records : List (SendRecord ι))
    (world : World ι) : Prop where
  sends : sends world = before ++ records
  self : world.peer.peerID = peerID
  counter : world.peer.messageID = start + UInt32.ofNat records.length
  messageID : ∀ (i : ℕ) (record : SendRecord ι), records[i]? = some record →
    record.written.messageID = start + UInt32.ofNat (i + 1)
  faithful : ∀ record ∈ records, Faithful peerID record

theorem sends_log_of_none {event : Event ι} {world next : World ι}
    (htrace : next.trace = world.trace ++ [event])
    (hevent : event.sent? = none) : sends next = sends world := by
  rw [sends, htrace, List.filterMap_append, List.filterMap_cons_none hevent,
    List.filterMap_nil, List.append_nil, sends]

/-- Nothing was sent, and the peer is still the same one. -/
structure Quiet (world next : World ι) : Prop where
  sends : sends next = sends world
  peerID : next.peer.peerID = world.peer.peerID
  messageID : next.peer.messageID = world.peer.messageID

theorem Numbered.quiet {peerID : PeerID} {start : MessageID}
    {before records : List (SendRecord ι)} {world next : World ι}
    (h : Numbered peerID start before records world)
    (hquiet : Quiet world next) :
    Numbered peerID start before records next where
  sends := hquiet.sends.trans h.sends
  self := hquiet.peerID.trans h.self
  counter := hquiet.messageID.trans h.counter
  messageID := h.messageID
  faithful := h.faithful

/-- One more send, whose label has the next number. -/
structure SendsOne (world next : World ι) (record : SendRecord ι) : Prop where
  sends : sends next = sends world ++ [record]
  peerID : next.peer.peerID = world.peer.peerID
  messageID : next.peer.messageID = world.peer.messageID + 1
  number : record.written.messageID = world.peer.messageID + 1
  faithful : Faithful world.peer.peerID record

theorem Numbered.sendsOne {peerID : PeerID} {start : MessageID}
    {before records : List (SendRecord ι)} {world next : World ι}
    {record : SendRecord ι} (h : Numbered peerID start before records world)
    (hone : SendsOne world next record) :
    Numbered peerID start before (records ++ [record]) next := by
  have hnext : start + UInt32.ofNat (records.length + 1) =
      world.peer.messageID + 1 := by
    rw [h.counter, UInt32.ofNat_add, UInt32.add_assoc]
    rfl
  constructor
  · rw [hone.sends, h.sends, List.append_assoc]
  · rw [hone.peerID, h.self]
  · rw [hone.messageID, List.length_append, List.length_singleton, hnext]
  · intro i other hother
    rcases Nat.lt_trichotomy i records.length with hlt | rfl | hgt
    · rw [List.getElem?_append_left hlt] at hother
      exact h.messageID i other hother
    · rw [List.getElem?_concat_length] at hother
      obtain rfl := Option.some.inj hother
      rw [hone.number, hnext]
    · rw [List.getElem?_eq_none (by simp; omega)] at hother
      contradiction
  · intro other hother
    rcases List.mem_append.mp hother with hold | hnew
    · exact h.faithful other hold
    · rw [List.mem_singleton.mp hnew, ← h.self]
      exact hone.faithful

variable [DecidableEq ι]

theorem sendMessages_sendsOne (label : Label) (package : Package)
    (world : World ι) :
    (sendMessages label package world).Holds fun result =>
      ∃ record, SendsOne world result.2 record := by
  simp only [sendMessages]
  split
  · trivial
  · have hany : ∀ outcome : Outcome Exn (SendState (Addr ι)),
        outcome.Holds fun _ => True := by
      intro outcome
      cases outcome <;> trivial
    apply (hany _).map
    intro result _
    refine ⟨⟨label.getPortID .src, destPortName label, written label world,
      result.sent⟩, ?_, rfl, rfl, rfl, rfl, rfl, rfl⟩
    rw [sends, List.filterMap_append]
    rfl

theorem receiveMessages_quiet (destPortID : PortID) (package : Package)
    (world : World ι) :
    (receiveMessages destPortID package world).Holds (Quiet world) := by
  apply (receiveMessages_spec destPortID package world).mono
  intro final hspec
  refine ⟨?_, by rw [hspec.peer], by rw [hspec.peer]⟩
  rcases hspec.stored with ⟨-, htrace⟩ | ⟨port, frames, -, -, -, htrace⟩
  · rw [sends, htrace, sends]
  · exact sends_log_of_none htrace rfl

theorem poll_quiet (ready : List Hub.Ready) (package : Package)
    (world : World ι) :
    (poll ready package world).Holds (Quiet world) := by
  unfold poll
  cases world.peer.hub.poll pollin ready with
  | ok hub =>
      rw [Outcome.andThen_ok]
      split
      · apply (receiveMessages_quiet hub.pollPortID package
          (world.withHub hub)).mono
        intro final hquiet
        exact ⟨hquiet.sends, hquiet.peerID, hquiet.messageID⟩
      · exact ⟨rfl, rfl, rfl⟩
  | throw error hub => exact ⟨rfl, rfl, rfl⟩
  | stuck reason => trivial

/-- Only a send is numbered. -/
theorem act_numbers (single : Act ι) (world : World ι) :
    (act single world).Holds fun next =>
      Quiet world next ∨ ∃ record, SendsOne world next record := by
  cases single with
  | send label package =>
      exact (sendMessages_sendsOne label package world).map
        fun _ hone => Or.inr hone
  | poll ready package =>
      exact (poll_quiet ready package world).mono fun _ hquiet => Or.inl hquiet
  | receipts topic receipts => exact Or.inl ⟨rfl, rfl, rfl⟩
  | subscribe label =>
      rw [act, subscribe_eq_setReceipts]
      exact Or.inl ⟨rfl, rfl, rfl⟩
  | called interfaceID label view =>
      exact Or.inl ⟨sends_log_of_none rfl rfl, rfl, rfl⟩
  | resize message size offset => exact Or.inl ⟨rfl, rfl, rfl⟩
  | reset message => exact Or.inl ⟨rfl, rfl, rfl⟩
  | write message position source =>
      rw [act]
      split
      · trivial
      · exact Or.inl ⟨rfl, rfl, rfl⟩
  | changePackage package => exact Or.inl ⟨rfl, rfl, rfl⟩
  | arrive portID frames => exact Or.inl ⟨rfl, rfl, rfl⟩
  | managePorts hub => exact Or.inl ⟨rfl, rfl, rfl⟩
  | remote peer labelMessage =>
      rw [act]
      split
      · exact Or.inl ⟨rfl, rfl, rfl⟩
      · exact Or.inl ⟨rfl, rfl, rfl⟩

omit [DecidableEq ι] in
theorem number_ne_of_lt {start : MessageID} {i j : ℕ} (hlt : i < j)
    (hnear : j < i + 2 ^ 32) :
    start + UInt32.ofNat (i + 1) ≠ start + UInt32.ofNat (j + 1) := by
  intro hsame
  have hnat := congrArg UInt32.toNat (UInt32.add_right_inj start |>.mp hsame)
  rw [UInt32.toNat_ofNat', UInt32.toNat_ofNat'] at hnat
  omega

/-- In every run the labels that a peer writes are numbered one after another,
name the peer and the port they are sent from, and are sent to the port they
name.  No two labels within 2^32 sends have the same number. -/
theorem labels_numbered {interfaces : Table InterfaceID (Interface ι)}
    {depth : ℕ} {calls : List (Call ι)} {world final : World ι}
    (hrun : Outcome.run (call interfaces depth) calls world = some final) :
    ∃ records, Numbered world.peer.peerID world.peer.messageID (sends world)
        records final ∧
      ∀ (i j : ℕ) (first second : SendRecord ι), records[i]? = some first →
        records[j]? = some second → i < j → j < i + 2 ^ 32 →
        first.written.messageID ≠ second.written.messageID := by
  have hact : ∀ single state,
      (∃ records, Numbered world.peer.peerID world.peer.messageID (sends world)
        records state) →
      (act single state).Holds fun next => ∃ records, Numbered
        world.peer.peerID world.peer.messageID (sends world) records next := by
    rintro single state ⟨records, h⟩
    apply (act_numbers single state).mono
    rintro next (hquiet | ⟨record, hone⟩)
    · exact ⟨records, h.quiet hquiet⟩
    · exact ⟨_, h.sendsOne hone⟩
  have hstart : Numbered world.peer.peerID world.peer.messageID (sends world)
      [] world :=
    ⟨by simp, rfl, by simp, by simp, by simp⟩
  obtain ⟨records, h⟩ := run_keeps hact ⟨[], hstart⟩ hrun
  refine ⟨records, h, ?_⟩
  intro i j first second hfirst hsecond hlt hnear
  rw [h.messageID i first hfirst, h.messageID j second hsecond]
  exact number_ne_of_lt hlt hnear

end Peer

theorem labels_numbered_echoing :
    ∃ final, Outcome.run (Peer.call (echoAt 6) 1) echoing freshPeer =
        some final ∧
      ∃ records, Peer.Numbered 1 0 [] records final ∧
        ∀ (i j : ℕ) (first second : SendRecord Unit),
          records[i]? = some first → records[j]? = some second →
          i < j → j < i + 2 ^ 32 →
          first.written.messageID ≠ second.written.messageID := by
  obtain ⟨final, hrun⟩ := exists_run_echoing
  exact ⟨final, hrun, Peer.labels_numbered hrun⟩

end Dpn
