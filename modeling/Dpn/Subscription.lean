import Dpn.Fanout
import Dpn.Request

/-!
# The subscription table

A subscription interface that passes leaves the swapped label of the package in
the table, under the interface ID the package was addressed to.  Publish finds
the receipts of a topic there; the sends rewrite the peer ID of their source,
which is this peer, and nothing else.
-/

namespace Dpn

namespace Peer

variable {ι : Type*} [DecidableEq ι]

/-! ## The packages that are serviced -/

structure Service (ι : Type*) where
  ready : List Hub.Ready
  world : World ι

/-- The calls of `ServiceInterfaces` that a call makes, those of handlers
before the one that called the handler. -/
def services (interfaces : Table InterfaceID (Interface ι)) :
    ℕ → Call ι → World ι → List (Service ι)
  | depth + 1, .serviceInterfaces ready, world =>
      (match getPendingPackage ready world.peer.recvPackage Label.new world with
        | .ok (label, polled) =>
            match interfaces.lookup (label.getInterfaceID .dest) with
            | some interface =>
                let called := polled.log (.called (label.getInterfaceID .dest)
                  label (polled.view polled.peer.recvPackage))
                Outcome.collect (call interfaces depth)
                  (services interfaces depth) (interface.calls label called)
                  called
            | none => []
        | .throw _ _ => []
        | .stuck _ => []) ++ [⟨ready, world⟩]
  | _, _, _ => []

def packageLabel (heap : Heap (Addr ι)) :
    List (FrameData (Addr ι)) → Option Contents
  | _ :: _ :: labelFrame :: _ => some (Contents.decode (labelFrame.bytes heap))
  | _ => none

/-- The label of the package that is serviced, if it is addressed to a
subscription interface and the handler passes. -/
def acceptance (interfaces : Table InterfaceID (Interface ι))
    (service : Service ι) : Option Contents :=
  match (nextTaken service.ready service.world).bind
      (packageLabel service.world.heap),
    getPendingPackage service.ready service.world.peer.recvPackage Label.new
      service.world with
  | some label, .ok (_, polled) =>
      match interfaces.lookup label.dest.interfaceID with
      | some (.subscription handleSubscription) =>
          match (handleSubscription ⟨label⟩ (polled.log (.called
            label.dest.interfaceID ⟨label⟩
            (polled.view polled.peer.recvPackage)))).result with
          | .ok .pass => some label
          | _ => none
      | _ => none
  | _, _ => none

/-- The accepted labels for a topic, in order. -/
def acceptances (interfaces : Table InterfaceID (Interface ι))
    (topic : InterfaceID) (services : List (Service ι)) : List Contents :=
  (services.filterMap (acceptance interfaces)).filter fun label =>
    label.dest.interfaceID = topic

/-- The package that is serviced, if any, has a whole label. -/
def Intact (service : Service ι) : Prop :=
  ∀ hub port frames, Takes service.ready service.world hub port frames →
    (∀ frame ∈ frames, frame.Whole service.world.heap) ∧
      ∃ label, WellFormed service.world.heap frames label

theorem packageLabel_of_intact {service : Service ι} {label : Label}
    {polled : World ι} (hshape : service.world.LabelShape)
    (hintact : Intact service)
    (hpending : getPendingPackage service.ready
      service.world.peer.recvPackage Label.new service.world =
        .ok (label, polled)) :
    (nextTaken service.ready service.world).bind
      (packageLabel service.world.heap) = some label.contents := by
  rw [getPendingPackage_eq] at hpending
  cases hpoll : poll service.ready service.world.peer.recvPackage
    service.world with
  | stuck reason => simp [hpoll] at hpending
  | throw error final => simp [hpoll] at hpending
  | ok final =>
      rw [hpoll] at hpending
      obtain ⟨rfl, rfl⟩ := Prod.mk.inj (Outcome.ok.inj hpending)
      have hshows : PollShows (fun _ _ => True)
          service.world.peer.recvPackage service.ready service.world :=
        ⟨final, hpoll, trivial⟩
      obtain ⟨hub, port, frames, htakes⟩ := takes_of_pollShows hshows
      obtain ⟨hwhole, contents, hwellFormed⟩ := hintact hub port frames htakes
      have hafter := labelAfter_of_wellFormed
        service.world.peer.recvPackage hshape hwhole hwellFormed
      have hread : final.labelContents = contents := by
        rcases @poll_of_takes _ _ _ service.world.peer.recvPackage _ _ _ _
            hshape htakes with
          ⟨heap, -, hlabel, hresult⟩ | ⟨-, hstuck⟩
        · rw [hpoll] at hresult
          split at hresult
          · rw [Outcome.ok.inj hresult, hlabel, hafter]
          · contradiction
        · rw [hpoll] at hstuck
          contradiction
      rw [htakes.nextTaken, Option.bind_some, hread]
      obtain ⟨first, second, third, rest, rfl, -, -, rfl⟩ :=
        hwellFormed.exists_frames
      rfl

/-! ## The table -/

def receipts (topic : InterfaceID) (world : World ι) : List Label :=
  (world.peer.pubMap.lookup topic).getD []

/-- A receipt for the subscriber that sent the label. -/
structure Recorded (label : Contents) (receipt : Label) : Prop where
  dest : receipt.contents.dest = label.src
  portID : receipt.contents.src.portID = label.dest.portID
  interfaceID : receipt.contents.src.interfaceID = label.dest.interfaceID

/-- The table holds one receipt for each accepted label. -/
structure Registered (interfaces : Table InterfaceID (Interface ι))
    (serviced : List (Service ι)) (world : World ι) : Prop where
  shape : world.LabelShape
  entries : ∀ topic, List.Forall₂ Recorded
    (acceptances interfaces topic serviced) (receipts topic world)

omit [DecidableEq ι] in
theorem receipts_setReceipts_self (topic : InterfaceID)
    (stored : List Label) (world : World ι) :
    receipts topic (setReceipts topic stored world) = stored := by
  rw [receipts, setReceipts, AList.lookup_insert, Option.getD_some]

omit [DecidableEq ι] in
theorem receipts_setReceipts_of_ne {topic other : InterfaceID}
    (stored : List Label) (world : World ι) (hne : other ≠ topic) :
    receipts other (setReceipts topic stored world) = receipts other world := by
  rw [receipts, setReceipts, AList.lookup_insert_ne hne, receipts]

theorem recorded_restamped {peerID : PeerID} {labels : List Contents}
    {stored rewritten : List Label}
    (hrecorded : List.Forall₂ Recorded labels stored)
    (hrestamped : Restamped peerID stored rewritten) :
    List.Forall₂ Recorded labels rewritten := by
  induction hrecorded generalizing rewritten with
  | nil =>
      cases hrestamped
      exact .nil
  | cons hfirst hrest ih =>
      cases hrestamped with
      | cons hstamp htail =>
          refine .cons ?_ (ih htail)
          rcases hstamp with rfl | rfl
          · exact hfirst
          · exact ⟨hfirst.dest, hfirst.portID, hfirst.interfaceID⟩

variable {interfaces : Table InterfaceID (Interface ι)}
  {serviced : List (Service ι)}

omit [DecidableEq ι] in
theorem receipts_of_pubMap {world next : World ι}
    (hpubMap : next.peer.pubMap = world.peer.pubMap) (topic : InterfaceID) :
    receipts topic next = receipts topic world := by
  rw [receipts, hpubMap, receipts]

theorem Registered.of_pubMap {world next : World ι}
    (h : Registered interfaces serviced world) (hshape : next.LabelShape)
    (hpubMap : next.peer.pubMap = world.peer.pubMap) :
    Registered interfaces serviced next where
  shape := hshape
  entries := by
    intro topic
    rw [receipts_of_pubMap hpubMap]
    exact h.entries topic

/-- Calls other than those of `ServiceInterfaces` leave the receipts as they
are, up to the peer ID of their source. -/
theorem registered_invariant (interfaces : Table InterfaceID (Interface ι))
    (serviced : List (Service ι)) :
    CallInvariant (fun _ => True) (Registered interfaces serviced) where
  send := by
    intro label package world h
    exact sendMessages_holds h.shape fun _ _ _ hspec =>
      h.of_pubMap hspec.sentLabel.shape (by rw [hspec.peer])
  receive := by
    intro destPortID package world h
    apply (receiveMessages_spec destPortID package world).mono
    intro final hspec
    exact h.of_pubMap (labelShape_of_receive h.shape hspec) (by rw [hspec.peer])
  ports := fun _ _ h => h.of_pubMap (labelShape_of_eq h.shape rfl) rfl
  receipts := by
    intro topic stored rewritten world h hlookup hrestamped
    refine ⟨labelShape_of_eq h.shape rfl, ?_⟩
    intro other
    by_cases hother : other = topic
    · subst other
      have hstored : receipts topic world = stored := by
        rw [receipts, hlookup, Option.getD_some]
      rw [receipts_setReceipts_self]
      exact recorded_restamped (hstored ▸ h.entries topic) hrestamped
    · rw [receipts_setReceipts_of_ne _ _ hother]
      exact h.entries other
  resize := fun _ _ _ _ h _ => h.of_pubMap
    (labelShape_of_eq h.shape (setMessage_labelMessage _ (by simp))) rfl
  reset := fun _ _ h _ => h.of_pubMap
    (labelShape_of_eq h.shape (setMessage_labelMessage _ (by simp))) rfl
  write := fun _ _ _ _ _ h _ _ => h.of_pubMap
    (labelShape_of_eq h.shape (setMessage_labelMessage _ (by simp))) rfl
  changePackage := fun _ _ h _ => h.of_pubMap (labelShape_of_eq h.shape rfl) rfl
  remote := fun _ _ _ h hne => h.of_pubMap
    (labelShape_of_eq h.shape (setMessage_labelMessage _ (by simpa using hne)))
    rfl

/-! ## One service -/

theorem acceptances_append (topic : InterfaceID)
    (before after : List (Service ι)) :
    acceptances interfaces topic (before ++ after) =
      acceptances interfaces topic before ++
        acceptances interfaces topic after := by
  rw [acceptances, List.filterMap_append, List.filter_append]
  rfl

theorem Registered.skip {service : Service ι} {world : World ι}
    (h : Registered interfaces serviced world)
    (hnone : acceptance interfaces service = none) :
    Registered interfaces (serviced ++ [service]) world where
  shape := h.shape
  entries := by
    intro topic
    have hempty : acceptances interfaces topic [service] = [] := by
      simp [acceptances, hnone]
    rw [acceptances_append, hempty, List.append_nil]
    exact h.entries topic

theorem Registered.accept {service : Service ι} {world : World ι}
    {label : Contents} (h : Registered interfaces serviced world)
    (hsome : acceptance interfaces service = some label) :
    Registered interfaces (serviced ++ [service])
      (subscribe (Label.swap ⟨label⟩) world) where
  shape := by
    rw [subscribe_eq_setReceipts]
    exact labelShape_of_eq h.shape rfl
  entries := by
    intro topic
    have htopic : (Label.swap ⟨label⟩).getInterfaceID .src =
        label.dest.interfaceID := rfl
    rw [acceptances_append, subscribe_eq_setReceipts, htopic]
    by_cases hsame : topic = label.dest.interfaceID
    · subst topic
      have hone : acceptances interfaces label.dest.interfaceID [service] =
          [label] := by
        simp [acceptances, hsome]
      rw [hone, receipts_setReceipts_self]
      exact List.rel_append (h.entries _) (.cons ⟨rfl, rfl, rfl⟩ .nil)
    · have hempty : acceptances interfaces topic [service] = [] := by
        simp [acceptances, hsome, Ne.symm hsame]
      rw [hempty, List.append_nil, receipts_setReceipts_of_ne _ _ hsame]
      exact h.entries topic

/-- Handlers of subscriptions leave the label as it was. -/
def KeepsLabel (interfaces : Table InterfaceID (Interface ι)) : Prop :=
  ∀ interfaceID handleSubscription,
    interfaces.lookup interfaceID = some (.subscription handleSubscription) →
    ∀ label world, (handleSubscription label world).label = label

theorem call_of_not_service {depth : ℕ} {other : Call ι}
    (hother : ∀ ready, other ≠ .serviceInterfaces ready) (world : World ι) :
    call interfaces depth other world = call interfaces 0 other world ∧
      services interfaces depth other world = [] := by
  cases other with
  | serviceInterfaces ready => exact absurd rfl (hother ready)
  | _ =>
      cases depth with
      | zero => exact ⟨rfl, rfl⟩
      | succ depth => exact ⟨rfl, rfl⟩

theorem handler_registers {call : Call ι → World ι → Outcome Exn (World ι)}
    {interface : Interface ι} {service : Service ι} {label : Label}
    {called : World ι} (hkeeps : KeepsLabel interfaces)
    (hlookup : interfaces.lookup label.contents.dest.interfaceID =
      some interface)
    (haccepted : acceptance interfaces service =
      match interface with
      | .subscription handleSubscription =>
          match (handleSubscription label called).result with
          | .ok .pass => some label.contents
          | _ => none
      | _ => none)
    (hcalls : (Outcome.survive call (interface.calls label called)
      called).Holds (Registered interfaces serviced)) :
    (handleIncomingMessage call interface label called).Holds
      (Registered interfaces (serviced ++ [service])) := by
  cases interface with
  | pull handlePull =>
      apply Script.run_holds hcalls
      · exact fun _ _ hworld _ => hworld.skip haccepted
      · exact fun _ _ hworld => hworld.skip haccepted
  | reply handleReply =>
      apply Script.run_holds hcalls
      · intro status world hworld _
        cases status with
        | fail => exact hworld.skip haccepted
        | pass returnPackage =>
            have hsend := (registered_invariant interfaces _).send
              (handleReply label called).label.swap returnPackage world
              (hworld.skip haccepted)
            exact hsend.map fun _ hfinal => hfinal
      · exact fun _ _ hworld => hworld.skip haccepted
  | subscription handleSubscription =>
      have hlabel := hkeeps _ _ hlookup label called
      apply Script.run_holds hcalls
      · intro status world hworld hresult
        simp only [hresult] at haccepted
        cases status with
        | fail => exact hworld.skip haccepted
        | pass =>
            rw [hlabel]
            exact hworld.accept haccepted
      · intro herror world hworld
        apply hworld.skip
        rw [haccepted]
        dsimp only
        split
        · rename_i hpass
          exact absurd hpass (herror _)
        · rfl

theorem service_registers {depth : ℕ} (hkeeps : KeepsLabel interfaces)
    (hcall : ∀ (other : Call ι) (serviced : List (Service ι)) (world : World ι),
      Registered interfaces serviced world →
      (∀ service ∈ services interfaces depth other world, Intact service) →
      (call interfaces depth other world).Holds (Registered interfaces
        (serviced ++ services interfaces depth other world)))
    (ready : List Hub.Ready) {world : World ι}
    (h : Registered interfaces serviced world)
    (hintact : ∀ service ∈ services interfaces (depth + 1)
      (.serviceInterfaces ready) world, Intact service) :
    (serviceInterfaces interfaces (call interfaces depth) ready world).Holds
      (Registered interfaces (serviced ++ services interfaces (depth + 1)
        (.serviceInterfaces ready) world)) := by
  have hpolled := (registered_invariant interfaces serviced).getPendingPackage
    ready world.peer.recvPackage Label.new h
  have hwhole : Intact ⟨ready, world⟩ :=
    hintact _ (by rw [services]; exact List.mem_append_right _ (by simp))
  rw [services] at hintact ⊢
  unfold serviceInterfaces
  dsimp only at hintact ⊢
  cases hpending : getPendingPackage ready world.peer.recvPackage Label.new
    world with
  | stuck reason => trivial
  | throw error result =>
      rw [hpending] at hpolled
      apply Registered.skip hpolled
      simp only [acceptance, hpending]
      split <;> simp_all
  | ok result =>
      obtain ⟨label, polled⟩ := result
      rw [hpending] at hpolled hintact
      have hpackage := @packageLabel_of_intact _ _ ⟨ready, world⟩ _ _ h.shape
        hwhole hpending
      dsimp only at hpackage hintact ⊢
      cases hlookup : interfaces.lookup (label.getInterfaceID .dest) with
      | none =>
          apply Registered.skip hpolled
          have hnone : interfaces.lookup label.contents.dest.interfaceID =
            none := hlookup
          simp only [acceptance, hpending, hpackage, hnone]
      | some interface =>
          simp only [hlookup] at hintact ⊢
          rw [← List.append_assoc]
          have hlogged : Registered interfaces serviced (polled.log (.called
              (label.getInterfaceID .dest) label
              (polled.view polled.peer.recvPackage))) :=
            Registered.of_pubMap hpolled
              (labelShape_of_eq (Registered.shape hpolled) rfl) rfl
          apply handler_registers hkeeps hlookup
          · have hfound : interfaces.lookup label.contents.dest.interfaceID =
              some interface := hlookup
            simp only [acceptance, hpending, hpackage, hfound]
            cases interface with
            | pull handlePull => rfl
            | reply handleReply => rfl
            | subscription handleSubscription =>
                rfl
          · apply Outcome.Holds.collect ?_ hlogged
            · exact fun service hservice =>
                hintact service (List.mem_append_left _ hservice)
            · exact fun other _ before next hnext hgood =>
                hcall other before next hnext hgood

/-- Every call keeps the table in step with the services it makes, by induction
on how deep handlers are nested. -/
theorem call_registers (hkeeps : KeepsLabel interfaces) (depth : ℕ)
    (other : Call ι) (serviced : List (Service ι)) (world : World ι)
    (h : Registered interfaces serviced world)
    (hintact : ∀ service ∈ services interfaces depth other world,
      Intact service) :
    (call interfaces depth other world).Holds (Registered interfaces
      (serviced ++ services interfaces depth other world)) := by
  have hbase : ∀ (other : Call ι) (serviced : List (Service ι))
      (world : World ι), Registered interfaces serviced world →
      (call interfaces 0 other world).Holds
        (Registered interfaces serviced) := by
    intro other serviced world h
    apply (registered_invariant interfaces serviced).perform ?_ trivial h
    intro ready next hnext
    trivial
  induction depth generalizing other serviced world with
  | zero =>
      rw [services, List.append_nil]
      · exact hbase other serviced world h
      · simp
  | succ depth ih =>
      -- No other call depends on the depth.
      by_cases hservice : ∃ ready, other = .serviceInterfaces ready
      · obtain ⟨ready, rfl⟩ := hservice
        exact service_registers hkeeps ih ready h hintact
      · obtain ⟨hcall, hnone⟩ := @call_of_not_service ι _ interfaces
          (depth + 1) other (fun ready heq => hservice ⟨ready, heq⟩) world
        rw [hcall, hnone, List.append_nil]
        exact hbase other serviced world h

/-! ## Runs and publishing -/

def servicesOf (interfaces : Table InterfaceID (Interface ι)) (depth : ℕ)
    (calls : List (Call ι)) (world : World ι) : List (Service ι) :=
  Outcome.collect (call interfaces depth) (services interfaces depth) calls world

theorem run_registers (hkeeps : KeepsLabel interfaces) {depth : ℕ}
    {calls : List (Call ι)} {initial world : World ι} (hinitial : Initial initial)
    (hrun : Outcome.run (call interfaces depth) calls initial = some world)
    (hintact : ∀ service ∈ servicesOf interfaces depth calls initial,
      Intact service) :
    Registered interfaces (servicesOf interfaces depth calls initial) world := by
  have hempty : Registered interfaces [] initial := by
    refine ⟨hinitial.labelShape.1, ?_⟩
    obtain ⟨self, peerID, recvMessage, labelMemory, recvMemory, heap, -, rfl⟩ :=
      hinitial
    exact fun topic => .nil
  have hcollect := Outcome.Holds.collect (fun other _ before next hnext hgood =>
    call_registers hkeeps depth other before next hnext hgood) hempty hintact
  rw [Outcome.run_eq_some_iff.mp hrun, Outcome.holds_ok] at hcollect
  exact hcollect

/-- A send of a publication to the sender of an accepted label. -/
structure Attempted (peerID : PeerID) (label : Contents)
    (record : SendRecord ι) : Prop where
  localPort : record.localPort = label.dest.portID
  portName : record.portName = PortSpecification.getPortName
    ⟨peerIDtoHubName label.src.peerID, label.src.portID⟩
  dest : record.written.dest = label.src
  src : record.written.src = { label.dest with peerID := peerID }

omit [DecidableEq ι] in
theorem attempted_of_addressed {world : World ι} {labels : List Contents}
    {stored : List Label} {records : List (SendRecord ι)}
    (hrecorded : List.Forall₂ Recorded labels stored)
    (haddressed : List.Forall₂ (Addressed world) stored records) :
    List.Forall₂ (Attempted world.peer.peerID) labels records := by
  induction hrecorded generalizing records with
  | nil =>
      cases haddressed
      exact .nil
  | @cons label receipt _ _ hfirst _ ih =>
      cases haddressed with
      | @cons _ record _ _ hsent htail =>
          refine .cons ⟨?_, ?_, ?_, ?_⟩ (ih htail)
          · rw [hsent.localPort]
            exact hfirst.portID
          · rw [hsent.portName, destPortName]
            simp only [Label.getPeerID, Label.getPortID, Label.getEndpoint,
              hfirst.dest]
          · rw [hsent.dest, hfirst.dest]
          · rw [hsent.src]
            simp only [hfirst.portID, hfirst.interfaceID]

/-- Publish sends once to the sender of each accepted label, in order. -/
def PublishesTo (topic : InterfaceID) (labels : List Contents)
    (world : World ι) : Prop :=
  ∀ label package, label.getInterfaceID .src = topic →
    (∀ receipt ∈ receipts topic world, Reaches receipt world) →
    ∃ final records, publish label package world = .ok final ∧
      final.trace = world.trace ++ records.map Event.sent ∧
      List.Forall₂ (Attempted world.peer.peerID) labels records

theorem Registered.publishesTo {world : World ι}
    (h : Registered interfaces serviced world) (topic : InterfaceID) :
    PublishesTo topic (acceptances interfaces topic serviced) world := by
  rintro label package rfl hreaches
  have hentries := h.entries (label.getInterfaceID .src)
  unfold receipts at hreaches hentries
  cases hlookup : world.peer.pubMap.lookup (label.getInterfaceID .src) with
  | none =>
      rw [hlookup, Option.getD_none, List.forall₂_nil_right_iff] at hentries
      rw [hentries]
      exact ⟨world, [], by simp only [publish, hlookup], by simp, .nil⟩
  | some stored =>
      rw [hlookup, Option.getD_some] at hreaches hentries
      obtain ⟨final, records, hpublish, htrace, haddressed, -⟩ :=
        @publish_of_reaches ι _ label package stored world h.shape hlookup
          hreaches
      exact ⟨final, records, hpublish, htrace,
        attempted_of_addressed hentries haddressed⟩

/-- After any run on intact labels, the table holds one receipt for each
accepted subscription and nothing else, in order, and publishing addresses
exactly them. -/
theorem subscriptions_recorded {depth : ℕ} {calls : List (Call ι)}
    {initial world : World ι} (hkeeps : KeepsLabel interfaces)
    (hinitial : Initial initial)
    (hrun : Outcome.run (call interfaces depth) calls initial = some world)
    (hintact : ∀ service ∈ servicesOf interfaces depth calls initial,
      Intact service) (topic : InterfaceID) :
    List.Forall₂ Recorded
        (acceptances interfaces topic
          (servicesOf interfaces depth calls initial)) (receipts topic world) ∧
      PublishesTo topic (acceptances interfaces topic
        (servicesOf interfaces depth calls initial)) world :=
  have h := run_registers hkeeps hinitial hrun hintact
  ⟨h.entries topic, h.publishesTo topic⟩

end Peer

/-! ## A subscription and a publication -/

def subscribeTo (interfaceID : InterfaceID) :
    Table InterfaceID (Peer.Interface Unit) :=
  (∅ : Table InterfaceID (Peer.Interface Unit)).insert interfaceID
    (.subscription fun label _ => ⟨[], label, .ok .pass⟩)

theorem keepsLabel_subscribeTo (interfaceID : InterfaceID) :
    Peer.KeepsLabel (subscribeTo interfaceID) := by
  intro other handleSubscription hlookup label world
  by_cases hother : other = interfaceID
  · subst other
    rw [subscribeTo, AList.lookup_insert] at hlookup
    obtain rfl := Peer.Interface.subscription.inj (Option.some.inj hlookup)
    rfl
  · rw [subscribeTo, AList.lookup_insert_ne hother] at hlookup
    contradiction

def subscriptionOf (peerID : PeerID) : Contents :=
  ⟨1, 0, ⟨peerID, 0, 7⟩, ⟨1, 0, 6⟩⟩

def subscribing (peerID : PeerID) : List (FrameData (Addr Unit)) :=
  [.owned (socketIDOf peerID), .owned [],
    .owned (subscriptionOf peerID).encode]

def published : List (Peer.Call Unit) :=
  [.managePorts (onePortHub 1 [2] (toWire (subscribing 2))),
    .serviceInterfaces portReady,
    .publish ⟨⟨0, 0, ⟨0, 0, 6⟩, ⟨0, 0, 0⟩⟩⟩ []]

theorem intact_of_subscribing {service : Peer.Service Unit} {peerID : PeerID}
    (hnext : Peer.nextTaken service.ready service.world =
      some (subscribing peerID)) : Peer.Intact service := by
  intro hub port frames htakes
  obtain rfl := Option.some.inj (htakes.nextTaken.symm.trans hnext)
  refine ⟨?_, subscriptionOf peerID, _, _, _, rfl, length_encode _,
    (decode_encode _).symm⟩
  intro frame hframe
  simp only [subscribing, List.mem_cons, List.not_mem_nil, or_false] at hframe
  rcases hframe with rfl | rfl | rfl <;> rfl

theorem subscriptions_recorded_published :
    ∃ world, Outcome.run (Peer.call (subscribeTo 6) 1) published freshPeer =
        some world ∧
      List.Forall₂ Peer.Recorded [subscriptionOf 2] (Peer.receipts 6 world) ∧
      Peer.PublishesTo 6 [subscriptionOf 2] world := by
  have hrun : (Outcome.run (Peer.call (subscribeTo 6) 1) published
      freshPeer).isSome := by decide
  obtain ⟨world, hworld⟩ := Option.isSome_iff_exists.mp hrun
  have hservices : ∃ service, Peer.servicesOf (subscribeTo 6) 1 published
      freshPeer = [service] ∧
      Peer.nextTaken service.ready service.world = some (subscribing 2) :=
    ⟨_, rfl, by decide⟩
  obtain ⟨service, hlist, hnext⟩ := hservices
  have haccepted : Peer.acceptances (subscribeTo 6) 6 (Peer.servicesOf
      (subscribeTo 6) 1 published freshPeer) = [subscriptionOf 2] := by
    decide
  refine ⟨world, hworld, ?_⟩
  rw [← haccepted]
  apply Peer.subscriptions_recorded (keepsLabel_subscribeTo 6)
    Peer.initial_freshPeer hworld
  intro other hother
  rw [hlist, List.mem_singleton] at hother
  exact hother ▸ intact_of_subscribing hnext

end Dpn
