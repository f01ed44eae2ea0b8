import Dpn.PeerSpec

/-!
# Runs of a peer

What every run preserves is derived once: an assertion that survives a send, a
receive, the bookkeeping of subscriptions and the changes from outside survives
every call, including handlers that make calls of their own.
-/

namespace Dpn

namespace Peer

variable {ι : Type*} [DecidableEq ι]

/-! ## Rewritten receipts -/

/-- Stored receipts differ at most by having become labels of this peer. -/
def Restamped (peerID : PeerID) : List Label → List Label → Prop :=
  List.Forall₂ fun before after =>
    after = before ∨ after = before.setPeerID peerID .src

theorem restamped_refl (peerID : PeerID) (receipts : List Label) :
    Restamped peerID receipts receipts := by
  unfold Restamped
  induction receipts with
  | nil => exact .nil
  | cons receipt rest ih => exact .cons (Or.inl rfl) ih

/-- What a send leaves alone, in whatever state the label buffer is. -/
structure SendKeeps (label : Label) (world : World ι)
    (result : Label × World ι) : Prop where
  stamp : result.1 = stamped label world
  pubMap : result.2.peer.pubMap = world.peer.pubMap
  peerID : result.2.peer.peerID = world.peer.peerID

theorem sendMessages_keeps (label : Label) (package : Package)
    (world : World ι) :
    (sendMessages label package world).Holds (SendKeeps label world) := by
  simp only [sendMessages]
  split
  · trivial
  · have hany : ∀ outcome : Outcome Exn (SendState (Addr ι)),
        outcome.Holds fun _ => True := by
      intro outcome
      cases outcome <;> trivial
    exact (hany _).map fun result _ => ⟨rfl, rfl, rfl⟩

/-! ## Assertions that survive every call -/

/-- The assertion survives all calls but `ServiceInterfaces`, as long as the
calls on messages are allowed ones. -/
structure CallInvariant (allowed : Call ι → Prop) (inv : World ι → Prop) :
    Prop where
  send : ∀ label package world, inv world →
    (sendMessages label package world).Holds fun result => inv result.2
  receive : ∀ destPortID package world, inv world →
    (receiveMessages destPortID package world).Holds inv
  ports : ∀ hub world, inv world → inv (world.withHub hub)
  receipts : ∀ topic receipts rewritten world, inv world →
    world.peer.pubMap.lookup topic = some receipts →
    Restamped world.peer.peerID receipts rewritten →
    inv (setReceipts topic rewritten world)
  resize : ∀ message size offset world, inv world →
    allowed (.resize message size offset) →
    inv (world.setMessage (.message message)
      ((world.heap (.message message)).resize size offset))
  reset : ∀ message world, inv world → allowed (.reset message) →
    inv (world.setMessage (.message message)
      (world.heap (.message message)).reset)
  write : ∀ message position source written world, inv world →
    allowed (.write message position source) →
    (world.heap (.message message)).write position source = some written →
    inv (world.setMessage (.message message) written)
  changePackage : ∀ package world, inv world →
    allowed (.changePackage package) → inv (world.withPackage package)
  remote : ∀ peer labelMessage world, inv world → peer ≠ world.peer.self →
    inv (world.setMessage (.label peer) labelMessage)

namespace CallInvariant

variable {allowed : Call ι → Prop} {inv : World ι → Prop}

theorem publishLoop (h : CallInvariant allowed inv) (package : Package)
    {receipts : List Label} {world : World ι} (hinv : inv world) :
    (publishLoop package receipts world).Holds fun final =>
      inv final.2 ∧ Restamped world.peer.peerID receipts final.1 ∧
        final.2.peer.pubMap = world.peer.pubMap ∧
        final.2.peer.peerID = world.peer.peerID := by
  induction receipts generalizing world with
  | nil => exact ⟨hinv, restamped_refl _ [], rfl, rfl⟩
  | cons receipt rest ih =>
      have hsend := h.send receipt package world hinv
      have hkeeps := sendMessages_keeps receipt package world
      rw [Peer.publishLoop, push]
      cases hresult : sendMessages receipt package world with
      | stuck reason => trivial
      | throw error result =>
          rw [hresult] at hsend hkeeps
          -- The loop is left, and the receipts behind this one stay as stored.
          exact ⟨hsend, .cons (Or.inr hkeeps.stamp) (restamped_refl _ rest),
            hkeeps.pubMap, hkeeps.peerID⟩
      | ok result =>
          rw [hresult] at hsend hkeeps
          refine (ih hsend).map ?_
          rintro final ⟨hfinal, hrest, hpubMap, hpeerID⟩
          rw [hkeeps.peerID] at hrest hpeerID
          exact ⟨hfinal, .cons (Or.inr hkeeps.stamp) hrest,
            hpubMap.trans hkeeps.pubMap, hpeerID⟩

theorem publish (h : CallInvariant allowed inv) (label : Label)
    (package : Package) {world : World ι} (hinv : inv world) :
    (publish label package world).Holds inv := by
  unfold Peer.publish
  cases hlookup : world.peer.pubMap.lookup (label.getInterfaceID .src) with
  | none => exact hinv
  | some receipts =>
      refine (h.publishLoop package hinv).map ?_
      rintro final ⟨hfinal, hrestamped, hpubMap, hpeerID⟩
      rw [← hpubMap] at hlookup
      rw [← hpeerID] at hrestamped
      exact h.receipts _ receipts _ _ hfinal hlookup hrestamped

theorem poll (h : CallInvariant allowed inv) (ready : List Hub.Ready)
    (package : Package) {world : World ι} (hinv : inv world) :
    (poll ready package world).Holds inv := by
  unfold Peer.poll
  cases world.peer.hub.poll pollin ready with
  | ok hub =>
      rw [Outcome.andThen_ok]
      split
      · exact h.receive _ _ _ (h.ports hub world hinv)
      · exact h.ports hub world hinv
  | throw error hub => exact h.ports hub world hinv
  | stuck reason => trivial

theorem getPendingPackage (h : CallInvariant allowed inv)
    (ready : List Hub.Ready) (package : Package) (label : Label)
    {world : World ι} (hinv : inv world) :
    (getPendingPackage ready package label world).Holds
      fun result => inv result.2 :=
  (h.poll ready package hinv).andThen (fun _ hpolled => hpolled)
    fun _ hpolled => hpolled

theorem arrive (h : CallInvariant allowed inv) (round : Round ι)
    {world : World ι} (hinv : inv world) : inv (round.arrive world) := by
  unfold Round.arrive
  induction round.arrivals generalizing world with
  | nil => exact hinv
  | cons arrival rest ih => exact ih (h.ports _ world hinv)

theorem requestLoop (h : CallInvariant allowed inv) (package : Package)
    (timeout startTime : ℤ) {rounds : List (Round ι)}
    {currTimeout elapsedTimeout : ℤ} {world : World ι} (hinv : inv world) :
    (requestLoop package timeout startTime rounds currTimeout elapsedTimeout
      world).Holds fun requested => inv requested.world := by
  induction rounds generalizing currTimeout elapsedTimeout world with
  | nil =>
      unfold Peer.requestLoop
      split
      · exact hinv
      · trivial
  | cons round rounds ih =>
      unfold Peer.requestLoop
      split
      · exact hinv
      · have hpoll := h.poll round.ready package (h.arrive round hinv)
        cases hresult : Peer.poll round.ready package (round.arrive world) with
        | stuck reason => trivial
        | throw error polled =>
            rw [hresult] at hpoll
            exact hpoll
        | ok polled =>
            rw [hresult] at hpoll
            dsimp only
            split
            · exact hpoll
            · exact (ih hpoll).map fun _ hfinal => hfinal

theorem request (h : CallInvariant allowed inv) (label : Label)
    (sendPackage recvPackage : Package) (timeout startTime : ℤ)
    (rounds : List (Round ι)) {world : World ι} (hinv : inv world) :
    (request label sendPackage recvPackage timeout startTime rounds
      world).Holds fun result => inv result.2 :=
  (h.send label sendPackage world hinv).andThen (fun _ hsent => hsent)
    fun _ hsent =>
      (h.requestLoop recvPackage timeout startTime hsent).map
        fun _ hfinal => hfinal

theorem perform (h : CallInvariant allowed inv)
    {service : List Hub.Ready → World ι → Outcome Exn (World ι)}
    (hservice : ∀ ready world, inv world → (service ready world).Holds inv)
    {call : Call ι} (hallowed : allowed call) {world : World ι}
    (hinv : inv world) : (perform service call world).Holds inv := by
  cases call with
  | resize message size offset => exact h.resize _ _ _ _ hinv hallowed
  | reset message => exact h.reset _ _ hinv hallowed
  | write message position source =>
      cases hwrite : (world.heap (.message message)).write position source with
      | none => simp only [Peer.perform, hwrite, Outcome.holds_stuck]
      | some written =>
          simp only [Peer.perform, hwrite, Outcome.holds_ok]
          exact h.write _ _ _ _ _ hinv hallowed hwrite
  | push label package =>
      exact (h.send label package world hinv).map fun _ hfinal => hfinal
  | publish label package => exact h.publish label package hinv
  | request label sendPackage recvPackage timeout startTime rounds =>
      exact (h.request label sendPackage recvPackage timeout startTime rounds
        hinv).map fun _ hfinal => hfinal
  | getPendingPackage ready package label =>
      exact (h.getPendingPackage ready package label hinv).map
        fun _ hfinal => hfinal
  | serviceInterfaces ready => exact hservice ready world hinv
  | changePackage package => exact h.changePackage package world hinv hallowed
  | arrive portID frames => exact h.ports _ world hinv
  | managePorts hub => exact h.ports hub world hinv
  | remote peer labelMessage =>
      by_cases hself : peer = world.peer.self
      · simp only [Peer.perform, if_pos hself, Outcome.holds_ok]
        exact hinv
      · simp only [Peer.perform, if_neg hself, Outcome.holds_ok]
        exact h.remote peer labelMessage world hinv hself

end CallInvariant

def Interface.calls : Interface ι → Label → World ι → List (Call ι)
  | .pull handlePull, label, world => (handlePull label world).calls
  | .reply handleReply, label, world => (handleReply label world).calls
  | .subscription handleSubscription, label, world =>
      (handleSubscription label world).calls

def HandlersAllowed (allowed : Call ι → Prop)
    (interfaces : Table InterfaceID (Interface ι)) : Prop :=
  ∀ interfaceID interface, interfaces.lookup interfaceID = some interface →
    ∀ label world, ∀ call ∈ interface.calls label world, allowed call

omit [DecidableEq ι] in
theorem Script.run_holds {ρ : Type*} {p q : World ι → Prop}
    {call : Call ι → World ι → Outcome Exn (World ι)}
    {script : Script ι ρ} {next : ρ → World ι → Outcome Exn (World ι)}
    {world : World ι}
    (hcalls : (Outcome.survive call script.calls world).Holds p)
    (hnext : ∀ result world, p world → script.result = .ok result →
      (next result world).Holds q)
    (hend : (∀ result, script.result ≠ .ok result) → ∀ world, p world →
      q world) :
    (script.run call next world).Holds q := by
  unfold Script.run
  cases hsurvive : Outcome.survive call script.calls world with
  | ok final =>
      rw [hsurvive, Outcome.holds_ok] at hcalls
      rw [Outcome.andThen_ok]
      cases hresult : script.result with
      | ok result => exact hnext result final hcalls hresult
      | error error => exact hend (by simp [hresult]) final hcalls
  | throw error final =>
      exact absurd hsurvive (Outcome.survive_ne_throw _ _ _ _)
  | stuck reason => trivial

/-- The assertion survives `ServiceInterfaces` as well. -/
structure StepInvariant (allowed : Call ι → Prop) (inv : World ι → Prop) :
    Prop extends CallInvariant allowed inv where
  called : ∀ interfaceID label view world, inv world →
    inv (world.log (.called interfaceID label view))
  subscribe : ∀ label world, inv world → inv (subscribe label world)

namespace StepInvariant

variable {allowed : Call ι → Prop} {inv : World ι → Prop}

omit [DecidableEq ι] in
theorem script {ρ : Type*}
    {call : Call ι → World ι → Outcome Exn (World ι)}
    {script : Script ι ρ} {next : ρ → World ι → Outcome Exn (World ι)}
    (hcalls : ∀ other ∈ script.calls, ∀ world, inv world →
      (call other world).Holds inv)
    (hnext : ∀ result world, inv world → (next result world).Holds inv)
    {world : World ι} (hinv : inv world) :
    (script.run call next world).Holds inv :=
  Script.run_holds (Outcome.Holds.survive hinv hcalls)
    (fun result world hworld _ => hnext result world hworld)
    fun _ _ hworld => hworld

theorem handleIncomingMessage (h : StepInvariant allowed inv)
    {call : Call ι → World ι → Outcome Exn (World ι)} {interface : Interface ι}
    {label : Label} {world : World ι}
    (hcalls : ∀ other ∈ interface.calls label world, ∀ world, inv world →
      (call other world).Holds inv) (hinv : inv world) :
    (handleIncomingMessage call interface label world).Holds inv := by
  cases interface with
  | pull handlePull =>
      apply script hcalls ?_ hinv
      intro _ next hnext
      exact hnext
  | reply handleReply =>
      apply script hcalls ?_ hinv
      intro status next hnext
      cases status with
      | pass returnPackage =>
          exact (h.send _ returnPackage next hnext).map fun _ hfinal => hfinal
      | fail => exact hnext
  | subscription handleSubscription =>
      apply script hcalls ?_ hinv
      intro status next hnext
      cases status with
      | pass => exact h.subscribe _ next hnext
      | fail => exact hnext

theorem serviceInterfaces (h : StepInvariant allowed inv)
    {interfaces : Table InterfaceID (Interface ι)}
    (hhandlers : HandlersAllowed allowed interfaces)
    {call : Call ι → World ι → Outcome Exn (World ι)}
    (hcall : ∀ other, allowed other → ∀ world, inv world →
      (call other world).Holds inv) (ready : List Hub.Ready) {world : World ι}
    (hinv : inv world) :
    (serviceInterfaces interfaces call ready world).Holds inv := by
  have hpending := h.getPendingPackage ready world.peer.recvPackage Label.new
    hinv
  unfold Peer.serviceInterfaces
  cases hresult : Peer.getPendingPackage ready world.peer.recvPackage Label.new
    world with
  | stuck reason => trivial
  | throw error result =>
      rw [hresult] at hpending
      exact hpending
  | ok result =>
      rw [hresult] at hpending
      dsimp only
      cases hlookup : interfaces.lookup
        (result.1.getInterfaceID .dest) with
      | none => exact hpending
      | some interface =>
          apply h.handleIncomingMessage
          · intro other hother
            exact hcall other (hhandlers _ _ hlookup _ _ other hother)
          · exact h.called _ _ _ _ hpending

/-- The rule for all calls, by induction on how deep handlers are nested. -/
theorem call (h : StepInvariant allowed inv)
    {interfaces : Table InterfaceID (Interface ι)}
    (hhandlers : HandlersAllowed allowed interfaces) (depth : ℕ)
    {other : Call ι} (hallowed : allowed other) {world : World ι}
    (hinv : inv world) : (call interfaces depth other world).Holds inv := by
  induction depth generalizing other world with
  | zero =>
      apply h.perform ?_ hallowed hinv
      intro ready next hnext
      trivial
  | succ depth ih =>
      apply h.perform ?_ hallowed hinv
      intro ready next hnext
      exact h.serviceInterfaces hhandlers
        (fun _ hother _ hworld => ih hother hworld) ready hnext

theorem run (h : StepInvariant allowed inv)
    {interfaces : Table InterfaceID (Interface ι)}
    (hhandlers : HandlersAllowed allowed interfaces) {depth : ℕ}
    {calls : List (Call ι)} (hcalls : ∀ other ∈ calls, allowed other)
    {world final : World ι} (hinv : inv world)
    (hrun : Outcome.run (Peer.call interfaces depth) calls world = some final) :
    inv final :=
  Outcome.run_invariant_of_meets
    (fun _ _ hworld hallowed => h.call hhandlers depth hallowed hworld) hinv
    (Outcome.runMeets_of_forall_mem hcalls world) hrun

end StepInvariant

/-! ## Reachable worlds -/

/-- A peer as its constructor leaves it, in any heap. -/
def Initial (world : World ι) : Prop :=
  ∃ self peerID recvMessage labelMemory recvMemory heap,
    labelMemory.length = contentsSizeof ∧
    world = construct self peerID recvMessage labelMemory recvMemory heap

def Reachable (interfaces : Table InterfaceID (Interface ι))
    (world : World ι) : Prop :=
  ∃ initial depth calls, Initial initial ∧
    Outcome.run (call interfaces depth) calls initial = some world

theorem Initial.labelShape {world : World ι} (h : Initial world) :
    world.LabelShape ∧ world.labelMessage.contentsSize = contentsSizeof := by
  obtain ⟨self, peerID, recvMessage, labelMemory, recvMemory, heap, hlength,
    rfl⟩ := h
  have hfits : contentsSizeof + 0 ≤ (Message.new labelMemory).capacity := by
    rw [Message.new_capacity, hlength]
    exact le_refl _
  have hlabel : (construct self peerID recvMessage labelMemory recvMemory
      heap).labelMessage = (Message.new labelMemory).resize contentsSizeof 0 :=
    Function.update_self _ _ _
  rw [Message.resize_of_le hfits] at hlabel
  refine ⟨⟨?_, ?_⟩, ?_⟩
  · rw [hlabel]
  · rw [hlabel]
    exact hlength
  · rw [hlabel]

omit [DecidableEq ι] in
theorem labelShape_of_eq {world next : World ι} (hshape : world.LabelShape)
    (hlabel : next.labelMessage = world.labelMessage) : next.LabelShape where
  offset := by rw [hlabel]; exact hshape.offset
  capacity := by rw [hlabel]; exact hshape.capacity

theorem labelShape_of_receive {destPortID : PortID} {package : Package}
    {world final : World ι} (hshape : world.LabelShape)
    (h : ReceiveSpec destPortID package world final) : final.LabelShape := by
  have hself : final.labelMessage = final.heap (.label world.peer.self) := by
    rw [World.labelMessage, h.peer]
  rcases h.stored with ⟨hheap, -⟩ | ⟨port, frames, -, -, hstore, -⟩
  · rw [hheap] at hself
    exact labelShape_of_eq hshape hself
  · have hcapacity := ((distribute_onlyChanges _ _ _).of_ok hstore).capacity
      (.label world.peer.self)
    rcases labelStored_of_distribute hshape hstore with
      ⟨-, hheap⟩ | ⟨-, hstored⟩
    · rw [hheap] at hself
      exact labelShape_of_eq hshape hself
    · constructor
      · rw [hself]
        exact hstored.offset
      · rw [hself, hcapacity]
        exact hshape.capacity

omit [DecidableEq ι] in
theorem subscribe_eq_setReceipts (label : Label) (world : World ι) :
    subscribe label world = setReceipts (label.getInterfaceID .src)
      ((world.peer.pubMap.lookup (label.getInterfaceID .src)).getD [] ++
        [label]) world := by
  unfold subscribe
  cases world.peer.pubMap.lookup (label.getInterfaceID .src) <;> rfl

theorem setMessage_labelMessage {address : Addr ι} {world : World ι}
    (message : Message) (haddress : address ≠ .label world.peer.self) :
    (world.setMessage address message).labelMessage = world.labelMessage :=
  Function.update_of_ne (Ne.symm haddress) _ _

theorem labelShape_invariant :
    StepInvariant (fun _ : Call ι => True) World.LabelShape where
  send := by
    intro label package world hshape
    exact sendMessages_holds hshape fun _ _ _ hspec => hspec.sentLabel.shape
  receive := by
    intro destPortID package world hshape
    exact (receiveMessages_spec destPortID package world).mono
      fun final hspec => labelShape_of_receive hshape hspec
  ports := fun hub world hshape => labelShape_of_eq hshape rfl
  receipts := fun _ _ _ world hshape _ _ => labelShape_of_eq hshape rfl
  resize := fun _ _ _ world hshape _ =>
    labelShape_of_eq hshape (setMessage_labelMessage _ (by simp))
  reset := fun _ world hshape _ =>
    labelShape_of_eq hshape (setMessage_labelMessage _ (by simp))
  write := fun _ _ _ _ world hshape _ _ =>
    labelShape_of_eq hshape (setMessage_labelMessage _ (by simp))
  changePackage := fun _ world hshape _ => labelShape_of_eq hshape rfl
  remote := fun _ _ world hshape hne =>
    labelShape_of_eq hshape (setMessage_labelMessage _ (by simpa using hne))
  called := fun _ _ _ world hshape => labelShape_of_eq hshape rfl
  subscribe := by
    intro label world hshape
    rw [subscribe_eq_setReceipts]
    exact labelShape_of_eq hshape rfl

omit [DecidableEq ι] in
theorem handlersAllowed_true (interfaces : Table InterfaceID (Interface ι)) :
    HandlersAllowed (fun _ => True) interfaces :=
  fun _ _ _ _ _ _ _ => trivial

theorem Reachable.labelShape {interfaces : Table InterfaceID (Interface ι)}
    {world : World ι} (h : Reachable interfaces world) : world.LabelShape := by
  obtain ⟨initial, depth, calls, hinitial, hrun⟩ := h
  exact labelShape_invariant.run (handlersAllowed_true interfaces)
    (fun _ _ => trivial) hinitial.labelShape.1 hrun

end Peer

end Dpn
