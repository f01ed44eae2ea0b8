import Dpn.Request

/-!
# Calls as sequences of acts

Push, Publish, Request and the interfaces of a peer call each other, and
handlers call the peer they were called from.  What a call does is nevertheless
a sequence: single sends and polls, and between them the bookkeeping of the
receipts and what users and handlers do to messages and to the vector that
handlers are given.  This file lists the acts
of a call, shows that they leave the state that the call leaves, and derives
from it that what all acts keep is kept by every run.
-/

namespace Dpn

namespace Peer

variable {ι : Type*} [DecidableEq ι]

/-- What a peer, one of its users or the outside does at once. -/
inductive Act (ι : Type*) where
  | send (label : Label) (package : Package)
  | poll (ready : List Hub.Ready) (package : Package)
  | receipts (topic : InterfaceID) (receipts : List Label)
  | subscribe (label : Label)
  | called (interfaceID : InterfaceID) (label : Label)
      (view : List (ℕ × List UInt8))
  | resize (message : ℕ) (size offset : ℕ)
  | reset (message : ℕ)
  | write (message : ℕ) (position : ℕ) (source : List UInt8)
  | changePackage (package : Package)
  | arrive (portID : PortID) (frames : List (WireFrame (Addr ι)))
  | managePorts (hub : Hub (Addr ι))
  | remote (peer : ι) (labelMessage : Message)

def act : Act ι → World ι → Outcome Exn (World ι)
  | .send label package, world => (sendMessages label package world).map Prod.snd
  | .poll ready package, world => poll ready package world
  | .receipts topic receipts, world => .ok (setReceipts topic receipts world)
  | .subscribe label, world => .ok (subscribe label world)
  | .called interfaceID label view, world =>
      .ok (world.log (.called interfaceID label view))
  | .resize message size offset, world =>
      .ok (world.setMessage (.message message)
        ((world.heap (.message message)).resize size offset))
  | .reset message, world =>
      .ok (world.setMessage (.message message)
        (world.heap (.message message)).reset)
  | .write message position source, world =>
      match (world.heap (.message message)).write position source with
      | none => .stuck .undefined
      | some written => .ok (world.setMessage (.message message) written)
  | .changePackage package, world => .ok (world.withPackage package)
  | .arrive portID frames, world => .ok (world.arrive portID frames)
  | .managePorts hub, world => .ok (world.withHub hub)
  | .remote peer labelMessage, world =>
      if peer = world.peer.self then .ok world
      else .ok (world.setMessage (.label peer) labelMessage)

/-! ## The acts of a call -/

/-- The sends of the loop over the stored receipts. -/
def publishLoopActs (package : Package) : List Label → World ι → List (Act ι)
  | [], _ => []
  | receipt :: rest, world =>
      .send receipt package ::
        match push receipt package world with
        | .ok result => publishLoopActs package rest result.2
        | .throw _ _ => []
        | .stuck _ => []

/-- The rewritten receipts are stored after the loop, also if it was left. -/
def publishActs (label : Label) (package : Package) (world : World ι) :
    List (Act ι) :=
  match world.peer.pubMap.lookup (label.getInterfaceID .src) with
  | none => []
  | some receipts =>
      publishLoopActs package receipts world ++
        match (publishLoop package receipts world).state? with
        | none => []
        | some final => [.receipts (label.getInterfaceID .src) final.1]

def Round.acts (round : Round ι) (package : Package) : List (Act ι) :=
  round.arrivals.map (fun arrival => .arrive arrival.1 arrival.2) ++
    [.poll round.ready package]

def requestLoopActs (package : Package) (timeout startTime : ℤ) :
    List (Round ι) → ℤ → World ι → List (Act ι)
  | [], _, _ => []
  | round :: rounds, elapsedTimeout, world =>
      if timeout < elapsedTimeout then []
      else
        round.acts package ++
          match poll round.ready package (round.arrive world) with
          | .ok polled =>
              if polled.labelContents.messageID = polled.peer.messageID then []
              else requestLoopActs package timeout startTime rounds
                (round.now - startTime) polled
          | .throw _ _ => []
          | .stuck _ => []

def requestActs (label : Label) (sendPackage recvPackage : Package)
    (timeout startTime : ℤ) (rounds : List (Round ι)) (world : World ι) :
    List (Act ι) :=
  .send label sendPackage ::
    match push label sendPackage world with
    | .ok result => requestLoopActs recvPackage timeout startTime rounds timeout
        result.2
    | .throw _ _ => []
    | .stuck _ => []

/-- What is done for an interface after the calls of its handler. -/
def Interface.reaction : Interface ι → Label → World ι → List (Act ι)
  | .pull _, _, _ => []
  | .reply handleReply, label, world =>
      let script := handleReply label world
      match script.result with
      | .ok (.pass returnPackage) => [.send script.label.swap returnPackage]
      | .ok .fail => []
      | .error _ => []
  | .subscription handleSubscription, label, world =>
      let script := handleSubscription label world
      match script.result with
      | .ok .pass => [.subscribe script.label.swap]
      | .ok .fail => []
      | .error _ => []

def serviceActs (interfaces : Table InterfaceID (Interface ι))
    (call : Call ι → World ι → Outcome Exn (World ι))
    (acts : Call ι → World ι → List (Act ι)) (ready : List Hub.Ready)
    (world : World ι) : List (Act ι) :=
  .poll ready world.peer.recvPackage ::
    match getPendingPackage ready world.peer.recvPackage Label.new world with
    | .ok (label, polled) =>
        match interfaces.lookup (label.getInterfaceID .dest) with
        | none => []
        | some interface =>
            let view := polled.view polled.peer.recvPackage
            let called := polled.log
              (.called (label.getInterfaceID .dest) label view)
            .called (label.getInterfaceID .dest) label view ::
              Outcome.collect call acts (interface.calls label called) called ++
              interface.reaction label called
    | .throw _ _ => []
    | .stuck _ => []

def performActs (service : List Hub.Ready → World ι → List (Act ι)) :
    Call ι → World ι → List (Act ι)
  | .resize message size offset, _ => [.resize message size offset]
  | .reset message, _ => [.reset message]
  | .write message position source, _ => [.write message position source]
  | .push label package, _ => [.send label package]
  | .publish label package, world => publishActs label package world
  | .request label sendPackage recvPackage timeout startTime rounds, world =>
      requestActs label sendPackage recvPackage timeout startTime rounds world
  | .getPendingPackage ready package _, _ => [.poll ready package]
  | .serviceInterfaces ready, world => service ready world
  | .changePackage package, _ => [.changePackage package]
  | .arrive portID frames, _ => [.arrive portID frames]
  | .managePorts hub, _ => [.managePorts hub]
  | .remote peer labelMessage, _ => [.remote peer labelMessage]

/-- The acts of a call, in order, with those of the handlers it leads to. -/
def acts (interfaces : Table InterfaceID (Interface ι)) :
    ℕ → Call ι → World ι → List (Act ι)
  | 0 => performActs fun _ _ => []
  | depth + 1 =>
      performActs (serviceActs interfaces (call interfaces depth)
        (acts interfaces depth))

/-! ## The acts do what the call does -/

theorem run_publishLoopActs {package : Package} {receipts : List Label}
    {world : World ι} {final : List Label × World ι}
    (hfinal : (publishLoop package receipts world).state? = some final) :
    Outcome.run act (publishLoopActs package receipts world) world =
      some final.2 := by
  induction receipts generalizing world final with
  | nil =>
      obtain rfl := Option.some.inj hfinal
      rfl
  | cons receipt rest ih =>
      have hsend : act (.send receipt package) world =
          (push receipt package world).map Prod.snd := rfl
      rw [publishLoop] at hfinal
      rw [publishLoopActs, Outcome.run_cons, hsend]
      cases hpush : push receipt package world with
      | ok result =>
          rw [hpush, Outcome.andThen_ok, Outcome.state?_map] at hfinal
          obtain ⟨last, hlast, rfl⟩ := Option.map_eq_some_iff.mp hfinal
          have hrest := ih hlast
          exact hrest
      | throw error result =>
          rw [hpush] at hfinal
          obtain rfl := Option.some.inj hfinal
          rfl
      | stuck reason =>
          rw [hpush] at hfinal
          contradiction

theorem run_publishActs {label : Label} {package : Package}
    {world final : World ι}
    (hfinal : (publish label package world).state? = some final) :
    Outcome.run act (publishActs label package world) world = some final := by
  unfold publish at hfinal
  unfold publishActs
  cases hlookup : world.peer.pubMap.lookup (label.getInterfaceID .src) with
  | none =>
      rw [hlookup] at hfinal
      exact hfinal
  | some receipts =>
      simp only [hlookup, Outcome.state?_map] at hfinal
      obtain ⟨last, hlast, rfl⟩ := Option.map_eq_some_iff.mp hfinal
      simp only [hlast, Outcome.run_append, run_publishLoopActs hlast,
        Option.bind_some]
      rfl

theorem run_arrivals (arrivals : List (PortID × List (WireFrame (Addr ι))))
    (world : World ι) :
    Outcome.run act
        (arrivals.map fun arrival => Act.arrive arrival.1 arrival.2) world =
      some (arrivals.foldl (fun world arrival =>
        world.arrive arrival.1 arrival.2) world) := by
  induction arrivals generalizing world with
  | nil => rfl
  | cons arrival rest ih => exact ih (world.arrive arrival.1 arrival.2)

theorem run_round (round : Round ι) (package : Package) (world : World ι) :
    Outcome.run act (round.acts package) world =
      (poll round.ready package (round.arrive world)).state? := by
  have hpoll : act (.poll round.ready package) (round.arrive world) =
      poll round.ready package (round.arrive world) := rfl
  rw [Round.acts, Outcome.run_append, run_arrivals, Option.bind_some,
    ← Round.arrive, Outcome.run_cons, hpoll]
  cases (poll round.ready package (round.arrive world)).state? <;> rfl

theorem run_requestLoopActs {package : Package} {timeout startTime : ℤ}
    {rounds : List (Round ι)} {currTimeout elapsedTimeout : ℤ}
    {world : World ι} {requested : Requested ι}
    (hrequested : (requestLoop package timeout startTime rounds currTimeout
      elapsedTimeout world).state? = some requested) :
    Outcome.run act (requestLoopActs package timeout startTime rounds
      elapsedTimeout world) world = some requested.world := by
  induction rounds generalizing currTimeout elapsedTimeout world requested with
  | nil =>
      unfold requestLoop at hrequested
      split at hrequested
      · obtain rfl := Option.some.inj hrequested
        rfl
      · contradiction
  | cons round rounds ih =>
      unfold requestLoop at hrequested
      unfold requestLoopActs
      split at hrequested
      · rename_i hover
        obtain rfl := Option.some.inj hrequested
        rw [if_pos hover]
        rfl
      · rename_i hover
        rw [if_neg hover, Outcome.run_append, run_round]
        cases hpoll : poll round.ready package (round.arrive world) with
        | stuck reason =>
            rw [hpoll] at hrequested
            contradiction
        | throw error polled =>
            rw [hpoll] at hrequested
            obtain rfl := Option.some.inj hrequested
            rfl
        | ok polled =>
            rw [hpoll] at hrequested
            simp only [Outcome.state?_ok, Option.bind_some]
            dsimp only at hrequested
            split at hrequested
            · rename_i hmatch
              obtain rfl := Option.some.inj hrequested
              rw [if_pos hmatch]
              rfl
            · rename_i hmatch
              rw [Outcome.state?_map] at hrequested
              obtain ⟨result, hresult, rfl⟩ := Option.map_eq_some_iff.mp hrequested
              have hrest := ih hresult
              rw [if_neg hmatch]
              exact hrest

theorem run_requestActs {label : Label} {sendPackage recvPackage : Package}
    {timeout startTime : ℤ} {rounds : List (Round ι)} {world : World ι}
    {final : Label × World ι}
    (hfinal : (request label sendPackage recvPackage timeout startTime rounds
      world).state? = some final) :
    Outcome.run act (requestActs label sendPackage recvPackage timeout startTime
      rounds world) world = some final.2 := by
  have hsend : act (.send label sendPackage) world =
      (push label sendPackage world).map Prod.snd := rfl
  rw [request] at hfinal
  rw [requestActs, Outcome.run_cons, hsend]
  cases hpush : push label sendPackage world with
  | ok result =>
      rw [hpush, Outcome.andThen_ok, Outcome.state?_map] at hfinal
      obtain ⟨requested, hrequested, rfl⟩ := Option.map_eq_some_iff.mp hfinal
      exact run_requestLoopActs hrequested
  | throw error result =>
      rw [hpush] at hfinal
      obtain rfl := Option.some.inj hfinal
      rfl
  | stuck reason =>
      rw [hpush] at hfinal
      contradiction

theorem run_script {ρ : Type*}
    {call : Call ι → World ι → Outcome Exn (World ι)}
    {acts : Call ι → World ι → List (Act ι)} {script : Script ι ρ}
    {next : ρ → World ι → Outcome Exn (World ι)} {reaction : List (Act ι)}
    {world final : World ι}
    (hcalls : ∀ other ∈ script.calls, ∀ state next,
      (call other state).state? = some next →
      Outcome.run act (acts other state) state = some next)
    (hnext : ∀ result middle, script.result = .ok result →
      (next result middle).state? = some final →
      Outcome.run act reaction middle = some final)
    (hend : ∀ error, script.result = .error error → reaction = [])
    (hfinal : (script.run call next world).state? = some final) :
    Outcome.run act
      (Outcome.collect call acts script.calls world ++ reaction) world =
        some final := by
  unfold Script.run at hfinal
  cases hsurvive : Outcome.survive call script.calls world with
  | ok middle =>
      have hmiddle := Outcome.run_collect hcalls
        (Outcome.run_eq_some_iff.mpr hsurvive)
      rw [hsurvive, Outcome.andThen_ok] at hfinal
      rw [Outcome.run_append, hmiddle, Option.bind_some]
      cases hresult : script.result with
      | ok result =>
          rw [hresult] at hfinal
          exact hnext result middle hresult hfinal
      | error error =>
          rw [hresult] at hfinal
          rw [hend error hresult]
          exact hfinal
  | throw error middle =>
      exact absurd hsurvive (Outcome.survive_ne_throw _ _ _ _)
  | stuck reason =>
      rw [hsurvive] at hfinal
      contradiction

theorem run_handler {call : Call ι → World ι → Outcome Exn (World ι)}
    {acts : Call ι → World ι → List (Act ι)} {interface : Interface ι}
    {label : Label} {world final : World ι}
    (hcalls : ∀ other ∈ interface.calls label world, ∀ state next,
      (call other state).state? = some next →
      Outcome.run act (acts other state) state = some next)
    (hfinal : (handleIncomingMessage call interface label world).state? =
      some final) :
    Outcome.run act
      (Outcome.collect call acts (interface.calls label world) world ++
        interface.reaction label world) world = some final := by
  cases interface with
  | pull handlePull =>
      apply run_script hcalls ?_ (fun _ _ => rfl) hfinal
      intro _ middle _ hmiddle
      exact hmiddle
  | reply handleReply =>
      apply run_script hcalls ?_ ?_ hfinal
      · intro status middle hresult hmiddle
        cases status with
        | pass returnPackage =>
            have hsend : (act (.send (handleReply label world).label.swap
                returnPackage) middle).state? = some final := hmiddle
            simp only [Interface.reaction, hresult, Outcome.run_cons, hsend]
            rfl
        | fail =>
            simp only [Interface.reaction, hresult]
            exact hmiddle
      · intro error hresult
        simp only [Interface.reaction, hresult]
  | subscription handleSubscription =>
      apply run_script hcalls ?_ ?_ hfinal
      · intro status middle hresult hmiddle
        cases status with
        | pass =>
            simp only [Interface.reaction, hresult]
            exact hmiddle
        | fail =>
            simp only [Interface.reaction, hresult]
            exact hmiddle
      · intro error hresult
        simp only [Interface.reaction, hresult]

theorem run_serviceActs {interfaces : Table InterfaceID (Interface ι)}
    {call : Call ι → World ι → Outcome Exn (World ι)}
    {acts : Call ι → World ι → List (Act ι)}
    (hcalls : ∀ other state next, (call other state).state? = some next →
      Outcome.run act (acts other state) state = some next)
    {ready : List Hub.Ready} {world final : World ι}
    (hfinal : (serviceInterfaces interfaces call ready world).state? =
      some final) :
    Outcome.run act (serviceActs interfaces call acts ready world) world =
      some final := by
  unfold serviceInterfaces at hfinal
  have hpoll : act (.poll ready world.peer.recvPackage) world =
      poll ready world.peer.recvPackage world := rfl
  rw [serviceActs, Outcome.run_cons, hpoll]
  rw [getPendingPackage_eq] at hfinal ⊢
  cases hpolled : poll ready world.peer.recvPackage world with
  | stuck reason =>
      rw [hpolled] at hfinal
      contradiction
  | throw error polled =>
      rw [hpolled] at hfinal
      exact hfinal
  | ok polled =>
      rw [hpolled] at hfinal
      simp only [Outcome.state?_ok, Option.bind_some]
      dsimp only at hfinal
      cases hlookup : interfaces.lookup
          (Label.getInterfaceID ⟨polled.labelContents⟩ .dest) with
      | none =>
          rw [hlookup] at hfinal
          exact hfinal
      | some interface =>
          rw [hlookup] at hfinal
          simp only [List.cons_append, Outcome.run_cons]
          exact run_handler (fun other _ => hcalls other) hfinal

theorem run_performActs
    {service : List Hub.Ready → World ι → Outcome Exn (World ι)}
    {serviceActs : List Hub.Ready → World ι → List (Act ι)} {other : Call ι}
    {world final : World ι}
    (hservice : ∀ ready, (service ready world).state? = some final →
      Outcome.run act (serviceActs ready world) world = some final)
    (hfinal : (perform service other world).state? = some final) :
    Outcome.run act (performActs serviceActs other world) world =
      some final := by
  have hsingle : ∀ single : Act ι, (act single world).state? = some final →
      Outcome.run act [single] world = some final := by
    intro single hact
    rw [Outcome.run_cons, hact]
    rfl
  cases other with
  | publish label package => exact run_publishActs hfinal
  | request label sendPackage recvPackage timeout startTime rounds =>
      rw [perform, Outcome.state?_map] at hfinal
      obtain ⟨result, hresult, rfl⟩ := Option.map_eq_some_iff.mp hfinal
      exact run_requestActs hresult
  | getPendingPackage ready package label =>
      apply hsingle
      rw [perform, getPendingPackage_eq] at hfinal
      rw [act]
      cases hpoll : poll ready package world with
      | ok polled =>
          rw [hpoll] at hfinal
          exact hfinal
      | throw error polled =>
          rw [hpoll] at hfinal
          exact hfinal
      | stuck reason =>
          rw [hpoll] at hfinal
          contradiction
  | serviceInterfaces ready => exact hservice ready hfinal
  | push label package => exact hsingle _ hfinal
  | resize message size offset => exact hsingle _ hfinal
  | reset message => exact hsingle _ hfinal
  | write message position source => exact hsingle _ hfinal
  | changePackage package => exact hsingle _ hfinal
  | arrive portID frames => exact hsingle _ hfinal
  | managePorts hub => exact hsingle _ hfinal
  | remote peer labelMessage => exact hsingle _ hfinal

/-- A call that comes back, whether it returns or throws, leaves what its acts
leave one after another, however deep handlers are nested. -/
theorem run_acts {interfaces : Table InterfaceID (Interface ι)} {depth : ℕ}
    {other : Call ι} {world final : World ι}
    (hfinal : (call interfaces depth other world).state? = some final) :
    Outcome.run act (acts interfaces depth other world) world = some final := by
  induction depth generalizing other world final with
  | zero =>
      apply run_performActs ?_ hfinal
      intro ready hnone
      contradiction
  | succ depth ih =>
      apply run_performActs ?_ hfinal
      intro ready hreturned
      exact run_serviceActs (fun other state next hstate => ih hstate) hreturned

/-! ## What all acts keep -/

/-- The condition does not mind what the peer notes down between its sends and
receives.  An interface is called with what the label buffer and the messages of
the vector hold. -/
structure Bookkeeping (condition : Act ι → World ι → Prop) : Prop where
  receipts : ∀ topic receipts world, condition (.receipts topic receipts) world
  subscribe : ∀ label world, condition (.subscribe label) world
  called : ∀ world : World ι,
    condition (.called (Label.getInterfaceID ⟨world.labelContents⟩ .dest)
      ⟨world.labelContents⟩ (world.view world.peer.recvPackage)) world

/-- Whenever the call is made, its own sends, polls and writes meet the
condition. -/
def Call.Meets (condition : Act ι → World ι → Prop) : Call ι → Prop
  | .resize message size offset =>
      ∀ world, condition (.resize message size offset) world
  | .reset message => ∀ world, condition (.reset message) world
  | .write message position source =>
      ∀ world, condition (.write message position source) world
  | .push label package => ∀ world, condition (.send label package) world
  | .publish _ package =>
      ∀ receipt world, condition (.send receipt package) world
  | .request label sendPackage recvPackage _ _ rounds =>
      (∀ world, condition (.send label sendPackage) world) ∧
        ∀ round ∈ rounds, ∀ single ∈ round.acts recvPackage, ∀ world,
          condition single world
  | .getPendingPackage ready package _ =>
      ∀ world, condition (.poll ready package) world
  | .serviceInterfaces ready =>
      ∀ world, condition (.poll ready world.peer.recvPackage) world
  | .changePackage package => ∀ world, condition (.changePackage package) world
  | .arrive portID frames => ∀ world, condition (.arrive portID frames) world
  | .managePorts hub => ∀ world, condition (.managePorts hub) world
  | .remote peer labelMessage =>
      ∀ world, condition (.remote peer labelMessage) world

/-- So do the calls of handlers, and what is done for them. -/
def HandlersMeet (condition : Act ι → World ι → Prop)
    (interfaces : Table InterfaceID (Interface ι)) : Prop :=
  ∀ interfaceID interface, interfaces.lookup interfaceID = some interface →
    ∀ label world,
      (∀ other ∈ interface.calls label world, other.Meets condition) ∧
        ∀ single ∈ interface.reaction label world, ∀ state,
          condition single state

omit [DecidableEq ι] in
theorem Call.meets_true (other : Call ι) :
    other.Meets fun _ _ => True := by
  cases other <;> simp [Call.Meets]

variable {condition : Act ι → World ι → Prop}

theorem runMeets_of_forall {acts : List (Act ι)}
    (h : ∀ single ∈ acts, ∀ world, condition single world) (world : World ι) :
    Outcome.RunMeets act condition acts world := by
  induction acts generalizing world with
  | nil => trivial
  | cons single rest ih =>
      exact ⟨h single (by simp) world, fun next _ =>
        ih (fun other hother => h other (List.mem_cons_of_mem single hother))
          next⟩

theorem mem_publishLoopActs {package : Package} {receipts : List Label}
    {world : World ι} {single : Act ι}
    (hmem : single ∈ publishLoopActs package receipts world) :
    ∃ receipt, single = .send receipt package := by
  induction receipts generalizing world with
  | nil => contradiction
  | cons receipt rest ih =>
      rw [publishLoopActs] at hmem
      rcases List.mem_cons.mp hmem with rfl | hrest
      · exact ⟨receipt, rfl⟩
      · split at hrest
        · exact ih hrest
        · contradiction
        · contradiction

theorem mem_requestLoopActs {package : Package} {timeout startTime : ℤ}
    {rounds : List (Round ι)} {elapsedTimeout : ℤ} {world : World ι}
    {single : Act ι}
    (hmem : single ∈ requestLoopActs package timeout startTime rounds
      elapsedTimeout world) :
    ∃ round ∈ rounds, single ∈ round.acts package := by
  induction rounds generalizing elapsedTimeout world with
  | nil => contradiction
  | cons round rounds ih =>
      rw [requestLoopActs] at hmem
      split at hmem
      · contradiction
      · rcases List.mem_append.mp hmem with hround | hrest
        · exact ⟨round, by simp, hround⟩
        · split at hrest
          · split at hrest
            · contradiction
            · obtain ⟨other, hother, hact⟩ := ih hrest
              exact ⟨other, List.mem_cons_of_mem round hother, hact⟩
          · contradiction
          · contradiction

theorem meets_publishActs (hbook : Bookkeeping condition) {label : Label}
    {package : Package}
    (hmeets : Call.Meets condition (.publish label package)) (world : World ι) :
    Outcome.RunMeets act condition (publishActs label package world) world := by
  apply runMeets_of_forall
  intro single hsingle
  unfold publishActs at hsingle
  split at hsingle
  · contradiction
  · rcases List.mem_append.mp hsingle with hsend | hstore
    · obtain ⟨receipt, rfl⟩ := mem_publishLoopActs hsend
      exact hmeets receipt
    · split at hstore
      · contradiction
      · rw [List.mem_singleton.mp hstore]
        exact hbook.receipts _ _

theorem meets_requestActs {label : Label} {sendPackage recvPackage : Package}
    {timeout startTime : ℤ} {rounds : List (Round ι)}
    (hmeets : Call.Meets condition (.request label sendPackage recvPackage
      timeout startTime rounds)) (world : World ι) :
    Outcome.RunMeets act condition (requestActs label sendPackage recvPackage
      timeout startTime rounds world) world := by
  apply runMeets_of_forall
  intro single hsingle
  rw [requestActs] at hsingle
  rcases List.mem_cons.mp hsingle with rfl | hrest
  · exact hmeets.1
  · split at hrest
    · obtain ⟨round, hround, hact⟩ := mem_requestLoopActs hrest
      exact hmeets.2 round hround single hact
    · contradiction
    · contradiction

theorem meets_serviceActs (hbook : Bookkeeping condition)
    {interfaces : Table InterfaceID (Interface ι)}
    (hhandlers : HandlersMeet condition interfaces) {depth : ℕ}
    (hcalls : ∀ other : Call ι, other.Meets condition → ∀ world,
      Outcome.RunMeets act condition (acts interfaces depth other world) world)
    {ready : List Hub.Ready}
    (hmeets : Call.Meets condition (.serviceInterfaces ready))
    (world : World ι) :
    Outcome.RunMeets act condition (serviceActs interfaces
      (call interfaces depth) (acts interfaces depth) ready world) world := by
  refine ⟨hmeets world, ?_⟩
  intro polled hpolled
  rw [getPendingPackage_eq]
  rw [act] at hpolled
  cases hpoll : poll ready world.peer.recvPackage world with
  | ok state =>
      rw [hpoll] at hpolled
      obtain rfl := Option.some.inj hpolled
      dsimp only
      split
      · trivial
      · rename_i interface hlookup
        refine ⟨hbook.called state, ?_⟩
        intro called hcalled
        obtain rfl := Option.some.inj hcalled
        obtain ⟨hscript, hreaction⟩ := hhandlers _ _ hlookup
          ⟨state.labelContents⟩ (state.log (.called
            (Label.getInterfaceID ⟨state.labelContents⟩ .dest)
            ⟨state.labelContents⟩ (state.view state.peer.recvPackage)))
        apply Outcome.runMeets_append.mpr
        constructor
        · exact Outcome.runMeets_collect
            (fun other _ state next hnext => run_acts hnext)
            fun other hother => hcalls other (hscript other hother)
        · intro middle _
          exact runMeets_of_forall hreaction middle
  | throw error state => trivial
  | stuck reason => trivial

/-- The acts of a call meet a condition that its own acts and those of the
handlers meet, by induction on how deep handlers are nested. -/
theorem meets_acts (hbook : Bookkeeping condition)
    {interfaces : Table InterfaceID (Interface ι)}
    (hhandlers : HandlersMeet condition interfaces) (depth : ℕ)
    {other : Call ι} (hmeets : other.Meets condition) (world : World ι) :
    Outcome.RunMeets act condition (acts interfaces depth other world) world := by
  have hperform : ∀ {serviceActs : List Hub.Ready → World ι → List (Act ι)}
      {other : Call ι}, other.Meets condition → ∀ world,
      (∀ ready, Call.Meets condition (.serviceInterfaces ready : Call ι) →
        Outcome.RunMeets act condition (serviceActs ready world) world) →
      Outcome.RunMeets act condition (performActs serviceActs other world)
        world := by
    intro serviceActs other hmeets world hservice
    cases other with
    | publish label package => exact meets_publishActs hbook hmeets world
    | request label sendPackage recvPackage timeout startTime rounds =>
        exact meets_requestActs hmeets world
    | serviceInterfaces ready => exact hservice ready hmeets
    | push label package => exact ⟨hmeets world, fun _ _ => trivial⟩
    | getPendingPackage ready package label =>
        exact ⟨hmeets world, fun _ _ => trivial⟩
    | resize message size offset => exact ⟨hmeets world, fun _ _ => trivial⟩
    | reset message => exact ⟨hmeets world, fun _ _ => trivial⟩
    | write message position source =>
        exact ⟨hmeets world, fun _ _ => trivial⟩
    | changePackage package => exact ⟨hmeets world, fun _ _ => trivial⟩
    | arrive portID frames => exact ⟨hmeets world, fun _ _ => trivial⟩
    | managePorts hub => exact ⟨hmeets world, fun _ _ => trivial⟩
    | remote peer labelMessage => exact ⟨hmeets world, fun _ _ => trivial⟩
  induction depth generalizing other world with
  | zero => exact hperform hmeets world fun _ _ => trivial
  | succ depth ih =>
      exact hperform hmeets world fun ready hready =>
        meets_serviceActs hbook hhandlers (fun _ hother state =>
          ih hother state) hready world

/-- The acts of a run of calls. -/
def runActs (interfaces : Table InterfaceID (Interface ι)) (depth : ℕ)
    (calls : List (Call ι)) (world : World ι) : List (Act ι) :=
  Outcome.collect (call interfaces depth) (acts interfaces depth) calls world

theorem run_runActs {interfaces : Table InterfaceID (Interface ι)} {depth : ℕ}
    {calls : List (Call ι)} {world final : World ι}
    (hrun : Outcome.run (call interfaces depth) calls world = some final) :
    Outcome.run act (runActs interfaces depth calls world) world =
      some final :=
  Outcome.run_collect (fun _ _ _ _ hnext => run_acts hnext) hrun

/-- The acts of a run meet every condition that the calls of users and handlers
meet by themselves. -/
theorem meets_runActs (hbook : Bookkeeping condition)
    {interfaces : Table InterfaceID (Interface ι)}
    (hhandlers : HandlersMeet condition interfaces) {depth : ℕ}
    {calls : List (Call ι)} (hcalls : ∀ other ∈ calls, other.Meets condition)
    (world : World ι) :
    Outcome.RunMeets act condition (runActs interfaces depth calls world)
      world :=
  Outcome.runMeets_collect (fun _ _ _ _ hnext => run_acts hnext)
    fun other hother => meets_acts hbook hhandlers depth (hcalls other hother)

/-- The rule for runs: what every act keeps under the condition is kept. -/
theorem run_invariant {inv : World ι → Prop}
    (hact : ∀ single world, inv world → condition single world →
      (act single world).Holds inv) (hbook : Bookkeeping condition)
    {interfaces : Table InterfaceID (Interface ι)}
    (hhandlers : HandlersMeet condition interfaces) {depth : ℕ}
    {calls : List (Call ι)} (hcalls : ∀ other ∈ calls, other.Meets condition)
    {world final : World ι} (hinv : inv world)
    (hrun : Outcome.run (call interfaces depth) calls world = some final) :
    inv final :=
  Outcome.run_invariant_of_meets hact hinv
    (meets_runActs hbook hhandlers hcalls world) (run_runActs hrun)

/-- What every act keeps is kept by every run. -/
theorem run_keeps {inv : World ι → Prop}
    (hact : ∀ single world, inv world → (act single world).Holds inv)
    {interfaces : Table InterfaceID (Interface ι)} {depth : ℕ}
    {calls : List (Call ι)} {world final : World ι} (hinv : inv world)
    (hrun : Outcome.run (call interfaces depth) calls world = some final) :
    inv final :=
  run_invariant (fun single state hstate (_ : True) => hact single state hstate)
    ⟨fun _ _ _ => trivial, fun _ _ => trivial, fun _ => trivial⟩
    (fun _ _ _ _ _ => ⟨fun other _ => other.meets_true, fun _ _ _ => trivial⟩)
    (fun other _ => other.meets_true) hinv hrun

end Peer

/-- A reply interface that answers with what it was sent. -/
def echo : Peer.Interface Unit :=
  .reply fun label _ => ⟨[.reset 1], label, .ok (.pass [0])⟩

def echoAt (interfaceID : InterfaceID) :
    Table InterfaceID (Peer.Interface Unit) :=
  (∅ : Table InterfaceID (Peer.Interface Unit)).insert interfaceID echo

/-- A push, and then a package of peer 2 that is answered. -/
def echoing : List (Peer.Call Unit) :=
  [.managePorts (onePortHub 1 [2]
      (toWire (wellFramed ⟨9, 0, ⟨2, 0, 6⟩, ⟨1, 0, 6⟩⟩))),
    .resize 1 3 1, .push (receiptOf 2) [1], .serviceInterfaces portReady]

theorem exists_run_echoing :
    ∃ final, Outcome.run (Peer.call (echoAt 6) 1) echoing freshPeer =
      some final :=
  Option.isSome_iff_exists.mp (by decide +kernel)

theorem handlersMeet_echoAt {condition : Peer.Act Unit → World Unit → Prop}
    (hreset : ∀ world, condition (.reset 1) world)
    (hsend : ∀ label world, condition (.send label [0]) world) :
    Peer.HandlersMeet condition (echoAt 6) := by
  intro interfaceID interface hlookup label world
  have hecho : interface = echo := by
    rw [echoAt] at hlookup
    by_cases heq : interfaceID = 6
    · rw [heq, AList.lookup_insert] at hlookup
      exact (Option.some.inj hlookup).symm
    · rw [AList.lookup_insert_ne heq] at hlookup
      contradiction
  subst interface
  constructor
  · intro other hother
    obtain rfl := List.mem_singleton.mp hother
    exact hreset
  · intro single hsingle state
    obtain rfl := List.mem_singleton.mp hsingle
    exact hsend _ state

end Dpn
