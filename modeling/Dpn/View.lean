import Dpn.Dispatch
import Dpn.Stores

/-!
# What a handler sees

The label buffer and the messages of the vector that handlers are given serve
all packages of a peer.  What a handler is shown is what the frames of a package
leave there: a message that gets no frame shows what it showed before, one with
an offset has its first frame stored behind older bytes, and a handler may have
changed the vector itself.  This file says exactly when two histories show the
same, and that a peer whose vector and offsets were never touched shows the
bodies of the package.
-/

namespace Dpn

/-- The bodies of a package, which come behind its label. -/
def packageBodies {α : Type*} (heap : Heap α) (frames : List (FrameData α)) :
    List (List UInt8) :=
  (frames.drop 3).map fun frame => frame.bytes heap

namespace Peer

variable {ι : Type*} [DecidableEq ι]

/-! ## What a package shows -/

/-- What the package stores in a message of the vector. -/
def packageStores (index : ℕ) (frames : List (FrameData (Addr ι)))
    (world : World ι) : List Store :=
  storesInto (.message index) (world.tempPackage world.peer.recvPackage)
    (packageFrames world.heap frames) world.heap

/-- What the messages of the vector show with the frames laid over them. -/
def packageShown (frames : List (FrameData (Addr ι))) (world : World ι) :
    List (ℕ × List UInt8) :=
  world.peer.recvPackage.map fun index =>
    (world.heap (.message index)).shownAfter (packageStores index frames world)

theorem view_of_distribute {frames : List (FrameData (Addr ι))}
    {world : World ι} {heap : Heap (Addr ι)}
    (hstore : distribute (world.tempPackage world.peer.recvPackage)
      (packageFrames world.heap frames) world.heap = .ok heap) :
    (world.peer.recvPackage.map fun index =>
        ((heap (.message index)).size, (heap (.message index)).visible)) =
      packageShown frames world := by
  apply List.map_congr_left
  intro index _
  exact (leaves_of_distribute hstore).shown

/-- In a vector without repetitions, and with frames that refer to none of its
messages, each message shows its own share. -/
theorem packageShown_of_distinct {frames : List (FrameData (Addr ι))}
    {world : World ι} (hnodup : world.peer.recvPackage.Nodup)
    (havoids : ∀ frame ∈ packageFrames world.heap frames,
      ∀ address ∈ world.tempPackage world.peer.recvPackage,
        frame.Avoids address)
    (hwhole : ∀ frame ∈ frames, frame.Whole world.heap)
    (hroom : HasRoom frames world) {i index : ℕ}
    (hindex : world.peer.recvPackage[i]? = some index) :
    (packageShown frames world)[i]? = some (shareShown (.message index)
      world.heap (share (world.peer.recvPackage.length + 1)
        (packageFrames world.heap frames) (i + 1))) := by
  obtain ⟨heap, hstore⟩ := (exists_distribute_iff_hasRoom hwhole).mpr hroom
  have hmessage : (world.tempPackage world.peer.recvPackage)[i + 1]? =
      some (.message index) := by
    rw [World.tempPackage, List.getElem?_cons_succ, List.getElem?_map, hindex,
      Option.map_some]
  have hlength : (world.tempPackage world.peer.recvPackage).length =
      world.peer.recvPackage.length + 1 := by
    rw [World.tempPackage, List.length_cons, List.length_map]
  have hshare := hasShare_of_distribute (nodup_tempPackage hnodup) havoids
    hstore hmessage
  rw [hlength] at hshare
  rw [← view_of_distribute hstore, List.getElem?_map, hindex, Option.map_some,
    hshare.shown fun frame hframe =>
      whole_of_mem_packageFrames hwhole frame (mem_of_mem_share hframe)]

/-- A well-formed package with room is passed on with its own label; without
room, a copy leaves its message. -/
theorem handed_of_wellFormed {interfaces : Table InterfaceID (Interface ι)}
    {ready : List Hub.Ready} {world : World ι} {hub : Hub (Addr ι)}
    {port : Port (Addr ι)} {frames : List (FrameData (Addr ι))}
    {label : Contents} (hshape : world.LabelShape)
    (htakes : Takes ready world hub port frames)
    (hwhole : ∀ frame ∈ frames, frame.Whole world.heap)
    (hlabel : WellFormed world.heap frames label) :
    (HasRoom frames world ∧
      getPendingPackage ready world.peer.recvPackage Label.new world ≠
        .stuck .undefined ∧
      handed interfaces ready world =
        if senderError (senderName world.heap frames) label = none then
          (interfaces.lookup label.dest.interfaceID).map fun _ =>
            (label.dest.interfaceID, ⟨label⟩, packageShown frames world)
        else none) ∨
      (¬HasRoom frames world ∧
        getPendingPackage ready world.peer.recvPackage Label.new world =
          .stuck .undefined) := by
  rw [← exists_distribute_iff_hasRoom hwhole]
  rcases @handed_of_takes _ _ interfaces _ _ _ _ _ hshape htakes with
    ⟨heap, hstore, hdefined, hhanded⟩ | ⟨hstuck, hpending⟩
  · rw [labelAfter_of_wellFormed _ hshape hwhole hlabel,
      view_of_distribute hstore] at hhanded
    exact Or.inl ⟨⟨heap, hstore⟩, hdefined, hhanded⟩
  · rw [hstuck]
    exact Or.inr ⟨by simp, hpending⟩

/-! ## Two histories -/

structure Arrives (ready : List Hub.Ready) (world : World ι)
    (frames : List (FrameData (Addr ι))) : Prop where
  taken : ∃ hub port, Takes ready world hub port frames
  whole : ∀ frame ∈ frames, frame.Whole world.heap

/-- In both histories the copies are defined, and a handler is called for the
same interface with the same view and the label of the package, or none is. -/
structure SeesSame (interfaces : Table InterfaceID (Interface ι))
    (label : Contents) (ready₁ ready₂ : List Hub.Ready)
    (first second : World ι) : Prop where
  defined₁ : getPendingPackage ready₁ first.peer.recvPackage Label.new first ≠
    .stuck .undefined
  defined₂ : getPendingPackage ready₂ second.peer.recvPackage Label.new second ≠
    .stuck .undefined
  same : handed interfaces ready₁ first = handed interfaces ready₂ second
  labelled : ∀ interfaceID received view,
    handed interfaces ready₁ first = some (interfaceID, received, view) →
    received = ⟨label⟩

omit [DecidableEq ι] in
theorem senderName_congr {first second : Heap (Addr ι)}
    {frames others : List (FrameData (Addr ι))}
    (hbytes : frames.map (fun frame => frame.bytes first) =
      others.map fun frame => frame.bytes second) :
    senderName first frames = senderName second others := by
  have hlength := congrArg List.length hbytes
  rw [List.length_map, List.length_map] at hlength
  rcases frames with _ | ⟨a, _ | ⟨b, _ | ⟨c, rest⟩⟩⟩ <;>
    rcases others with _ | ⟨a', _ | ⟨b', _ | ⟨c', rest'⟩⟩⟩ <;>
    simp_all [senderName]

/-- Whatever two histories of a peer were, a package that both receive next is
passed on with the same label and the same view, if it is passed on, if and only
if there is room for its frames in both and, unless its sender's name is
rejected or its label names no interface, the messages of the vector show the
same in both with the frames laid over what they held. -/
theorem handler_sees_package_iff
    {interfaces : Table InterfaceID (Interface ι)}
    {initial first second : World ι} {depth₁ depth₂ : ℕ}
    {calls₁ calls₂ : List (Call ι)} {ready₁ ready₂ : List Hub.Ready}
    {frames₁ frames₂ : List (FrameData (Addr ι))} {label : Contents}
    (hinitial : Initial initial)
    (hrun₁ : Outcome.run (call interfaces depth₁) calls₁ initial = some first)
    (hrun₂ : Outcome.run (call interfaces depth₂) calls₂ initial = some second)
    (harrives₁ : Arrives ready₁ first frames₁)
    (harrives₂ : Arrives ready₂ second frames₂)
    (hsame : frames₁.map (fun frame => frame.bytes first.heap) =
      frames₂.map fun frame => frame.bytes second.heap)
    (hlabel : WellFormed first.heap frames₁ label) :
    SeesSame interfaces label ready₁ ready₂ first second ↔
      HasRoom frames₁ first ∧ HasRoom frames₂ second ∧
        (senderError (senderName first.heap frames₁) label ≠ none ∨
          interfaces.lookup label.dest.interfaceID = none ∨
          packageShown frames₁ first = packageShown frames₂ second) := by
  have hlabel₂ : WellFormed second.heap frames₂ label := by
    unfold WellFormed
    rw [← hsame]
    exact hlabel
  -- The two runs share the shape of the label buffer, nothing else.
  have hshape₁ := Reachable.labelShape ⟨initial, depth₁, calls₁, hinitial, hrun₁⟩
  have hshape₂ := Reachable.labelShape ⟨initial, depth₂, calls₂, hinitial, hrun₂⟩
  obtain ⟨hub₁, port₁, htakes₁⟩ := harrives₁.taken
  obtain ⟨hub₂, port₂, htakes₂⟩ := harrives₂.taken
  rcases @handed_of_wellFormed ι _ interfaces _ _ _ _ _ _ hshape₁ htakes₁
      harrives₁.whole hlabel with
    ⟨hroom₁, hdefined₁, hhanded₁⟩ | ⟨hnone₁, hpending₁⟩
  · rcases @handed_of_wellFormed ι _ interfaces _ _ _ _ _ _ hshape₂ htakes₂
        harrives₂.whole hlabel₂ with
      ⟨hroom₂, hdefined₂, hhanded₂⟩ | ⟨hnone₂, hpending₂⟩
    · rw [← senderName_congr hsame] at hhanded₂
      have hlabelled : ∀ interfaceID received view,
          handed interfaces ready₁ first =
            some (interfaceID, received, view) → received = ⟨label⟩ := by
        intro interfaceID received view hcalled
        rw [hhanded₁] at hcalled
        split at hcalled
        · obtain ⟨interface, -, hresult⟩ := Option.map_eq_some_iff.mp hcalled
          exact (Prod.mk.inj (Prod.mk.inj hresult).2).1.symm
        · contradiction
      have hequal : handed interfaces ready₁ first =
          handed interfaces ready₂ second ↔
            senderError (senderName first.heap frames₁) label ≠ none ∨
              interfaces.lookup label.dest.interfaceID = none ∨
              packageShown frames₁ first = packageShown frames₂ second := by
        rw [hhanded₁, hhanded₂]
        by_cases herror :
            senderError (senderName first.heap frames₁) label = none
        · rw [if_pos herror, if_pos herror]
          cases interfaces.lookup label.dest.interfaceID with
          | none => simp
          | some interface => simp [herror]
        · simp [herror]
      rw [and_iff_right hroom₁, and_iff_right hroom₂, ← hequal]
      constructor
      · exact fun hsees => hsees.same
      · exact fun hequals => ⟨hdefined₁, hdefined₂, hequals, hlabelled⟩
    · constructor
      · exact fun hsees => absurd hpending₂ hsees.defined₂
      · exact fun hcondition => absurd hcondition.2.1 hnone₂
  · constructor
    · exact fun hsees => absurd hpending₁ hsees.defined₁
    · exact fun hcondition => absurd hcondition.1 hnone₁

/-! ## Packages that are shown as they were sent -/

/-- The messages of a package are distinct, at the start of their buffers and
large enough for the bodies, and no frame is read out of them. -/
structure Admits (package : Package) (frames : List (FrameData (Addr ι)))
    (world : World ι) : Prop where
  nonempty : package ≠ []
  nodup : package.Nodup
  offset : ∀ message ∈ package, (world.heap (.message message)).offset = 0
  elsewhere : ∀ frame ∈ frames, ∀ address ∈ world.tempPackage package,
    frame.Avoids address
  fits : Fits (packageBodies world.heap frames) (package.map .message)
    world.heap

/-- With a message for the first body, a package is taken apart: the label goes
to the label buffer and the bodies to the messages. -/
theorem distribute_of_admits {package : Package} {world : World ι}
    {frames : List (FrameData (Addr ι))} {label : Contents}
    (hshape : world.LabelShape)
    (hwhole : ∀ frame ∈ frames, frame.Whole world.heap)
    (hlabel : WellFormed world.heap frames label)
    (hadmits : Admits package frames world) :
    ∃ heap, distribute (world.tempPackage package)
        (packageFrames world.heap frames) world.heap = .ok heap ∧
      TakesApart (packageBodies world.heap frames) (package.map .message)
        world.heap heap := by
  obtain ⟨first, second, third, rest, rfl, hpackage, hthird, -⟩ :=
    hlabel.exists_frames
  have hbodies : packageBodies world.heap (first :: second :: third :: rest) =
      rest.map fun frame => frame.bytes world.heap := rfl
  have hfits := hadmits.fits
  rw [hbodies] at hfits ⊢
  have hmem : ∀ frame ∈ third :: rest,
      frame ∈ first :: second :: third :: rest := fun frame hframe =>
    List.mem_cons_of_mem _ (List.mem_cons_of_mem _ hframe)
  have hpayload : ∀ i, payload world.heap
      (share (package.map (Addr.message : ℕ → Addr ι)).length rest i) =
        (share (package.map (Addr.message : ℕ → Addr ι)).length
          (rest.map fun frame => frame.bytes world.heap) i).flatten := by
    intro i
    rw [share_map, payload, List.flatMap_def]
  have hlength : (world.tempPackage package).length =
      (package.map (Addr.message : ℕ → Addr ι)).length + 1 := rfl
  have hdistinct : (world.tempPackage package).Nodup :=
    nodup_tempPackage hadmits.nodup
  rw [hpackage]
  obtain ⟨heap, hstore, hreceived⟩ :=
    @distribute_received _ _ (world.tempPackage package) (third :: rest)
      world.heap (List.cons_ne_nil _ _) hdistinct
      (by
        intro address haddress
        rcases List.mem_cons.mp haddress with rfl | hmessage
        · exact hshape.heap_offset
        · obtain ⟨message, hmem, rfl⟩ := List.mem_map.mp hmessage
          exact hadmits.offset message hmem)
      (fun frame hframe => hadmits.elsewhere frame (hmem frame hframe))
      (fun frame hframe => hwhole frame (hmem frame hframe))
      (by
        intro i address haddress
        cases i with
        | zero =>
            obtain rfl := Option.some.inj haddress
            have hfirst : share (world.tempPackage package).length
                (third :: rest) 0 = [third] := by
              have hpos := List.length_pos_iff.mpr hadmits.nonempty
              rw [share, if_pos (by rw [hlength, List.length_map]; omega)]
              rfl
            rw [hfirst, payload_cons, payload_nil, List.append_nil, hthird,
              hshape.heap_capacity]
        | succ i =>
            rw [hlength, share_succ, hpayload]
            exact hfits.share haddress)
  refine ⟨heap, hstore, ?_⟩
  apply takesApart_of_received (by rw [List.length_map]) hpayload
  intro i message hmessage
  have hpart := hreceived (i + 1) message hmessage
  rwa [hlength, share_succ] at hpart

/-- What bodies leave to be seen in messages that showed `views`: each message
shows its body, the last one all that are left, and the messages beyond them
what they did before. -/
def bodiesShown :
    List (ℕ × List UInt8) → List (List UInt8) → List (ℕ × List UInt8)
  | [], _ => []
  | views, [] => views
  | [_], bodies => [(bodies.flatten.length, bodies.flatten)]
  | _ :: view :: views, body :: bodies =>
      (body.length, body) :: bodiesShown (view :: views) bodies

omit [DecidableEq ι] in
theorem view_of_takesApart {bodies : List (List UInt8)} {package : Package}
    {world polled : World ι}
    (h : TakesApart bodies (package.map .message) world.heap polled.heap) :
    polled.view package = bodiesShown (world.view package) bodies := by
  induction package generalizing bodies with
  | nil => cases bodies <;> rfl
  | cons message rest ih =>
      cases bodies with
      | nil =>
          have hsame : ∀ index ∈ message :: rest,
              polled.heap (.message index) = world.heap (.message index) := by
            intro index hindex
            obtain ⟨i, hi⟩ := List.mem_iff_getElem?.mp hindex
            exact h.untouched i _ (Nat.zero_le _)
              (by rw [List.getElem?_map, hi, Option.map_some])
          have hview : polled.view (message :: rest) =
              world.view (message :: rest) :=
            List.map_congr_left fun index hindex => by rw [hsame index hindex]
          rw [hview]
          rfl
      | cons body bodies =>
          cases rest with
          | nil =>
              have hshows := h.last (.message message) rfl (by simp)
              rw [World.view, List.map_singleton, hshows.size, hshows.visible]
              rfl
          | cons next rest =>
              have hshows := h.each 0 (.message message) body (by simp) rfl rfl
              have htail : TakesApart bodies
                  ((next :: rest).map .message) world.heap polled.heap := by
                refine ⟨?_, ?_, ?_⟩
                · intro i address later hi haddress hbody
                  exact h.each (i + 1) address later
                    (by simpa using hi) haddress hbody
                · intro address haddress hcount
                  have hlast := h.last address haddress (by simpa using hcount)
                  simpa using hlast
                · intro i address hcount haddress
                  exact h.untouched (i + 1) address (by simpa using hcount)
                    haddress
              have hrest := ih htail
              have hfirst : polled.view (message :: next :: rest) =
                  (body.length, body) :: polled.view (next :: rest) := by
                rw [World.view, List.map_cons, hshows.size, hshows.visible]
                rfl
              rw [hfirst, hrest]
              rfl

/-- A handler whose vector admits the package is shown its bodies. -/
theorem packageShown_of_admits {world : World ι}
    {frames : List (FrameData (Addr ι))} {label : Contents}
    (hshape : world.LabelShape)
    (hwhole : ∀ frame ∈ frames, frame.Whole world.heap)
    (hlabel : WellFormed world.heap frames label)
    (hadmits : Admits world.peer.recvPackage frames world) :
    packageShown frames world = bodiesShown
      (world.view world.peer.recvPackage) (packageBodies world.heap frames) := by
  obtain ⟨heap, hstore, htaken⟩ :=
    distribute_of_admits hshape hwhole hlabel hadmits
  rw [← view_of_distribute hstore]
  exact @view_of_takesApart _ _ _ _ { world with heap := heap } htaken

/-! ## Runs that leave the receive buffer alone -/

/-- The property survives all that calls do to a message, which stays the only
one of the vector. -/
structure MessageInvariant (allowed : Call ι → Prop) (index : ℕ)
    (p : Message → Prop) : Prop where
  emptied : ∀ message, p message → p message.emptied
  stored : ∀ (address : Addr ι) (bufferOffset : ℕ)
    (frame : FrameData (Addr ι)) (heap next : Heap (Addr ι)),
    Stored address bufferOffset frame heap next →
    p (heap address) → p (next address)
  resize : ∀ size offset message, allowed (.resize index size offset) →
    p message → p (message.resize size offset)
  reset : ∀ message, p message → p message.reset
  write : ∀ position source message written,
    message.write position source = some written → p message → p written
  vector : ∀ package, allowed (.changePackage package) → package = [index]

structure RecvHolds (index : ℕ) (p : Message → Prop) (world : World ι) :
    Prop where
  shape : world.LabelShape
  recv : world.peer.recvPackage = [index]
  holds : p (world.heap (.message index))

namespace MessageInvariant

variable {allowed : Call ι → Prop} {index : ℕ} {p : Message → Prop}

theorem of_send (h : MessageInvariant allowed index p) {label : Label}
    {package : Package} {world : World ι} {result : Label × World ι}
    {heap : Heap (Addr ι)} {frames : List (SentFrame (Addr ι))}
    (hspec : SendSpec label package world result heap frames)
    (hinv : RecvHolds index p world) : RecvHolds index p result.2 where
  shape := hspec.sentLabel.shape
  recv := by rw [hspec.peer]; exact hinv.recv
  holds := by
    have hkept : heap (.message index) = world.heap (.message index) :=
      hspec.labelled.others _ (by simp)
    by_cases hreaches : Reaches label world
    · rw [(hspec.reached hreaches).1, emptyAll, hkept]
      split
      · exact h.emptied _ hinv.holds
      · exact hinv.holds
    · rw [(hspec.unreached hreaches).2, hkept]
      exact hinv.holds

theorem of_receive (h : MessageInvariant allowed index p)
    {destPortID : PortID} {package : Package} {world final : World ι}
    (hspec : ReceiveSpec destPortID package world final)
    (hinv : RecvHolds index p world) : RecvHolds index p final where
  shape := labelShape_of_receive hinv.shape hspec
  recv := by rw [hspec.peer]; exact hinv.recv
  holds := by
    rcases hspec.stored with ⟨hheap, -⟩ | ⟨port, frames, -, -, hstore, -⟩
    · rw [hheap]
      exact hinv.holds
    · exact (distribute_preserves h.stored _ _ _ hinv.holds).of_ok hstore

theorem of_setMessage {world : World ι} {target : ℕ} {message : Message}
    (hinv : RecvHolds index p world)
    (hmessage : target = index → p message) :
    RecvHolds index p (world.setMessage (.message target) message) where
  shape := labelShape_of_eq hinv.shape (setMessage_labelMessage _ (by simp))
  recv := hinv.recv
  holds := by
    by_cases htarget : target = index
    · subst target
      rw [World.setMessage_heap_self]
      exact hmessage rfl
    · rw [World.setMessage_heap_of_ne (by simpa using Ne.symm htarget)]
      exact hinv.holds

theorem stepInvariant (h : MessageInvariant allowed index p) :
    StepInvariant allowed (RecvHolds index p) where
  send := by
    intro label package world hinv
    exact sendMessages_holds hinv.shape fun _ _ _ hspec =>
      h.of_send hspec hinv
  receive := by
    intro destPortID package world hinv
    exact (receiveMessages_spec destPortID package world).mono
      fun final hspec => h.of_receive hspec hinv
  ports := fun _ _ hinv =>
    ⟨labelShape_of_eq hinv.shape rfl, hinv.recv, hinv.holds⟩
  receipts := fun _ _ _ _ hinv _ _ =>
    ⟨labelShape_of_eq hinv.shape rfl, hinv.recv, hinv.holds⟩
  resize := by
    intro target size offset world hinv hallowed
    apply of_setMessage hinv
    rintro rfl
    exact h.resize size offset _ hallowed hinv.holds
  reset := by
    intro target world hinv _
    apply of_setMessage hinv
    rintro rfl
    exact h.reset _ hinv.holds
  write := by
    intro target position source written world hinv _ hwrite
    apply of_setMessage hinv
    rintro rfl
    exact h.write position source _ written hwrite hinv.holds
  changePackage := fun package _ hinv hallowed =>
    ⟨labelShape_of_eq hinv.shape rfl, h.vector package hallowed, hinv.holds⟩
  remote := by
    intro peer labelMessage world hinv hne
    refine ⟨labelShape_of_eq hinv.shape
      (setMessage_labelMessage _ (by simpa using hne)), hinv.recv, ?_⟩
    rw [World.setMessage_heap_of_ne (by simp)]
    exact hinv.holds
  called := fun _ _ _ _ hinv =>
    ⟨labelShape_of_eq hinv.shape rfl, hinv.recv, hinv.holds⟩
  subscribe := by
    intro label world hinv
    rw [subscribe_eq_setReceipts]
    exact ⟨labelShape_of_eq hinv.shape rfl, hinv.recv, hinv.holds⟩

end MessageInvariant

/-- The call leaves the vector as the constructor made it, and gives the receive
buffer no offset. -/
def KeepsBuffer (index : ℕ) : Call ι → Prop
  | .resize message _ offset => message = index → offset = 0
  | .changePackage package => package = [index]
  | _ => True

omit [DecidableEq ι] in
theorem keepsBuffer_invariant (index capacity : ℕ) :
    MessageInvariant (KeepsBuffer (ι := ι) index) index
      fun message => message.offset = 0 ∧ message.capacity = capacity where
  emptied := fun _ h => h
  stored := fun _ _ _ _ _ hstored h =>
    ⟨hstored.offset, hstored.capacity.trans h.2⟩
  resize := by
    intro size offset message hallowed ⟨hoffset, hcapacity⟩
    obtain rfl : offset = 0 := hallowed rfl
    refine ⟨?_, (Message.resize_capacity _ _ _).trans hcapacity⟩
    unfold Message.resize
    split
    · exact hoffset
    · rfl
  reset := fun _ h => ⟨rfl, h.2⟩
  write := by
    intro position source message written hwrite ⟨hoffset, hcapacity⟩
    obtain ⟨-, -, hsame, hkept, -, -⟩ := Message.write_eq_some.mp hwrite
    exact ⟨hsame.trans hoffset, hkept.trans hcapacity⟩
  vector := fun _ hallowed => hallowed

theorem Initial.recvHolds {world : World ι} (h : Initial world) :
    RecvHolds world.peer.recvMessage (fun message => message.offset = 0 ∧
      message.capacity =
        (world.heap (.message world.peer.recvMessage)).capacity) world := by
  refine ⟨h.labelShape.1, ?_, ?_, rfl⟩
  · obtain ⟨self, peerID, recvMessage, labelMemory, recvMemory, heap, -, rfl⟩ :=
      h
    rfl
  · obtain ⟨self, peerID, recvMessage, labelMemory, recvMemory, heap, -, rfl⟩ :=
      h
    have hrecv : (construct self peerID recvMessage labelMemory recvMemory
        heap).heap (.message recvMessage) = Message.new recvMemory := by
      simp [construct]
    rw [show (construct self peerID recvMessage labelMemory recvMemory
      heap).peer.recvMessage = recvMessage from rfl, hrecv]
    rfl

omit [DecidableEq ι] in
theorem fits_singleton {bodies : List (List UInt8)} {message : Addr ι}
    {heap : Heap (Addr ι)}
    (hroom : bodies.flatten.length ≤ (heap message).capacity) :
    Fits bodies [message] heap where
  each := by
    intro i _ _ hi
    simp at hi
  last := by
    rintro _ ⟨⟩
    exact hroom

/-- As long as users and handlers leave the vector and the offset of the receive
buffer alone, a handler is called with the interface ID and the label of the
package, and with its bodies end to end, if it has any. -/
theorem handler_sees_bodies {interfaces : Table InterfaceID (Interface ι)}
    {initial world : World ι} {depth : ℕ} {calls : List (Call ι)}
    {ready : List Hub.Ready} {frames : List (FrameData (Addr ι))}
    {label : Contents} (hinitial : Initial initial)
    (hhandlers : HandlersAllowed (KeepsBuffer initial.peer.recvMessage)
      interfaces)
    (hcalls : ∀ call ∈ calls, KeepsBuffer initial.peer.recvMessage call)
    (hrun : Outcome.run (call interfaces depth) calls initial = some world)
    (harrives : Arrives ready world frames)
    (hlabel : WellFormed world.heap frames label)
    (helsewhere : ∀ frame ∈ frames,
      ∀ address ∈ world.tempPackage [initial.peer.recvMessage],
        frame.Avoids address)
    (hfits : (packageBodies world.heap frames).flatten.length ≤
      (initial.heap (.message initial.peer.recvMessage)).capacity)
    {interfaceID : InterfaceID} {received : Label}
    {view : List (ℕ × List UInt8)}
    (hcalled : handed interfaces ready world =
      some (interfaceID, received, view)) :
    interfaceID = label.dest.interfaceID ∧ received = ⟨label⟩ ∧
      view = bodiesShown (world.view [initial.peer.recvMessage])
        (packageBodies world.heap frames) := by
  have hinv := (keepsBuffer_invariant initial.peer.recvMessage
    _).stepInvariant.run hhandlers hcalls hinitial.recvHolds hrun
  obtain ⟨hoffset, hcapacity⟩ := hinv.holds
  have hadmits : Admits world.peer.recvPackage frames world := by
    rw [hinv.recv]
    refine ⟨by simp, by simp, by simpa using hoffset, helsewhere, ?_⟩
    exact fits_singleton (hcapacity ▸ hfits)
  have hshown := packageShown_of_admits hinv.shape harrives.whole hlabel hadmits
  obtain ⟨hub, port, htakes⟩ := harrives.taken
  rcases @handed_of_wellFormed ι _ interfaces _ _ _ _ _ _ hinv.shape htakes
      harrives.whole hlabel with ⟨-, -, hhanded⟩ | ⟨hnone, -⟩
  · rw [hhanded] at hcalled
    split at hcalled
    · obtain ⟨interface, -, hresult⟩ := Option.map_eq_some_iff.mp hcalled
      obtain ⟨rfl, hrest⟩ := Prod.mk.inj hresult
      obtain ⟨rfl, rfl⟩ := Prod.mk.inj hrest
      rw [hshown, hinv.recv]
      exact ⟨rfl, rfl, rfl⟩
    · contradiction
  · obtain ⟨heap, hstore, -⟩ :=
      distribute_of_admits hinv.shape harrives.whole hlabel hadmits
    exact absurd ((exists_distribute_iff_hasRoom harrives.whole).mp
      ⟨heap, hstore⟩) hnone

end Peer

/-! ## A package without a body -/

def labelToSix : Contents := ⟨9, 0, ⟨2, 0, 7⟩, ⟨1, 0, 6⟩⟩

def bodiless : List (FrameData (Addr Unit)) :=
  [.owned (socketIDOf 2), .owned [], .owned labelToSix.encode]

/-- The multiparts wait at the port of peer 1, and all but the last one are
serviced. -/
def serviced (multiparts : List (List (FrameData (Addr Unit)))) :
    List (Peer.Call Unit) :=
  .managePorts (onePortHub 1 [2] (multiparts.flatMap toWire)) ::
    List.replicate (multiparts.length - 1) (.serviceInterfaces portReady)

def runTo (interfaces : Table InterfaceID (Peer.Interface Unit))
    (calls : List (Peer.Call Unit)) : World Unit :=
  (Outcome.run (Peer.call interfaces 1) calls freshPeer).getD freshPeer

theorem run_runTo {interfaces : Table InterfaceID (Peer.Interface Unit)}
    {calls : List (Peer.Call Unit)}
    (hrun : (Outcome.run (Peer.call interfaces 1) calls freshPeer).isSome) :
    Outcome.run (Peer.call interfaces 1) calls freshPeer =
      some (runTo interfaces calls) := by
  obtain ⟨world, hworld⟩ := Option.isSome_iff_exists.mp hrun
  rw [runTo, hworld, Option.getD_some]

theorem arrives_of_nextMultipart {ready : List Hub.Ready} {world : World Unit}
    {frames : List (FrameData (Addr Unit))}
    (hnext : (world.peer.hub.poll pollin ready).map (fun hub =>
      (pollEventPresent hub.pollEventFlags pollin,
        (hub.findPort hub.pollPortID).bind Port.nextMultipart)) =
      .ok (true, some frames))
    (howned : ∀ frame ∈ frames, ∃ bytes, frame = .owned bytes) :
    Peer.Arrives ready world frames := by
  obtain ⟨hub, hpolled, hresult⟩ := Outcome.map_eq_ok.mp hnext
  obtain ⟨hreadable, hframes⟩ := Prod.mk.inj hresult
  obtain ⟨port, hport, hframes⟩ := Option.bind_eq_some_iff.mp hframes
  refine ⟨⟨hub, port, hpolled, hreadable, hport, hframes⟩, ?_⟩
  intro frame hframe
  obtain ⟨bytes, rfl⟩ := howned frame hframe
  rfl

/-- A handler that puts message 1 in the place of the receive buffer. -/
def replacingAt (interfaceID : InterfaceID) :
    Table InterfaceID (Peer.Interface Unit) :=
  (∅ : Table InterfaceID (Peer.Interface Unit)).insert interfaceID
    (.pull fun label _ => ⟨[.changePackage [1]], label, .ok ()⟩)

/-- In the second history two packages were serviced, so that the third one is
received into message 1. -/
theorem handler_sees_package_serviced :
    Peer.SeesSame (replacingAt 6) labelToSix portReady portReady
      (runTo (replacingAt 6) (serviced [wellFramed labelToSix]))
      (runTo (replacingAt 6) (serviced
        [wellFramed labelToSix, bodiless, wellFramed labelToSix])) := by
  have howned : ∀ frame ∈ wellFramed labelToSix,
      ∃ bytes, frame = .owned bytes := by
    simp [wellFramed]
  exact (Peer.handler_sees_package_iff Peer.initial_freshPeer
    (run_runTo (by decide)) (run_runTo (by decide +kernel))
    (arrives_of_nextMultipart (by decide) howned)
    (arrives_of_nextMultipart (by decide +kernel) howned)
    (by decide +kernel) ⟨_, _, _, rfl, by decide, rfl⟩).mpr
      ⟨by decide +kernel, by decide +kernel,
        Or.inr (Or.inr (by decide +kernel))⟩

/-- Without a body, the body of the package before shows. -/
theorem handler_sees_stale_body :
    ∃ first second : World Unit,
      (∃ calls, Outcome.run (Peer.call (pullAt 6) 1) calls freshPeer =
        some first) ∧
      (∃ calls, Outcome.run (Peer.call (pullAt 6) 1) calls freshPeer =
        some second) ∧
      Peer.Arrives portReady first bodiless ∧
      Peer.Arrives portReady second bodiless ∧
      Peer.WellFormed first.heap bodiless labelToSix ∧
      Peer.handed (pullAt 6) portReady first =
        some (6, ⟨labelToSix⟩, [(0, [])]) ∧
      Peer.handed (pullAt 6) portReady second =
        some (6, ⟨labelToSix⟩, [(2, [3, 4])]) := by
  have howned : ∀ frame ∈ bodiless, ∃ bytes, frame = .owned bytes := by
    simp [bodiless]
  refine ⟨runTo (pullAt 6) (serviced [bodiless]),
    runTo (pullAt 6) (serviced [wellFramed labelToSix, bodiless]),
    ⟨_, run_runTo (by decide)⟩, ⟨_, run_runTo (by decide)⟩,
    arrives_of_nextMultipart (by decide) howned,
    arrives_of_nextMultipart (by decide) howned,
    ⟨_, _, _, rfl, by decide, rfl⟩, by decide, by decide⟩

end Dpn
