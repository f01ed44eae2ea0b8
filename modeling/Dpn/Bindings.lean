import Dpn.Registry

/-!
# The bindings of a port

`Port::Unbind` unbinds the name it is given and takes it off the list, but
`Port::Bind` puts a name on the list that it has not bound.  The socket of a
port is always bound under the name of the port itself.
-/

namespace Dpn

variable {α : Type*}

namespace BoundPort

/-- The endpoints of the recorded names are those the socket is bound to. -/
def TellsTruth (state : BoundPort α) : Prop :=
  (state.port.bindings.map fun portName =>
    endpointOf portName state.port.transport).Perm state.bound

/-- `Bind` returns, whatever name it is given. -/
def CanBind (state : BoundPort α) : Prop :=
  state.port.closed = false ∧
    isEndpoint (endpointOf state.port.portName state.port.transport) = true ∧
    endpointOf state.port.portName state.port.transport ∉ state.bound ∧
    endpointOf state.port.portName state.port.transport ∉ state.others

/-- `Unbind` takes the endpoint of the name off the socket. -/
def Unbinds (portName : PortName) (state : BoundPort α) : Prop :=
  ∃ next, Port.unbind portName state = .ok next ∧
    state.bound.Perm (endpointOf portName state.port.transport :: next.bound)

/-- A `Bind` that returns is undone by `Unbind` with the same name. -/
def Restores (portName : PortName) (state : BoundPort α) : Prop :=
  ∀ next, Port.bind portName state = .ok next →
    ∃ final, Port.unbind portName next = .ok final ∧
      final.bound.Perm state.bound

def bindingOf (portName : PortName) (state : BoundPort α) : BoundPort α :=
  { state with
    port := { state.port with bindings := state.port.bindings ++ [portName] }
    bound := state.bound ++
      [endpointOf state.port.portName state.port.transport] }

theorem bind_of_can {state : BoundPort α} (hcan : state.CanBind)
    (portName : PortName) :
    Port.bind portName state = .ok (state.bindingOf portName) :=
  if_pos hcan

theorem bind_of_not {state : BoundPort α} (hcannot : ¬state.CanBind)
    (portName : PortName) :
    Port.bind portName state = .throw .zmqError state :=
  if_neg hcannot

theorem unbind_of_mem {state : BoundPort α} {portName : PortName}
    (hopen : state.port.closed = false)
    (hname : portName ∈ state.port.bindings)
    (hbound : endpointOf portName state.port.transport ∈ state.bound) :
    Port.unbind portName state = .ok { state with
      port := { state.port with
        bindings := state.port.bindings.erase portName }
      bound := state.bound.erase
        (endpointOf portName state.port.transport) } := by
  rw [Port.unbind, if_pos hname]
  exact if_pos ⟨hopen, hbound⟩

theorem unbind_of_notMem {state : BoundPort α} {portName : PortName}
    (hname : portName ∉ state.port.bindings) :
    Port.unbind portName state = .ok state :=
  if_neg hname

/-! ## What follows from a true list -/

theorem TellsTruth.mem_bound {state : BoundPort α} (h : state.TellsTruth)
    {portName : PortName} (hname : portName ∈ state.port.bindings) :
    endpointOf portName state.port.transport ∈ state.bound :=
  h.mem_iff.mp (List.mem_map_of_mem hname)

theorem TellsTruth.unbinds_iff {state : BoundPort α} (h : state.TellsTruth)
    (hopen : state.port.closed = false) (portName : PortName) :
    state.Unbinds portName ↔ portName ∈ state.port.bindings := by
  constructor
  · rintro ⟨next, hunbind, hbound⟩
    by_contra hname
    rw [unbind_of_notMem hname] at hunbind
    obtain rfl := Outcome.ok.inj hunbind
    have hlength := hbound.length_eq
    simp at hlength
  · intro hname
    have hbound := h.mem_bound hname
    exact ⟨_, unbind_of_mem hopen hname hbound, List.perm_cons_erase hbound⟩

theorem tellsTruth_bindingOf_iff {state : BoundPort α} (h : state.TellsTruth)
    (portName : PortName) :
    (state.bindingOf portName).TellsTruth ↔
      endpointOf portName state.port.transport =
        endpointOf state.port.portName state.port.transport := by
  simp only [TellsTruth, bindingOf, List.map_append, List.map_cons,
    List.map_nil]
  constructor
  · intro hperm
    have hlast := (h.append_right _).symm.trans hperm
    exact List.singleton_perm_singleton.mp
      ((List.perm_append_left_iff _).mp hlast)
  · intro heq
    rw [heq]
    exact h.append_right _

theorem TellsTruth.unbind {state : BoundPort α} (h : state.TellsTruth)
    (portName : PortName) :
    (Port.unbind portName state).Holds TellsTruth := by
  rw [Port.unbind]
  split
  · rename_i hname
    dsimp only
    split
    · rename_i hbound
      -- The name is listed and its endpoint is bound, so both lists lose the
      -- same endpoint.
      have hlisted := (List.perm_cons_erase hname).map fun portName =>
        endpointOf portName state.port.transport
      have hboth := (hlisted.symm.trans h).trans
        (List.perm_cons_erase hbound.2)
      exact hboth.cons_inv
    · exact h
  · exact h

theorem TellsTruth.restores {state next : BoundPort α}
    (h : state.TellsTruth) {portName : PortName}
    (hbind : Port.bind portName state = .ok next)
    (hnext : next.TellsTruth) : state.Restores portName := by
  intro other hother
  obtain rfl : next = other := Outcome.ok.inj (hbind.symm.trans hother)
  by_cases hcan : state.CanBind
  · obtain rfl := Outcome.ok.inj ((bind_of_can hcan portName).symm.trans hbind)
    have hsame := (tellsTruth_bindingOf_iff h portName).mp hnext
    have hname : portName ∈ (state.bindingOf portName).port.bindings := by
      simp [bindingOf]
    refine ⟨_, unbind_of_mem hcan.1 hname (hnext.mem_bound hname), ?_⟩
    have herase := (List.perm_cons_erase (hnext.mem_bound hname)).symm
    refine List.Perm.cons_inv (herase.trans ?_)
    rw [bindingOf, hsame]
    exact List.perm_append_singleton _ _
  · rw [bind_of_not hcan] at hbind
    contradiction

/-! ## Runs -/

/-- A call on the port, or a change of what the other sockets of the context
are bound to. -/
inductive Call where
  | bind (portName : PortName)
  | unbind (portName : PortName)
  | elsewhere (endpoints : List SocketID)
  deriving DecidableEq, Repr

def step : Call → BoundPort α → Outcome Exn (BoundPort α)
  | .bind portName, state => Port.bind portName state
  | .unbind portName, state => Port.unbind portName state
  | .elsewhere endpoints, state => .ok { state with others := endpoints }

/-- A `Bind` that returns is given the name of the port, or one that ZMQ takes
for it. -/
def BindsOwnName : Call → BoundPort α → Prop
  | .bind portName, state => state.CanBind →
      endpointOf portName state.port.transport =
        endpointOf state.port.portName state.port.transport
  | .unbind _, _ => True
  | .elsewhere _, _ => True

theorem step_open (call : Call) {state : BoundPort α}
    (hopen : state.port.closed = false) :
    (step call state).Holds fun next => next.port.closed = false := by
  cases call with
  | bind portName =>
      by_cases hcan : state.CanBind
      · rw [step, bind_of_can hcan]
        exact hopen
      · rw [step, bind_of_not hcan]
        exact hopen
  | unbind portName =>
      rw [step, Port.unbind]
      dsimp only
      split
      · split
        · exact hopen
        · exact hopen
      · exact hopen
  | elsewhere endpoints => exact hopen

theorem run_open {calls : List Call} {start state : BoundPort α}
    (hopen : start.port.closed = false)
    (hrun : Outcome.run step calls start = some state) :
    state.port.closed = false :=
  Outcome.run_invariant_of_meets
    (fun call _ hstate (_ : True) => step_open call hstate) hopen
    (Outcome.runMeets_of_forall_mem (fun _ _ => trivial) start) hrun

theorem tellsTruth_step_iff (call : Call) (state : BoundPort α)
    (h : state.TellsTruth) :
    (∃ next, (step call state).state? = some next ∧ next.TellsTruth) ↔
      BindsOwnName call state := by
  cases call with
  | bind portName =>
      by_cases hcan : state.CanBind
      · rw [step, bind_of_can hcan, Outcome.state?_ok, BindsOwnName]
        simp only [Option.some.injEq, exists_eq_left', hcan, true_imp_iff,
          tellsTruth_bindingOf_iff h]
      · rw [step, bind_of_not hcan, Outcome.state?_throw]
        exact ⟨fun _ hyes => absurd hyes hcan, fun _ => ⟨state, rfl, h⟩⟩
  | unbind portName =>
      have hunbind := h.unbind portName
      rw [step]
      cases hresult : Port.unbind portName state with
      | ok next =>
          rw [hresult] at hunbind
          exact iff_of_true ⟨next, rfl, hunbind⟩ trivial
      | throw error next =>
          rw [hresult] at hunbind
          exact iff_of_true ⟨next, rfl, hunbind⟩ trivial
      | stuck reason =>
          rw [Port.unbind] at hresult
          split at hresult
          · dsimp only at hresult
            split at hresult <;> contradiction
          · contradiction
  | elsewhere endpoints => exact iff_of_true ⟨_, rfl, h⟩ trivial

/-- In every state of a run the list of bindings is the truth, `Unbind`
succeeds for the names on it, and it takes back what a `Bind` of the run did. -/
def BindingsTrue (calls : List Call) (start : BoundPort α) : Prop :=
  ∀ n, ∃ state, Outcome.run step (calls.take n) start = some state ∧
    state.TellsTruth ∧
    (∀ portName, state.Unbinds portName ↔ portName ∈ state.port.bindings) ∧
    ∀ portName, calls[n]? = some (.bind portName) → state.Restores portName

theorem bindingsTrue_iff_tellsTruth {calls : List Call} {start : BoundPort α}
    (hopen : start.port.closed = false) :
    BindingsTrue calls start ↔
      ∀ n, ∃ state, Outcome.run step (calls.take n) start = some state ∧
        state.TellsTruth := by
  constructor
  · intro hall n
    obtain ⟨state, hrun, htruth, -⟩ := hall n
    exact ⟨state, hrun, htruth⟩
  · intro hall n
    obtain ⟨state, hrun, htruth⟩ := hall n
    refine ⟨state, hrun, htruth, htruth.unbinds_iff (run_open hopen hrun), ?_⟩
    intro portName hcall next hbind
    obtain ⟨after, hafter, htrue⟩ := hall (n + 1)
    have htake : calls.take (n + 1) = calls.take n ++ [.bind portName] := by
      rw [List.take_add_one, hcall]
      rfl
    rw [htake, Outcome.run_append, hrun, Option.bind_some, Outcome.run_cons,
      step, hbind, Outcome.state?_ok, Option.bind_some] at hafter
    obtain rfl := Option.some.inj hafter
    exact htruth.restores hbind htrue next hbind

/-! ## The constructor -/

/-- The constructor of `Port`, which binds the port under its own name. -/
def construct (portName : PortName) (transport : Transport) (socket : ℕ)
    (others : List SocketID) : Outcome Exn (BoundPort α) :=
  let port : Port α :=
    { portName := portName
      transport := transport
      socket := socket
      closed := false
      routes := []
      incoming := [] }
  if portNameToSocketID portName transport ≠ [] ∧
      (portNameToSocketID portName transport).length ≤ 255 then
    Port.bind portName ⟨port, [], others⟩
  else .throw .zmqError ⟨port, [], others⟩

/-- What the constructor leaves, if it returns, is the port of the registries. -/
theorem construct_eq_ok_iff {portName : PortName} {transport : Transport}
    {context : ContextID} {process : Process α} {state : BoundPort α} :
    construct portName transport process.nextSocket
        (process.boundNames context) = .ok state ↔
      process.Constructs portName transport context ∧
        state = ⟨process.newPort portName transport,
          [endpointOf portName transport], process.boundNames context⟩ := by
  rw [construct]
  by_cases hrouting : portNameToSocketID portName transport ≠ [] ∧
      (portNameToSocketID portName transport).length ≤ 255
  · rw [if_pos hrouting]
    by_cases hends : isEndpoint (endpointOf portName transport) = true ∧
        endpointOf portName transport ∉ process.boundNames context
    · rw [bind_of_can ⟨rfl, hends.1, List.not_mem_nil, hends.2⟩,
        Outcome.ok.injEq, eq_comm]
      exact ⟨fun h => ⟨⟨hrouting, hends⟩, h⟩, fun h => h.2⟩
    · rw [bind_of_not fun hcan => hends ⟨hcan.2.1, hcan.2.2.2⟩]
      exact ⟨fun h => by contradiction, fun h => absurd h.1.2 hends⟩
  · rw [if_neg hrouting]
    exact ⟨fun h => by contradiction, fun h => absurd h.1.1 hrouting⟩

theorem tellsTruth_construct {portName : PortName} {transport : Transport}
    {socket : ℕ} {others : List SocketID} {start : BoundPort α}
    (hstart : construct portName transport socket others = .ok start) :
    start.port.closed = false ∧ start.TellsTruth := by
  rw [construct] at hstart
  split at hstart
  · unfold Port.bind at hstart
    dsimp only at hstart
    split at hstart
    · obtain rfl := Outcome.ok.inj hstart
      exact ⟨rfl, List.Perm.refl _⟩
    · contradiction
  · contradiction

/-- The bindings of a constructed port stay the truth, if and only if every
`Bind` that returns was given the port's own name. -/
theorem bindingsTrue_iff {portName : PortName} {transport : Transport}
    {socket : ℕ} {others : List SocketID} {start : BoundPort α}
    (hstart : construct portName transport socket others = .ok start)
    (calls : List Call) :
    BindingsTrue calls start ↔
      Outcome.RunMeets step BindsOwnName calls start := by
  obtain ⟨hopen, htruth⟩ := tellsTruth_construct hstart
  rw [bindingsTrue_iff_tellsTruth hopen]
  exact Outcome.run_take_iff_meets tellsTruth_step_iff htruth

end BoundPort

/-! ## Two names for one port -/

/-- The port `inproc://a`. -/
def boundA : BoundPort ℕ where
  port :=
    { portName := [97]
      transport := .inproc
      socket := 0
      closed := false
      routes := []
      incoming := []
      bindings := [[97]] }
  bound := [endpointOf [97] .inproc]
  others := []

theorem construct_boundA :
    BoundPort.construct [97] .inproc 0 [] = .ok boundA := rfl

theorem bindingsTrue_rebound :
    BoundPort.BindingsTrue [.unbind [97], .bind [97], .bind [120]] boundA := by
  apply (BoundPort.bindingsTrue_iff construct_boundA _).mpr
  refine ⟨trivial, fun first hfirst => ⟨fun _ => ?_, fun second hsecond => ?_⟩⟩
  · obtain rfl := Option.some.inj hfirst
    rfl
  · obtain rfl := Option.some.inj hfirst
    obtain rfl := Option.some.inj hsecond
    refine ⟨fun hcan => absurd hcan.2.2.1 (by decide), fun _ _ => trivial⟩

/-- After `Unbind("a")`, `Bind("x")` binds the name `a` and records `x`, which
cannot be unbound. -/
theorem bind_records_other_name :
    (Outcome.run BoundPort.step [.unbind [97], .bind [120]] boundA).map
        (fun state => (state.port.bindings, state.bound)) =
      some ([[120]], [endpointOf [97] .inproc]) ∧
    ¬BoundPort.BindingsTrue [.unbind [97], .bind [120]] boundA := by
  constructor
  · decide
  · intro hall
    obtain ⟨state, hrun, htruth, -⟩ := hall 2
    obtain rfl := Option.some.inj hrun
    have hmem := htruth.mem_iff.mp (List.mem_singleton.mpr rfl)
    exact absurd hmem (by decide)

end Dpn
