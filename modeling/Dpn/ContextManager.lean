import Dpn.Registry

/-!
# The context manager

Ports are made in contexts, which a manager creates and hands out by name.  A
context is created before its name is looked up, so a name in use costs a
context that is deleted again.
-/

namespace Dpn

abbrev ContextName := TextStream.Str

inductive ContextError where
  | exception
  | invalidArgument
  | runtimeError
  deriving DecidableEq, Repr

/-- A context manager.  The contexts it creates are numbered one after another,
and some are deleted again. -/
structure ContextManager where
  contextMap : Table ContextName ContextID
  created : ContextID
  deleted : List ContextID

/-- A context that a caller got a reference to, by the name it asked for. -/
structure Handed where
  name : ContextName
  context : ContextID
  deriving DecidableEq, Repr

namespace ContextManager

def new : ContextManager :=
  ⟨∅, 0, []⟩

def create (manager : ContextManager) : ContextManager :=
  { manager with created := manager.created + 1 }

def delete (context : ContextID) (manager : ContextManager) :
    ContextManager :=
  { manager with deleted := manager.deleted ++ [context] }

/-- `unordered_map::insert`, with the flag that it returns. -/
def insert (name : ContextName) (context : ContextID)
    (manager : ContextManager) : Bool × ContextManager :=
  if name ∈ manager.contextMap then (false, manager)
  else (true,
    { manager with contextMap := manager.contextMap.insert name context })

/-- `ContextManager::AddContext`, given how the constructor of a context takes
its two numbers: it may return, throw or abort. -/
def addContext (construct : ℤ → ℤ → Outcome Unit Unit) (name : ContextName)
    (ioThreads maxSockets : ℤ) (manager : ContextManager) :
    Outcome ContextError (Option ContextID × ContextManager) :=
  match construct ioThreads maxSockets with
  | .stuck reason => .stuck reason
  | .throw _ _ => .throw .exception (none, manager)
  | .ok _ =>
      let context := manager.created
      let manager := manager.create
      if name ∈ manager.contextMap then
        .throw .invalidArgument (none, manager.delete context)
      else
        match manager.insert name context with
        | (false, manager) => .throw .runtimeError (none, manager.delete context)
        | (true, manager) => .ok (some context, manager)

/-- `ContextManager::GetContext`. -/
def getContext (name : ContextName) (manager : ContextManager) :
    Outcome ContextError (Option ContextID × ContextManager) :=
  match manager.contextMap.lookup name with
  | none => .throw .invalidArgument (none, manager)
  | some context => .ok (some context, manager)

inductive Call where
  | addContext (construct : ℤ → ℤ → Outcome Unit Unit) (name : ContextName)
      (ioThreads maxSockets : ℤ)
  | getContext (name : ContextName)

def Call.name : Call → ContextName
  | .addContext _ name _ _ => name
  | .getContext name => name

def perform : Call → ContextManager →
    Outcome ContextError (Option ContextID × ContextManager)
  | .addContext construct name ioThreads maxSockets, manager =>
      manager.addContext construct name ioThreads maxSockets
  | .getContext name, manager => manager.getContext name

def step (call : Call) (manager : ContextManager) :
    Outcome ContextError ContextManager :=
  (perform call manager).map Prod.snd

/-- The reference that a call returns, if it does. -/
def returned (call : Call) (manager : ContextManager) : List Handed :=
  match perform call manager with
  | .ok (some context, _) => [⟨call.name, context⟩]
  | _ => []

/-! ## One call -/

/-- What a call can do: nothing, hand out a context that is there, delete the one
it created, or hand it out and keep it under a new name. -/
inductive Does (manager : ContextManager) :
    List Handed → ContextManager → Prop
  | nothing : Does manager [] manager
  | found {name : ContextName} {context : ContextID}
      (hname : manager.contextMap.lookup name = some context) :
      Does manager [⟨name, context⟩] manager
  | refused : Does manager [] (manager.create.delete manager.created)
  | added {name : ContextName} (hname : manager.contextMap.lookup name = none) :
      Does manager [⟨name, manager.created⟩]
        { manager.create with
          contextMap := manager.contextMap.insert name manager.created }

theorem step_does (call : Call) (manager : ContextManager) :
    (step call manager).Holds (Does manager (returned call manager)) := by
  rw [step, returned]
  cases call with
  | addContext construct name ioThreads maxSockets =>
      rw [perform, addContext]
      cases construct ioThreads maxSockets with
      | stuck reason => trivial
      | throw error state => exact .nothing
      | ok state =>
          by_cases hknown : name ∈ manager.contextMap
          · have hcreated : name ∈ manager.create.contextMap := hknown
            dsimp only
            rw [if_pos hcreated]
            exact .refused
          · have hcreated : name ∉ manager.create.contextMap := hknown
            dsimp only
            rw [if_neg hcreated, insert, if_neg hcreated]
            exact .added (AList.lookup_eq_none.mpr hknown)
  | getContext name =>
      rw [perform, getContext]
      cases hname : manager.contextMap.lookup name with
      | none => exact .nothing
      | some context => exact .found hname

/-! ## Runs -/

/-- The contexts in the table are the ones that were handed out, each under the
name that was asked for and none under two; all others are deleted. -/
structure Tracks (handed : List Handed) (manager : ContextManager) : Prop where
  mem_iff : ∀ name context, ⟨name, context⟩ ∈ handed ↔
    manager.contextMap.lookup name = some context
  distinct : ∀ {name other context},
    manager.contextMap.lookup name = some context →
    manager.contextMap.lookup other = some context → name = other
  mem_deleted_iff : ∀ context, context ∈ manager.deleted ↔
    context < manager.created ∧
      ∀ name, manager.contextMap.lookup name ≠ some context
  bounded : ∀ {name context},
    manager.contextMap.lookup name = some context → context < manager.created
  deletedOnce : manager.deleted.Nodup

theorem tracks_new : Tracks [] new where
  mem_iff := fun name context => by
    simp [new, AList.lookup_empty]
  distinct := fun hname => by
    simp [new, AList.lookup_empty] at hname
  mem_deleted_iff := fun context => by
    simp [new, AList.lookup_empty]
  bounded := fun hname => by
    simp [new, AList.lookup_empty] at hname
  deletedOnce := List.nodup_nil

/-- What a table holds after the insertion of a new name. -/
theorem lookup_insert_eq_some_iff {manager : ContextManager}
    {name other : ContextName} {context found : ContextID}
    (hname : manager.contextMap.lookup name = none) :
    (manager.contextMap.insert name context).lookup other = some found ↔
      (other = name ∧ found = context) ∨
        manager.contextMap.lookup other = some found := by
  by_cases heq : other = name
  · subst other
    rw [AList.lookup_insert, hname]
    simp [eq_comm]
  · rw [AList.lookup_insert_ne heq]
    simp [heq]

theorem Tracks.added {handed : List Handed} {manager : ContextManager}
    (h : Tracks handed manager) {name : ContextName}
    (hname : manager.contextMap.lookup name = none) :
    Tracks (handed ++ [⟨name, manager.created⟩])
      { manager.create with
        contextMap := manager.contextMap.insert name manager.created } := by
  -- A context that is in use already is not the new one.
  have hold : ∀ {other context},
      manager.contextMap.lookup other = some context →
      context ≠ manager.created :=
    fun hother => (h.bounded hother).ne
  have hlookup : ∀ other context,
      (manager.contextMap.insert name manager.created).lookup other =
          some context ↔
        (other = name ∧ context = manager.created) ∨
          manager.contextMap.lookup other = some context :=
    fun _ _ => lookup_insert_eq_some_iff hname
  constructor
  · intro other context
    rw [List.mem_append, h.mem_iff, hlookup, List.mem_singleton, Handed.mk.injEq,
      or_comm]
  · intro first second context hfirst hsecond
    rw [hlookup] at hfirst hsecond
    rcases hfirst with ⟨rfl, rfl⟩ | hfirst
    · rcases hsecond with ⟨rfl, -⟩ | hsecond
      · rfl
      · exact absurd rfl (hold hsecond)
    · rcases hsecond with ⟨-, rfl⟩ | hsecond
      · exact absurd rfl (hold hfirst)
      · exact h.distinct hfirst hsecond
  · intro context
    have hcreated : (∀ other, (manager.contextMap.insert name
        manager.created).lookup other ≠ some context) ↔
          context ≠ manager.created ∧
            ∀ other, manager.contextMap.lookup other ≠ some context := by
      simp only [ne_eq, hlookup, not_or, not_and, forall_and, forall_eq]
    rw [hcreated]
    have hmem := h.mem_deleted_iff context
    have hlt : context < manager.created + 1 ∧ context ≠ manager.created ↔
        context < manager.created :=
      ⟨fun hnew => lt_of_le_of_ne (Nat.le_of_lt_succ hnew.1) hnew.2,
        fun hold => ⟨Nat.lt_succ_of_lt hold, hold.ne⟩⟩
    rw [← and_assoc]
    exact hmem.trans (and_congr_left' hlt.symm)
  · intro other context hother
    rcases (hlookup other context).mp hother with ⟨-, rfl⟩ | hother
    · exact Nat.lt_succ_self _
    · exact (h.bounded hother).trans (Nat.lt_succ_self _)
  · exact h.deletedOnce

theorem Tracks.refused {handed : List Handed} {manager : ContextManager}
    (h : Tracks handed manager) :
    Tracks handed (manager.create.delete manager.created) where
  mem_iff := h.mem_iff
  distinct := h.distinct
  mem_deleted_iff := by
    intro context
    have hmem := h.mem_deleted_iff context
    have hnew : ∀ name,
        manager.contextMap.lookup name ≠ some manager.created :=
      fun name hname => (h.bounded hname).ne rfl
    rw [delete, create]
    dsimp only
    rw [List.mem_append, List.mem_singleton, hmem]
    constructor
    · rintro (⟨hlt, hother⟩ | rfl)
      · exact ⟨hlt.trans (Nat.lt_succ_self _), hother⟩
      · exact ⟨Nat.lt_succ_self _, hnew⟩
    · rintro ⟨hlt, hother⟩
      rcases Nat.lt_succ_iff_lt_or_eq.mp hlt with hold | heq
      · exact Or.inl ⟨hold, hother⟩
      · exact Or.inr heq
  bounded := fun hname => (h.bounded hname).trans (Nat.lt_succ_self _)
  deletedOnce := by
    apply List.nodup_append.mpr
    refine ⟨h.deletedOnce, List.nodup_singleton _, ?_⟩
    rintro context hcontext _ hnew rfl
    obtain rfl := List.mem_singleton.mp hnew
    exact ((h.mem_deleted_iff _).mp hcontext).1.ne rfl

theorem Tracks.does {handed later : List Handed} {manager next : ContextManager}
    (h : Tracks handed manager) (hdoes : Does manager later next) :
    Tracks (handed ++ later) next := by
  cases hdoes with
  | nothing => rwa [List.append_nil]
  | @found name context hname =>
      have hmem := (h.mem_iff name context).mpr hname
      refine ⟨fun other own => ?_, h.distinct, h.mem_deleted_iff, h.bounded,
        h.deletedOnce⟩
      rw [← h.mem_iff, List.mem_append, List.mem_singleton, or_iff_left_iff_imp]
      rintro heq
      rw [heq]
      exact hmem
  | refused =>
      rw [List.append_nil]
      exact h.refused
  | added hname => exact h.added hname

/-- Over every run, whatever is thrown on the way: two calls that return hand out
the same context if and only if they were given the same name, no context that
was handed out is deleted, and every context of the manager that was not handed
out is deleted once, so none leaks. -/
theorem contexts_one_to_one {calls : List Call} {final : ContextManager}
    (hrun : Outcome.run step calls new = some final) :
    (∀ first ∈ Outcome.collect step returned calls new,
      ∀ second ∈ Outcome.collect step returned calls new,
        (first.name = second.name ↔ first.context = second.context)) ∧
      (∀ context, context < final.created →
        (context ∈ final.deleted ↔
          ∀ entry ∈ Outcome.collect step returned calls new,
            entry.context ≠ context)) ∧
      final.deleted.Nodup := by
  have hstep : ∀ call ∈ calls, ∀ handed manager, Tracks handed manager →
      (∀ entry ∈ returned call manager, True) →
      (step call manager).Holds (Tracks (handed ++ returned call manager)) :=
    fun call _ handed manager h _ =>
      (step_does call manager).mono fun next hdoes => h.does hdoes
  have hsurvive := Outcome.Holds.collect hstep tracks_new
    fun _ _ => trivial
  rw [Outcome.run_eq_some_iff] at hrun
  have htracks := hsurvive.of_ok hrun
  rw [List.nil_append] at htracks
  refine ⟨?_, ?_, htracks.deletedOnce⟩
  · rintro ⟨name, context⟩ hfirst ⟨other, second⟩ hsecond
    rw [htracks.mem_iff] at hfirst hsecond
    dsimp only
    constructor
    · rintro rfl
      exact Option.some.inj (hfirst.symm.trans hsecond)
    · rintro rfl
      exact htracks.distinct hfirst hsecond
  · intro context hlt
    rw [htracks.mem_deleted_iff, and_iff_right hlt]
    constructor
    · rintro hnone ⟨name, own⟩ hentry rfl
      exact hnone name ((htracks.mem_iff name own).mp hentry)
    · intro hnone name hname
      exact hnone ⟨name, context⟩ ((htracks.mem_iff name context).mpr hname) rfl

end ContextManager

/-- The second addition of a name is refused. -/
theorem contexts_one_to_one_twice :
    let construct : ℤ → ℤ → Outcome Unit Unit := fun _ _ => .ok ()
    let calls : List ContextManager.Call :=
      [.addContext construct [97] 0 1023, .addContext construct [98] 2 1023,
        .addContext construct [97] 0 1023, .getContext [98], .getContext [99]]
    let handed := Outcome.collect ContextManager.step ContextManager.returned
      calls ContextManager.new
    ∃ final, Outcome.run ContextManager.step calls ContextManager.new =
        some final ∧
      (∀ first ∈ handed, ∀ second ∈ handed,
        (first.name = second.name ↔ first.context = second.context)) ∧
      (∀ context, context < final.created →
        (context ∈ final.deleted ↔
          ∀ entry ∈ handed, entry.context ≠ context)) ∧
      final.deleted.Nodup :=
  ⟨_, rfl, ContextManager.contexts_one_to_one rfl⟩

end Dpn
