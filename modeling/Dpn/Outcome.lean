import Mathlib.Tactic

/-!
# Outcomes of imperative calls

A call of an imperative program returns normally, leaves by an exception, or
never comes back: it waits for ever, or the language gives it no meaning any
more.  In the first two cases the state it leaves behind is visible to the
caller.  The rules below carry an assertion about that state through
sequencing, through handlers, and through runs of calls whose exceptions the
caller survives.
-/

/-- Why a call never comes back. -/
inductive Stuck where
  | blocked
  | undefined
  deriving DecidableEq, Repr

/-- The end of a call with exceptions from `ε` and state from `σ`. -/
inductive Outcome (ε σ : Type*) where
  | ok (state : σ)
  | throw (error : ε) (state : σ)
  | stuck (reason : Stuck)
  deriving DecidableEq, Repr

namespace Outcome

variable {ε σ τ υ : Type*}

/-- Sequencing.  The two calls may act on different states: `rejoin` says what
the state of the first becomes for the caller if it throws. -/
def andThen (outcome : Outcome ε σ) (rejoin : σ → τ)
    (next : σ → Outcome ε τ) : Outcome ε τ :=
  match outcome with
  | .ok state => next state
  | .throw error state => .throw error (rejoin state)
  | .stuck reason => .stuck reason

def map (f : σ → τ) (outcome : Outcome ε σ) : Outcome ε τ :=
  outcome.andThen f fun state => .ok (f state)

def state? : Outcome ε σ → Option σ
  | .ok state => some state
  | .throw _ state => some state
  | .stuck _ => none

def Holds (p : σ → Prop) : Outcome ε σ → Prop
  | .ok state => p state
  | .throw _ state => p state
  | .stuck _ => True

@[simp] theorem andThen_ok (state : σ) (rejoin : σ → τ)
    (next : σ → Outcome ε τ) :
    (Outcome.ok state).andThen rejoin next = next state := rfl

@[simp] theorem andThen_throw (error : ε) (state : σ) (rejoin : σ → τ)
    (next : σ → Outcome ε τ) :
    (Outcome.throw error state).andThen rejoin next =
      .throw error (rejoin state) := rfl

@[simp] theorem andThen_stuck (reason : Stuck) (rejoin : σ → τ)
    (next : σ → Outcome ε τ) :
    (Outcome.stuck reason).andThen rejoin next = .stuck reason := rfl

@[simp] theorem map_ok (f : σ → τ) (state : σ) :
    (Outcome.ok state : Outcome ε σ).map f = .ok (f state) := rfl

@[simp] theorem map_throw (f : σ → τ) (error : ε) (state : σ) :
    (Outcome.throw error state).map f = .throw error (f state) := rfl

@[simp] theorem map_stuck (f : σ → τ) (reason : Stuck) :
    (Outcome.stuck reason : Outcome ε σ).map f = .stuck reason := rfl

@[simp] theorem state?_ok (state : σ) :
    (Outcome.ok state : Outcome ε σ).state? = some state := rfl

@[simp] theorem state?_throw (error : ε) (state : σ) :
    (Outcome.throw error state).state? = some state := rfl

@[simp] theorem state?_stuck (reason : Stuck) :
    (Outcome.stuck reason : Outcome ε σ).state? = none := rfl

@[simp] theorem holds_ok (p : σ → Prop) (state : σ) :
    (Outcome.ok state : Outcome ε σ).Holds p ↔ p state := Iff.rfl

@[simp] theorem holds_throw (p : σ → Prop) (error : ε) (state : σ) :
    (Outcome.throw error state).Holds p ↔ p state := Iff.rfl

@[simp] theorem holds_stuck (p : σ → Prop) (reason : Stuck) :
    (Outcome.stuck reason : Outcome ε σ).Holds p := trivial

@[simp] theorem state?_map (f : σ → τ) (outcome : Outcome ε σ) :
    (outcome.map f).state? = outcome.state?.map f := by
  cases outcome <;> rfl

theorem andThen_eq_ok {outcome : Outcome ε σ} {rejoin : σ → τ}
    {next : σ → Outcome ε τ} {final : τ} :
    outcome.andThen rejoin next = .ok final ↔
      ∃ state, outcome = .ok state ∧ next state = .ok final := by
  cases outcome <;> simp

theorem map_eq_ok {f : σ → τ} {outcome : Outcome ε σ} {final : τ} :
    outcome.map f = .ok final ↔ ∃ state, outcome = .ok state ∧ f state = final := by
  cases outcome <;> simp

theorem holds_iff_state? {p : σ → Prop} {outcome : Outcome ε σ} :
    outcome.Holds p ↔ ∀ state, outcome.state? = some state → p state := by
  cases outcome <;> simp

theorem Holds.of_ok {p : σ → Prop} {outcome : Outcome ε σ} {state : σ}
    (h : outcome.Holds p) (hok : outcome = .ok state) : p state := by
  subst hok
  exact h

theorem Holds.mono {p q : σ → Prop} {outcome : Outcome ε σ}
    (h : outcome.Holds p) (himp : ∀ state, p state → q state) :
    outcome.Holds q := by
  cases outcome with
  | ok state => exact himp state h
  | throw error state => exact himp state h
  | stuck reason => trivial

/-- The rule of sequencing: an assertion of the first call that survives the
rejoining and the second call holds at the end. -/
theorem Holds.andThen {p : σ → Prop} {q : τ → Prop}
    {outcome : Outcome ε σ} {rejoin : σ → τ} {next : σ → Outcome ε τ}
    (h : outcome.Holds p) (hrejoin : ∀ state, p state → q (rejoin state))
    (hnext : ∀ state, p state → (next state).Holds q) :
    (outcome.andThen rejoin next).Holds q := by
  cases outcome with
  | ok state => exact hnext state h
  | throw error state => exact hrejoin state h
  | stuck reason => trivial

theorem Holds.map {p : σ → Prop} {q : τ → Prop} {outcome : Outcome ε σ}
    {f : σ → τ} (h : outcome.Holds p) (hf : ∀ state, p state → q (f state)) :
    (outcome.map f).Holds q :=
  h.andThen hf hf

/-! ## Runs of calls

A run makes the calls of a list one after another.  An exception ends its call
only; a call that never comes back ends the run. -/

section Run

variable {κ : Type*} (step : κ → σ → Outcome ε σ)

def run : List κ → σ → Option σ
  | [], state => some state
  | call :: calls, state =>
      match (step call state).state? with
      | none => none
      | some next => run calls next

/-- A sequence of calls by a caller that catches every exception. -/
def survive : List κ → σ → Outcome ε σ
  | [], state => .ok state
  | call :: calls, state =>
      match step call state with
      | .ok next => survive calls next
      | .throw _ next => survive calls next
      | .stuck reason => .stuck reason

/-- What is collected from the calls of a run, each in the state it is made
in. -/
def collect {β : Type*} (found : κ → σ → List β) : List κ → σ → List β
  | [], _ => []
  | call :: calls, state =>
      found call state ++
        match (step call state).state? with
        | none => []
        | some next => collect found calls next

def RunMeets (condition : κ → σ → Prop) : List κ → σ → Prop
  | [], _ => True
  | call :: calls, state =>
      condition call state ∧
        ∀ next, (step call state).state? = some next →
          RunMeets condition calls next

instance decidableRunMeets {condition : κ → σ → Prop}
    [∀ call state, Decidable (condition call state)] :
    ∀ (calls : List κ) (state : σ),
      Decidable (RunMeets step condition calls state)
  | [], _ => .isTrue trivial
  | call :: calls, state =>
      have : DecidablePred (RunMeets step condition calls) :=
        decidableRunMeets calls
      inferInstanceAs (Decidable (_ ∧ ∀ next ∈ (step call state).state?, _))

@[simp] theorem run_nil (state : σ) : run step [] state = some state := rfl

theorem run_cons (call : κ) (calls : List κ) (state : σ) :
    run step (call :: calls) state =
      (step call state).state?.bind (run step calls) := by
  rw [run]
  cases (step call state).state? <;> rfl

theorem run_append (calls later : List κ) (state : σ) :
    run step (calls ++ later) state =
      (run step calls state).bind (run step later) := by
  induction calls generalizing state with
  | nil => rfl
  | cons call calls ih =>
      rw [List.cons_append, run_cons, run_cons]
      cases (step call state).state? with
      | none => rfl
      | some next => exact ih next

variable {step}

theorem survive_ne_throw (calls : List κ) (state : σ) (error : ε) (final : σ) :
    Outcome.survive step calls state ≠ .throw error final := by
  induction calls generalizing state with
  | nil => simp [Outcome.survive]
  | cons call calls ih =>
      rw [Outcome.survive]
      cases step call state with
      | ok next => exact ih next
      | throw caught next => exact ih next
      | stuck reason => simp

theorem Holds.survive {inv : σ → Prop} {calls : List κ} {state : σ}
    (hinit : inv state)
    (hstep : ∀ call ∈ calls, ∀ state, inv state → (step call state).Holds inv) :
    (survive step calls state).Holds inv := by
  induction calls generalizing state with
  | nil => exact hinit
  | cons call calls ih =>
      have hfirst := hstep call (by simp) state hinit
      have hrest : ∀ other ∈ calls, ∀ state, inv state →
          (step other state).Holds inv :=
        fun other hother => hstep other (List.mem_cons_of_mem call hother)
      rw [Outcome.survive]
      cases hcall : step call state with
      | ok next => exact ih (hfirst.of_ok hcall) hrest
      | throw error next =>
          rw [hcall] at hfirst
          exact ih hfirst hrest
      | stuck reason => trivial

theorem run_eq_some_iff {calls : List κ} {state final : σ} :
    run step calls state = some final ↔
      Outcome.survive step calls state = .ok final := by
  induction calls generalizing state with
  | nil => simp [Outcome.survive]
  | cons call calls ih =>
      rw [run_cons, Outcome.survive]
      cases step call state with
      | ok next => exact ih
      | throw error next => exact ih
      | stuck reason => simp

/-- What the calls of a run add to what was found before. -/
theorem Holds.collect {β : Type*} {found : κ → σ → List β} {good : β → Prop}
    {inv : List β → σ → Prop} {calls : List κ} {before : List β} {state : σ}
    (hstep : ∀ call ∈ calls, ∀ before state, inv before state →
      (∀ item ∈ found call state, good item) →
      (step call state).Holds (inv (before ++ found call state)))
    (hinit : inv before state)
    (hgood : ∀ item ∈ Outcome.collect step found calls state, good item) :
    (Outcome.survive step calls state).Holds
      (inv (before ++ Outcome.collect step found calls state)) := by
  induction calls generalizing before state with
  | nil => simpa [Outcome.survive, Outcome.collect] using hinit
  | cons call calls ih =>
      rw [Outcome.collect] at hgood ⊢
      rw [Outcome.survive, ← List.append_assoc]
      have hfirst := hstep call (by simp) before state hinit
        fun item hitem => hgood item (List.mem_append_left _ hitem)
      have hrest : ∀ other ∈ calls, ∀ before state, inv before state →
          (∀ item ∈ found other state, good item) →
          (step other state).Holds (inv (before ++ found other state)) :=
        fun other hother => hstep other (List.mem_cons_of_mem call hother)
      cases hcall : step call state with
      | ok next =>
          rw [hcall] at hfirst hgood
          exact ih hrest hfirst fun item hitem =>
            hgood item (List.mem_append_right _ hitem)
      | throw error next =>
          rw [hcall] at hfirst hgood
          exact ih hrest hfirst fun item hitem =>
            hgood item (List.mem_append_right _ hitem)
      | stuck reason => trivial

/-- Induction over runs whose calls all meet a condition. -/
theorem run_invariant_of_meets {inv : σ → Prop} {condition : κ → σ → Prop}
    (hstep : ∀ call state, inv state → condition call state →
      (step call state).Holds inv)
    {calls : List κ} {state final : σ} (hinit : inv state)
    (hmeets : RunMeets step condition calls state)
    (hrun : run step calls state = some final) : inv final := by
  induction calls generalizing state with
  | nil =>
      simp only [run_nil, Option.some.injEq] at hrun
      exact hrun ▸ hinit
  | cons call calls ih =>
      rw [run_cons] at hrun
      obtain ⟨next, hnext, hrest⟩ := Option.bind_eq_some_iff.mp hrun
      have hinv : inv next :=
        holds_iff_state?.mp (hstep call state hinit hmeets.1) next hnext
      exact ih hinv (hmeets.2 next hnext) hrest

/-- A run whose calls meet a condition under which an invariant is kept meets
the invariant as well. -/
theorem runMeets_and_invariant {inv : σ → Prop} {condition : κ → σ → Prop}
    (hstep : ∀ call state, inv state → condition call state →
      (step call state).Holds inv)
    {calls : List κ} {state : σ} (hinit : inv state)
    (hmeets : RunMeets step condition calls state) :
    RunMeets step (fun call state => condition call state ∧ inv state) calls
      state := by
  induction calls generalizing state with
  | nil => trivial
  | cons call calls ih =>
      refine ⟨⟨hmeets.1, hinit⟩, fun next hnext => ?_⟩
      exact ih (holds_iff_state?.mp (hstep call state hinit hmeets.1) next hnext)
        (hmeets.2 next hnext)

/-- Every call of a run comes back with the invariant, if and only if it is made
under the condition that is exact for a single call. -/
theorem run_take_iff_meets {inv : σ → Prop} {condition : κ → σ → Prop}
    (hstep : ∀ call state, inv state →
      ((∃ next, (step call state).state? = some next ∧ inv next) ↔
        condition call state))
    {calls : List κ} {state : σ} (hinit : inv state) :
    (∀ n, ∃ final, run step (calls.take n) state = some final ∧ inv final) ↔
      RunMeets step condition calls state := by
  induction calls generalizing state with
  | nil => simpa [RunMeets] using hinit
  | cons call calls ih =>
      constructor
      · intro hall
        obtain ⟨final, hfinal, hinv⟩ := hall 1
        rw [List.take_succ_cons, List.take_zero, run_cons] at hfinal
        obtain ⟨next, hnext, hlast⟩ := Option.bind_eq_some_iff.mp hfinal
        obtain rfl := Option.some.inj hlast
        refine ⟨(hstep call state hinit).mp ⟨next, hnext, hinv⟩, ?_⟩
        intro other hother
        obtain rfl := Option.some.inj (hnext.symm.trans hother)
        apply (ih hinv).mp
        intro n
        obtain ⟨last, hrun, hlast⟩ := hall (n + 1)
        rw [List.take_succ_cons, run_cons, hnext] at hrun
        exact ⟨last, hrun, hlast⟩
      · rintro ⟨hcondition, hrest⟩ n
        obtain ⟨next, hnext, hinv⟩ := (hstep call state hinit).mpr hcondition
        cases n with
        | zero => exact ⟨state, rfl, hinit⟩
        | succ n =>
            obtain ⟨final, hrun, hfinal⟩ := (ih hinv).mpr (hrest next hnext) n
            refine ⟨final, ?_, hfinal⟩
            rw [List.take_succ_cons, run_cons, hnext]
            exact hrun

/-- Where every call that comes back does what its parts do one after another,
a run does what the parts of all its calls do. -/
theorem run_collect {β ε' : Type*} {part : β → σ → Outcome ε' σ}
    {found : κ → σ → List β} {calls : List κ} {state final : σ}
    (hstep : ∀ call ∈ calls, ∀ state next,
      (step call state).state? = some next →
      run part (found call state) state = some next)
    (hrun : run step calls state = some final) :
    run part (Outcome.collect step found calls state) state = some final := by
  induction calls generalizing state with
  | nil => exact hrun
  | cons call calls ih =>
      rw [run_cons] at hrun
      obtain ⟨next, hnext, hrest⟩ := Option.bind_eq_some_iff.mp hrun
      have hfirst := hstep call (by simp) state next hnext
      have hlater := ih (fun other hother =>
        hstep other (List.mem_cons_of_mem call hother)) hrest
      rw [Outcome.collect, hnext, run_append, hfirst]
      exact hlater

theorem collect_append {β : Type*} {found : κ → σ → List β}
    {calls later : List κ} {state middle : σ}
    (hrun : run step calls state = some middle) :
    collect step found (calls ++ later) state =
      collect step found calls state ++ collect step found later middle := by
  induction calls generalizing state with
  | nil =>
      obtain rfl := Option.some.inj hrun
      rfl
  | cons call calls ih =>
      rw [run_cons] at hrun
      obtain ⟨next, hnext, hrest⟩ := Option.bind_eq_some_iff.mp hrun
      rw [List.cons_append, collect, collect, hnext, List.append_assoc]
      dsimp only
      rw [ih hrest]

theorem runMeets_append {condition : κ → σ → Prop} {calls later : List κ}
    {state : σ} :
    RunMeets step condition (calls ++ later) state ↔
      RunMeets step condition calls state ∧
        ∀ middle, run step calls state = some middle →
          RunMeets step condition later middle := by
  induction calls generalizing state with
  | nil => simp [RunMeets]
  | cons call calls ih =>
      rw [List.cons_append, RunMeets, RunMeets, and_assoc]
      apply and_congr_right
      intro _
      rw [run_cons]
      cases hnext : (step call state).state? with
      | none => simp
      | some next => simpa using ih

theorem runMeets_collect {β ε' : Type*} {part : β → σ → Outcome ε' σ}
    {found : κ → σ → List β} {condition : β → σ → Prop} {calls : List κ}
    {state : σ}
    (hstep : ∀ call ∈ calls, ∀ state next,
      (step call state).state? = some next →
      run part (found call state) state = some next)
    (hmeets : ∀ call ∈ calls, ∀ state,
      RunMeets part condition (found call state) state) :
    RunMeets part condition (Outcome.collect step found calls state) state := by
  induction calls generalizing state with
  | nil => trivial
  | cons call calls ih =>
      rw [Outcome.collect, runMeets_append]
      refine ⟨hmeets call (by simp) state, ?_⟩
      intro middle hmiddle
      cases hnext : (step call state).state? with
      | none => trivial
      | some next =>
          have hfirst := hstep call (by simp) state next hnext
          obtain rfl := Option.some.inj (hfirst.symm.trans hmiddle)
          exact ih
            (fun other hother => hstep other (List.mem_cons_of_mem call hother))
            fun other hother => hmeets other (List.mem_cons_of_mem call hother)

theorem runMeets_of_forall_mem {condition : κ → Prop} {calls : List κ}
    (h : ∀ call ∈ calls, condition call) (state : σ) :
    RunMeets step (fun call _ => condition call) calls state := by
  induction calls generalizing state with
  | nil => trivial
  | cons call calls ih =>
      exact ⟨h call (by simp), fun next _ =>
        ih (fun other hother => h other (List.mem_cons_of_mem call hother)) next⟩

end Run

/-! ## Calls in related states

Two calls end alike if both return, both throw the same exception or both never
come back for the same reason, in related states if in any. -/

section Related

variable {σ' τ' : Type*}

inductive Related (r : σ → σ' → Prop) : Outcome ε σ → Outcome ε σ' → Prop
  | ok {state : σ} {other : σ'} (h : r state other) :
      Related r (.ok state) (.ok other)
  | throw {error : ε} {state : σ} {other : σ'} (h : r state other) :
      Related r (.throw error state) (.throw error other)
  | stuck {reason : Stuck} : Related r (.stuck reason) (.stuck reason)

theorem Related.refl {r : σ → σ → Prop} (hr : ∀ state, r state state)
    (outcome : Outcome ε σ) : Related r outcome outcome := by
  cases outcome with
  | ok state => exact .ok (hr state)
  | throw error state => exact .throw (hr state)
  | stuck reason => exact .stuck

theorem Related.mono {r q : σ → σ' → Prop} {outcome : Outcome ε σ}
    {outcome' : Outcome ε σ'} (h : Related r outcome outcome')
    (himp : ∀ state other, r state other → q state other) :
    Related q outcome outcome' := by
  cases h with
  | ok hstate => exact .ok (himp _ _ hstate)
  | throw hstate => exact .throw (himp _ _ hstate)
  | stuck => exact .stuck

/-- The rule of sequencing. -/
theorem Related.andThen {r : σ → σ' → Prop} {q : τ → τ' → Prop}
    {outcome : Outcome ε σ} {outcome' : Outcome ε σ'}
    {rejoin : σ → τ} {rejoin' : σ' → τ'}
    {next : σ → Outcome ε τ} {next' : σ' → Outcome ε τ'}
    (h : Related r outcome outcome')
    (hrejoin : ∀ state other, r state other → q (rejoin state) (rejoin' other))
    (hnext : ∀ state other, r state other →
      Related q (next state) (next' other)) :
    Related q (outcome.andThen rejoin next)
      (outcome'.andThen rejoin' next') := by
  cases h with
  | ok hstate => exact hnext _ _ hstate
  | throw hstate => exact .throw (hrejoin _ _ hstate)
  | stuck => exact .stuck

theorem Related.map {r : σ → σ' → Prop} {q : τ → τ' → Prop}
    {outcome : Outcome ε σ} {outcome' : Outcome ε σ'} {f : σ → τ} {f' : σ' → τ'}
    (h : Related r outcome outcome')
    (hf : ∀ state other, r state other → q (f state) (f' other)) :
    Related q (outcome.map f) (outcome'.map f') :=
  h.andThen hf fun state other hstate => .ok (hf state other hstate)

theorem Related.state? {r : σ → σ' → Prop} {outcome : Outcome ε σ}
    {outcome' : Outcome ε σ'} (h : Related r outcome outcome') :
    Option.Rel r outcome.state? outcome'.state? := by
  cases h with
  | ok hstate => exact .some hstate
  | throw hstate => exact .some hstate
  | stuck => exact .none

theorem Related.exists_state? {r : σ → σ' → Prop} {outcome : Outcome ε σ}
    {outcome' : Outcome ε σ'} (h : Related r outcome outcome') {state : σ}
    (hstate : outcome.state? = some state) :
    ∃ other, outcome'.state? = some other ∧ r state other := by
  cases h with
  | ok hother =>
      obtain rfl := Option.some.inj hstate
      exact ⟨_, rfl, hother⟩
  | throw hother =>
      obtain rfl := Option.some.inj hstate
      exact ⟨_, rfl, hother⟩
  | stuck => contradiction

theorem Related.map_eq {r : σ → σ' → Prop} {outcome : Outcome ε σ}
    {outcome' : Outcome ε σ'} {f : σ → τ} {f' : σ' → τ}
    (h : Related r outcome outcome')
    (hf : ∀ state other, r state other → f state = f' other) :
    outcome.map f = outcome'.map f' := by
  cases h with
  | ok hstate => rw [map_ok, map_ok, hf _ _ hstate]
  | throw hstate => rw [map_throw, map_throw, hf _ _ hstate]
  | stuck => rfl

/-- How a call ended, without the state. -/
def ending (outcome : Outcome ε σ) : Outcome ε Unit :=
  outcome.map fun _ => ()

theorem Related.ending_eq {r : σ → σ' → Prop} {outcome : Outcome ε σ}
    {outcome' : Outcome ε σ'} (h : Related r outcome outcome') :
    outcome.ending = outcome'.ending :=
  h.map_eq fun _ _ _ => rfl

variable {κ κ' : Type*} {step : κ → σ → Outcome ε σ}
  {step' : κ' → σ' → Outcome ε σ'} {p : κ → κ' → Prop} {r : σ → σ' → Prop}
  {calls : List κ} {calls' : List κ'} {state : σ} {state' : σ'}

theorem Related.survive
    (hstep : ∀ call call', p call call' → ∀ state state', r state state' →
      Related r (step call state) (step' call' state'))
    (hcalls : List.Forall₂ p calls calls') (hstate : r state state') :
    Related r (survive step calls state) (survive step' calls' state') := by
  induction hcalls generalizing state state' with
  | nil => exact .ok hstate
  | @cons call call' calls calls' hcall _ ih =>
      have hfirst := hstep call call' hcall state state' hstate
      rw [Outcome.survive, Outcome.survive]
      cases hsame : step call state <;> cases hsame' : step' call' state' <;>
        rw [hsame, hsame'] at hfirst <;> cases hfirst
      · exact ih ‹_›
      · exact ih ‹_›
      · exact .stuck

/-- The rule of simulation: where related calls end alike in related states, so
do runs of them, call by call. -/
theorem Related.run
    (hstep : ∀ call call', p call call' → ∀ state state', r state state' →
      Related r (step call state) (step' call' state'))
    (hcalls : List.Forall₂ p calls calls') (hstate : r state state') :
    Option.Rel r (run step calls state) (run step' calls' state') ∧
      collect step (fun call state => [(step call state).ending]) calls state =
        collect step' (fun call state => [(step' call state).ending]) calls'
          state' := by
  induction hcalls generalizing state state' with
  | nil => exact ⟨.some hstate, rfl⟩
  | @cons call call' calls calls' hcall _ ih =>
      have hfirst := hstep call call' hcall state state' hstate
      rw [run_cons, run_cons, Outcome.collect, Outcome.collect, hfirst.ending_eq]
      have hnext := hfirst.state?
      cases hsame : (step call state).state? <;>
        cases hsame' : (step' call' state').state? <;>
        rw [hsame, hsame'] at hnext <;> cases hnext
      · exact ⟨.none, rfl⟩
      · obtain ⟨hrun, hends⟩ := ih ‹_›
        exact ⟨hrun, congrArg _ hends⟩

/-! ## The part of one component

A component takes part in some of the calls of a system only.  If every call
does to the component what its part does to the component alone, so does the
run. -/

theorem run_part {β ε' κ' : Type*} {step' : κ' → σ' → Outcome ε' σ'}
    {part : κ → σ → List κ'} {seen : κ → σ → List β}
    {seen' : κ' → σ' → List β} {condition : κ → σ → Prop}
    (hstep : ∀ call state next state', condition call state →
      r state state' → (step call state).state? = some next →
      ∃ next', run step' (part call state) state' = some next' ∧
        r next next' ∧ collect step' seen' (part call state) state' =
          seen call state)
    {calls : List κ} {final : σ} (hstate : r state state')
    (hmeets : RunMeets step condition calls state)
    (hrun : run step calls state = some final) :
    ∃ final', run step' (collect step part calls state) state' =
        some final' ∧ r final final' ∧
      collect step' seen' (collect step part calls state) state' =
        collect step seen calls state := by
  induction calls generalizing state state' with
  | nil =>
      obtain rfl := Option.some.inj hrun
      exact ⟨state', rfl, hstate, rfl⟩
  | cons call calls ih =>
      rw [run_cons] at hrun
      obtain ⟨next, hnext, hrest⟩ := Option.bind_eq_some_iff.mp hrun
      obtain ⟨next', hpart, hrelated, hseen⟩ :=
        hstep call state next state' hmeets.1 hstate hnext
      obtain ⟨final', hlater, hfinal, hothers⟩ :=
        ih hrelated (hmeets.2 next hnext) hrest
      have hparts : Outcome.collect step part (call :: calls) state =
          part call state ++ Outcome.collect step part calls next := by
        rw [Outcome.collect, hnext]
      refine ⟨final', ?_, hfinal, ?_⟩
      · rw [hparts, run_append, hpart]
        exact hlater
      · rw [hparts, collect_append hpart, hseen, hothers, Outcome.collect, hnext]

end Related

end Outcome
