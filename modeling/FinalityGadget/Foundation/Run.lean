import Mathlib.Logic.Basic

/-!
# Runs of a transition function

A machine is a total transition function on states and events. A run folds it over a list of
events; a guard restricts the steps a run may take, judged in the state before each step. An
invariant of every guarded step holds at the end of every guarded run, and since prefixes of a
guarded run are guarded it holds in every state on the way.
-/

namespace FinalityGadget.Run

variable {σ ε : Type} (step : σ → ε → σ)

/-- The state after handling the events in order. -/
def run (state : σ) (events : List ε) : σ := events.foldl step state

theorem run_append (state : σ) (first second : List ε) :
    run step state (first ++ second) = run step (run step state first) second :=
  List.foldl_append

/-- Every step of the run meets the guard in the state it is taken from. -/
def Guarded (guard : σ → ε → Prop) : σ → List ε → Prop
  | _, [] => True
  | state, event :: events => guard state event ∧ Guarded guard (step state event) events

variable {step}

theorem guarded_of_mem {guard : σ → ε → Prop} {events : List ε}
    (hguard : ∀ event ∈ events, ∀ state, guard state event) (state : σ) :
    Guarded step guard state events := by
  induction events generalizing state with
  | nil => trivial
  | cons event events ih =>
    constructor
    · exact hguard event List.mem_cons_self state
    · apply ih
      intro later hlater
      exact hguard later (List.mem_cons_of_mem event hlater)

theorem guarded_of_forall {guard : σ → ε → Prop} (hguard : ∀ state event, guard state event)
    (state : σ) (events : List ε) : Guarded step guard state events :=
  guarded_of_mem (fun event _ state ↦ hguard state event) state

theorem guarded_append {guard : σ → ε → Prop} {state : σ} {first second : List ε}
    (hfirst : Guarded step guard state first)
    (hsecond : Guarded step guard (run step state first) second) :
    Guarded step guard state (first ++ second) := by
  induction first generalizing state with
  | nil => exact hsecond
  | cons event first ih => exact ⟨hfirst.1, ih hfirst.2 hsecond⟩

/-- A step invariant is a run invariant. -/
theorem invariant_run {guard : σ → ε → Prop} {invariant : σ → Prop}
    (hstep : ∀ state event, invariant state → guard state event → invariant (step state event))
    {state : σ} {events : List ε} (hinit : invariant state)
    (hguard : Guarded step guard state events) : invariant (run step state events) := by
  induction events generalizing state with
  | nil => exact hinit
  | cons event events ih => exact ih (hstep state event hinit hguard.1) hguard.2

/-- Without a guard, the invariant holds after every run. -/
theorem invariant_run_of_forall {invariant : σ → Prop}
    (hstep : ∀ state event, invariant state → invariant (step state event))
    {state : σ} (events : List ε) (hinit : invariant state) :
    invariant (run step state events) := by
  induction events generalizing state with
  | nil => exact hinit
  | cons event events ih => exact ih (hstep state event hinit)

/-- A machine whose steps are short runs of another one, as far as a view of its state goes, refines
the other one: its runs are runs of the other one. -/
theorem exists_run_of_simulation {σ' ε' : Type} {step' : σ' → ε' → σ'} {guard : σ → ε → Prop}
    {guard' : σ' → ε' → Prop} {invariant : σ → Prop} {view : σ → σ'}
    (hstep : ∀ state event, invariant state → guard state event → invariant (step state event))
    (hview : ∀ state event, invariant state → guard state event → ∃ events',
      Guarded step' guard' (view state) events' ∧
        run step' (view state) events' = view (step state event))
    {state : σ} {events : List ε} (hinit : invariant state)
    (hguard : Guarded step guard state events) :
    ∃ events', Guarded step' guard' (view state) events' ∧
      run step' (view state) events' = view (run step state events) := by
  induction events generalizing state with
  | nil => exact ⟨[], trivial, rfl⟩
  | cons event events ih =>
    obtain ⟨first, hfirst, hreached⟩ := hview state event hinit hguard.1
    obtain ⟨rest, hrest, hend⟩ := ih (hstep state event hinit hguard.1) hguard.2
    rw [← hreached] at hrest hend
    refine ⟨first ++ rest, guarded_append hfirst hrest, ?_⟩
    rw [run_append, hend]
    rfl

/-- Two guards that agree as long as an invariant holds admit the same runs. -/
theorem guarded_congr {guard guard' : σ → ε → Prop} {invariant : σ → Prop}
    (hiff : ∀ state event, invariant state → (guard state event ↔ guard' state event))
    (hstep : ∀ state event, invariant state → guard state event → invariant (step state event))
    {state : σ} (events : List ε) (hinit : invariant state) :
    Guarded step guard state events ↔ Guarded step guard' state events := by
  induction events generalizing state with
  | nil => exact Iff.rfl
  | cons event events ih =>
    apply and_congr_right_iff.mpr _ |>.trans (and_congr_left_iff.mpr fun _ ↦ hiff state event hinit)
    intro hguard
    exact ih (hstep state event hinit hguard)

/-- A property that each step keeps exactly when it meets the guard holds all along a run exactly
when the run is guarded. -/
theorem forall_prefix_iff_guarded {guard : σ → ε → Prop} {invariant : σ → Prop}
    (hstep : ∀ state event, invariant state → (invariant (step state event) ↔ guard state event))
    {state : σ} (events : List ε) (hinit : invariant state) :
    (∀ before, before <+: events → invariant (run step state before)) ↔
      Guarded step guard state events := by
  induction events generalizing state with
  | nil =>
    refine iff_of_true (fun before hbefore ↦ ?_) trivial
    rw [List.prefix_nil.mp hbefore]
    exact hinit
  | cons event events ih =>
    constructor
    · intro hall
      have hnext : invariant (step state event) :=
        hall [event] (List.cons_prefix_cons.mpr ⟨rfl, List.nil_prefix⟩)
      refine ⟨(hstep state event hinit).mp hnext, (ih hnext).mp fun before hbefore ↦ ?_⟩
      exact hall (event :: before) (List.cons_prefix_cons.mpr ⟨rfl, hbefore⟩)
    · rintro ⟨hguard, hrest⟩ before hbefore
      have hnext := (hstep state event hinit).mpr hguard
      cases before with
      | nil => exact hinit
      | cons first before =>
        obtain ⟨rfl, hshorter⟩ := List.cons_prefix_cons.mp hbefore
        exact (ih hnext).mpr hrest before hshorter

end FinalityGadget.Run
