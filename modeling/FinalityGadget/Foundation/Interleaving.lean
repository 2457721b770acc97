import Mathlib.Logic.Function.Basic
import FinalityGadget.Foundation.Run

/-!
# Interleaved processes

A family of processes, each with a state of its own, takes turns in any order: a schedule says which
process meets which event next. A process sees nothing of a schedule but its own events, so it ends
up where it would have ended up alone, and two schedules that agree on the events of every process
lead to the same states.
-/

namespace FinalityGadget.Interleaving

variable {ι σ ε : Type} [DecidableEq ι]

/-- One of the processes takes a step. -/
def turn (step : ι → σ → ε → σ) (states : ι → σ) (move : ι × ε) : ι → σ :=
  Function.update states move.1 (step move.1 (states move.1) move.2)

/-- The events of one process in a schedule. -/
def eventsOf (i : ι) (schedule : List (ι × ε)) : List ε :=
  schedule.filterMap fun move ↦ if move.1 = i then some move.2 else none

variable {step : ι → σ → ε → σ}

@[simp]
theorem turn_self (states : ι → σ) (i : ι) (event : ε) :
    turn step states (i, event) i = step i (states i) event :=
  Function.update_self _ _ _

theorem turn_of_ne (states : ι → σ) {i : ι} {move : ι × ε} (h : i ≠ move.1) :
    turn step states move i = states i :=
  Function.update_of_ne h _ _

/-- A process ends up where its own events lead. -/
theorem run_turn_apply (states : ι → σ) (schedule : List (ι × ε)) (i : ι) :
    Run.run (turn step) states schedule i = Run.run (step i) (states i) (eventsOf i schedule) := by
  induction schedule generalizing states with
  | nil => rfl
  | cons move schedule ih =>
    obtain ⟨j, event⟩ := move
    have hnext : Run.run (turn step) states ((j, event) :: schedule) i =
        Run.run (step i) (turn step states (j, event) i) (eventsOf i schedule) :=
      ih (turn step states (j, event))
    rw [hnext]
    by_cases h : j = i
    · subst h
      rw [turn_self]
      simp [eventsOf, Run.run]
    · rw [turn_of_ne states (Ne.symm h)]
      simp [eventsOf, h]

/-- Schedules that agree on the events of every process have the same outcome. -/
theorem run_turn_congr (states : ι → σ) {schedule schedule' : List (ι × ε)}
    (h : ∀ i, eventsOf i schedule = eventsOf i schedule') :
    Run.run (turn step) states schedule = Run.run (turn step) states schedule' := by
  funext i
  rw [run_turn_apply, run_turn_apply, h i]

end FinalityGadget.Interleaving
