import Mathlib.Logic.Basic

/-!
# Fallible state programs

Programs in `EStateM` mutate a state and may stop with an error; the state reached before the error
is kept. The combinators below are the control shapes used around such programs: a checked
condition, an imported fallible value, a conditional action and a program on a component of the
state. Each comes with the equation of its run, so that a program is executed symbolically by
rewriting. A run is described by its final state together with whether it succeeded.
-/

namespace FinalityGadget.Fallible

variable {ε ε' σ τ α : Type}

/-- The state a run ends in, whether it succeeded or not. -/
def final : EStateM.Result ε σ α → σ
  | .ok _ state => state
  | .error _ state => state

@[simp] theorem final_ok (value : α) (state : σ) :
    final (.ok value state : EStateM.Result ε σ α) = state := rfl

@[simp] theorem final_error (error : ε) (state : σ) :
    final (.error error state : EStateM.Result ε σ α) = state := rfl

/-- The value of a successful run. -/
def value? : EStateM.Result ε σ α → Option α
  | .ok value _ => some value
  | .error _ _ => none

/-- What a run returns, without the state it ends in. -/
def answer : EStateM.Result ε σ α → Except ε α
  | .ok value _ => .ok value
  | .error error _ => .error error

/-- Stop with `error` unless the condition holds. -/
def ensure (condition : Prop) [Decidable condition] (error : ε) : EStateM ε σ Unit :=
  if condition then pure () else throw error

/-- Use a fallible value, rewriting its error. -/
def ofExcept (wrap : ε → ε') (result : Except ε α) : EStateM ε' σ α :=
  match result with
  | .ok value => pure value
  | .error error => throw (wrap error)

/-- Run an action only under a condition. -/
def onlyIf (condition : Prop) [Decidable condition] (action : EStateM ε σ Unit) :
    EStateM ε σ Unit :=
  if condition then action else pure ()

/-- Run a program on the component of the state that `get` reads and `put` replaces. -/
def zoom (get : σ → τ) (put : σ → τ → σ) (program : EStateM ε τ α) : EStateM ε σ α := fun state ↦
  match program.run (get state) with
  | .ok value part => .ok value (put state part)
  | .error error part => .error error (put state part)

@[simp] theorem run_ensure (condition : Prop) [Decidable condition] (error : ε) (state : σ) :
    (ensure condition error).run state =
      if condition then .ok () state else .error error state := by
  unfold ensure
  split <;> rfl

@[simp] theorem run_ofExcept (wrap : ε → ε') (result : Except ε α) (state : σ) :
    (ofExcept wrap result).run state =
      match result with
      | .ok value => .ok value state
      | .error error => .error (wrap error) state := by
  cases result <;> rfl

@[simp] theorem run_onlyIf (condition : Prop) [Decidable condition] (action : EStateM ε σ Unit)
    (state : σ) :
    (onlyIf condition action).run state =
      if condition then action.run state else .ok () state := by
  unfold onlyIf
  split <;> rfl

@[simp] theorem run_zoom (get : σ → τ) (put : σ → τ → σ) (program : EStateM ε τ α) (state : σ) :
    (zoom get put program).run state =
      match program.run (get state) with
      | .ok value part => .ok value (put state part)
      | .error error part => .error error (put state part) := rfl

@[simp] theorem run_tryCatch (program : EStateM ε σ α) (handler : ε → EStateM ε σ α) (state : σ) :
    (tryCatch program handler).run state =
      match program.run state with
      | .ok value next => .ok value next
      | .error error next => (handler error).run next := by
  change (EStateM.tryCatch program handler).run state = _
  unfold EStateM.tryCatch
  dsimp only [EStateM.run]
  cases program state <;> rfl

@[simp] theorem run_ite (condition : Prop) [Decidable condition] (first second : EStateM ε σ α)
    (state : σ) :
    (if condition then first else second).run state =
      if condition then first.run state else second.run state := by
  split <;> rfl

/-! ## Executing a program under a predicate on its result

Each rule runs the first action of a program and leaves one goal for every way it can end, with the
reason as a hypothesis. -/

section Execution

variable {β : Type} {P : EStateM.Result ε σ β → Prop} {state : σ}

theorem exec_bind {first : EStateM ε σ α} {next : α → EStateM ε σ β}
    (herror : ∀ error after, first.run state = .error error after → P (.error error after))
    (hok : ∀ value after, first.run state = .ok value after → P ((next value).run after)) :
    P ((first >>= next).run state) := by
  rw [EStateM.run_bind]
  cases h : first.run state with
  | ok value after => exact hok value after h
  | error error after => exact herror error after h

theorem exec_get {next : σ → EStateM ε σ β} (h : P ((next state).run state)) :
    P ((get >>= next).run state) := h

theorem exec_modify {update : σ → σ} {next : PUnit → EStateM ε σ β}
    (h : P ((next ⟨⟩).run (update state))) : P ((modify update >>= next).run state) := h

theorem exec_ensure {condition : Prop} [Decidable condition] {error : ε}
    {next : Unit → EStateM ε σ β} (herror : ¬condition → P (.error error state))
    (hok : condition → P ((next ()).run state)) :
    P ((ensure condition error >>= next).run state) := by
  rw [EStateM.run_bind, run_ensure]
  split
  · rename_i value after hrun
    split at hrun
    · rename_i hcondition
      cases hrun
      exact hok hcondition
    · cases hrun
  · rename_i failure after hrun
    split at hrun
    · cases hrun
    · rename_i hcondition
      cases hrun
      exact herror hcondition

theorem exec_ofExcept {result : Except ε' α} {wrap : ε' → ε} {next : α → EStateM ε σ β}
    (herror : ∀ error, result = .error error → P (.error (wrap error) state))
    (hok : ∀ value, result = .ok value → P ((next value).run state)) :
    P ((ofExcept wrap result >>= next).run state) := by
  cases result with
  | ok value => exact hok value rfl
  | error error => exact herror error rfl

theorem exec_ite {condition : Prop} [Decidable condition] {first second : EStateM ε σ β}
    (hfirst : condition → P (first.run state)) (hsecond : ¬condition → P (second.run state)) :
    P ((if condition then first else second).run state) := by
  split
  · exact hfirst ‹_›
  · exact hsecond ‹_›

theorem exec_onlyIf {condition : Prop} [Decidable condition] {action : EStateM ε σ Unit}
    {next : Unit → EStateM ε σ β} (hrun : condition → P ((action >>= next).run state))
    (hskip : ¬condition → P ((next ()).run state)) :
    P ((onlyIf condition action >>= next).run state) := by
  unfold onlyIf
  split
  · exact hrun ‹_›
  · exact hskip ‹_›

theorem exec_tryCatch {first : EStateM ε σ α} {handler : ε → EStateM ε σ α}
    {next : α → EStateM ε σ β}
    (herror : ∀ error after, first.run state = .error error after →
      P ((handler error >>= next).run after))
    (hok : ∀ value after, first.run state = .ok value after → P ((next value).run after)) :
    P ((tryCatch first handler >>= next).run state) := by
  rw [EStateM.run_bind, run_tryCatch]
  cases h : first.run state with
  | ok value after => exact hok value after h
  | error error after =>
    have hhandler := herror error after h
    rwa [EStateM.run_bind] at hhandler

theorem exec_adaptExcept {first : EStateM ε' σ α} {wrap : ε' → ε} {next : α → EStateM ε σ β}
    (herror : ∀ error after, first.run state = .error error after → P (.error (wrap error) after))
    (hok : ∀ value after, first.run state = .ok value after → P ((next value).run after)) :
    P ((EStateM.adaptExcept wrap first >>= next).run state) := by
  rw [EStateM.run_bind, EStateM.run_adaptExcept]
  cases h : first.run state with
  | ok value after => exact hok value after h
  | error error after => exact herror error after h

end Execution

/-! ## Fallible values -/

section Values

variable {β : Type}

/-- A condition as a fallible value. -/
def require (condition : Prop) [Decidable condition] (error : ε) : Except ε Unit :=
  if condition then .ok () else .error error

@[simp] theorem require_eq_ok {condition : Prop} [Decidable condition] {error : ε} {value : Unit} :
    require condition error = .ok value ↔ condition := by
  unfold require
  split <;> simp_all

theorem bind_eq_ok {first : Except ε α} {next : α → Except ε β} {result : β} :
    (first >>= next) = .ok result ↔ ∃ value, first = .ok value ∧ next value = .ok result := by
  cases first <;> simp [bind, Except.bind]

theorem mapError_ok (wrap : ε → ε') (value : α) :
    (Except.ok value : Except ε α).mapError wrap = .ok value := rfl

@[simp] theorem mapError_eq_ok {wrap : ε → ε'} {result : Except ε α} {value : α} :
    result.mapError wrap = .ok value ↔ result = .ok value := by
  cases result with
  | ok value => rw [mapError_ok, Except.ok.injEq, Except.ok.injEq]
  | error error => constructor <;> intro h <;> cases h

end Values

/-! ## Programs that start with a checked condition -/

section Conditions

theorem ensure_bind_congr {condition : Prop} [Decidable condition] {error : ε}
    {next next' : Unit → EStateM ε σ α} (h : condition → next () = next' ()) :
    (ensure condition error >>= next) = (ensure condition error >>= next') := by
  unfold ensure
  split
  · exact h ‹_›
  · rfl

theorem run_ensure_bind_eq_ok {condition : Prop} [Decidable condition] {error : ε}
    {next : Unit → EStateM ε σ α} {state state' : σ} {value : α} :
    (ensure condition error >>= next).run state = .ok value state' ↔
      condition ∧ (next ()).run state = .ok value state' := by
  rw [EStateM.run_bind, run_ensure]
  by_cases h : condition
  · simp [h]
  · simp [h]

/-- Stopping where a condition fails is ensuring the condition. -/
theorem onlyIf_throw {condition failure : Prop} [Decidable condition] [Decidable failure]
    (hfailure : failure ↔ ¬condition) (error : ε) :
    onlyIf failure (throw error) = (ensure condition error : EStateM ε σ Unit) := by
  unfold onlyIf ensure
  by_cases h : condition
  · rw [if_pos h, if_neg fun hfail ↦ hfailure.mp hfail h]
  · rw [if_neg h, if_pos (hfailure.mpr h)]

end Conditions

/-! ## Subtraction of unsigned numbers

A program that takes its subtraction as a parameter runs with the subtraction of the hardware, or
with one that hands over to another action as soon as a result would be negative. If the runs agree
whatever that action is, no subtraction of the program wraps around. -/

section Subtraction

variable [Sub α] {β : Type} {a b : α}

/-- The subtraction of the hardware. -/
def wrapping (a b : α) : EStateM ε σ α := pure (a - b)

theorem wrapping_bind (next : α → EStateM ε σ β) : (wrapping a b >>= next) = next (a - b) := rfl

variable [LE α] [DecidableLE α]

/-- Subtraction that hands over to `underflow` instead of wrapping around. -/
def trapping (underflow : α → α → EStateM ε σ α) (a b : α) : EStateM ε σ α :=
  if b ≤ a then wrapping a b else underflow a b

theorem trapping_eq_wrapping (underflow : α → α → EStateM ε σ α) (h : b ≤ a) :
    trapping underflow a b = wrapping a b := if_pos h

end Subtraction

end FinalityGadget.Fallible
