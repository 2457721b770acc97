import Mathlib.Logic.Function.Basic

/-!
# Read-through caches

A cache in front of a store answers from what it holds and fills itself when it holds nothing. It is
not seen from outside as long as everything it holds is what is stored. Filling keeps this; a write
that goes past the cache keeps it exactly when the cache holds nothing for the key, or the value
written.
-/

namespace FinalityGadget.ReadThrough

variable {κ ν : Type*} {cache stored : κ → Option ν}

/-- The answer for a key: what is cached, or else what is stored. -/
def lookup (cache stored : κ → Option ν) (key : κ) : Option ν := (cache key).or (stored key)

/-- Everything cached is what is stored. -/
def Fresh (cache stored : κ → Option ν) : Prop :=
  ∀ key value, cache key = some value → stored key = some value

theorem fresh_empty (stored : κ → Option ν) : Fresh (fun _ ↦ none) stored := by
  intro key value hcached
  cases hcached

/-- A cache is fresh exactly when no answer shows that it is there. -/
theorem fresh_iff_lookup : Fresh cache stored ↔ ∀ key, lookup cache stored key = stored key := by
  constructor
  · intro h key
    unfold lookup
    cases hcached : cache key with
    | none => rfl
    | some value => exact (h key value hcached).symm
  · intro h key value hcached
    rw [← h key, lookup, hcached]
    rfl

section Updates

variable [DecidableEq κ]

theorem Fresh.fill (h : Fresh cache stored) (key : κ) :
    Fresh (Function.update cache key (stored key)) stored := by
  intro other value hcached
  by_cases heq : other = key
  · subst heq
    rwa [Function.update_self] at hcached
  · rw [Function.update_of_ne heq] at hcached
    exact h other value hcached

theorem Fresh.write_iff (h : Fresh cache stored) (key : κ) (value : ν) :
    Fresh cache (Function.update stored key (some value)) ↔
      cache key = none ∨ cache key = some value := by
  constructor
  · intro hfresh
    cases hcached : cache key with
    | none => exact Or.inl rfl
    | some held =>
      have hstored := hfresh key held hcached
      rw [Function.update_self] at hstored
      exact Or.inr hstored.symm
  · intro hkey other held hcached
    by_cases heq : other = key
    · subst heq
      rw [Function.update_self]
      rcases hkey with hnone | hsome
      · rw [hnone] at hcached
        cases hcached
      · rw [← hcached, hsome]
    · rw [Function.update_of_ne heq]
      exact h other held hcached

end Updates

end FinalityGadget.ReadThrough
