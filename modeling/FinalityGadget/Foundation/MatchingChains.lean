import Mathlib.Order.WellFounded
import FinalityGadget.Foundation.LinkedChain

/-!
# Matching of linked chains

Two linked chains that hold the same value at one key hold the same values at every key below, if a
value determines the key and the value that it is linked to. A value at the bottom of a chain is not
linked to anything, which has to show in the value itself.
-/

namespace FinalityGadget.LinkedChain

variable {κ β : Type*} [LinearOrder κ] {link same : β → β → Prop} {base : β → Prop}
  {values values' : κ → Option β}

/-- The value at the least key has the given property. -/
def Grounded (base : β → Prop) (values : κ → Option β) : Prop :=
  ∀ key value, values key = some value → (∀ other < key, values other = none) → base value

theorem grounded_of_empty (hempty : ∀ key, values key = none) : Grounded base values := by
  intro key value hvalue
  rw [hempty] at hvalue
  cases hvalue

/-- Appending above all keys. -/
theorem Grounded.append (h : Grounded base values) {key : κ} {value : β}
    (habove : ∀ other, (values other).isSome → other < key)
    (hbase : (∀ other, values other = none) → base value) :
    Grounded base (Function.update values key (some value)) := by
  intro least found hfound hnone
  by_cases heq : least = key
  · subst heq
    rw [Function.update_self] at hfound
    cases hfound
    apply hbase
    intro other
    by_contra hsome
    have hlt := habove other (Option.isSome_iff_ne_none.mpr hsome)
    have hother := hnone other hlt
    rw [Function.update_of_ne hlt.ne] at hother
    exact hsome hother
  · rw [Function.update_of_ne heq] at hfound
    have hlt := habove least (by rw [hfound]; rfl)
    apply h least found hfound
    intro other hother
    rw [← hnone other hother, Function.update_of_ne (hother.trans hlt).ne]

/-- Above the least key every key in use has a lower neighbour. -/
theorem exists_adjacent [WellFoundedGT κ] {key : κ} (h : ¬∀ other < key, values other = none) :
    ∃ first left, Adjacent values first key ∧ values first = some left := by
  simp only [not_forall] at h
  obtain ⟨other, hlt, hsome⟩ := h
  have hgreatest := wellFounded_gt.has_min {other | other < key ∧ values other ≠ none}
    ⟨other, hlt, hsome⟩
  obtain ⟨first, ⟨hfirst, hvalue⟩, hmax⟩ := hgreatest
  obtain ⟨left, hleft⟩ := Option.ne_none_iff_exists'.mp hvalue
  refine ⟨first, left, ⟨hfirst, fun between habove hbelow ↦ ?_⟩, hleft⟩
  by_contra hbetween
  exact hmax between ⟨hbelow, hbetween⟩ habove

/-- A value of the one chain and the same value of the other are linked to the same value at the
same key, and at the bottom of the one chain only if the other one ends there, too. -/
structure Determines (link same : β → β → Prop) (base : β → Prop) (values values' : κ → Option β) :
    Prop where
  lower : ∀ {first first' left left' right right'}, values first = some left →
    values' first' = some left' → link left right → link left' right' → same right right' →
    first = first' ∧ same left left'
  bottom : ∀ {first left right right'}, values first = some left → link left right →
    same right right' → ¬base right'
  bottom' : ∀ {first left right right'}, values' first = some left → link left right' →
    same right right' → ¬base right

/-- Chains that have a value in common agree on everything below it. -/
theorem matching [WellFoundedLT κ] [WellFoundedGT κ] (hlinked : Linked link values)
    (hlinked' : Linked link values') (hgrounded : Grounded base values)
    (hgrounded' : Grounded base values') (h : Determines link same base values values') {key : κ}
    {value value' : β} (hvalue : values key = some value) (hvalue' : values' key = some value')
    (hsame : same value value') (other : κ) (hle : other ≤ key) :
    Option.Rel same (values other) (values' other) := by
  induction key using WellFoundedLT.induction generalizing value value' with
  | ind key ih =>
    rcases hle.eq_or_lt with rfl | hlt
    · rw [hvalue, hvalue']
      exact .some hsame
    by_cases hnone : ∀ other < key, values other = none
    · by_cases hnone' : ∀ other < key, values' other = none
      · rw [hnone other hlt, hnone' other hlt]
        exact .none
      · obtain ⟨first, left, hadjacent, hleft⟩ := exists_adjacent hnone'
        have hlink := hlinked' first key left value' hadjacent hleft hvalue'
        exact absurd (hgrounded key value hvalue hnone) (h.bottom' hleft hlink hsame)
    · obtain ⟨first, left, hadjacent, hleft⟩ := exists_adjacent hnone
      have hlink := hlinked first key left value hadjacent hleft hvalue
      by_cases hnone' : ∀ other < key, values' other = none
      · exact absurd (hgrounded' key value' hvalue' hnone') (h.bottom hleft hlink hsame)
      · obtain ⟨first', left', hadjacent', hleft'⟩ := exists_adjacent hnone'
        have hlink' := hlinked' first' key left' value' hadjacent' hleft' hvalue'
        obtain ⟨rfl, hsame'⟩ := h.lower hleft hleft' hlink hlink' hsame
        -- between the neighbours there is nothing, and below them the chains match already
        rcases le_or_gt other first with hbelow | habove
        · exact ih first hadjacent.1 hleft hleft' hsame' hbelow
        · rw [hadjacent.2 other habove hlt, hadjacent'.2 other habove hlt]
          exact .none

end FinalityGadget.LinkedChain
