import Mathlib.Algebra.BigOperators.Group.Multiset.Basic
import Mathlib.Algebra.Order.BigOperators.Group.Finset
import Mathlib.Algebra.Order.Group.Multiset

/-!
# Pools of containers

A pool is a list of containers, each with some items. Items are counted with their multiplicity and
without regard to the container they are in, so that what moves from one container to another is
neither lost nor doubled.
-/

namespace FinalityGadget.Pool

variable {α β : Type} (content : α → Multiset β)

/-- What the containers hold together. -/
def held (pool : List α) : Multiset β := (pool.map content).sum

@[simp]
theorem held_nil : held content [] = 0 := rfl

@[simp]
theorem held_cons (a : α) (pool : List α) :
    held content (a :: pool) = content a + held content pool :=
  List.sum_cons

@[simp]
theorem held_append (pool pool' : List α) :
    held content (pool ++ pool') = held content pool + held content pool' := by
  rw [held, List.map_append, List.sum_append]
  rfl

theorem held_perm {pool pool' : List α} (h : pool.Perm pool') :
    held content pool = held content pool' :=
  (h.map content).sum_eq

variable {content}

/-- A container and the rest of the pool. -/
theorem held_eraseIdx {pool : List α} {i : ℕ} {a : α} (h : pool[i]? = some a) :
    held content pool = content a + held content (pool.eraseIdx i) := by
  obtain ⟨hlt, rfl⟩ := List.getElem?_eq_some_iff.mp h
  rw [← held_cons]
  exact (held_perm content (List.getElem_cons_eraseIdx_perm hlt)).symm

theorem held_set {pool : List α} {i : ℕ} {a b : α} (h : pool[i]? = some a) :
    held content (pool.set i b) = content b + held content (pool.eraseIdx i) := by
  obtain ⟨hlt, rfl⟩ := List.getElem?_eq_some_iff.mp h
  rw [← held_cons]
  exact held_perm content (List.set_perm_cons_eraseIdx hlt b)

/-- Containers are dropped. -/
theorem held_filter_le (p : α → Bool) (pool : List α) :
    held content (pool.filter p) ≤ held content pool := by
  induction pool with
  | nil => exact le_rfl
  | cons a pool ih =>
    rw [List.filter_cons]
    split
    · rw [held_cons, held_cons]
      exact add_le_add_right ih (content a)
    · rw [held_cons]
      exact ih.trans (Multiset.le_add_left _ _)

theorem filterMap_le_of_imp {γ : Type} {s : Multiset β} {f g : β → Option γ}
    (h : ∀ b ∈ s, ∀ c, f b = some c → g b = some c) : s.filterMap f ≤ s.filterMap g := by
  induction s using Multiset.induction with
  | empty => exact le_rfl
  | cons b s ih =>
    have hs := ih fun b' hb' ↦ h b' (Multiset.mem_cons_of_mem hb')
    cases hf : f b with
    | none =>
      rw [Multiset.filterMap_cons_none b s hf, Multiset.filterMap_cons]
      exact hs.trans (Multiset.le_add_left _ _)
    | some c =>
      rw [Multiset.filterMap_cons_some f b s hf,
        Multiset.filterMap_cons_some g b s (h b (Multiset.mem_cons_self b s) c hf)]
      exact (Multiset.cons_le_cons_iff c).mpr hs

/-- Of several owners one gets more. -/
theorem sum_of_grown {ι M : Type} [DecidableEq ι] [AddCommMonoid M] {owners : Finset ι} {i : ι}
    (hi : i ∈ owners) {f f' : ι → M} {x : M} (hself : f' i = f i + x)
    (hother : ∀ j, j ≠ i → f' j = f j) : ∑ j ∈ owners, f' j = ∑ j ∈ owners, f j + x := by
  rw [← Finset.add_sum_erase owners f' hi, ← Finset.add_sum_erase owners f hi, hself,
    Finset.sum_congr rfl fun j hj ↦ hother j (Finset.ne_of_mem_erase hj), add_right_comm]

end FinalityGadget.Pool
