import Mathlib.Order.Lattice
import Mathlib.Logic.Function.Basic

/-!
# Linked chains in an ordered index

Values are stored at the keys of a linear order, with gaps. Two stored values are neighbours when
nothing is stored between their keys, and the whole collection is linked when a relation holds
between all neighbours. Writing above all keys keeps it linked as soon as the relation holds between
the value at the greatest key and the new one.
-/

namespace FinalityGadget.LinkedChain

variable {κ β : Type*} [LinearOrder κ] {link : β → β → Prop} {values : κ → Option β}

/-- No value lies strictly between two keys. -/
def Adjacent (values : κ → Option β) (first second : κ) : Prop :=
  first < second ∧ ∀ key, first < key → key < second → values key = none

/-- The relation holds between all neighbours. -/
def Linked (link : β → β → Prop) (values : κ → Option β) : Prop :=
  ∀ first second left right, Adjacent values first second → values first = some left →
    values second = some right → link left right

/-- A key at or above all keys in use. -/
def Bounds (values : κ → Option β) (top : κ) : Prop :=
  ∀ key, (values key).isSome → key ≤ top

theorem linked_of_empty (hempty : ∀ key, values key = none) : Linked link values := by
  intro first second left right _ hfirst
  rw [hempty] at hfirst
  cases hfirst

/-- The lower of two neighbours is the greatest key below the upper one. -/
theorem Adjacent.le_of_lt {first second key : κ} (h : Adjacent values first second)
    (hkey : (values key).isSome) (hlt : key < second) : key ≤ first := by
  by_contra hbetween
  have hnone : values key = none := h.2 key (not_le.mp hbetween) hlt
  rw [hnone] at hkey
  cases hkey

/-- Appending above all keys. -/
theorem Linked.append (h : Linked link values) {key : κ} {value : β}
    (habove : ∀ other, (values other).isSome → other < key)
    (hlink : ∀ top left, values top = some left → Bounds values top → link left value) :
    Linked link (Function.update values key (some value)) := by
  have hbelow : ∀ other, other < key →
      Function.update values key (some value) other = values other := by
    intro other hlt
    exact Function.update_of_ne (ne_of_lt hlt) _ _
  intro first second left right hadjacent hfirst hsecond
  have hle : second ≤ key := by
    by_contra hlt
    rw [Function.update_of_ne (ne_of_gt (not_le.mp hlt))] at hsecond
    exact hlt (habove second (by rw [hsecond]; rfl)).le
  have hfirst' : values first = some left := by
    rwa [hbelow first (hadjacent.1.trans_le hle)] at hfirst
  rcases hle.eq_or_lt with rfl | hlt
  · rw [Function.update_self] at hsecond
    cases hsecond
    apply hlink first left hfirst'
    intro other hother
    have hother' := habove other hother
    apply hadjacent.le_of_lt _ hother'
    rwa [hbelow other hother']
  · rw [hbelow second hlt] at hsecond
    refine h first second left right ⟨hadjacent.1, fun other hleft hright ↦ ?_⟩ hfirst' hsecond
    rw [← hbelow other (hright.trans hlt)]
    exact hadjacent.2 other hleft hright

/-- The new key bounds the extended chain. -/
theorem bounds_append {key : κ} {value : β}
    (habove : ∀ other, (values other).isSome → other < key) :
    Bounds (Function.update values key (some value)) key := by
  intro other hother
  by_contra hlt
  rw [Function.update_of_ne (ne_of_gt (not_le.mp hlt))] at hother
  exact hlt (habove other hother).le

end FinalityGadget.LinkedChain
