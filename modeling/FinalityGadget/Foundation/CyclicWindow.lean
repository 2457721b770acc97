import Mathlib.Data.List.Rotate

/-!
# Windows of a cyclic list

Consecutive entries of a list from a start index on, continuing at the front after the last entry.
A loop that walks over them keeps its index in range by starting over at zero.
-/

namespace FinalityGadget.Cyclic

variable {α : Type*}

/-- The `count` entries from the index `start` on. -/
def window (l : List α) (start count : ℕ) : List α := (l.rotate start).take count

/-- The index after `i` in a list of length `n`. -/
def next (n i : ℕ) : ℕ := if n ≤ i + 1 then 0 else i + 1

theorem next_mod {n : ℕ} (hn : 0 < n) (i : ℕ) : next n (i % n) = (i + 1) % n := by
  have hlt := Nat.mod_lt i hn
  unfold next
  split
  · have hlast : i % n + 1 = n := by omega
    calc
      0 = (i % n + 1) % n := by rw [hlast, Nat.mod_self]
      _ = (i + 1) % n := Nat.mod_add_mod i n 1
  · have hin : i % n + 1 < n := by omega
    calc
      i % n + 1 = (i % n + 1) % n := (Nat.mod_eq_of_lt hin).symm
      _ = (i + 1) % n := Nat.mod_add_mod i n 1

/-- Walking on from an index returns to it after a whole turn and not before. -/
theorem add_mod_eq_self_iff {n start count : ℕ} (hstart : start < n) (hpos : 0 < count)
    (hle : count ≤ n) : (start + count) % n = start ↔ count = n := by
  constructor
  · intro hback
    by_contra hne
    rcases Nat.lt_or_ge (start + count) n with hin | hout
    · rw [Nat.mod_eq_of_lt hin] at hback
      omega
    · rw [Nat.mod_eq_sub_mod hout, Nat.mod_eq_of_lt (by omega)] at hback
      omega
  · rintro rfl
    rw [Nat.add_mod_right, Nat.mod_eq_of_lt hstart]

@[simp] theorem length_window (l : List α) (start count : ℕ) :
    (window l start count).length = min count l.length := by
  rw [window, List.length_take, List.length_rotate]

theorem window_subset (l : List α) (start count : ℕ) : window l start count ⊆ l := by
  intro a ha
  exact List.mem_rotate.mp (List.mem_of_mem_take ha)

theorem nodup_window {l : List α} (h : l.Nodup) (start count : ℕ) :
    (window l start count).Nodup :=
  (List.nodup_rotate.mpr h).sublist (List.take_sublist _ _)

theorem getElem?_window {l : List α} {start count i : ℕ} (hi : i < count) (hlen : i < l.length) :
    (window l start count)[i]? = l[(start + i) % l.length]? := by
  rw [window, List.getElem?_take_of_lt hi, List.getElem?_rotate hlen, Nat.add_comm]

/-- A window grows by the entry at the walking index. -/
theorem window_succ {l : List α} {start count : ℕ} {a : α} (hlen : count < l.length)
    (ha : l[(start + count) % l.length]? = some a) :
    window l start (count + 1) = window l start count ++ [a] := by
  rw [window, window, List.take_add_one, List.getElem?_rotate hlen, Nat.add_comm count, ha]
  rfl

end FinalityGadget.Cyclic
