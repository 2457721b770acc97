import Mathlib.Order.Lattice
import Mathlib.Data.List.Pairwise

/-!
# Scanning an ordered list

A loop that reads entries in key order, appends each one and only then asks whether to stop: because
enough were read, or because the key has reached a bound. What it returns is a prefix of the list.
It is the first entries within the bound in all cases but two: a limit of zero, and a bound that
falls into a gap before the limit is reached.
-/

namespace FinalityGadget.Scan

variable {α κ ν : Type*}

/-- Append, then stop after `limit` entries or at an entry that says so. -/
def scan (stop : α → Bool) : ℕ → List α → List α
  | _, [] => []
  | limit, entry :: rest =>
    entry :: if limit ≤ 1 ∨ stop entry = true then [] else scan stop (limit - 1) rest

@[simp] theorem scan_nil (stop : α → Bool) (limit : ℕ) : scan stop limit [] = [] := rfl

theorem scan_cons (stop : α → Bool) (limit : ℕ) (entry : α) (rest : List α) :
    scan stop limit (entry :: rest) =
      entry :: if limit ≤ 1 ∨ stop entry = true then [] else scan stop (limit - 1) rest := rfl

theorem scan_isPrefix (stop : α → Bool) (limit : ℕ) (entries : List α) :
    scan stop limit entries <+: entries := by
  induction entries generalizing limit with
  | nil => exact List.nil_prefix
  | cons entry rest ih =>
    rw [scan_cons, List.cons_prefix_cons]
    refine ⟨rfl, ?_⟩
    split
    · exact List.nil_prefix
    · exact ih (limit - 1)

/-- Without a bound the scan returns as many entries as it may, or one too many. -/
theorem scan_unbounded_iff (limit : ℕ) (entries : List α) :
    scan (fun _ ↦ false) limit entries = entries.take limit ↔ (limit = 0 → entries = []) := by
  induction entries generalizing limit with
  | nil => simp
  | cons entry rest ih =>
    rw [scan_cons]
    match limit with
    | 0 => simp
    | 1 => simp
    | limit + 2 =>
      have hrest := (ih (limit + 1)).mpr (by simp)
      simp [hrest]

section Bounded

variable [LinearOrder κ]

/-- The entries up to a bound. -/
def upTo (bound : κ) (entries : List (κ × ν)) : List (κ × ν) :=
  entries.filter fun entry ↦ decide (entry.1 ≤ bound)

theorem upTo_eq_nil {bound : κ} {entries : List (κ × ν)}
    (h : ∀ entry ∈ entries, bound < entry.1) : upTo bound entries = [] := by
  rw [upTo, List.filter_eq_nil_iff]
  intro entry hentry
  simpa using h entry hentry

theorem upTo_cons {bound : κ} {entry : κ × ν} (rest : List (κ × ν)) (h : entry.1 ≤ bound) :
    upTo bound (entry :: rest) = entry :: upTo bound rest :=
  List.filter_cons_of_pos (by simpa using h)

theorem upTo_isPrefix {entries : List (κ × ν)} (bound : κ)
    (hsorted : entries.Pairwise fun left right ↦ left.1 < right.1) :
    upTo bound entries <+: entries := by
  induction entries with
  | nil => exact List.nil_prefix
  | cons entry rest ih =>
    obtain ⟨habove, hrest⟩ := List.pairwise_cons.mp hsorted
    by_cases hle : entry.1 ≤ bound
    · rw [upTo_cons rest hle, List.cons_prefix_cons]
      exact ⟨rfl, ih hrest⟩
    · have hlt : bound < entry.1 := not_le.mp hle
      have hempty : upTo bound (entry :: rest) = [] := by
        refine upTo_eq_nil fun other hother ↦ ?_
        rcases List.mem_cons.mp hother with rfl | hother
        · exact hlt
        · exact hlt.trans (habove other hother)
      rw [hempty]
      exact List.nil_prefix

/-- The scan stops within the bound: it may read something, and it reads the bound itself, or finds
nothing above it, or has read enough before. -/
structure Stops (bound : κ) (limit : ℕ) (entries : List (κ × ν)) : Prop where
  limit_pos : limit = 0 → entries = []
  bounded : (∃ entry ∈ entries, entry.1 = bound) ∨ (∀ entry ∈ entries, entry.1 ≤ bound) ∨
    limit ≤ (upTo bound entries).length

/-- Reading an entry below the bound leaves the rest to decide. -/
theorem stops_cons_iff {bound : κ} {limit : ℕ} {entry : κ × ν} {rest : List (κ × ν)}
    (hlt : entry.1 < bound) :
    Stops bound (limit + 2) (entry :: rest) ↔ Stops bound (limit + 1) rest := by
  have hupTo := upTo_cons rest hlt.le
  constructor
  · rintro ⟨_, h⟩
    refine ⟨by simp, h.imp ?_ (Or.imp ?_ ?_)⟩
    · rintro ⟨other, hother, hbound⟩
      rcases List.mem_cons.mp hother with rfl | hother
      · exact absurd hbound hlt.ne
      · exact ⟨other, hother, hbound⟩
    · exact fun hall other hother ↦ hall other (List.mem_cons_of_mem _ hother)
    · simp [hupTo]
  · rintro ⟨_, h⟩
    refine ⟨by simp, h.imp ?_ (Or.imp ?_ ?_)⟩
    · exact fun ⟨other, hother, hbound⟩ ↦ ⟨other, List.mem_cons_of_mem _ hother, hbound⟩
    · intro hall other hother
      rcases List.mem_cons.mp hother with rfl | hother
      · exact hlt.le
      · exact hall other hother
    · simp [hupTo]

theorem scan_bounded_iff {entries : List (κ × ν)} (bound : κ) (limit : ℕ)
    (hsorted : entries.Pairwise fun left right ↦ left.1 < right.1) :
    scan (fun entry ↦ decide (bound ≤ entry.1)) limit entries = (upTo bound entries).take limit ↔
      Stops bound limit entries := by
  induction entries generalizing limit with
  | nil => exact iff_of_true (by simp [upTo]) ⟨fun _ ↦ rfl, Or.inr (Or.inl (by simp))⟩
  | cons entry rest ih =>
    obtain ⟨habove, hrest⟩ := List.pairwise_cons.mp hsorted
    rw [scan_cons]
    rcases lt_trichotomy entry.1 bound with hlt | heq | hgt
    · have hupTo := upTo_cons rest hlt.le
      rw [hupTo]
      match limit with
      | 0 => exact iff_of_false (by simp) fun h ↦ absurd (h.limit_pos rfl) (by simp)
      | 1 => exact iff_of_true (by simp) ⟨by simp, Or.inr (Or.inr (by simp [hupTo]))⟩
      | limit + 2 =>
        -- one entry below the bound is read, and the rest decides
        have hrest := ih (limit + 1) hrest
        rw [stops_cons_iff hlt, ← hrest]
        simp [not_le.mpr hlt]
    · have hempty : upTo bound rest = [] := upTo_eq_nil fun other hother ↦ heq ▸ habove other hother
      rw [upTo_cons rest heq.le, hempty]
      match limit with
      | 0 => exact iff_of_false (by simp) fun h ↦ absurd (h.limit_pos rfl) (by simp)
      | limit + 1 => exact iff_of_true (by simp [heq]) ⟨by simp, Or.inl ⟨entry, by simp, heq⟩⟩
    · -- the first entry is above the bound already and still read
      have hall : ∀ other ∈ entry :: rest, bound < other.1 := by
        intro other hother
        rcases List.mem_cons.mp hother with rfl | hother
        · exact hgt
        · exact hgt.trans (habove other hother)
      rw [upTo_eq_nil hall]
      refine iff_of_false (by simp) ?_
      rintro ⟨hpos, ⟨other, hother, hbound⟩ | hle | hlimit⟩
      · exact absurd hbound (hall other hother).ne'
      · exact absurd (hle entry (by simp)) (not_le.mpr hgt)
      · rw [upTo_eq_nil hall] at hlimit
        exact absurd (hpos (by simpa using hlimit)) (by simp)

end Bounded

end FinalityGadget.Scan
