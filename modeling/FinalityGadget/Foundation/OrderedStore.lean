import Mathlib.Order.Lattice
import Mathlib.Data.List.Pairwise

/-!
# Ordered key-value stores

A store is a list of entries whose keys strictly increase, so each key has at most one value and an
iterator visits the entries in key order. The entry list is the whole state: lookup, the greatest
entry and the iterator from a given key are read off it. Writing and deleting keep the order, which
the structure carries, and are characterized by membership.
-/

namespace FinalityGadget

/-- Entries with strictly increasing keys. -/
structure OrderedStore (κ ν : Type) [LinearOrder κ] where
  entries : List (κ × ν)
  sorted : entries.Pairwise fun left right ↦ left.1 < right.1

namespace OrderedStore

variable {κ ν : Type} [LinearOrder κ]

/-- Insertion into an ordered entry list, replacing the value of an equal key. -/
def insertEntry (key : κ) (value : ν) : List (κ × ν) → List (κ × ν)
  | [] => [(key, value)]
  | entry :: rest =>
    if key < entry.1 then (key, value) :: entry :: rest
    else if key = entry.1 then (key, value) :: rest
    else entry :: insertEntry key value rest

theorem mem_insertEntry {key : κ} {value : ν} {entries : List (κ × ν)} {entry : κ × ν}
    (hsorted : entries.Pairwise fun left right ↦ left.1 < right.1) :
    entry ∈ insertEntry key value entries ↔
      entry = (key, value) ∨ entry.1 ≠ key ∧ entry ∈ entries := by
  induction entries with
  | nil => simp [insertEntry]
  | cons head rest ih =>
    have hrest := List.pairwise_cons.mp hsorted
    simp only [insertEntry]
    split_ifs with hlt heq
    · -- every entry already present has a key above the new one
      have hne : ∀ other ∈ head :: rest, other.1 ≠ key := by
        intro other hother
        rcases List.mem_cons.mp hother with rfl | hother
        · exact hlt.ne'
        · exact (hlt.trans (hrest.1 other hother)).ne'
      rw [List.mem_cons]
      exact or_congr_right ⟨fun h ↦ ⟨hne entry h, h⟩, fun h ↦ h.2⟩
    · subst heq
      rw [List.mem_cons, List.mem_cons]
      refine or_congr_right ⟨fun h ↦ ⟨(hrest.1 entry h).ne', Or.inr h⟩, ?_⟩
      rintro ⟨hne, rfl | h⟩
      · exact absurd rfl hne
      · exact h
    · rw [List.mem_cons, List.mem_cons, ih hrest.2]
      constructor
      · rintro (rfl | h | h)
        · exact Or.inr ⟨Ne.symm heq, Or.inl rfl⟩
        · exact Or.inl h
        · exact Or.inr ⟨h.1, Or.inr h.2⟩
      · rintro (h | ⟨hne, rfl | h⟩)
        · exact Or.inr (Or.inl h)
        · exact Or.inl rfl
        · exact Or.inr (Or.inr ⟨hne, h⟩)

theorem sorted_insertEntry {key : κ} {value : ν} {entries : List (κ × ν)}
    (hsorted : entries.Pairwise fun left right ↦ left.1 < right.1) :
    (insertEntry key value entries).Pairwise fun left right ↦ left.1 < right.1 := by
  induction entries with
  | nil => simp [insertEntry]
  | cons head rest ih =>
    have hrest := List.pairwise_cons.mp hsorted
    simp only [insertEntry]
    split_ifs with hlt heq
    · refine List.pairwise_cons.mpr ⟨?_, hsorted⟩
      intro other hother
      rcases List.mem_cons.mp hother with rfl | hother
      · exact hlt
      · exact hlt.trans (hrest.1 other hother)
    · exact List.pairwise_cons.mpr ⟨fun other hother ↦ heq ▸ hrest.1 other hother, hrest.2⟩
    · refine List.pairwise_cons.mpr ⟨?_, ih hrest.2⟩
      intro other hother
      rcases (mem_insertEntry hrest.2).mp hother with rfl | hother
      · exact lt_of_le_of_ne (not_lt.mp hlt) (Ne.symm heq)
      · exact hrest.1 other hother.2

/-- The store without entries. -/
def empty : OrderedStore κ ν := ⟨[], List.Pairwise.nil⟩

/-- Write `value` under `key`. -/
def insert (store : OrderedStore κ ν) (key : κ) (value : ν) : OrderedStore κ ν :=
  ⟨insertEntry key value store.entries, sorted_insertEntry store.sorted⟩

/-- Delete the entry under `key`, if there is one. -/
def erase (store : OrderedStore κ ν) (key : κ) : OrderedStore κ ν :=
  ⟨store.entries.filter fun entry ↦ decide (entry.1 ≠ key), store.sorted.filter _⟩

/-- The value under `key`. -/
def find? (store : OrderedStore κ ν) (key : κ) : Option ν :=
  (store.entries.find? fun entry ↦ decide (entry.1 = key)).map Prod.snd

/-- The entry with the greatest key. -/
def last? (store : OrderedStore κ ν) : Option (κ × ν) := store.entries.getLast?

/-- The entries an iterator positioned at `key` visits. -/
def seek (store : OrderedStore κ ν) (key : κ) : List (κ × ν) :=
  store.entries.filter fun entry ↦ decide (key ≤ entry.1)

theorem key_unique (store : OrderedStore κ ν) {key : κ} {left right : ν}
    (hleft : (key, left) ∈ store.entries) (hright : (key, right) ∈ store.entries) :
    left = right := by
  have hdistinct : store.entries.Pairwise fun first second ↦ first.1 ≠ second.1 :=
    store.sorted.imp fun hlt ↦ hlt.ne
  have : Std.Symm fun first second : κ × ν ↦ first.1 ≠ second.1 := ⟨fun _ _ h ↦ h.symm⟩
  by_contra hne
  exact hdistinct.forall hleft hright (by simpa using hne) rfl

/-- Lookup and membership say the same, since keys are unique. -/
theorem find?_eq_some_iff {store : OrderedStore κ ν} {key : κ} {value : ν} :
    store.find? key = some value ↔ (key, value) ∈ store.entries := by
  constructor
  · intro h
    obtain ⟨entry, hfind, hvalue⟩ := Option.map_eq_some_iff.mp h
    have hkey : entry.1 = key := by simpa using List.find?_some hfind
    have hmem := List.mem_of_find?_eq_some hfind
    rwa [← hkey, ← hvalue]
  · intro h
    cases hfind : store.entries.find? fun entry ↦ decide (entry.1 = key) with
    | none =>
      have hall := List.find?_eq_none.mp hfind (key, value) h
      simp at hall
    | some entry =>
      have hkey : entry.1 = key := by simpa using List.find?_some hfind
      have hmem : (key, entry.2) ∈ store.entries := by
        rw [← hkey]
        exact List.mem_of_find?_eq_some hfind
      rw [find?, hfind, Option.map_some, store.key_unique hmem h]

@[simp] theorem find?_empty (key : κ) : (empty : OrderedStore κ ν).find? key = none := rfl

@[simp] theorem find?_insert_self (store : OrderedStore κ ν) (key : κ) (value : ν) :
    (store.insert key value).find? key = some value :=
  find?_eq_some_iff.mpr ((mem_insertEntry store.sorted).mpr (Or.inl rfl))

theorem find?_insert_of_ne (store : OrderedStore κ ν) {key other : κ} (value : ν)
    (hne : other ≠ key) : (store.insert key value).find? other = store.find? other := by
  ext found
  rw [find?_eq_some_iff, find?_eq_some_iff]
  refine (mem_insertEntry store.sorted).trans ⟨?_, fun h ↦ Or.inr ⟨hne, h⟩⟩
  rintro (h | h)
  · exact absurd (congrArg Prod.fst h) hne
  · exact h.2

@[simp] theorem find?_erase_self (store : OrderedStore κ ν) (key : κ) :
    (store.erase key).find? key = none := by
  cases h : (store.erase key).find? key with
  | none => rfl
  | some value =>
    have hmem := find?_eq_some_iff.mp h
    simp [erase] at hmem

theorem find?_erase_of_ne (store : OrderedStore κ ν) {key other : κ} (hne : other ≠ key) :
    (store.erase key).find? other = store.find? other := by
  ext found
  rw [find?_eq_some_iff, find?_eq_some_iff]
  simp [erase, hne]

theorem last?_eq_none_iff {store : OrderedStore κ ν} :
    store.last? = none ↔ ∀ key, store.find? key = none := by
  rw [last?, List.getLast?_eq_none_iff]
  constructor
  · intro h key
    simp [find?, h]
  · intro h
    rw [List.eq_nil_iff_forall_not_mem]
    rintro ⟨key, value⟩ hmem
    have hfind := find?_eq_some_iff.mpr hmem
    rw [h key] at hfind
    exact absurd hfind (by simp)

/-- The last entry is present and no present key is above it. -/
theorem last?_eq_some_iff {store : OrderedStore κ ν} {key : κ} {value : ν} :
    store.last? = some (key, value) ↔
      store.find? key = some value ∧ ∀ other, (store.find? other).isSome → other ≤ key := by
  have hle : ∀ (entries : List (κ × ν)), (entries.Pairwise fun left right ↦ left.1 < right.1) →
      ∀ last, entries.getLast? = some last → ∀ entry ∈ entries, entry.1 ≤ last.1 := by
    intro entries hsorted last hlast entry hentry
    obtain ⟨init, rfl⟩ := List.getLast?_eq_some_iff.mp hlast
    rcases List.mem_append.mp hentry with hinit | hinit
    · exact ((List.pairwise_append.mp hsorted).2.2 entry hinit last (by simp)).le
    · rw [List.mem_singleton.mp hinit]
  constructor
  · intro h
    refine ⟨find?_eq_some_iff.mpr (List.mem_of_getLast? h), ?_⟩
    intro other hother
    obtain ⟨found, hfound⟩ := Option.isSome_iff_exists.mp hother
    exact hle store.entries store.sorted _ h _ (find?_eq_some_iff.mp hfound)
  · rintro ⟨hfind, hmax⟩
    cases hlast : store.last? with
    | none =>
      rw [last?_eq_none_iff.mp hlast key] at hfind
      exact absurd hfind (by simp)
    | some last =>
      obtain ⟨lastKey, lastValue⟩ := last
      have hmem : (lastKey, lastValue) ∈ store.entries := List.mem_of_getLast? hlast
      have hkey : lastKey = key := le_antisymm
        (hmax lastKey (by rw [find?_eq_some_iff.mpr hmem]; rfl))
        (hle store.entries store.sorted _ hlast _ (find?_eq_some_iff.mp hfind))
      subst hkey
      rw [store.key_unique hmem (find?_eq_some_iff.mp hfind)]

end OrderedStore

end FinalityGadget
