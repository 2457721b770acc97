import Mathlib.Data.Finset.Max
import Mathlib.Logic.Function.Iterate

/-!
# Block trees

A finite set of blocks, closed under parents, with a single root and one distinguished chain: the
path from the root to a chosen tip. A block outside that chain lies on a side branch, and a leaf of
the tree together with the length of its side branch tells which heights the branch occupies.
-/

namespace FinalityGadget

/-- A finite tree of blocks with an active chain, given by its tip. The root is its own parent. -/
structure BlockTree (β : Type*) where
  blocks : Finset β
  parent : β → β
  height : β → ℕ
  tip : β
  tip_mem : tip ∈ blocks
  parent_mem : ∀ b ∈ blocks, parent b ∈ blocks
  height_parent : ∀ b ∈ blocks, height (parent b) = height b - 1
  root_unique : ∀ a ∈ blocks, ∀ b ∈ blocks, height a = 0 → height b = 0 → a = b

namespace BlockTree

variable {β : Type*} (tree : BlockTree β) {a b c : β} {h k : ℕ}

/-- A block is an ancestor of itself and of everything built on it. -/
def Ancestor (a b : β) : Prop := ∃ k, tree.parent^[k] b = a

/-- The block of the active chain at a height. -/
def activeAt (h : ℕ) : β := tree.parent^[tree.height tree.tip - h] tree.tip

/-- The blocks of the active chain. -/
def Active (b : β) : Prop :=
  tree.height b ≤ tree.height tree.tip ∧ tree.activeAt (tree.height b) = b

/-- A block of the active chain with at least `n` confirmations; the tip has one. -/
def Confirmed (n : ℕ) (b : β) : Prop :=
  tree.Active b ∧ n ≤ tree.height tree.tip - tree.height b + 1

/-- No other block of the tree is built on the block. -/
def IsLeaf (b : β) : Prop := ∀ c ∈ tree.blocks, tree.parent c = b → c = b

/-- The number of blocks from a block down to the active chain, without the block of the chain. -/
def IsBranchLen (b : β) (k : ℕ) : Prop :=
  tree.Active (tree.parent^[k] b) ∧ ∀ j < k, ¬tree.Active (tree.parent^[j] b)

/-- The active chain of the one tree continues the active chain of the other. -/
def Extends (later earlier : BlockTree β) : Prop :=
  ∀ b, earlier.Active b → later.Active b ∧ later.height b = earlier.height b

section Decidable

variable [DecidableEq β]

instance : Decidable (tree.Active b) := inferInstanceAs (Decidable (_ ∧ _))

instance : Decidable (tree.Confirmed h b) := inferInstanceAs (Decidable (_ ∧ _))

instance : Decidable (tree.IsLeaf b) := inferInstanceAs (Decidable (∀ c ∈ tree.blocks, _))

instance : Decidable (tree.IsBranchLen b k) := inferInstanceAs (Decidable (_ ∧ _))

end Decidable

/-! ## Heights of ancestors -/

variable {tree}

theorem iterate_mem (hb : b ∈ tree.blocks) : tree.parent^[k] b ∈ tree.blocks := by
  induction k with
  | zero => exact hb
  | succ k ih =>
    rw [Function.iterate_succ_apply']
    exact tree.parent_mem _ ih

theorem height_iterate (hb : b ∈ tree.blocks) :
    tree.height (tree.parent^[k] b) = tree.height b - k := by
  induction k with
  | zero => rfl
  | succ k ih =>
    rw [Function.iterate_succ_apply', tree.height_parent _ (iterate_mem hb), ih, Nat.sub_sub]

/-- From the height of a block on, its ancestors are the root. -/
theorem iterate_eq_of_height_le (hb : b ∈ tree.blocks) {j : ℕ} (hj : tree.height b ≤ j)
    (hk : tree.height b ≤ k) : tree.parent^[j] b = tree.parent^[k] b := by
  apply tree.root_unique _ (iterate_mem hb) _ (iterate_mem hb)
  · rw [height_iterate hb, Nat.sub_eq_zero_of_le hj]
  · rw [height_iterate hb, Nat.sub_eq_zero_of_le hk]

theorem Ancestor.trans (hab : tree.Ancestor a b) (hbc : tree.Ancestor b c) :
    tree.Ancestor a c := by
  obtain ⟨j, rfl⟩ := hab
  obtain ⟨k, rfl⟩ := hbc
  exact ⟨j + k, Function.iterate_add_apply _ j k c⟩

/-! ## The active chain -/

theorem activeAt_mem : tree.activeAt h ∈ tree.blocks := iterate_mem tree.tip_mem

theorem height_activeAt (hle : h ≤ tree.height tree.tip) :
    tree.height (tree.activeAt h) = h := by
  rw [activeAt, height_iterate tree.tip_mem, Nat.sub_sub_self hle]

theorem active_activeAt (hle : h ≤ tree.height tree.tip) : tree.Active (tree.activeAt h) := by
  rw [Active, height_activeAt hle]
  exact ⟨hle, rfl⟩

theorem active_tip : tree.Active tree.tip := by
  refine ⟨le_rfl, ?_⟩
  rw [activeAt, Nat.sub_self]
  rfl

theorem Active.mem (hb : tree.Active b) : b ∈ tree.blocks := by
  rw [← hb.2]
  exact activeAt_mem

theorem Active.eq_of_height_eq (ha : tree.Active a) (hb : tree.Active b)
    (heq : tree.height a = tree.height b) : a = b := by
  rw [← ha.2, ← hb.2, heq]

/-- The active chain consists of the ancestors of the tip. -/
theorem active_iff_ancestor_tip : tree.Active b ↔ tree.Ancestor b tree.tip := by
  constructor
  · intro hb
    exact ⟨_, hb.2⟩
  · rintro ⟨k, rfl⟩
    have hheight := height_iterate (k := k) tree.tip_mem
    refine ⟨hheight ▸ Nat.sub_le _ _, ?_⟩
    rw [hheight, activeAt]
    rcases le_total k (tree.height tree.tip) with hk | hk
    · rw [Nat.sub_sub_self hk]
    · exact iterate_eq_of_height_le tree.tip_mem (by omega) hk

theorem Active.of_ancestor (hb : tree.Active b) (hab : tree.Ancestor a b) : tree.Active a := by
  rw [active_iff_ancestor_tip] at hb ⊢
  exact hab.trans hb

theorem Active.iterate (hb : tree.Active b) : tree.Active (tree.parent^[k] b) :=
  hb.of_ancestor ⟨k, rfl⟩

/-- On the active chain the lower of two blocks is an ancestor of the higher one. -/
theorem Active.ancestor (ha : tree.Active a) (hb : tree.Active b)
    (hle : tree.height a ≤ tree.height b) : tree.Ancestor a b := by
  refine ⟨tree.height b - tree.height a, hb.iterate.eq_of_height_eq ha ?_⟩
  rw [height_iterate hb.mem, Nat.sub_sub_self hle]

theorem Extends.height_tip_le {later earlier : BlockTree β} (hext : later.Extends earlier) :
    earlier.height earlier.tip ≤ later.height later.tip := by
  obtain ⟨hactive, hheight⟩ := hext earlier.tip active_tip
  rw [← hheight]
  exact hactive.1

/-! ## Leaves and side branches -/

/-- Every block lies below a leaf. -/
theorem exists_leaf (hb : b ∈ tree.blocks) :
    ∃ l ∈ tree.blocks, tree.IsLeaf l ∧
      ∃ k, tree.parent^[k] l = b ∧ tree.height l = tree.height b + k := by
  classical
  -- the leaf is a highest block among those built on `b`
  let above := tree.blocks.filter fun l ↦
    ∃ k, tree.parent^[k] l = b ∧ tree.height l = tree.height b + k
  have hnonempty : above.Nonempty := ⟨b, Finset.mem_filter.mpr ⟨hb, 0, rfl, rfl⟩⟩
  obtain ⟨l, hl, hmax⟩ := above.exists_max_image tree.height hnonempty
  obtain ⟨hl, k, hk, hheight⟩ := Finset.mem_filter.mp hl
  refine ⟨l, hl, fun c hc hparent ↦ ?_, k, hk, hheight⟩
  have hdown := tree.height_parent c hc
  rw [hparent] at hdown
  by_cases hroot : tree.height c = 0
  · exact tree.root_unique c hc l hl hroot (by omega)
  · have habove : c ∈ above := by
      refine Finset.mem_filter.mpr ⟨hc, k + 1, ?_, by omega⟩
      rw [Function.iterate_succ_apply, hparent, hk]
    have hle := hmax c habove
    omega

/-- Every block has a branch length, since the root is on the active chain. -/
theorem exists_isBranchLen (hb : b ∈ tree.blocks) : ∃ k, tree.IsBranchLen b k := by
  classical
  have hroot : ∃ k, tree.Active (tree.parent^[k] b) := by
    refine ⟨tree.height b, ?_⟩
    have hzero : tree.height (tree.parent^[tree.height b] b) = 0 := by
      rw [height_iterate hb, Nat.sub_self]
    have heq : tree.parent^[tree.height b] b = tree.activeAt 0 :=
      tree.root_unique _ (iterate_mem hb) _ activeAt_mem hzero (height_activeAt (Nat.zero_le _))
    rw [heq]
    exact active_activeAt (Nat.zero_le _)
  exact ⟨Nat.find hroot, Nat.find_spec hroot, fun j hj ↦ Nat.find_min hroot hj⟩

/-- The ancestors of a block are outside the active chain exactly above the end of its branch. -/
theorem IsBranchLen.active_iterate_iff (hk : tree.IsBranchLen b k) {j : ℕ} :
    tree.Active (tree.parent^[j] b) ↔ k ≤ j := by
  constructor
  · intro hactive
    by_contra hlt
    exact hk.2 j (not_le.mp hlt) hactive
  · intro hle
    rw [← Nat.sub_add_cancel hle, Function.iterate_add_apply]
    exact hk.1.iterate

/-- A branch does not reach below the root. -/
theorem IsBranchLen.le_height (hb : b ∈ tree.blocks) (hk : tree.IsBranchLen b k) :
    k ≤ tree.height b := by
  rw [← hk.active_iterate_iff]
  obtain ⟨len, hlen⟩ := exists_isBranchLen hb
  rw [iterate_eq_of_height_le hb le_rfl (le_max_left (tree.height b) len)]
  exact hlen.active_iterate_iff.mpr (le_max_right _ _)

theorem IsBranchLen.unique {j : ℕ} (hj : tree.IsBranchLen b j) (hk : tree.IsBranchLen b k) :
    j = k :=
  le_antisymm (hj.active_iterate_iff.mp hk.1) (hk.active_iterate_iff.mp hj.1)

theorem isBranchLen_zero_iff : tree.IsBranchLen b 0 ↔ tree.Active b :=
  ⟨fun hk ↦ hk.1, fun hb ↦ ⟨hb, fun _ hj ↦ absurd hj (Nat.not_lt_zero _)⟩⟩

/-- The tip heights and branch lengths of the leaves tell at which heights the active chain has a
competitor. -/
theorem exists_inactive_iff : (∃ b ∈ tree.blocks, ¬tree.Active b ∧ tree.height b = h) ↔
    ∃ l ∈ tree.blocks, tree.IsLeaf l ∧
      ∃ k, tree.IsBranchLen l k ∧ h ≤ tree.height l ∧ tree.height l - k < h := by
  constructor
  · rintro ⟨b, hb, hinactive, rfl⟩
    obtain ⟨l, hl, hleaf, j, rfl, hheight⟩ := exists_leaf hb
    obtain ⟨k, hk⟩ := exists_isBranchLen hl
    have hlt : j < k := by
      rwa [hk.active_iterate_iff, not_le] at hinactive
    have hle := hk.le_height hl
    exact ⟨l, hl, hleaf, k, hk, by omega, by omega⟩
  · rintro ⟨l, hl, -, k, hk, hle, hlt⟩
    refine ⟨tree.parent^[tree.height l - h] l, iterate_mem hl, ?_, ?_⟩
    · rw [hk.active_iterate_iff]
      omega
    · rw [height_iterate hl, Nat.sub_sub_self hle]

end BlockTree

end FinalityGadget
