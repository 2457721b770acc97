import FinalityGadget.Foundation.BlockTree

/-!
# Views of one block tree

Several observers look at a block tree, each at its own time and with its own active chain. They
share a prefix when a block that is deep enough in the chain of one of them is in the chain of every
other one, or the other chain has not reached the block yet. Then all blocks that were ever deep
enough for anybody are on a single path.
-/

namespace FinalityGadget.BlockTree

variable {ι β : Type*} {views : ι → BlockTree β} {k : ℕ} {a b : β}

/-- The observers know the same parents and heights, and a block with `k` confirmations in one view
is on the active chain of every other view or ahead of its tip. -/
structure CommonPrefix (views : ι → BlockTree β) (k : ℕ) : Prop where
  parent_eq : ∀ i j, (views i).parent = (views j).parent
  height_eq : ∀ i j, (views i).height = (views j).height
  agree : ∀ i j b, (views i).Confirmed k b → (views j).Active b ∨ (views i).Ancestor (views j).tip b

/-- A block that has had `k` confirmations in some view. -/
def Settled (views : ι → BlockTree β) (k : ℕ) (b : β) : Prop := ∃ i, (views i).Confirmed k b

theorem CommonPrefix.ancestor_congr (h : CommonPrefix views k) (i j : ι) :
    (views i).Ancestor a b ↔ (views j).Ancestor a b := by
  rw [Ancestor, Ancestor, h.parent_eq i j]

/-- On the active chain of one view the blocks are linearly ordered. -/
theorem Active.ancestor_or {tree : BlockTree β} (ha : tree.Active a) (hb : tree.Active b) :
    tree.Ancestor a b ∨ tree.Ancestor b a :=
  (le_total (tree.height a) (tree.height b)).imp (ha.ancestor hb) (hb.ancestor ha)

/-- Settled blocks never conflict. -/
theorem CommonPrefix.settled_ancestor_or (h : CommonPrefix views k) (ha : Settled views k a)
    (hb : Settled views k b) (i : ι) : (views i).Ancestor a b ∨ (views i).Ancestor b a := by
  obtain ⟨j, ha⟩ := ha
  obtain ⟨l, hb⟩ := hb
  rcases h.agree j l a ha with hactive | hahead
  · rw [h.ancestor_congr i l, h.ancestor_congr i l]
    exact hactive.ancestor_or hb.1
  · -- the second block is below the tip of its view, and the first one is above that tip
    right
    rw [h.ancestor_congr i l]
    apply (active_iff_ancestor_tip.mp hb.1).trans
    exact (h.ancestor_congr j l).mp hahead

/-- A settled block stays on the active chain of every view that has grown beyond it. -/
theorem CommonPrefix.active_of_height_le (h : CommonPrefix views k) (hb : Settled views k b)
    (j : ι) (hle : (views j).height b ≤ (views j).height (views j).tip) : (views j).Active b := by
  obtain ⟨i, hb⟩ := hb
  rcases h.agree i j b hb with hactive | ⟨n, hn⟩
  · exact hactive
  · have hheight := h.height_eq i j
    have hdown := height_iterate (k := n) hb.1.mem
    rw [hn, hheight] at hdown
    -- the tip is an ancestor at the same height or higher, so it is the block itself
    rcases Nat.eq_zero_or_pos n with rfl | hpos
    · rw [Function.iterate_zero_apply] at hn
      rw [hn]
      exact active_tip
    · have hzero : (views j).height b = 0 := by omega
      have htip : (views j).height (views j).tip = 0 := by omega
      have hroot : b = (views i).parent^[n] b := by
        apply (views i).root_unique _ hb.1.mem _ (iterate_mem hb.1.mem)
        · rw [hheight, hzero]
        · rw [hn, hheight, htip]
      rw [hroot, hn]
      exact active_tip

/-- A block that is active in one view, and that the tip of another view is high enough for, is
settled: it is the block that the other view has at that height. -/
theorem CommonPrefix.settled_of_active (h : CommonPrefix views k) {i j : ι}
    (hb : (views i).Active b) (hle : (views j).height b ≤ (views j).height (views j).tip)
    (hdeep : k ≤ (views j).height (views j).tip - (views j).height b + 1) : Settled views k b := by
  have hactive := active_activeAt hle
  have hheight := height_activeAt hle
  have hconfirmed : (views j).Confirmed k ((views j).activeAt ((views j).height b)) :=
    ⟨hactive, by rwa [hheight]⟩
  have hsame : (views j).height = (views i).height := h.height_eq j i
  have hreached : (views i).Active ((views j).activeAt ((views j).height b)) := by
    apply h.active_of_height_le ⟨j, hconfirmed⟩ i
    rw [← hsame, hheight, hsame]
    exact hb.1
  have heq : (views j).activeAt ((views j).height b) = b := by
    apply hreached.eq_of_height_eq hb
    rw [← hsame, hheight]
  exact ⟨j, heq ▸ hconfirmed⟩

end FinalityGadget.BlockTree
