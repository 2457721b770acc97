import FinalityGadget.Foundation.BlockTree
import FinalityGadget.TxSystem.Finality

/-!
# Snapshots of the proof-of-work block tree

The client answers from a tree of blocks with an active chain. In such a snapshot the test of the
chain tips says exactly that the candidate has no competitor, and a follower whose active chain
continues that of the leader accepts the candidate. The candidate is always on the active chain, so
it descends from the certified block only as long as that block is on the active chain too.
-/

namespace FinalityGadget

open Bytes Fallible Text

section Reports

variable {β : Type*} (tree : BlockTree β) (hash : β → List UInt8)

/-- A header describes a block: hashes are written in lower-case hexadecimal, and confirmations are
positive exactly on the active chain. -/
structure BlockHeader.Describes (header : BlockHeader) (b : β) : Prop where
  hash_eq : header.hash = hexEncode (hash b)
  toNat_height : header.height.toNat = tree.height b
  isActive_iff : header.isActive = true ↔ tree.Active b

/-- A reported tip describes a block: the branch length counts the blocks down to the active chain,
and the status is `active` exactly for the active tip. -/
structure ChainTip.Describes (t : ChainTip) (b : β) : Prop where
  hash_eq : t.hash = hexEncode (hash b)
  toNat_height : t.height.toNat = tree.height b
  isBranchLen : tree.IsBranchLen b t.branchLen.toNat
  status_eq_iff : t.status = "active" ↔ b = tree.tip

/-- The client knows all blocks by their hash, and those of the active chain by their height. -/
structure PowClient.ReportsChain (pow : PowClient) : Prop where
  tip : ∃ header, pow.getTip = .ok header ∧ header.Describes tree hash tree.tip
  byHeight : ∀ height : UInt64, height.toNat ≤ tree.height tree.tip →
    ∃ header, pow.getBlockHeaderByHeight height = .ok header ∧
      header.Describes tree hash (tree.activeAt height.toNat)
  byHash : ∀ b ∈ tree.blocks, ∃ header,
    pow.getBlockHeaderByHash (hexEncode (hash b)) = .ok header ∧ header.Describes tree hash b

/-- The client reports every leaf. The active tip is reported even where it is not one. -/
structure PowClient.ReportsTips (pow : PowClient) : Prop where
  intro ::
  exists_tips : ∃ tips, pow.getChainTips = .ok tips ∧
    (∀ t ∈ tips, ∃ b ∈ tree.blocks, (tree.IsLeaf b ∨ b = tree.tip) ∧ t.Describes tree hash b) ∧
    ∀ b ∈ tree.blocks, tree.IsLeaf b → ∃ t ∈ tips, t.Describes tree hash b

/-- The certified block is a block of the tree, or there is none yet. -/
inductive CertifiedIn : Slice → ℕ → Prop where
  | none : CertifiedIn none 0
  | block (c : β) (hc : c ∈ tree.blocks) : CertifiedIn (some (hash c)) (tree.height c)

end Reports

namespace Reference

/-- Four blocks are built on the genesis block one after the other, and one competes with the first
of them. -/
inductive Blk where
  | genesis | first | second | third | fourth | rival
  deriving DecidableEq

namespace Blk

def parent : Blk → Blk
  | genesis | first | rival => genesis
  | second => first
  | third => second
  | fourth => third

def height : Blk → ℕ
  | genesis => 0
  | first | rival => 1
  | second => 2
  | third => 3
  | fourth => 4

def hash : Blk → List UInt8
  | genesis => [0]
  | first => [1]
  | second => [2]
  | third => [3]
  | fourth => [4]
  | rival => [9]

/-- The block with the given hash. -/
def find (data : List UInt8) : Option Blk :=
  [genesis, first, second, third, fourth, rival].find? fun b ↦ b.hash = data

theorem find_hash (b : Blk) : find b.hash = some b := by
  cases b <;> rfl

theorem hash_of_find {data : List UInt8} {b : Blk} (h : find data = some b) : b.hash = data := by
  simpa using List.find?_some h

theorem height_lt (b : Blk) : b.height < 2 ^ 64 := by
  cases b <;> decide

theorem eq_genesis {b : Blk} (h : b.height = 0) : b = genesis := by
  cases b with
  | genesis => rfl
  | first | second | third | fourth | rival => cases h

/-- The tree of some of the blocks, with a tip. -/
def tree (blocks : Finset Blk) (tip : Blk) (tip_mem : tip ∈ blocks)
    (parent_mem : ∀ b ∈ blocks, b.parent ∈ blocks) : BlockTree Blk where
  blocks := blocks
  parent := parent
  height := height
  tip := tip
  tip_mem := tip_mem
  parent_mem := parent_mem
  height_parent b _ := by cases b <;> rfl
  root_unique _ _ _ _ ha hb := (eq_genesis ha).trans (eq_genesis hb).symm

end Blk

/-- The header of a block in the view of a node. -/
def headerIn (tree : BlockTree Blk) (b : Blk) : BlockHeader where
  hash := hexEncode b.hash
  confirmations := if tree.Active b then tree.height tree.tip - tree.height b + 1 else -1
  height := UInt64.ofNat (tree.height b)

/-- The answers of a node that knows the blocks of a tree, with the leaves it reports and the
lengths of their branches. -/
def powIn (tree : BlockTree Blk) (leaves : List (Blk × UInt64)) : PowClient where
  getTip := .ok (headerIn tree tree.tip)
  getBlockHeaderByHash text :=
    match hexDecode text with
    | .ok data =>
      match Blk.find data with
      | some b => if b ∈ tree.blocks then .ok (headerIn tree b) else .error "Block not found"
      | none => .error "Block not found"
    | .error err => .error err
  getBlockHeaderByHeight height :=
    if height.toNat ≤ tree.height tree.tip then .ok (headerIn tree (tree.activeAt height.toNat))
    else .error "Block height out of range"
  getChainTips := .ok <| leaves.map fun leaf ↦
    { height := UInt64.ofNat (tree.height leaf.1)
      hash := hexEncode leaf.1.hash
      branchLen := leaf.2
      status := if leaf.1 = tree.tip then "active" else "valid-fork" }

section PowIn

variable {tree : BlockTree Blk} {leaves : List (Blk × UInt64)}

theorem headerIn_describes {b : Blk} (hb : tree.height b < 2 ^ 64) :
    (headerIn tree b).Describes tree Blk.hash b where
  hash_eq := rfl
  toNat_height := UInt64.toNat_ofNat_of_lt' hb
  isActive_iff := by
    rw [BlockHeader.isActive, decide_eq_true_iff, headerIn]
    by_cases hactive : tree.Active b
    · have hle := hactive.1
      simp only [hactive, if_true, iff_true]
      omega
    · simp [hactive]

theorem powIn_reportsChain (hbound : ∀ b ∈ tree.blocks, tree.height b < 2 ^ 64) :
    (powIn tree leaves).ReportsChain tree Blk.hash where
  tip := ⟨_, rfl, headerIn_describes (hbound _ tree.tip_mem)⟩
  byHeight height hle :=
    ⟨_, if_pos hle, headerIn_describes (hbound _ BlockTree.activeAt_mem)⟩
  byHash b hb := by
    refine ⟨headerIn tree b, ?_, headerIn_describes (hbound b hb)⟩
    simp only [powIn, hexDecode_hexEncode, Blk.find_hash, hb, if_true]

theorem powIn_reportsTips (hbound : ∀ b ∈ tree.blocks, tree.height b < 2 ^ 64)
    (hsound : ∀ leaf ∈ leaves, leaf.1 ∈ tree.blocks ∧ (tree.IsLeaf leaf.1 ∨ leaf.1 = tree.tip) ∧
      tree.IsBranchLen leaf.1 leaf.2.toNat)
    (hcomplete : ∀ b ∈ tree.blocks, tree.IsLeaf b → ∃ leaf ∈ leaves, leaf.1 = b) :
    (powIn tree leaves).ReportsTips tree Blk.hash := by
  have hdescribes : ∀ leaf ∈ leaves, ChainTip.Describes tree Blk.hash
      { height := UInt64.ofNat (tree.height leaf.1)
        hash := hexEncode leaf.1.hash
        branchLen := leaf.2
        status := if leaf.1 = tree.tip then "active" else "valid-fork" } leaf.1 := by
    intro leaf hleaf
    obtain ⟨hmem, -, hlen⟩ := hsound leaf hleaf
    refine ⟨rfl, UInt64.toNat_ofNat_of_lt' (hbound _ hmem), hlen, ?_⟩
    by_cases htip : leaf.1 = tree.tip
    · simp [htip]
    · simp [htip]
  refine ⟨_, rfl, ?_, ?_⟩
  · intro t ht
    obtain ⟨leaf, hleaf, rfl⟩ := List.mem_map.mp ht
    exact ⟨leaf.1, (hsound leaf hleaf).1, (hsound leaf hleaf).2.1, hdescribes leaf hleaf⟩
  · intro b hb hleaf
    obtain ⟨leaf, hmem, rfl⟩ := hcomplete b hb hleaf
    exact ⟨_, List.mem_map.mpr ⟨leaf, hmem, rfl⟩, hdescribes leaf hmem⟩

end PowIn

/-- The active chain ends with the third block. -/
def forked : BlockTree Blk :=
  Blk.tree {.genesis, .first, .second, .third, .rival} .third (by decide) (by decide)

/-- The active chain has grown by one block. -/
def grown : BlockTree Blk :=
  Blk.tree {.genesis, .first, .second, .third, .fourth, .rival} .fourth (by decide) (by decide)

theorem grown_extends_forked : grown.Extends forked := by
  have hactive : ∀ b ∈ forked.blocks, forked.Active b → grown.Active b := by decide
  intro b hb
  exact ⟨hactive b hb.mem hb, rfl⟩

theorem forked_reportsTips :
    (powIn forked [(.third, 0), (.rival, 1)]).ReportsTips forked Blk.hash :=
  powIn_reportsTips (by decide) (by decide) (by decide)

/-- A system that asks for two confirmations, with a certified block at height 1. -/
def certified (b : Blk) : FGPTxSystem :=
  ((FGPTxSystem.fresh shardConf 2).setPending (some b.hash) 1).committed
    { inputRecord := some { hash := some b.hash } }

theorem forked_proposes (round : UInt64) :
    (FGPTxSystem.leaderPropose (powIn forked [(.third, 0), (.rival, 1)]) round).run
        (certified .first) =
      .ok ⟨some [2], some [], 0, none⟩ ((certified .first).setPending (some [2]) 2) := rfl

end Reference

/-! ## The guards of the leader -/

/-- A positive depth is exact one below: it does not wrap around. -/
theorem toNat_sub_one_add_one {dFG : UInt64} (hdFG : 1 ≤ dFG) :
    (dFG - 1).toNat + 1 = dFG.toNat := by
  rw [UInt64.toNat_sub_of_le dFG 1 hdFG, UInt64.toNat_one]
  exact Nat.sub_add_cancel (UInt64.le_iff_toNat_le.mp hdFG)

/-- The required depth does not fall short, even where it wraps around. -/
theorem toNat_le_sub_one_add_one (dFG : UInt64) : dFG.toNat ≤ (dFG - 1).toNat + 1 := by
  by_cases hzero : 1 ≤ dFG
  · exact (toNat_sub_one_add_one hzero).ge
  · rw [UInt64.le_iff_toNat_le, UInt64.toNat_one] at hzero
    omega

/-- The three height guards together ask for `dFG` blocks above the certified one. -/
theorem height_guards_iff {tip hFG dFG : UInt64} (hdFG : 1 ≤ dFG) :
    (hFG < tip ∧ dFG - 1 ≤ tip - hFG ∧ hFG < tip - (dFG - 1)) ↔
      hFG.toNat + dFG.toNat ≤ tip.toNat := by
  have hdepth := toNat_sub_one_add_one hdFG
  constructor
  · rintro ⟨hnew, hdeep, hcand⟩
    have habove := UInt64.toNat_sub_of_le tip hFG hnew.le
    rw [UInt64.le_iff_toNat_le] at hdeep
    have hle : dFG - 1 ≤ tip := by
      rw [UInt64.le_iff_toNat_le]
      omega
    have hcandidate := UInt64.toNat_sub_of_le tip (dFG - 1) hle
    rw [UInt64.lt_iff_toNat_lt] at hcand
    omega
  · intro hsum
    have hnew : hFG < tip := by
      rw [UInt64.lt_iff_toNat_lt]
      omega
    have habove := UInt64.toNat_sub_of_le tip hFG hnew.le
    have hle : dFG - 1 ≤ tip := by
      rw [UInt64.le_iff_toNat_le]
      omega
    have hcandidate := UInt64.toNat_sub_of_le tip (dFG - 1) hle
    refine ⟨hnew, ?_, ?_⟩
    · rw [UInt64.le_iff_toNat_le]
      omega
    · rw [UInt64.lt_iff_toNat_lt]
      omega

theorem toNat_candidateHeight {tip dFG : UInt64} (hdFG : 1 ≤ dFG) (hle : dFG.toNat ≤ tip.toNat) :
    (tip - (dFG - 1)).toNat = tip.toNat - dFG.toNat + 1 := by
  have hdepth := toNat_sub_one_add_one hdFG
  rw [UInt64.toNat_sub_of_le]
  · omega
  · rw [UInt64.le_iff_toNat_le]
    omega

/-- A tip does not compete with the candidate: it is the active one, or its branch is sane and has
no block at that height. -/
def ChainTip.Clear (candidateHeight : UInt64) (t : ChainTip) : Prop :=
  t.status = "active" ∨
    t.branchLen ≤ t.height ∧
      ¬(candidateHeight ≤ t.height ∧ t.height - t.branchLen < candidateHeight)

theorem FGPTxSystem.checkForks_ok_iff {candidateHeight : UInt64} {tips : List ChainTip} :
    checkForks candidateHeight tips = .ok () ↔ ∀ t ∈ tips, t.Clear candidateHeight := by
  induction tips with
  | nil => simp [checkForks]
  | cons t rest ih =>
    rw [List.forall_mem_cons, ← ih, checkForks, ChainTip.Clear]
    by_cases hactive : t.status = "active"
    · simp [hactive]
    · by_cases hlen : t.height < t.branchLen
      · simp [hactive, hlen, not_le.mpr hlen]
      · by_cases hfork : candidateHeight ≤ t.height ∧ t.height - t.branchLen < candidateHeight
        · simp [hactive, hlen, hfork]
        · simp [hactive, hlen, hfork, not_lt.mp hlen]

section Leader

variable {β : Type*} {tree : BlockTree β} {hash : β → List UInt8} {pow : PowClient}
  {s : FGPTxSystem}

theorem certifiedHeight_of_reports (hpow : pow.ReportsChain tree hash) {hFG : ℕ}
    (hcertified : CertifiedIn tree hash s.committedStateHash hFG) :
    ∃ height, s.certifiedHeight pow = .ok height ∧ height.toNat = hFG := by
  unfold FGPTxSystem.certifiedHeight
  generalize s.committedStateHash = committed at hcertified ⊢
  cases hcertified with
  | none => exact ⟨0, rfl, rfl⟩
  | block c hc =>
    obtain ⟨header, hheader, hdescribes⟩ := hpow.byHash c hc
    refine ⟨header.height, ?_, hdescribes.toNat_height⟩
    dsimp only
    rw [hheader]

theorem ChainTip.Describes.branchLen_le {t : ChainTip} {b : β} (h : t.Describes tree hash b)
    (hb : b ∈ tree.blocks) : t.branchLen ≤ t.height := by
  rw [UInt64.le_iff_toNat_le, h.toNat_height]
  exact h.isBranchLen.le_height hb

/-- The branch of a reported tip competes with the candidate when its heights cover that of the
candidate. The active tip has no branch. -/
theorem ChainTip.Describes.clear_iff {t : ChainTip} {b : β} (h : t.Describes tree hash b)
    (hb : b ∈ tree.blocks) {candidateHeight : UInt64} :
    t.Clear candidateHeight ↔ ¬(candidateHeight.toNat ≤ tree.height b ∧
      tree.height b - t.branchLen.toNat < candidateHeight.toNat) := by
  have hle := h.branchLen_le hb
  have hfork := UInt64.toNat_sub_of_le t.height t.branchLen hle
  rw [Clear, UInt64.le_iff_toNat_le, UInt64.le_iff_toNat_le, UInt64.lt_iff_toNat_lt, hfork,
    h.toNat_height]
  constructor
  · rintro (hactive | ⟨-, hclear⟩)
    · have hzero : t.branchLen.toNat = 0 := by
        have hbranch := h.isBranchLen
        rw [h.status_eq_iff.mp hactive] at hbranch
        exact hbranch.unique (BlockTree.isBranchLen_zero_iff.mpr BlockTree.active_tip)
      omega
    · exact hclear
  · intro hclear
    exact Or.inr ⟨h.isBranchLen.le_height hb, hclear⟩

/-- The test of the chain tips: no block outside the active chain has the height of the
candidate. -/
theorem checkForks_ok_iff_no_competitor {tips : List ChainTip}
    (hsound : ∀ t ∈ tips, ∃ b ∈ tree.blocks, (tree.IsLeaf b ∨ b = tree.tip) ∧
      t.Describes tree hash b)
    (hcomplete : ∀ b ∈ tree.blocks, tree.IsLeaf b → ∃ t ∈ tips, t.Describes tree hash b)
    {candidateHeight : UInt64} :
    FGPTxSystem.checkForks candidateHeight tips = .ok () ↔
      ¬∃ b ∈ tree.blocks, ¬tree.Active b ∧ tree.height b = candidateHeight.toNat := by
  rw [FGPTxSystem.checkForks_ok_iff, BlockTree.exists_inactive_iff]
  constructor
  · rintro hclear ⟨l, hl, hleaf, k, hk, hcovers⟩
    obtain ⟨t, ht, hdescribes⟩ := hcomplete l hl hleaf
    rw [hk.unique hdescribes.isBranchLen] at hcovers
    exact (hdescribes.clear_iff hl).mp (hclear t ht) hcovers
  · intro hnone t ht
    obtain ⟨b, hb, hleaf, hdescribes⟩ := hsound t ht
    rw [hdescribes.clear_iff hb]
    intro hcovers
    rcases hleaf with hleaf | rfl
    · exact hnone ⟨b, hb, hleaf, _, hdescribes.isBranchLen, hcovers⟩
    · have hzero := hdescribes.isBranchLen.unique
        (BlockTree.isBranchLen_zero_iff.mpr BlockTree.active_tip)
      omega

/-- The candidate of the leader is the block of the active chain with `dFG` confirmations, and it is
above the certified one. -/
theorem FGPTxSystem.Candidate.exists_active (hpow : pow.ReportsChain tree hash)
    {data : List UInt8} {height : UInt64} (hcandidate : s.Candidate pow data height) :
    ∃ b, tree.Active b ∧ data = hash b ∧ height.toNat = tree.height b ∧
      tree.height b + (s.dFG - 1).toNat = tree.height tree.tip ∧
      ∃ hFG, s.certifiedHeight pow = .ok hFG ∧ hFG.toNat < tree.height b := by
  obtain ⟨tip, hFG, block, tips, htip, hcertified, hnew, hdeep, hcand, hblock, -, -, hdata, rfl⟩ :=
    hcandidate
  obtain ⟨tipHeader, htip', htipDescribes⟩ := hpow.tip
  obtain rfl : tipHeader = tip := Except.ok.inj (htip'.symm.trans htip)
  have habove := UInt64.toNat_sub_of_le tipHeader.height hFG hnew.le
  rw [UInt64.le_iff_toNat_le] at hdeep
  have hle : s.dFG - 1 ≤ tipHeader.height := by
    rw [UInt64.le_iff_toNat_le]
    omega
  have hheight := UInt64.toNat_sub_of_le tipHeader.height (s.dFG - 1) hle
  rw [UInt64.le_iff_toNat_le] at hle
  rw [UInt64.lt_iff_toNat_lt, hheight] at hcand
  rw [htipDescribes.toNat_height] at hheight hcand hle
  have hbelow : (tipHeader.height - (s.dFG - 1)).toNat ≤ tree.height tree.tip := by
    omega
  obtain ⟨candHeader, hblock', hdescribes⟩ := hpow.byHeight _ hbelow
  obtain rfl : candHeader = block := Except.ok.inj (hblock'.symm.trans hblock)
  rw [hdescribes.hash_eq, hexDecode_hexEncode] at hdata
  have hactive := BlockTree.height_activeAt hbelow
  refine ⟨_, BlockTree.active_activeAt hbelow, (Except.ok.inj hdata).symm,
    hdescribes.toNat_height, ?_, hFG, hcertified, ?_⟩
  · omega
  · omega

/-- The leader has a candidate exactly when the guards hold and nothing competes. -/
theorem exists_candidate_iff (hpow : pow.ReportsChain tree hash)
    (htips : pow.ReportsTips tree hash) {hFG : ℕ}
    (hcertified : CertifiedIn tree hash s.committedStateHash hFG) (hdFG : 1 ≤ s.dFG) :
    (∃ data height, s.Candidate pow data height) ↔ hFG + s.dFG.toNat ≤ tree.height tree.tip ∧
      ¬∃ b ∈ tree.blocks, ¬tree.Active b ∧
        tree.height b = tree.height tree.tip - s.dFG.toNat + 1 := by
  obtain ⟨tip, htip, hdescribes⟩ := hpow.tip
  obtain ⟨certified, hcert, rfl⟩ := certifiedHeight_of_reports hpow hcertified
  obtain ⟨tips, htips, hsound, hcomplete⟩ := htips
  have hforks : FGPTxSystem.checkForks (tip.height - (s.dFG - 1)) tips = .ok () ↔ _ :=
    checkForks_ok_iff_no_competitor hsound hcomplete
  rw [← hdescribes.toNat_height, ← height_guards_iff hdFG]
  constructor
  · rintro ⟨data, height, tip', hFG, block, tips', htip', hcert', hnew, hdeep, hcand, -, htips',
      hchecked, -, -⟩
    obtain rfl : tip = tip' := Except.ok.inj (htip.symm.trans htip')
    obtain rfl : certified = hFG := Except.ok.inj (hcert.symm.trans hcert')
    obtain rfl : tips = tips' := Except.ok.inj (htips.symm.trans htips')
    have hguards := And.intro hnew (And.intro hdeep hcand)
    rw [hforks, toNat_candidateHeight hdFG] at hchecked
    · exact ⟨hguards, hchecked⟩
    · exact (Nat.le_add_left _ _).trans ((height_guards_iff hdFG).mp hguards)
  · rintro ⟨⟨hnew, hdeep, hcand⟩, hnone⟩
    have hle : s.dFG.toNat ≤ tip.height.toNat :=
      (Nat.le_add_left _ _).trans ((height_guards_iff hdFG).mp ⟨hnew, hdeep, hcand⟩)
    have hheight := toNat_candidateHeight hdFG hle
    rw [← hheight, ← hforks] at hnone
    have hbelow : (tip.height - (s.dFG - 1)).toNat ≤ tree.height tree.tip := by
      rw [UInt64.le_iff_toNat_le, UInt64.toNat_one] at hdFG
      rw [hheight, ← hdescribes.toNat_height]
      omega
    obtain ⟨block, hblock, hblockDescribes⟩ := hpow.byHeight _ hbelow
    have hdata := hexDecode_hexEncode (hash (tree.activeAt (tip.height - (s.dFG - 1)).toNat))
    rw [← hblockDescribes.hash_eq] at hdata
    exact ⟨_, _, tip, certified, block, tips, htip, hcert, hnew, hdeep, hcand, hblock, htips, hnone,
      hdata, rfl⟩

/-- The leader proposes exactly when the tip is `dFG` blocks above the certified one and no block
outside the active chain has the height of the candidate; it then proposes the block of the active
chain at that height. A branch longer than its height is never reported. -/
theorem leaderPropose_ok_iff_no_competitor (hpow : pow.ReportsChain tree hash)
    (htips : pow.ReportsTips tree hash) {hFG : ℕ}
    (hcertified : CertifiedIn tree hash s.committedStateHash hFG) (hdFG : 1 ≤ s.dFG)
    (round : UInt64) :
    ((∃ summary s', (FGPTxSystem.leaderPropose pow round).run s = .ok summary s') ↔
      hFG + s.dFG.toNat ≤ tree.height tree.tip ∧
        ¬∃ b ∈ tree.blocks, ¬tree.Active b ∧
          tree.height b = tree.height tree.tip - s.dFG.toNat + 1) ∧
    (∀ summary s', (FGPTxSystem.leaderPropose pow round).run s = .ok summary s' →
      summary.rootHash = some (hash (tree.activeAt (tree.height tree.tip - s.dFG.toNat + 1)))) ∧
    ∀ tips, pow.getChainTips = .ok tips → ∀ t ∈ tips, t.branchLen ≤ t.height := by
  have hiff := exists_candidate_iff hpow htips hcertified hdFG
  refine ⟨?_, ?_, ?_⟩
  · rw [← hiff]
    constructor
    · rintro ⟨summary, s', hrun⟩
      obtain ⟨data, height, hcandidate, -⟩ := FGPTxSystem.leaderPropose_ok hrun
      exact ⟨data, height, hcandidate⟩
    · rintro ⟨data, height, hcandidate⟩
      exact ⟨_, _, FGPTxSystem.leaderPropose_of_candidate round hcandidate⟩
  · intro summary s' hrun
    obtain ⟨data, height, hcandidate, rfl, -⟩ := FGPTxSystem.leaderPropose_ok hrun
    obtain ⟨b, hactive, rfl, -, hdepth, -⟩ := hcandidate.exists_active hpow
    obtain ⟨hheight, -⟩ := hiff.mp ⟨_, _, hcandidate⟩
    have hone := UInt64.toNat_sub_of_le s.dFG 1 hdFG
    rw [UInt64.toNat_one] at hone
    have hb : tree.height b = tree.height tree.tip - s.dFG.toNat + 1 := by
      rw [UInt64.le_iff_toNat_le, UInt64.toNat_one] at hdFG
      omega
    rw [← hb, hactive.2]
    rfl
  · intro reported hreported t ht
    obtain ⟨tips, htips, hsound, -⟩ := htips
    obtain rfl : reported = tips := Except.ok.inj (hreported.symm.trans htips)
    obtain ⟨b, hb, -, hdescribes⟩ := hsound t ht
    exact hdescribes.branchLen_le hb

theorem Reference.leaderPropose_forked :
    ∃ summary s', (FGPTxSystem.leaderPropose (powIn forked [(.third, 0), (.rival, 1)]) 1).run
      (certified .first) = .ok summary s' := by
  have hcertified : CertifiedIn forked Blk.hash (some [1]) 1 :=
    .block Blk.first (by decide)
  exact (leaderPropose_ok_iff_no_competitor (powIn_reportsChain (by decide)) forked_reportsTips
    hcertified (by decide) 1).1.mpr ⟨by decide, by decide⟩

/-- The proposed block descends from the certified one exactly when that block is still on the
active chain: the candidate always is, and only heights are compared. -/
theorem proposed_descends_iff_active (hpow : pow.ReportsChain tree hash) {c : β}
    (hc : c ∈ tree.blocks) (hcommitted : s.committedStateHash = some (hash c)) {round : UInt64}
    {summary : Summary} {s' : FGPTxSystem}
    (hrun : (FGPTxSystem.leaderPropose pow round).run s = .ok summary s') :
    ∃ b ∈ tree.blocks, summary.rootHash = some (hash b) ∧
      (tree.Ancestor c b ↔ tree.Active c) := by
  obtain ⟨data, height, hcandidate, rfl, -⟩ := FGPTxSystem.leaderPropose_ok hrun
  obtain ⟨b, hactive, rfl, -, -, hFG, hcert, habove⟩ := hcandidate.exists_active hpow
  have hcertified : CertifiedIn tree hash s.committedStateHash (tree.height c) := by
    rw [hcommitted]
    exact .block c hc
  obtain ⟨certified, hcert', hheight⟩ := certifiedHeight_of_reports hpow hcertified
  obtain rfl : certified = hFG := Except.ok.inj (hcert'.symm.trans hcert)
  rw [hheight] at habove
  refine ⟨b, hactive.mem, rfl, ?_, ?_⟩
  · intro hancestor
    exact hactive.of_ancestor hancestor
  · intro hc
    exact hc.ancestor hactive habove.le

theorem Reference.proposed_descends_forked :
    forked.Active .first ∧ ∃ b ∈ forked.blocks, (some [2] : Slice) = some b.hash ∧
      (forked.Ancestor .first b ↔ forked.Active .first) := by
  exact ⟨by decide, proposed_descends_iff_active (powIn_reportsChain (by decide)) (by decide) rfl
    (forked_proposes 1)⟩

/-- The certified block has left the active chain, and the leader proposes a block of the branch
that replaced it. -/
theorem Reference.proposed_replaces_certified :
    (powIn forked [(.third, 0), (.rival, 1)]).ReportsChain forked Blk.hash ∧
      (powIn forked [(.third, 0), (.rival, 1)]).ReportsTips forked Blk.hash ∧
      Blk.rival ∈ forked.blocks ∧
      (∃ s', (FGPTxSystem.leaderPropose (powIn forked [(.third, 0), (.rival, 1)]) 1).run
        (certified .rival) = .ok ⟨some [2], some [], 0, none⟩ s') ∧
      ¬forked.Ancestor .rival .second := by
  refine ⟨powIn_reportsChain (by decide), forked_reportsTips, by decide,
    ⟨(certified .rival).setPending (some [2]) 2, rfl⟩, ?_⟩
  intro hancestor
  have hsecond : forked.Active .second := by decide
  have hrival : ¬forked.Active .rival := by decide
  exact hrival (hsecond.of_ancestor hancestor)

end Leader

/-! ## Leader and follower -/

section Follower

variable {β : Type*} {leaderTree followerTree : BlockTree β} {hash : β → List UInt8}
  {leaderPow followerPow : PowClient} {leader follower : FGPTxSystem}

/-- A candidate of the leader is active and deep enough wherever the active chain continues that of
the leader. -/
theorem FGPTxSystem.Candidate.verified (hleader : leaderPow.ReportsChain leaderTree hash)
    (hfollower : followerPow.ReportsChain followerTree hash)
    (hextends : followerTree.Extends leaderTree) (hdFG : follower.dFG = leader.dFG)
    {data : List UInt8} {height : UInt64} (hcandidate : leader.Candidate leaderPow data height)
    (hne : data ≠ follower.committedStateHash.bytes) :
    FGPTxSystem.Verified followerPow follower (some data) height := by
  obtain ⟨b, hactive, rfl, hheight, hdepth, -⟩ := hcandidate.exists_active hleader
  obtain ⟨hactive', hheight'⟩ := hextends b hactive
  obtain ⟨tip, htip, htipDescribes⟩ := hfollower.tip
  obtain ⟨block, hblock, hdescribes⟩ := hfollower.byHash b hactive'.mem
  obtain rfl : block.height = height := by
    apply UInt64.toNat_inj.mp
    rw [hdescribes.toNat_height, hheight', hheight]
  have hgrown := hextends.height_tip_le
  have hle : block.height ≤ tip.height := by
    rw [UInt64.le_iff_toNat_le, hdescribes.toNat_height, htipDescribes.toNat_height]
    exact hactive'.1
  refine .block block tip hne hblock (hdescribes.isActive_iff.mpr hactive') htip hle ?_
  rw [UInt64.le_iff_toNat_le, UInt64.toNat_sub_of_le _ _ hle, hdescribes.toNat_height,
    htipDescribes.toNat_height, hdFG, hheight']
  omega

/-- What the leader proposes is accepted by every follower whose active chain continues that of the
leader, with the same summary and the same pending block. -/
theorem followerVerify_of_leaderPropose (hdFG : follower.dFG = leader.dFG)
    (hleader : leaderPow.ReportsChain leaderTree hash)
    (hfollower : followerPow.ReportsChain followerTree hash)
    (hextends : followerTree.Extends leaderTree) {round : UInt64} {summary : Summary}
    {leader' : FGPTxSystem}
    (hrun : (FGPTxSystem.leaderPropose leaderPow round).run leader = .ok summary leader')
    (round' : UInt64) :
    ∃ follower', (FGPTxSystem.followerVerify followerPow round' summary.rootHash).run follower =
        .ok summary follower' ∧
      follower'.pendingStateHash = leader'.pendingStateHash ∧
      (summary.rootHash.bytes ≠ follower.committedStateHash.bytes →
        follower'.pendingStateHeight = leader'.pendingStateHeight) := by
  obtain ⟨data, height, hcandidate, rfl, rfl⟩ := FGPTxSystem.leaderPropose_ok hrun
  have hsummary : leader.summaryOf (some data) = follower.summaryOf (some data) := by
    rw [leader.summaryOf_eq, follower.summaryOf_eq]
  rw [hsummary]
  by_cases hsame : data = follower.committedStateHash.bytes
  · refine ⟨_, FGPTxSystem.followerVerify_of_verified round' (.noop hsame), rfl, ?_⟩
    intro hne
    exact absurd hsame hne
  · have hverified := hcandidate.verified hleader hfollower hextends hdFG hsame
    exact ⟨_, FGPTxSystem.followerVerify_of_verified round' hverified, rfl, fun _ ↦ rfl⟩

theorem Reference.followerVerify_grown :
    ∃ follower', (FGPTxSystem.followerVerify (powIn grown []) 1 (some [2])).run
        (.fresh shardConf 2) = .ok ⟨some [2], some [], 0, none⟩ follower' ∧
      follower'.pendingStateHash = some [2] ∧
      (([2] : List UInt8) ≠ [] → follower'.pendingStateHeight = 2) := by
  have hleader : (powIn forked [(.third, 0), (.rival, 1)]).ReportsChain forked Blk.hash :=
    powIn_reportsChain (by decide)
  have hfollower : (powIn grown []).ReportsChain grown Blk.hash :=
    powIn_reportsChain (by decide)
  have hdFG : (FGPTxSystem.fresh shardConf 2).dFG = (certified .first).dFG := rfl
  exact followerVerify_of_leaderPropose hdFG hleader hfollower grown_extends_forked
    (forked_proposes 1) 1

end Follower

end FinalityGadget
