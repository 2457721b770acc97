import Mathlib.Tactic.IntervalCases
import FinalityGadget.TxSystem.Snapshot

/-!
# The client of the proof-of-work node

A question of the transaction system becomes one or two calls of the node: the tip of the chain is
the header of the best block hash. The chain may grow and reorganise between two calls, so the
answers that `FollowerVerify` combines come from up to three views of the block tree. Heights of the
one view are then compared with the tip of another.
-/

namespace FinalityGadget

open Bytes Fallible Text

/-- The results of the calls of the node at one moment. -/
structure PowNode where
  getbestblockhash : Except Err String
  getblockheader : String → Except Err BlockHeader
  getblockhash : UInt64 → Except Err String
  getchaintips : Except Err (List ChainTip)

namespace IPCClient

def getBlockHeaderByHash (node : PowNode) (hash : String) : Except Err BlockHeader :=
  (node.getblockheader hash).mapError fun err ↦ s!"failed to invoke getblockheader: {err}"

/-- The best hash is asked at one moment and its header at another. -/
def getTip (node node' : PowNode) : Except Err BlockHeader := do
  let hash ← node.getbestblockhash.mapError fun err ↦ s!"failed to get best block hash: {err}"
  (getBlockHeaderByHash node' hash).mapError fun err ↦ s!"failed to get tip block header: {err}"

def getChainTips (node : PowNode) : Except Err (List ChainTip) := node.getchaintips

def getBlockHeaderByHeight (node node' : PowNode) (height : UInt64) : Except Err BlockHeader := do
  let hash ← (node.getblockhash height).mapError fun err ↦
    s!"failed to get block hash for height {height}: {err}"
  getBlockHeaderByHash node' hash

/-- The answers to the calls in the order in which `FollowerVerify` makes them: the header of the
proposed root, the best hash and its header. -/
def verifying (nodes : ℕ → PowNode) : PowClient where
  getBlockHeaderByHash := getBlockHeaderByHash (nodes 0)
  getTip := getTip (nodes 1) (nodes 2)
  -- not asked by a follower
  getBlockHeaderByHeight := getBlockHeaderByHeight (nodes 3) (nodes 4)
  getChainTips := getChainTips (nodes 5)

theorem getBlockHeaderByHash_ok_iff {node : PowNode} {hash : String} {header : BlockHeader} :
    getBlockHeaderByHash node hash = .ok header ↔ node.getblockheader hash = .ok header :=
  mapError_eq_ok

theorem getTip_ok_iff {node node' : PowNode} {header : BlockHeader} :
    getTip node node' = .ok header ↔
      ∃ hash, node.getbestblockhash = .ok hash ∧ node'.getblockheader hash = .ok header := by
  simp only [getTip, bind_eq_ok, mapError_eq_ok, getBlockHeaderByHash_ok_iff]

end IPCClient

section Views

variable {β : Type*} {hash : β → List UInt8} {views : ℕ → BlockTree β} {nodes : ℕ → PowNode}

/-- What the node answers is true in the view. It may also fail to answer. -/
structure PowNode.Shows (view : BlockTree β) (hash : β → List UInt8) (node : PowNode) : Prop where
  best : ∀ {text}, node.getbestblockhash = .ok text → text = hexEncode (hash view.tip)
  header : ∀ {data header}, node.getblockheader (hexEncode data) = .ok header →
    ∃ b ∈ view.blocks, data = hash b ∧ header.Describes view hash b

/-- Blocks are identified by their hashes, and the hash of a block fixes its height. -/
structure SameBlocks (views : ℕ → BlockTree β) (hash : β → List UInt8) : Prop where
  injective : Function.Injective hash
  height_eq : ∀ i j b, b ∈ (views i).blocks → b ∈ (views j).blocks →
    (views i).height b = (views j).height b

/-- The tip the client reports is the tip of the view in which the best hash was asked. -/
theorem getTip_height (hviews : SameBlocks views hash)
    (hnodes : ∀ i, (nodes i).Shows (views i) hash) {i j : ℕ} {tip : BlockHeader}
    (htip : IPCClient.getTip (nodes i) (nodes j) = .ok tip) :
    tip.height.toNat = (views i).height (views i).tip := by
  obtain ⟨text, hbest, hheader⟩ := IPCClient.getTip_ok_iff.mp htip
  rw [(hnodes i).best hbest] at hheader
  obtain ⟨b, hb, hhash, hdescribes⟩ := (hnodes j).header hheader
  obtain rfl := hviews.injective hhash
  rw [hdescribes.toNat_height]
  exact hviews.height_eq j i _ hb (views i).tip_mem

/-- The block outlasts the calls of a follower: it has the confirmations already when its header is
asked for, it is still active when the best hash is asked for, or it has them again when the header
of that hash is asked for. -/
def Outlasts (views : ℕ → BlockTree β) (k : ℕ) (b : β) : Prop :=
  k ≤ (views 0).height (views 0).tip - (views 0).height b + 1 ∨ (views 1).Active b ∨
    (views 2).Confirmed k b

/-- A root that a follower accepts is active in the view that answered for its header, and high
enough for the tip of the view that answered for the best hash. -/
theorem followerVerify_views (hviews : SameBlocks views hash)
    (hnodes : ∀ i, (nodes i).Shows (views i) hash) {s s' : FGPTxSystem} {round : UInt64}
    {root : Slice} {summary : Summary}
    (hrun : (FGPTxSystem.followerVerify (IPCClient.verifying nodes) round root).run s =
      .ok summary s') (hne : root.bytes ≠ s.committedStateHash.bytes) :
    ∃ b, root.bytes = hash b ∧ (views 0).Active b ∧
      s.dFG.toNat ≤ (views 1).height (views 1).tip - (views 0).height b + 1 := by
  obtain ⟨height, hverified, -, -⟩ := FGPTxSystem.followerVerify_ok hrun
  cases hverified with
  | noop hsame => exact absurd hsame hne
  | block block tip _ hblock hactive htip hle hdepth =>
    obtain ⟨b, hb, hroot, hdescribes⟩ :=
      (hnodes 0).header (IPCClient.getBlockHeaderByHash_ok_iff.mp hblock)
    have htipHeight := getTip_height hviews hnodes htip
    have hrequired := toNat_le_sub_one_add_one s.dFG
    rw [UInt64.le_iff_toNat_le, UInt64.toNat_sub_of_le _ _ hle, hdescribes.toNat_height,
      htipHeight] at hdepth
    exact ⟨b, hroot, hdescribes.isActive_iff.mp hactive, by omega⟩

/-- A root that a follower accepts was confirmed in one of the views that answered its calls exactly
when its block outlasts the calls. -/
theorem followerVerify_confirmed_iff (hviews : SameBlocks views hash)
    (hnodes : ∀ i, (nodes i).Shows (views i) hash) {s s' : FGPTxSystem} {round : UInt64}
    {root : Slice} {summary : Summary}
    (hrun : (FGPTxSystem.followerVerify (IPCClient.verifying nodes) round root).run s =
      .ok summary s') (hne : root.bytes ≠ s.committedStateHash.bytes) :
    (∃ b, root.bytes = hash b ∧ ∃ i < 3, (views i).Confirmed s.dFG.toNat b) ↔
      ∃ b, root.bytes = hash b ∧ Outlasts views s.dFG.toNat b := by
  obtain ⟨block, hroot, hactive, hdepth⟩ := followerVerify_views hviews hnodes hrun hne
  constructor
  · rintro ⟨b, hb, i, hi, hconfirmed⟩
    refine ⟨b, hb, ?_⟩
    interval_cases i
    · exact Or.inl hconfirmed.2
    · exact Or.inr (Or.inl hconfirmed.1)
    · exact Or.inr (Or.inr hconfirmed)
  · rintro ⟨b, hb, hlasts⟩
    obtain rfl := hviews.injective (hroot.symm.trans hb)
    refine ⟨block, hroot, ?_⟩
    rcases hlasts with hdeep | hkept | hback
    · exact ⟨0, by decide, hactive, hdeep⟩
    · refine ⟨1, by decide, hkept, ?_⟩
      rw [hviews.height_eq 1 0 block hkept.mem hactive.mem]
      exact hdepth
    · exact ⟨2, by decide, hback⟩

end Views

namespace Reference

/-- The node whose view is the given tree. -/
def nodeIn (tree : BlockTree Blk) : PowNode where
  getbestblockhash := .ok (hexEncode tree.tip.hash)
  getblockheader := (powIn tree []).getBlockHeaderByHash
  getblockhash height :=
    if height.toNat ≤ tree.height tree.tip then .ok (hexEncode (tree.activeAt height.toNat).hash)
    else .error "Block height out of range"
  getchaintips := .ok []

theorem nodeIn_shows {tree : BlockTree Blk} (hheight : tree.height = Blk.height) :
    (nodeIn tree).Shows tree Blk.hash where
  best h := (Except.ok.inj h).symm
  header {data header} h := by
    simp only [nodeIn, powIn, hexDecode_hexEncode] at h
    split at h
    next b hfind =>
      split at h
      next hb =>
        cases h
        exact ⟨b, hb, (Blk.hash_of_find hfind).symm, headerIn_describes (hheight ▸ b.height_lt)⟩
      next => cases h
    next => cases h

theorem sameBlocks_of_height {views : ℕ → BlockTree Blk}
    (hheight : ∀ i, (views i).height = Blk.height) : SameBlocks views Blk.hash where
  injective a b h := Option.some.inj (by rw [← a.find_hash, h, b.find_hash])
  height_eq i j b _ _ := by rw [hheight i, hheight j]

/-- The chain grows after the follower has asked for the header of the proposed block. -/
def growing (i : ℕ) : BlockTree Blk := if i = 0 then forked else grown

theorem growing_height (i : ℕ) : (growing i).height = Blk.height := by
  unfold growing
  split <;> rfl

theorem followerVerify_confirmed_iff_growing :
    ∃ b, [1] = Blk.hash b ∧ ∃ i < 3, (growing i).Confirmed 4 b := by
  have hrun : (FGPTxSystem.followerVerify (IPCClient.verifying fun i ↦ nodeIn (growing i)) 1
      (some [1])).run (.fresh shardConf 4) =
        .ok ⟨some [1], some [], 0, none⟩
          (FGPTxSystem.setPending (.fresh shardConf 4) (some [1]) 1) := rfl
  refine (followerVerify_confirmed_iff (sameBlocks_of_height growing_height)
    (fun i ↦ nodeIn_shows (growing_height i)) hrun (by decide)).mpr ?_
  exact ⟨.first, rfl, Or.inr (Or.inl (by decide))⟩

/-- The block that was the tip is replaced. -/
def beforeFork : BlockTree Blk := Blk.tree {.genesis, .rival} .rival (by decide) (by decide)

/-- The chain is reorganised after the follower has asked for the header of the proposed block. -/
def reorganised (i : ℕ) : BlockTree Blk := if i = 0 then beforeFork else forked

theorem reorganised_height (i : ℕ) : (reorganised i).height = Blk.height := by
  unfold reorganised
  split <;> rfl

/-- The header of the proposed block is from a view in which it is the tip, and the tip is from a
view in which it is on a side branch. -/
theorem followerVerify_accepts_unconfirmed :
    SameBlocks reorganised Blk.hash ∧
      (∀ i, (nodeIn (reorganised i)).Shows (reorganised i) Blk.hash) ∧
      (∃ s', (FGPTxSystem.followerVerify (IPCClient.verifying fun i ↦ nodeIn (reorganised i)) 1
        (some Blk.rival.hash)).run (.fresh shardConf 3) =
          .ok ⟨some Blk.rival.hash, some [], 0, none⟩ s') ∧
      ¬∃ b, Blk.rival.hash = Blk.hash b ∧ ∃ i < 3, (reorganised i).Confirmed 3 b := by
  have hviews := sameBlocks_of_height reorganised_height
  refine ⟨hviews, fun i ↦ nodeIn_shows (reorganised_height i),
    ⟨FGPTxSystem.setPending (.fresh shardConf 3) (some Blk.rival.hash) 1, rfl⟩, ?_⟩
  rintro ⟨b, hb, hconfirmed⟩
  obtain rfl := hviews.injective hb
  revert hconfirmed
  decide

end Reference

end FinalityGadget
