import FinalityGadget.Foundation.CommonPrefix
import FinalityGadget.TxSystem.Calls
import FinalityGadget.TxSystem.Snapshot

/-!
# What the transaction system takes from the views

The proof-of-work node answers every call from the view of the block tree that it has at that
moment, and the tree may be reorganised between two calls of one operation. The views share a
prefix, so what the transaction system accepts, be it the candidate of a leader or a root that a
follower has verified, is a block with the required number of confirmations in one of them. Along
all calls the certified and the pending hash are those of settled blocks.
-/

namespace FinalityGadget

open Bytes Fallible Text BlockTree

variable {ι β : Type*}

/-- The client answers from views of the block tree, as far as it answers at all. Every call of the
node has a view of its own: the one that names a hash, and the one that gives its header. -/
structure PowClient.Truthful (views : ι → BlockTree β) (hash : β → List UInt8) (pow : PowClient) :
    Prop where
  tip : ∀ {header}, pow.getTip = .ok header →
    ∃ i j, header.Describes (views j) hash (views i).tip
  byHeight : ∀ {height header}, pow.getBlockHeaderByHeight height = .ok header →
    ∃ i j, height.toNat ≤ (views i).height (views i).tip ∧
      header.Describes (views j) hash ((views i).activeAt height.toNat)
  byHash : ∀ {data header}, pow.getBlockHeaderByHash (hexEncode data) = .ok header →
    ∃ i b, hash b = data ∧ header.Describes (views i) hash b

/-- No hash, or the hash of a block that had `k` confirmations in some view. -/
def Anchored (views : ι → BlockTree β) (hash : β → List UInt8) (k : ℕ) (bytes : List UInt8) :
    Prop :=
  bytes = [] ∨ ∃ b, bytes = hash b ∧ Settled views k b

section Confirmations

variable {views : ι → BlockTree β} {hash : β → List UInt8} {pow : PowClient} {s : FGPTxSystem}
  {k : ℕ}

/-- The candidate of a leader has all the confirmations that are asked for, in the view of the
tip. -/
theorem FGPTxSystem.Candidate.settled (hshared : CommonPrefix views k)
    (hpow : pow.Truthful views hash) (hdepth : k ≤ s.dFG.toNat) {data : List UInt8}
    {height : UInt64} (h : s.Candidate pow data height) :
    ∃ b, data = hash b ∧ Settled views k b := by
  obtain ⟨tip, hFG, block, tips, htip, _, hnew, hdeep, _, hblock, _, _, hdata, _⟩ := h
  obtain ⟨i, j, htipDescribes⟩ := hpow.tip htip
  obtain ⟨i', j', hbelow, hdescribes⟩ := hpow.byHeight hblock
  have htipHeight := htipDescribes.toNat_height
  rw [hshared.height_eq j i] at htipHeight
  -- the candidate height does not wrap around
  have habove := UInt64.toNat_sub_of_le tip.height hFG hnew.le
  rw [UInt64.le_iff_toNat_le] at hdeep
  have hle : s.dFG - 1 ≤ tip.height := by
    rw [UInt64.le_iff_toNat_le]
    omega
  have hcandidate := UInt64.toNat_sub_of_le tip.height (s.dFG - 1) hle
  have hrequired := toNat_le_sub_one_add_one s.dFG
  rw [UInt64.le_iff_toNat_le] at hle
  have hheight := height_activeAt hbelow
  rw [hshared.height_eq i' i] at hheight
  rw [hdescribes.hash_eq, hexDecode_hexEncode] at hdata
  refine ⟨_, (Except.ok.inj hdata).symm, hshared.settled_of_active (j := i) (active_activeAt hbelow)
    ?_ ?_⟩
  · omega
  · omega

/-- What a follower verifies is the certified hash, or has all the confirmations too. -/
theorem FGPTxSystem.Verified.settled (hshared : CommonPrefix views k)
    (hpow : pow.Truthful views hash) (hdepth : k ≤ s.dFG.toNat) {root : Slice} {height : UInt64}
    (h : FGPTxSystem.Verified pow s root height) :
    root.bytes = s.committedStateHash.bytes ∨ ∃ b, root.bytes = hash b ∧ Settled views k b := by
  cases h with
  | noop hsame => exact Or.inl hsame
  | block block tip hne hblock hactive htip hle hdeep =>
    obtain ⟨i, b, hhash, hdescribes⟩ := hpow.byHash hblock
    obtain ⟨j, j', htipDescribes⟩ := hpow.tip htip
    have hrequired := toNat_le_sub_one_add_one s.dFG
    have htipHeight := htipDescribes.toNat_height
    have hblockHeight := hdescribes.toNat_height
    rw [hshared.height_eq j' j] at htipHeight
    rw [hshared.height_eq i j] at hblockHeight
    rw [UInt64.le_iff_toNat_le, UInt64.toNat_sub_of_le _ _ hle, htipHeight, hblockHeight] at hdeep
    rw [UInt64.le_iff_toNat_le, htipHeight, hblockHeight] at hle
    have hsettled := hshared.settled_of_active (hdescribes.isActive_iff.mp hactive) hle (by omega)
    exact Or.inr ⟨b, hhash.symm, hsettled⟩

end Confirmations

section Calls

variable {views : ι → BlockTree β} {hash : β → List UInt8} {k : ℕ}

/-- A call that is answered from the views; the depth of a new configuration is enough, and only
certificates of settled blocks are restored. -/
def TxCall.InView (views : ι → BlockTree β) (hash : β → List UInt8) (k : ℕ) : TxCall → Prop
  | .leaderPropose pow _ | .followerVerify pow _ _ => pow.Truthful views hash
  | .restoreState _ uc => Anchored views hash k (getStateHash uc).bytes
  | .updateConfig shardConf => ∀ dFG, parseDFG shardConf = .ok dFG → k ≤ dFG.toNat
  | .stateSummary | .revert | .commit _ => True

/-- The certified and the pending hash are those of settled blocks. -/
structure Rooted (views : ι → BlockTree β) (hash : β → List UInt8) (k : ℕ) (s : FGPTxSystem) :
    Prop where
  depth : k ≤ s.dFG.toNat
  committed : Anchored views hash k s.committedStateHash.bytes
  pending : Anchored views hash k s.pendingStateHash.bytes

theorem anchored_nil : Anchored views hash k [] := Or.inl rfl

variable {s : FGPTxSystem}

theorem Rooted.candidate (h : Rooted views hash k s) (hshared : CommonPrefix views k)
    {pow : PowClient} (hpow : pow.Truthful views hash) {data : List UInt8} {height : UInt64}
    (hcandidate : s.Candidate pow data height) : Anchored views hash k data :=
  Or.inr (hcandidate.settled hshared hpow h.depth)

theorem Rooted.verified (h : Rooted views hash k s) (hshared : CommonPrefix views k)
    {pow : PowClient} (hpow : pow.Truthful views hash) {root : Slice} {height : UInt64}
    (hverified : FGPTxSystem.Verified pow s root height) : Anchored views hash k root.bytes := by
  rcases hverified.settled hshared hpow h.depth with hsame | hsettled
  · rw [hsame]
    exact h.committed
  · exact Or.inr hsettled

theorem Rooted.of_returns (h : Rooted views hash k s) (hshared : CommonPrefix views k)
    {call : TxCall} {value : Option Summary} {s' : FGPTxSystem} (hview : call.InView views hash k)
    (hreturns : call.Returns s value s') : Rooted views hash k s' := by
  cases hreturns with
  | summarized => exact h
  | proposed round hcandidate =>
    exact ⟨h.depth, h.committed, h.candidate hshared hview hcandidate⟩
  | verified round hverified =>
    exact ⟨h.depth, h.committed, h.verified hshared hview hverified⟩
  | restored => exact ⟨h.depth, hview, anchored_nil⟩
  | reverted => exact ⟨h.depth, h.committed, anchored_nil⟩
  | committed => exact ⟨h.depth, h.pending, anchored_nil⟩
  | configured hparse => exact ⟨hview _ hparse, h.committed, h.pending⟩

theorem Rooted.apply (h : Rooted views hash k s) (hshared : CommonPrefix views k)
    {call : TxCall} (hview : call.InView views hash k) : Rooted views hash k (call.apply s) := by
  have hspec := call.exec_spec s
  rw [TxCall.apply]
  generalize call.exec.run s = result at hspec ⊢
  cases hspec with
  | returned hreturns => exact h.of_returns hshared hview hreturns
  | failed => exact h

end Calls

end FinalityGadget
