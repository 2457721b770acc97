import FinalityGadget.Foundation.Run
import FinalityGadget.TxSystem.Reference

/-!
# Finality of the proof-of-work chain

A certified block should never be replaced by a lower one. The leader only proposes candidates above
the certified height, but a follower accepts any active block that is deep enough, and a certificate
without a state hash resets the certified block. Heights are those of a fixed assignment of heights
to hashes that all answers of the proof-of-work node agree with.
-/

namespace FinalityGadget

open Bytes Fallible Text

/-- An operation on the transaction system, with the answers the client gives during it. -/
inductive TxOp where
  | leaderPropose (pow : PowClient) (round : UInt64)
  | followerVerify (pow : PowClient) (round : UInt64) (proposedRoot : Slice)
  | revert
  | commit (uc : UnicityCertificate)
  | updateConfig (shardConf : PartitionDescriptionRecord)

namespace TxOp

/-- The system after an operation, whether it succeeds or not. -/
def apply (s : FGPTxSystem) : TxOp → FGPTxSystem
  | .leaderPropose pow round => final ((FGPTxSystem.leaderPropose pow round).run s)
  | .followerVerify pow round root => final ((FGPTxSystem.followerVerify pow round root).run s)
  | .revert => s.revert
  | .commit uc => final ((FGPTxSystem.commit uc).run s)
  | .updateConfig shardConf => final ((FGPTxSystem.updateConfig shardConf).run s)

/-- What an operation does to the system. -/
inductive Applied (s : FGPTxSystem) : TxOp → FGPTxSystem → Prop where
  | rejected (op : TxOp) : Applied s op s
  | proposed {pow : PowClient} (round : UInt64) {data : List UInt8} {height : UInt64}
      (h : s.Candidate pow data height) :
      Applied s (.leaderPropose pow round) (s.setPending (some data) height)
  | verified {pow : PowClient} (round : UInt64) {root : Slice} {height : UInt64}
      (h : FGPTxSystem.Verified pow s root height) :
      Applied s (.followerVerify pow round root) (s.setPending root height)
  | reverted : Applied s .revert s.revert
  | committed {uc : UnicityCertificate}
      (h : s.pendingStateHash.bytes = (getStateHash (some uc)).bytes) :
      Applied s (.commit uc) (s.committed uc)
  | configured (shardConf : PartitionDescriptionRecord) (dFG : UInt64) :
      Applied s (.updateConfig shardConf) { s with shardConf := shardConf, dFG := dFG }

theorem applied (op : TxOp) (s : FGPTxSystem) : Applied s op (op.apply s) := by
  cases op with
  | leaderPropose pow round =>
    have hspec := FGPTxSystem.leaderPropose_spec pow round s
    rw [apply]
    generalize (FGPTxSystem.leaderPropose pow round).run s = result at hspec ⊢
    cases hspec with
    | accepted data height hcandidate => exact .proposed round hcandidate
    | rejected => exact .rejected _
  | followerVerify pow round root =>
    have hspec := FGPTxSystem.followerVerify_spec pow round root s
    rw [apply]
    generalize (FGPTxSystem.followerVerify pow round root).run s = result at hspec ⊢
    cases hspec with
    | accepted height hverified => exact .verified round hverified
    | rejected => exact .rejected _
  | revert => exact .reverted
  | commit uc =>
    rw [apply]
    by_cases hequal : s.pendingStateHash.bytes = (getStateHash (some uc)).bytes
    · rw [FGPTxSystem.commit_of_equal hequal]
      exact .committed hequal
    · obtain ⟨err, herr⟩ := FGPTxSystem.commit_of_ne hequal
      rw [herr]
      exact .rejected _
  | updateConfig shardConf =>
    have hspec := FGPTxSystem.updateConfig_spec shardConf s
    rw [apply]
    generalize (FGPTxSystem.updateConfig shardConf).run s = result at hspec ⊢
    cases hspec with
    | updated dFG _ => exact .configured shardConf dFG
    | rejected => exact .rejected _

/-- The hash that a successful commit of a non-empty state hash finalizes. -/
def finalizes (s : FGPTxSystem) : TxOp → Option (List UInt8)
  | .commit uc =>
    match (FGPTxSystem.commit uc).run s with
    | .ok _ _ =>
      if (getStateHash (some uc)).bytes = [] then none else some (getStateHash (some uc)).bytes
    | .error _ _ => none
  | _ => none

end TxOp

/-- The hashes finalized by a sequence of operations, in order. -/
def finalizedHashes (s : FGPTxSystem) : List TxOp → List (List UInt8)
  | [] => []
  | op :: ops => (op.finalizes s).toList ++ finalizedHashes (op.apply s) ops

/-! ## Heights -/

/-- The answers of the client agree with an assignment of heights to block hashes. -/
structure PowClient.Consistent (height : List UInt8 → UInt64) (pow : PowClient) : Prop where
  byHash : ∀ {data block}, pow.getBlockHeaderByHash (hexEncode data) = .ok block →
    block.height = height data
  byHeight : ∀ {requested block data}, pow.getBlockHeaderByHeight requested = .ok block →
    hexDecode block.hash = .ok data → block.height = height data

def TxOp.Consistent (height : List UInt8 → UInt64) : TxOp → Prop
  | .leaderPropose pow _ => pow.Consistent height
  | .followerVerify pow _ _ => pow.Consistent height
  | .revert | .commit _ | .updateConfig _ => True

/-- A system before its first operation: fresh, or restored from a certificate once. -/
inductive TxStarts (height : List UInt8 → UInt64) : FGPTxSystem → Prop where
  | fresh (shardConf : PartitionDescriptionRecord) {s : FGPTxSystem}
      (h : newFGPTxSystem shardConf = .ok s) : TxStarts height s
  | restored {shardConf : PartitionDescriptionRecord} {pow : PowClient} {uc : UnicityCertificate}
      {s s' : FGPTxSystem} (h : newFGPTxSystem shardConf = .ok s) (hpow : pow.Consistent height)
      (hrestore : (FGPTxSystem.restoreState pow uc).run s = .ok () s') : TxStarts height s'

/-- The conditions under which an operation does not lead back: blocks asked for by height are not
below it, a follower is not asked to verify an active block below the certified one, and no
certificate without a state hash is committed on top of a certified block. -/
def TxOp.Forward (s : FGPTxSystem) : TxOp → Prop
  | .leaderPropose pow _ => ∀ requested block,
      pow.getBlockHeaderByHeight requested = .ok block → requested ≤ block.height
  | .followerVerify pow _ root => s.committedStateHash.bytes ≠ [] → ∀ block,
      pow.getBlockHeaderByHash (hexEncode root.bytes) = .ok block → block.isActive = true →
      s.committedStateHeight ≤ block.height
  | .commit uc => (getStateHash (some uc)).bytes = [] → s.committedStateHash.bytes = []
  | .revert | .updateConfig _ => True

/-- The heights the system keeps are those of its hashes, and a pending block is not below the
certified one. -/
structure Tracks (height : List UInt8 → UInt64) (s : FGPTxSystem) : Prop where
  committed : s.committedStateHash.bytes ≠ [] →
    s.committedStateHeight = height s.committedStateHash.bytes
  pending : s.pendingStateHash.bytes ≠ [] →
    s.pendingStateHeight = height s.pendingStateHash.bytes ∧
      (s.committedStateHash.bytes ≠ [] → s.committedStateHeight ≤ s.pendingStateHeight)

section Steps

variable {height : List UInt8 → UInt64} {s : FGPTxSystem}

theorem Tracks.setPending (h : Tracks height s) {root : Slice} {rootHeight : UInt64}
    (hheight : root.bytes ≠ [] → rootHeight = height root.bytes)
    (hforward : s.committedStateHash.bytes ≠ [] → root.bytes ≠ [] →
      s.committedStateHeight ≤ rootHeight) : Tracks height (s.setPending root rootHeight) :=
  ⟨h.committed, fun hroot ↦ ⟨hheight hroot, fun hcommitted ↦ hforward hcommitted hroot⟩⟩

theorem Tracks.revert (h : Tracks height s) : Tracks height s.revert := by
  apply h.setPending
  · intro hne
    exact absurd rfl hne
  · intro _ hne
    exact absurd rfl hne

/-- The candidate of a leader is above the certified block. -/
theorem Tracks.lt_of_candidate (h : Tracks height s) {pow : PowClient}
    (hpow : pow.Consistent height) (hforward : ∀ requested block,
      pow.getBlockHeaderByHeight requested = .ok block → requested ≤ block.height)
    {data : List UInt8} {candHeight : UInt64} (hcandidate : s.Candidate pow data candHeight) :
    candHeight = height data ∧
      (s.committedStateHash.bytes ≠ [] → s.committedStateHeight < candHeight) := by
  obtain ⟨tip, hFG, block, tips, _, hcertified, _, _, hlt, hblock, _, _, hdata, rfl⟩ := hcandidate
  refine ⟨hpow.byHeight hblock hdata, fun hne ↦ ?_⟩
  have hFG_eq : hFG = s.committedStateHeight := by
    unfold FGPTxSystem.certifiedHeight at hcertified
    cases hcommitted : s.committedStateHash with
    | none =>
      rw [hcommitted] at hne
      exact absurd rfl hne
    | some hash =>
      rw [hcommitted] at hcertified
      dsimp only at hcertified
      cases hheader : pow.getBlockHeaderByHash (hexEncode hash) with
      | error err =>
        rw [hheader] at hcertified
        cases hcertified
      | ok header =>
        rw [hheader] at hcertified
        cases hcertified
        rw [h.committed hne, hcommitted, hpow.byHash hheader]
        rfl
  calc
    s.committedStateHeight = hFG := hFG_eq.symm
    _ < tip.height - (s.dFG - 1) := hlt
    _ ≤ block.height := hforward _ block hblock

theorem Tracks.of_verified (h : Tracks height s) {pow : PowClient} (hpow : pow.Consistent height)
    {root : Slice} {rootHeight : UInt64}
    (hforward : s.committedStateHash.bytes ≠ [] → ∀ block,
      pow.getBlockHeaderByHash (hexEncode root.bytes) = .ok block → block.isActive = true →
      s.committedStateHeight ≤ block.height)
    (hverified : FGPTxSystem.Verified pow s root rootHeight) :
    Tracks height (s.setPending root rootHeight) := by
  cases hverified with
  | noop hsame =>
    apply h.setPending
    · intro hroot
      rw [hsame] at hroot ⊢
      exact h.committed hroot
    · intro _ _
      exact le_refl _
  | block block tip hne hblock hactive htip hle hdepth =>
    apply h.setPending
    · intro _
      exact hpow.byHash hblock
    · intro hcommitted _
      exact hforward hcommitted block hblock hactive

theorem Tracks.apply (h : Tracks height s) {op : TxOp} (hconsistent : op.Consistent height)
    (hforward : op.Forward s) : Tracks height (op.apply s) := by
  have happlied := op.applied s
  generalize op.apply s = s' at happlied ⊢
  cases happlied with
  | rejected => exact h
  | proposed round hcandidate =>
    obtain ⟨hheight, hlt⟩ := h.lt_of_candidate hconsistent hforward hcandidate
    exact h.setPending (fun _ ↦ hheight) fun hcommitted _ ↦ (hlt hcommitted).le
  | verified round hverified => exact h.of_verified hconsistent hforward hverified
  | reverted => exact h.revert
  | committed => exact ⟨fun hne ↦ (h.pending hne).1, fun hne ↦ absurd rfl hne⟩
  | configured => exact ⟨h.committed, h.pending⟩

/-- What is finalized was pending, is not empty and is certified afterwards. -/
theorem TxOp.of_finalizes {op : TxOp} {hash : List UInt8} (h : op.finalizes s = some hash) :
    hash ≠ [] ∧ s.pendingStateHash.bytes = hash ∧
      (op.apply s).committedStateHash.bytes = hash := by
  cases op with
  | commit uc =>
    rw [finalizes] at h
    rw [apply]
    by_cases hequal : s.pendingStateHash.bytes = (getStateHash (some uc)).bytes
    · rw [FGPTxSystem.commit_of_equal hequal] at h ⊢
      dsimp only at h
      split at h
      next => cases h
      next hne =>
        cases h
        exact ⟨hne, hequal, hequal⟩
    · obtain ⟨err, herr⟩ := FGPTxSystem.commit_of_ne hequal
      rw [herr] at h
      cases h
  | leaderPropose | followerVerify | revert | updateConfig => cases h

/-- An operation that finalizes nothing leaves the certified block alone. -/
theorem TxOp.committed_of_finalizes_none {op : TxOp} (h : op.finalizes s = none)
    (hforward : op.Forward s) :
    (op.apply s).committedStateHash.bytes = s.committedStateHash.bytes := by
  have happlied := op.applied s
  generalize op.apply s = s' at happlied ⊢
  cases happlied with
  | rejected | proposed | verified | reverted | configured => rfl
  | committed hequal =>
    rw [finalizes, FGPTxSystem.commit_of_equal hequal] at h
    dsimp only at h
    split at h
    next hempty => exact (hequal.trans hempty).trans (hforward hempty).symm
    next => cases h

theorem TxStarts.tracks (h : TxStarts height s) : Tracks height s := by
  cases h with
  | fresh shardConf h =>
    rw [newFGPTxSystem_eq h]
    exact ⟨fun hne ↦ absurd rfl hne, fun hne ↦ absurd rfl hne⟩
  | @restored shardConf pow uc s₀ _ h hpow hrestore =>
    have hspec := FGPTxSystem.restoreState_spec pow uc s₀
    rw [hrestore] at hspec
    cases hspec with
    | restored _ hrestored =>
      obtain ⟨restoredHeight, hheight, rfl⟩ := hrestored
      refine ⟨fun hne ↦ ?_, fun hne ↦ absurd rfl hne⟩
      rcases hheight with ⟨hempty, _⟩ | ⟨block, hblock, rfl⟩
      · exact absurd hempty hne
      · exact hpow.byHash hblock

end Steps

section Runs

variable {height : List UInt8 → UInt64}

/-- Everything finalized later is at or above the certified block. -/
theorem Tracks.le_of_mem_finalizedHashes {s : FGPTxSystem} {ops : List TxOp}
    (h : Tracks height s) (hconsistent : ∀ op ∈ ops, op.Consistent height)
    (hforward : Run.Guarded TxOp.apply TxOp.Forward s ops)
    (hcommitted : s.committedStateHash.bytes ≠ []) {hash : List UInt8}
    (hhash : hash ∈ finalizedHashes s ops) : height s.committedStateHash.bytes ≤ height hash := by
  induction ops generalizing s with
  | nil => cases hhash
  | cons op ops ih =>
    have htracks := h.apply (hconsistent op List.mem_cons_self) hforward.1
    have hrest : ∀ later ∈ ops, later.Consistent height := fun later hlater ↦
      hconsistent later (List.mem_cons_of_mem op hlater)
    rw [finalizedHashes, List.mem_append, Option.mem_toList] at hhash
    cases hfinal : op.finalizes s with
    | none =>
      have hkept := TxOp.committed_of_finalizes_none hfinal hforward.1
      rcases hhash with hhere | hlater
      · rw [hfinal] at hhere
        cases hhere
      · rw [← hkept] at hcommitted ⊢
        exact ih htracks hrest hforward.2 hcommitted hlater
    | some first =>
      obtain ⟨hne, hpending, hnew⟩ := TxOp.of_finalizes hfinal
      have hle : height s.committedStateHash.bytes ≤ height first := by
        subst hpending
        obtain ⟨hheight, hmono⟩ := h.pending hne
        rw [← hheight, ← h.committed hcommitted]
        exact hmono hcommitted
      rcases hhash with hhere | hlater
      · rw [hfinal] at hhere
        cases hhere
        exact hle
      · rw [← hnew] at hle hne
        exact hle.trans (ih htracks hrest hforward.2 hne hlater)

/-- Along operations that do not lead back, the heights of the finalized blocks never decrease. -/
theorem finality_never_moves_back {s : FGPTxSystem} (hstart : TxStarts height s) {ops : List TxOp}
    (hconsistent : ∀ op ∈ ops, op.Consistent height)
    (hforward : Run.Guarded TxOp.apply TxOp.Forward s ops) :
    ((finalizedHashes s ops).map height).Pairwise (· ≤ ·) := by
  have htracks := hstart.tracks
  clear hstart
  rw [List.pairwise_map]
  induction ops generalizing s with
  | nil => exact List.Pairwise.nil
  | cons op ops ih =>
    have hnext := htracks.apply (hconsistent op List.mem_cons_self) hforward.1
    have hrest : ∀ later ∈ ops, later.Consistent height := fun later hlater ↦
      hconsistent later (List.mem_cons_of_mem op hlater)
    have hlater := ih hrest hforward.2 hnext
    rw [finalizedHashes]
    cases hfinal : op.finalizes s with
    | none => exact hlater
    | some first =>
      obtain ⟨hne, _, hnew⟩ := TxOp.of_finalizes hfinal
      refine List.Pairwise.cons (fun hash hhash ↦ ?_) hlater
      rw [← hnew] at hne ⊢
      exact hnext.le_of_mem_finalizedHashes hrest hforward.2 hne hhash

end Runs

section Reference

open Reference

/-- A certificate of the block at the given height. -/
def certifiedBlock (height : UInt8) : UnicityCertificate where
  inputRecord := some { hash := some [height] }

/-- A leader finalizes the block at height 10, then a follower verifies and finalizes another. -/
def verifying (height : UInt8) : List TxOp :=
  [.leaderPropose (pow 10) 1, .commit (certifiedBlock 10),
    .followerVerify (pow 20) 2 (some [height]), .commit (certifiedBlock height)]

theorem pow_consistent (tip : UInt8) : (pow tip).Consistent powHeight where
  byHash h := pow_byHash h
  byHeight h hdata := by
    obtain ⟨_, rfl⟩ := pow_byHeight h
    simp only [powHeader, hexDecode_hexEncode] at hdata
    cases hdata
    rfl

theorem verifying_consistent (height : UInt8) :
    ∀ op ∈ verifying height, op.Consistent powHeight := by
  simp [verifying, TxOp.Consistent, pow_consistent]

theorem finality_never_moves_back_later_block :
    finalizedHashes (.fresh shardConf 1) (verifying 12) = [[10], [12]] ∧
      ((finalizedHashes (.fresh shardConf 1) (verifying 12)).map
        powHeight).Pairwise (· ≤ ·) := by
  refine ⟨rfl, ?_⟩
  apply finality_never_moves_back (.fresh shardConf rfl) (verifying_consistent 12)
  refine ⟨?_, fun _ ↦ rfl, ?_, fun hempty ↦ ?_, trivial⟩
  · intro requested block hblock
    obtain ⟨hlt, rfl⟩ := pow_byHeight hblock
    have hround : requested.toUInt8.toUInt64 = requested := by
      apply UInt64.toNat_inj.mp
      rw [UInt64.lt_iff_toNat_lt] at hlt
      simp only [UInt8.toNat_toUInt64, UInt64.toNat_toUInt8]
      exact Nat.mod_eq_of_lt hlt
    exact hround.ge
  · intro _ block hblock _
    rw [pow_byHash hblock]
    decide
  · cases hempty

/-- A follower verifies and finalizes a block five below the certified one. -/
theorem older_block_finalized :
    TxStarts powHeight (.fresh shardConf 1) ∧
      (∀ op ∈ verifying 5, op.Consistent powHeight) ∧
      finalizedHashes (.fresh shardConf 1) (verifying 5) = [[10], [5]] ∧
      ¬((finalizedHashes (.fresh shardConf 1) (verifying 5)).map
        powHeight).Pairwise (· ≤ ·) := by
  have hhashes : finalizedHashes (.fresh shardConf 1) (verifying 5) =
      [[10], [5]] := rfl
  refine ⟨.fresh shardConf rfl, verifying_consistent 5, hhashes, ?_⟩
  rw [hhashes]
  decide

end Reference

end FinalityGadget
