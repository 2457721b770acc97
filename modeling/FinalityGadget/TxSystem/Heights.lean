import FinalityGadget.TxSystem.Calls
import FinalityGadget.TxSystem.Snapshot

/-!
# Height arithmetic of the finality rules

Leader and follower subtract unsigned heights that the proof-of-work client reports. Here both are
written with the subtraction as a parameter, every evaluation of a subtraction being one action.
With the subtraction of the hardware they are the programs of the transaction system. A system
always has a positive confirmation depth, and then they run alike with a subtraction that traps, so
that their guards mean what they say of unbounded numbers.
-/

namespace FinalityGadget

open Bytes Fallible Text

namespace FGPTxSystem

/-! ## Leader and follower over a subtraction -/

section Programs

variable (sub : UInt64 → UInt64 → TxM UInt64)

/-- The height gates of `LeaderPropose`; they return the candidate height. -/
def heightGates (dFG tip hFG : UInt64) : TxM UInt64 := do
  ensure (hFG < tip) s!"no new final enough PoW block: tip height {tip}, hFG {hFG}"
  let above ← sub tip hFG
  let depth ← sub dFG 1
  ensure (depth ≤ above)
    (s!"no new final enough PoW block: tip height {tip}, hFG {hFG}, dFG {dFG} " ++
      "(not enough confirmations)")
  let depth ← sub dFG 1
  let candidateHeight ← sub tip depth
  ensure (hFG < candidateHeight)
    (s!"no new final enough PoW block: candidate height {candidateHeight} <= hFG {hFG} " ++
      "(already finalized or older)")
  return candidateHeight

def checkForksWith (candidateHeight : UInt64) : List ChainTip → TxM Unit
  | [] => pure ()
  | tip :: rest =>
    if tip.status = "active" then checkForksWith candidateHeight rest
    else do
      ensure (tip.branchLen ≤ tip.height)
        (s!"invalid chain tip: branch length {tip.branchLen} " ++ s!"exceeds height {tip.height}")
      let forkHeight ← sub tip.height tip.branchLen
      ensure (¬(candidateHeight ≤ tip.height ∧ forkHeight < candidateHeight))
        (s!"competing fork visible: branch at height {tip.height} " ++ s!"diverged at {forkHeight}")
      checkForksWith candidateHeight rest

def leaderProposeWith (pow : PowClient) (_round : UInt64) : TxM Summary := do
  let s ← get
  let tip ← ofExcept (fun err ↦ s!"failed to get PoW chain tip: {err}") pow.getTip
  let hFG ← ofExcept id (s.certifiedHeight pow)
  let candidateHeight ← heightGates sub s.dFG tip.height hFG
  let candBlock ← ofExcept
    (fun err ↦ s!"failed to get candidate block at height {candidateHeight}: {err}")
    (pow.getBlockHeaderByHeight candidateHeight)
  let tips ← ofExcept (fun err ↦ s!"failed to get chain tips for fork check: {err}")
    pow.getChainTips
  checkForksWith sub candidateHeight tips
  let candHash ← ofExcept (fun err ↦ s!"failed to decode candidate block hash: {err}")
    (hexDecode candBlock.hash)
  set (s.setPending (some candHash) candBlock.height)
  return s.summaryOf (some candHash)

/-- The depth gate of `FollowerVerify`; its message subtracts once more. -/
def depthGate (dFG block tip : UInt64) : TxM Unit := do
  ensure (block ≤ tip) s!"proposed block height {block} is ahead of tip height {tip}"
  let depth ← sub tip block
  let required ← sub dFG 1
  onlyIf (depth < required) do
    let depth ← sub tip block
    throw (s!"proposed block does not have sufficient confirmations " ++
      s!"(depth {depth}, required {dFG})")

def followerVerifyWith (pow : PowClient) (_round : UInt64) (proposedRoot : Slice) :
    TxM Summary := do
  let s ← get
  if proposedRoot.equal s.committedStateHash then
    set (s.setPending proposedRoot s.committedStateHeight)
    return s.summaryOf proposedRoot
  let hexHash := hexEncode proposedRoot.bytes
  let block ← ofExcept (fun err ↦ s!"failed to get block by hash '{hexHash}': {err}")
    (pow.getBlockHeaderByHash hexHash)
  ensure (block.isActive = true) "proposed block is not in the active chain"
  let tip ← ofExcept (fun err ↦ s!"failed to get PoW chain tip: {err}") pow.getTip
  depthGate sub s.dFG block.height tip.height
  set (s.setPending proposedRoot block.height)
  return s.summaryOf proposedRoot

end Programs

/-! ## With the subtraction of the hardware -/

theorem heightGates_wrapping (dFG tip hFG : UInt64) :
    heightGates wrapping dFG tip hFG = (do
      ensure (hFG < tip) s!"no new final enough PoW block: tip height {tip}, hFG {hFG}"
      ensure (dFG - 1 ≤ tip - hFG)
        (s!"no new final enough PoW block: tip height {tip}, hFG {hFG}, dFG {dFG} " ++
          "(not enough confirmations)")
      ensure (hFG < tip - (dFG - 1))
        (s!"no new final enough PoW block: candidate height {tip - (dFG - 1)} <= hFG {hFG} " ++
          "(already finalized or older)")
      return tip - (dFG - 1)) := rfl

theorem depthGate_wrapping (dFG block tip : UInt64) :
    depthGate wrapping dFG block tip = (do
      ensure (block ≤ tip) s!"proposed block height {block} is ahead of tip height {tip}"
      ensure (dFG - 1 ≤ tip - block)
        (s!"proposed block does not have sufficient confirmations " ++
          s!"(depth {tip - block}, required {dFG})")) := by
  unfold depthGate
  apply ensure_bind_congr
  intro _
  rw [wrapping_bind, wrapping_bind]
  exact onlyIf_throw UInt64.not_le.symm _

theorem checkForksWith_wrapping (candidateHeight : UInt64) (tips : List ChainTip) :
    checkForksWith wrapping candidateHeight tips =
      ofExcept id (checkForks candidateHeight tips) := by
  induction tips with
  | nil => rfl
  | cons tip rest ih =>
    rw [checkForksWith, checkForks, ih]
    by_cases hactive : tip.status = "active"
    · rw [if_pos hactive, if_pos hactive]
    · rw [if_neg hactive, if_neg hactive]
      by_cases hlen : tip.height < tip.branchLen
      · have hsane : ¬tip.branchLen ≤ tip.height := UInt64.not_le.mpr hlen
        rw [if_pos hlen, ensure, if_neg hsane]
        rfl
      · have hsane : tip.branchLen ≤ tip.height := UInt64.not_lt.mp hlen
        rw [if_neg hlen, ensure, if_pos hsane, pure_bind, wrapping_bind, ensure]
        by_cases hfork : candidateHeight ≤ tip.height ∧ tip.height - tip.branchLen < candidateHeight
        · rw [if_pos hfork, if_neg (not_not.mpr hfork)]
          rfl
        · rw [if_neg hfork, if_pos hfork]
          rfl

theorem leaderProposeWith_wrapping (pow : PowClient) (round : UInt64) :
    leaderProposeWith wrapping pow round = leaderPropose pow round := by
  simp only [leaderProposeWith, leaderPropose, heightGates_wrapping, checkForksWith_wrapping,
    bind_assoc, pure_bind]

theorem followerVerifyWith_wrapping (pow : PowClient) (round : UInt64) (root : Slice) :
    followerVerifyWith wrapping pow round root = followerVerify pow round root := by
  simp only [followerVerifyWith, followerVerify, depthGate_wrapping, bind_assoc]

/-! ## With a subtraction that traps -/

section Trapping

variable (underflow : UInt64 → UInt64 → TxM UInt64) {dFG : UInt64} {s : FGPTxSystem}

theorem heightGates_trapping (hdFG : 1 ≤ dFG) (tip hFG : UInt64) :
    heightGates (trapping underflow) dFG tip hFG = heightGates wrapping dFG tip hFG := by
  unfold heightGates
  apply ensure_bind_congr
  intro hnew
  rw [trapping_eq_wrapping underflow hnew.le, trapping_eq_wrapping underflow hdFG, wrapping_bind,
    wrapping_bind]
  apply ensure_bind_congr
  intro hdeep
  have hle : dFG - 1 ≤ tip := hdeep.trans (UInt64.sub_le hnew.le)
  rw [wrapping_bind, wrapping_bind, trapping_eq_wrapping underflow hle]

theorem checkForksWith_trapping (candidateHeight : UInt64) (tips : List ChainTip) :
    checkForksWith (trapping underflow) candidateHeight tips =
      checkForksWith wrapping candidateHeight tips := by
  induction tips with
  | nil => rfl
  | cons tip rest ih =>
    rw [checkForksWith, checkForksWith, ih]
    split
    · rfl
    · apply ensure_bind_congr
      intro hsane
      rw [trapping_eq_wrapping underflow hsane]

theorem depthGate_trapping (hdFG : 1 ≤ dFG) (block tip : UInt64) :
    depthGate (trapping underflow) dFG block tip = depthGate wrapping dFG block tip := by
  unfold depthGate
  apply ensure_bind_congr
  intro hle
  rw [trapping_eq_wrapping underflow hle, trapping_eq_wrapping underflow hdFG]

theorem leaderProposeWith_trapping (hdFG : 1 ≤ s.dFG) (pow : PowClient) (round : UInt64) :
    (leaderProposeWith (trapping underflow) pow round).run s = (leaderPropose pow round).run s := by
  rw [← leaderProposeWith_wrapping]
  simp only [leaderProposeWith, EStateM.run_bind, EStateM.run_get, heightGates_trapping _ hdFG,
    checkForksWith_trapping]

theorem followerVerifyWith_trapping (hdFG : 1 ≤ s.dFG) (pow : PowClient) (round : UInt64)
    (root : Slice) :
    (followerVerifyWith (trapping underflow) pow round root).run s =
      (followerVerify pow round root).run s := by
  rw [← followerVerifyWith_wrapping]
  simp only [followerVerifyWith, EStateM.run_bind, EStateM.run_get, depthGate_trapping _ hdFG]

end Trapping

/-! ## What the gates ask for -/

section Gates

variable {dFG tip hFG block : UInt64} {s s' : FGPTxSystem}

theorem heightGates_ok_iff {candidateHeight : UInt64} :
    (heightGates wrapping dFG tip hFG).run s = .ok candidateHeight s' ↔
      (hFG < tip ∧ dFG - 1 ≤ tip - hFG ∧ hFG < tip - (dFG - 1)) ∧
        tip - (dFG - 1) = candidateHeight ∧ s = s' := by
  rw [heightGates_wrapping, run_ensure_bind_eq_ok, run_ensure_bind_eq_ok, run_ensure_bind_eq_ok,
    EStateM.run_pure, EStateM.Result.ok.injEq, and_assoc, and_assoc]

theorem heightGates_pass_iff (hdFG : 1 ≤ dFG) :
    (∃ candidateHeight s', (heightGates wrapping dFG tip hFG).run s = .ok candidateHeight s') ↔
      hFG.toNat + dFG.toNat ≤ tip.toNat := by
  rw [← height_guards_iff hdFG]
  constructor
  · rintro ⟨candidateHeight, s', hrun⟩
    exact (heightGates_ok_iff.mp hrun).1
  · intro hguards
    exact ⟨_, _, heightGates_ok_iff.mpr ⟨hguards, rfl, rfl⟩⟩

theorem heightGates_bounds {candidateHeight : UInt64}
    (hrun : (heightGates wrapping dFG tip hFG).run s = .ok candidateHeight s') :
    hFG < candidateHeight ∧ candidateHeight ≤ tip := by
  obtain ⟨⟨hnew, hdeep, hcand⟩, rfl, -⟩ := heightGates_ok_iff.mp hrun
  exact ⟨hcand, UInt64.sub_le (hdeep.trans (UInt64.sub_le hnew.le))⟩

theorem depth_guards_iff (hdFG : 1 ≤ dFG) :
    (block ≤ tip ∧ dFG - 1 ≤ tip - block) ↔
      block.toNat ≤ tip.toNat ∧ block.toNat + dFG.toNat ≤ tip.toNat + 1 := by
  have hdepth := toNat_sub_one_add_one hdFG
  rw [← UInt64.le_iff_toNat_le]
  apply and_congr_right
  intro hle
  have habove := UInt64.toNat_sub_of_le tip block hle
  rw [UInt64.le_iff_toNat_le] at hle ⊢
  omega

theorem depthGate_pass_iff (hdFG : 1 ≤ dFG) :
    (∃ s', (depthGate wrapping dFG block tip).run s = .ok () s') ↔
      block.toNat ≤ tip.toNat ∧ block.toNat + dFG.toNat ≤ tip.toNat + 1 := by
  rw [← depth_guards_iff hdFG, depthGate_wrapping]
  simp only [run_ensure_bind_eq_ok, run_ensure, exists_and_left]
  apply and_congr_right
  intro _
  split
  · simp [*]
  · simp [*]

end Gates

end FGPTxSystem

/-! ## The confirmation depth of a system -/

theorem one_le_of_parseDFG {shardConf : PartitionDescriptionRecord} {dFG : UInt64}
    (h : parseDFG shardConf = .ok dFG) : 1 ≤ dFG := by
  unfold parseDFG at h
  split at h
  · cases h
  · obtain ⟨parsed, _, h⟩ := bind_eq_ok.mp h
    obtain ⟨⟨⟩, hne, h⟩ := bind_eq_ok.mp h
    cases h
    rw [require_eq_ok] at hne
    rw [UInt64.le_iff_toNat_le, UInt64.toNat_one]
    exact Nat.pos_of_ne_zero fun hzero ↦ hne (UInt64.toNat_inj.mp hzero)

theorem one_le_dFG_of_new {shardConf : PartitionDescriptionRecord} {s : FGPTxSystem}
    (hnew : newFGPTxSystem shardConf = .ok s) : 1 ≤ s.dFG := by
  unfold newFGPTxSystem at hnew
  obtain ⟨dFG, hparse, hs⟩ := bind_eq_ok.mp hnew
  cases hs
  exact one_le_of_parseDFG hparse

theorem TxCall.one_le_dFG_apply (s : FGPTxSystem) (call : TxCall) (h : 1 ≤ s.dFG) :
    1 ≤ (call.apply s).dFG := by
  have hspec := call.exec_spec s
  rw [TxCall.apply]
  generalize call.exec.run s = result at hspec ⊢
  cases hspec with
  | failed => exact h
  | returned hreturns =>
    cases hreturns with
    | configured hparse => exact one_le_of_parseDFG hparse
    | summarized | proposed | verified | restored | reverted | committed => exact h

theorem one_le_dFG_run {s : FGPTxSystem} (h : 1 ≤ s.dFG) (calls : List TxCall) :
    1 ≤ (Run.run TxCall.apply s calls).dFG :=
  Run.invariant_run_of_forall TxCall.one_le_dFG_apply calls h

namespace FGPTxSystem

/-- After any calls on a new system, successful or not, and whatever heights the client reports,
neither side ever subtracts a larger number: nothing that could be done on underflow shows. The
gates of the leader open exactly `dFG` blocks above the certified height, and the one of the
follower at a depth of `dFG` confirmations, the tip having one. -/
theorem height_arithmetic_never_wraps {shardConf : PartitionDescriptionRecord}
    {s₀ s : FGPTxSystem} (hnew : newFGPTxSystem shardConf = .ok s₀) (calls : List TxCall)
    (hrun : Run.run TxCall.apply s₀ calls = s) :
    (∀ (underflow : UInt64 → UInt64 → TxM UInt64) (pow : PowClient) (round : UInt64),
      (leaderProposeWith (trapping underflow) pow round).run s =
          (leaderPropose pow round).run s ∧
        ∀ root, (followerVerifyWith (trapping underflow) pow round root).run s =
          (followerVerify pow round root).run s) ∧
      (∀ tip hFG : UInt64,
        ((∃ candidateHeight s', (heightGates wrapping s.dFG tip hFG).run s =
            .ok candidateHeight s') ↔ hFG.toNat + s.dFG.toNat ≤ tip.toNat) ∧
          ∀ candidateHeight s', (heightGates wrapping s.dFG tip hFG).run s =
            .ok candidateHeight s' → hFG < candidateHeight ∧ candidateHeight ≤ tip) ∧
      ∀ block tip : UInt64,
        (∃ s', (depthGate wrapping s.dFG block tip).run s = .ok () s') ↔
          block.toNat ≤ tip.toNat ∧ block.toNat + s.dFG.toNat ≤ tip.toNat + 1 := by
  have hdFG : 1 ≤ s.dFG := by
    rw [← hrun]
    exact one_le_dFG_run (one_le_dFG_of_new hnew) calls
  refine ⟨fun underflow pow round ↦ ⟨?_, fun root ↦ ?_⟩, fun tip hFG ↦ ⟨?_, ?_⟩, ?_⟩
  · exact leaderProposeWith_trapping underflow hdFG pow round
  · exact followerVerifyWith_trapping underflow hdFG pow round root
  · exact heightGates_pass_iff hdFG
  · intro candidateHeight s' hgates
    exact heightGates_bounds hgates
  · intro block tip
    exact depthGate_pass_iff hdFG

/-- The depth is raised to six confirmations; an update without any is refused. -/
def deepening : List TxCall :=
  [.updateConfig { Reference.shardConf with partitionParams := [("dFG", "6")] },
    .updateConfig { Reference.shardConf with partitionParams := [("dFG", "0")] }]

/-- At a tip of height 10 the leader goes on from a certified height of 4 but not of 5, and a
follower accepts height 5 but not 6. -/
theorem height_arithmetic_deepening :
    ∃ s, Run.run TxCall.apply (.fresh Reference.shardConf 1) deepening = s ∧
      s.dFG = 6 ∧
      (∃ candidateHeight s', (heightGates wrapping s.dFG 10 4).run s = .ok candidateHeight s' ∧
        4 < candidateHeight ∧ candidateHeight ≤ 10) ∧
      (¬∃ candidateHeight s', (heightGates wrapping s.dFG 10 5).run s = .ok candidateHeight s') ∧
      (∃ s', (depthGate wrapping s.dFG 5 10).run s = .ok () s') ∧
      ¬∃ s', (depthGate wrapping s.dFG 6 10).run s = .ok () s' := by
  have hnew : newFGPTxSystem Reference.shardConf =
      .ok (.fresh Reference.shardConf 1) := rfl
  obtain ⟨-, hleader, hfollower⟩ := height_arithmetic_never_wraps hnew deepening rfl
  refine ⟨_, rfl, rfl, ?_, ?_, ?_, ?_⟩
  · obtain ⟨candidateHeight, s', hgates⟩ := (hleader 10 4).1.mpr (by decide)
    exact ⟨candidateHeight, s', hgates, (hleader 10 4).2 candidateHeight s' hgates⟩
  · exact fun hpass ↦ absurd ((hleader 10 5).1.mp hpass) (by decide)
  · exact (hfollower 5 10).mpr (by decide)
  · exact fun hpass ↦ absurd ((hfollower 6 10).mp hpass) (by decide)

end FGPTxSystem

end FinalityGadget
