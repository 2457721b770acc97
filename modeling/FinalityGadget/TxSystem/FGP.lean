import FinalityGadget.Network.Messages
import FinalityGadget.Foundation.Fallible
import FinalityGadget.Foundation.Text

/-!
# The finality gadget transaction system

The state of the partition is the hash of the last certified proof-of-work block together with one
optional pending hash. The leader derives a candidate from the tip of the proof-of-work chain, a
follower checks the proposed one, and a certificate turns the pending hash into the committed one.

Each operation asks a method of the proof-of-work client at most once, so a record of answers per
operation covers every behaviour of a client over time.
-/

namespace FinalityGadget

open Bytes Fallible Text

/-! ## The proof-of-work client -/

structure BlockHeader where
  hash : String := ""
  confirmations : ℤ := 0
  height : UInt64 := 0
  deriving DecidableEq, Inhabited

/-- Only blocks of the active chain have positive confirmations. -/
def BlockHeader.isActive (block : BlockHeader) : Bool := decide (0 < block.confirmations)

structure ChainTip where
  height : UInt64 := 0
  hash : String := ""
  branchLen : UInt64 := 0
  status : String := ""
  deriving DecidableEq, Inhabited

/-- The answers of the proof-of-work node during one operation. -/
structure PowClient where
  getTip : Except Err BlockHeader
  getBlockHeaderByHash : String → Except Err BlockHeader
  getBlockHeaderByHeight : UInt64 → Except Err BlockHeader
  getChainTips : Except Err (List ChainTip)

/-! ## State summaries -/

structure Summary where
  rootHash : Slice
  summaryValue : Slice
  sumOfEarnedFees : UInt64
  etHash : Slice
  deriving DecidableEq, Inhabited

def errStateContainsUncommittedChanges : Err := "state contains uncommitted changes"

def Summary.equalsIR (summary : Summary) (ucIR : Option InputRecord) : Except Err Unit :=
  match ucIR with
  | none => .error "unicity certificate input record is nil"
  | some record => do
    require (record.hash.equal summary.rootHash)
      (s!"transaction system state {hexUpper summary.rootHash} is not equal to unicity " ++
        s!"certificate value {hexUpper record.hash}")
    require (record.summaryValue.equal summary.summaryValue)
      (s!"transaction system summary value {hexUpper summary.summaryValue} not equal to unicity " ++
        s!"certificate value {hexUpper record.summaryValue}")
    require (record.sumOfEarnedFees = summary.sumOfEarnedFees)
      (s!"transaction system sum of earned fees {summary.sumOfEarnedFees} not equal to unicity " ++
        s!"certificate value {record.sumOfEarnedFees}")
    require (record.etHash.equal summary.etHash)
      (s!"transaction system executed transactions buffer hash '{hexUpper summary.etHash}' " ++
        s!"not equal to unicity certificate value '{hexUpper record.etHash}'")

/-! ## State and configuration -/

/-- The last three values that go into a summary are set by the constructor for good: the summary
value is empty but not nil, since nil is not allowed by the root nodes. -/
structure FGPTxSystem where
  shardConf : PartitionDescriptionRecord
  /-- Number of proof-of-work confirmations required for finalization. -/
  dFG : UInt64
  committedStateHash : Slice := none
  committedStateHeight : UInt64 := 0
  pendingStateHash : Slice := none
  pendingStateHeight : UInt64 := 0
  committedUC : Option UnicityCertificate := none
  summaryValue : Slice := some []
  sumOfEarnedFees : UInt64 := 0
  etHash : Slice := none
  summaryValue_eq : summaryValue = some [] := by rfl
  sumOfEarnedFees_eq : sumOfEarnedFees = 0 := by rfl
  etHash_eq : etHash = none := by rfl
  deriving DecidableEq

/-- The confirmation depth in a shard configuration; both the constructor and `UpdateConfig` read it
this way. -/
def parseDFG (shardConf : PartitionDescriptionRecord) : Except Err UInt64 := do
  match shardConf.partitionParams.lookup "dFG" with
  | none => .error "dFG not defined in shard conf"
  | some dFGString =>
    let dFG ← (parseUint64 dFGString).mapError fun err ↦
      s!"non numeric dFG defined in shard conf: {err}"
    require (dFG ≠ 0) "dFG must be greater than 0"
    pure dFG

/-- A system that has certified nothing. -/
def FGPTxSystem.fresh (shardConf : PartitionDescriptionRecord) (dFG : UInt64) : FGPTxSystem :=
  { shardConf := shardConf, dFG := dFG }

def newFGPTxSystem (shardConf : PartitionDescriptionRecord) : Except Err FGPTxSystem := do
  let dFG ← parseDFG shardConf
  pure (.fresh shardConf dFG)

/-- Operations of the transaction system. -/
abbrev TxM := EStateM Err FGPTxSystem

namespace FGPTxSystem

def updateConfig (shardConf : PartitionDescriptionRecord) : TxM Unit := do
  let dFG ← ofExcept id (parseDFG shardConf)
  modify fun s ↦ { s with shardConf := shardConf, dFG := dFG }

/-- The summary of the system with the given root. -/
def summaryOf (s : FGPTxSystem) (root : Slice) : Summary :=
  ⟨root, s.summaryValue, s.sumOfEarnedFees, s.etHash⟩

/-- Nothing but the root tells the summaries of two systems apart. -/
theorem summaryOf_eq (s : FGPTxSystem) (root : Slice) :
    s.summaryOf root = ⟨root, some [], 0, none⟩ := by
  rw [summaryOf, s.summaryValue_eq, s.sumOfEarnedFees_eq, s.etHash_eq]

def stateSummary (s : FGPTxSystem) : Except Err Summary :=
  if s.pendingStateHash ≠ none then .error errStateContainsUncommittedChanges
  else .ok (s.summaryOf s.committedStateHash)

/-- The system with a pending block. -/
def setPending (s : FGPTxSystem) (hash : Slice) (height : UInt64) : FGPTxSystem :=
  { s with pendingStateHash := hash, pendingStateHeight := height }

/-! ## Proposing -/

/-- Height of the latest certified block, asked from the client since it is not stored in blocks;
zero before the first one. -/
def certifiedHeight (pow : PowClient) (s : FGPTxSystem) : Except Err UInt64 :=
  match s.committedStateHash with
  | none => .ok 0
  | some data =>
    match pow.getBlockHeaderByHash (hexEncode data) with
    | .ok lastCertBlock => .ok lastCertBlock.height
    | .error err =>
      .error s!"failed to find last certified block for hash '{hexEncode data}': {err}"

/-- No fork other than the active chain may have a block at the candidate height. -/
def checkForks (candidateHeight : UInt64) : List ChainTip → Except Err Unit
  | [] => .ok ()
  | tip :: rest =>
    if tip.status = "active" then checkForks candidateHeight rest
    else if tip.height < tip.branchLen then
      .error (s!"invalid chain tip: branch length {tip.branchLen} " ++
        s!"exceeds height {tip.height}")
    else if candidateHeight ≤ tip.height ∧ tip.height - tip.branchLen < candidateHeight then
      .error (s!"competing fork visible: branch at height {tip.height} " ++
        s!"diverged at {tip.height - tip.branchLen}")
    else checkForks candidateHeight rest

/-- The round number is not used by either side. -/
def leaderPropose (pow : PowClient) (_round : UInt64) : TxM Summary := do
  let s ← get
  let tip ← ofExcept (fun err ↦ s!"failed to get PoW chain tip: {err}") pow.getTip
  let hFG ← ofExcept id (s.certifiedHeight pow)
  ensure (hFG < tip.height)
    s!"no new final enough PoW block: tip height {tip.height}, hFG {hFG}"
  ensure (s.dFG - 1 ≤ tip.height - hFG)
    (s!"no new final enough PoW block: tip height {tip.height}, hFG {hFG}, dFG {s.dFG} " ++
      "(not enough confirmations)")
  let candidateHeight := tip.height - (s.dFG - 1)
  ensure (hFG < candidateHeight)
    (s!"no new final enough PoW block: candidate height {candidateHeight} <= hFG {hFG} " ++
      "(already finalized or older)")
  let candBlock ← ofExcept
    (fun err ↦ s!"failed to get candidate block at height {candidateHeight}: {err}")
    (pow.getBlockHeaderByHeight candidateHeight)
  let tips ← ofExcept (fun err ↦ s!"failed to get chain tips for fork check: {err}")
    pow.getChainTips
  ofExcept id (checkForks candidateHeight tips)
  let candHash ← ofExcept (fun err ↦ s!"failed to decode candidate block hash: {err}")
    (hexDecode candBlock.hash)
  set (s.setPending (some candHash) candBlock.height)
  return s.summaryOf (some candHash)

def followerVerify (pow : PowClient) (_round : UInt64) (proposedRoot : Slice) : TxM Summary := do
  let s ← get
  if proposedRoot.equal s.committedStateHash then
    -- no-op transition: genesis, or staying at the certified block
    set (s.setPending proposedRoot s.committedStateHeight)
    return s.summaryOf proposedRoot
  let hexHash := hexEncode proposedRoot.bytes
  let block ← ofExcept (fun err ↦ s!"failed to get block by hash '{hexHash}': {err}")
    (pow.getBlockHeaderByHash hexHash)
  ensure (block.isActive = true) "proposed block is not in the active chain"
  let tip ← ofExcept (fun err ↦ s!"failed to get PoW chain tip: {err}") pow.getTip
  ensure (block.height ≤ tip.height)
    s!"proposed block height {block.height} is ahead of tip height {tip.height}"
  ensure (s.dFG - 1 ≤ tip.height - block.height)
    (s!"proposed block does not have sufficient confirmations " ++
      s!"(depth {tip.height - block.height}, required {s.dFG})")
  set (s.setPending proposedRoot block.height)
  return s.summaryOf proposedRoot

/-! ## Restoring, reverting and committing -/

def restoreState (pow : PowClient) (uc : UnicityCertificate) : TxM Unit := do
  let stateHash := getStateHash (some uc)
  onlyIf (stateHash.bytes ≠ []) do
    let stateHashHex := hexEncode stateHash.bytes
    let block ← ofExcept (fun err ↦ s!"failed to get block by hash '{stateHashHex}': {err}")
      (pow.getBlockHeaderByHash stateHashHex)
    modify fun s ↦ { s with committedStateHeight := block.height }
  modify fun s ↦ { s with
    committedStateHash := stateHash
    committedUC := some uc
    pendingStateHash := none
    pendingStateHeight := 0 }

def revert (s : FGPTxSystem) : FGPTxSystem := s.setPending none 0

/-- The system after certifying its pending block by `uc`. -/
def committed (s : FGPTxSystem) (uc : UnicityCertificate) : FGPTxSystem :=
  { s with
    committedStateHash := s.pendingStateHash
    committedStateHeight := s.pendingStateHeight
    committedUC := some uc
    pendingStateHash := none
    pendingStateHeight := 0 }

def commit (uc : UnicityCertificate) : TxM Unit := do
  let s ← get
  ensure (s.pendingStateHash.equal (getStateHash (some uc)) = true)
    (s!"state mismatch: pending {hexUpper s.pendingStateHash}, " ++
      s!"certified {hexUpper (getStateHash (some uc))}")
  set (s.committed uc)

/-! ## One specification per operation -/

/-- The checks behind an accepted leader candidate. -/
structure Candidate (pow : PowClient) (s : FGPTxSystem) (data : List UInt8) (height : UInt64) :
    Prop where
  intro ::
  exists_tip : ∃ tip hFG block tips, pow.getTip = .ok tip ∧ s.certifiedHeight pow = .ok hFG ∧
    hFG < tip.height ∧ s.dFG - 1 ≤ tip.height - hFG ∧ hFG < tip.height - (s.dFG - 1) ∧
    pow.getBlockHeaderByHeight (tip.height - (s.dFG - 1)) = .ok block ∧
    pow.getChainTips = .ok tips ∧ checkForks (tip.height - (s.dFG - 1)) tips = .ok () ∧
    hexDecode block.hash = .ok data ∧ block.height = height

/-- How `LeaderPropose` ends. -/
inductive Proposed (pow : PowClient) (s : FGPTxSystem) :
    EStateM.Result Err FGPTxSystem Summary → Prop where
  | accepted (data : List UInt8) (height : UInt64) (h : s.Candidate pow data height) :
      Proposed pow s (.ok (s.summaryOf (some data)) (s.setPending (some data) height))
  | rejected (err : Err) (h : ∀ data height, ¬s.Candidate pow data height) :
      Proposed pow s (.error err s)

theorem leaderPropose_of_candidate {pow : PowClient} {s : FGPTxSystem} {data : List UInt8}
    {height : UInt64} (round : UInt64) (h : s.Candidate pow data height) :
    (leaderPropose pow round).run s =
      .ok (s.summaryOf (some data)) (s.setPending (some data) height) := by
  obtain ⟨tip, hFG, block, tips, htip, hcert, hnew, hdepth, hcand, hblock, htips, hforks, hdata,
    rfl⟩ := h
  simp only [leaderPropose, EStateM.run_bind, EStateM.run_get, run_ofExcept, run_ensure, htip,
    hcert, hnew, hdepth, hcand, hblock, htips, hforks, hdata, if_true]
  rfl

theorem Candidate.data_unique {pow : PowClient} {s : FGPTxSystem} {data data' : List UInt8}
    {height height' : UInt64} (h : s.Candidate pow data height)
    (h' : s.Candidate pow data' height') : data = data' := by
  have hrun := leaderPropose_of_candidate 0 h
  rw [leaderPropose_of_candidate 0 h'] at hrun
  injection hrun with hsummary _
  injection hsummary with hroot
  exact (Option.some.inj hroot).symm

theorem leaderPropose_spec (pow : PowClient) (round : UInt64) (s : FGPTxSystem) :
    Proposed pow s ((leaderPropose pow round).run s) := by
  by_cases hnone : ∀ data height, ¬s.Candidate pow data height
  · refine exec_get (exec_ofExcept (fun _ _ ↦ .rejected _ hnone) fun tip htip ↦ ?_)
    refine exec_ofExcept (fun _ _ ↦ .rejected _ hnone) fun hFG hcert ↦ ?_
    refine exec_ensure (fun _ ↦ .rejected _ hnone) fun hnew ↦ ?_
    refine exec_ensure (fun _ ↦ .rejected _ hnone) fun hdepth ↦ ?_
    refine exec_ensure (fun _ ↦ .rejected _ hnone) fun hcand ↦ ?_
    refine exec_ofExcept (fun _ _ ↦ .rejected _ hnone) fun block hblock ↦ ?_
    refine exec_ofExcept (fun _ _ ↦ .rejected _ hnone) fun tips htips ↦ ?_
    refine exec_ofExcept (fun _ _ ↦ .rejected _ hnone) fun _ hforks ↦ ?_
    refine exec_ofExcept (fun _ _ ↦ .rejected _ hnone) fun data hdata ↦ ?_
    exact absurd ⟨tip, hFG, block, tips, htip, hcert, hnew, hdepth, hcand, hblock, htips, hforks,
      hdata, rfl⟩ (hnone data block.height)
  · push Not at hnone
    obtain ⟨data, height, h⟩ := hnone
    rw [leaderPropose_of_candidate round h]
    exact .accepted data height h

theorem leaderPropose_ok {pow : PowClient} {round : UInt64} {s s' : FGPTxSystem}
    {summary : Summary} (h : (leaderPropose pow round).run s = .ok summary s') :
    ∃ data height, s.Candidate pow data height ∧ summary = s.summaryOf (some data) ∧
      s' = s.setPending (some data) height := by
  have hspec := leaderPropose_spec pow round s
  rw [h] at hspec
  cases hspec with
  | accepted data height hcandidate => exact ⟨data, height, hcandidate, rfl, rfl⟩

/-- The checks behind a root a follower accepts: the committed one, or an active block that is deep
enough. -/
inductive Verified (pow : PowClient) (s : FGPTxSystem) (root : Slice) : UInt64 → Prop where
  | noop (h : root.bytes = s.committedStateHash.bytes) : Verified pow s root s.committedStateHeight
  | block (block tip : BlockHeader) (hne : root.bytes ≠ s.committedStateHash.bytes)
      (hblock : pow.getBlockHeaderByHash (hexEncode root.bytes) = .ok block)
      (hactive : block.isActive = true) (htip : pow.getTip = .ok tip)
      (hle : block.height ≤ tip.height) (hdepth : s.dFG - 1 ≤ tip.height - block.height) :
      Verified pow s root block.height

/-- How `FollowerVerify` ends. -/
inductive Checked (pow : PowClient) (s : FGPTxSystem) (root : Slice) :
    EStateM.Result Err FGPTxSystem Summary → Prop where
  | accepted (height : UInt64) (h : Verified pow s root height) :
      Checked pow s root (.ok (s.summaryOf root) (s.setPending root height))
  | rejected (err : Err) (h : ∀ height, ¬Verified pow s root height) :
      Checked pow s root (.error err s)

theorem followerVerify_of_verified {pow : PowClient} {s : FGPTxSystem} {root : Slice}
    {height : UInt64} (round : UInt64) (h : Verified pow s root height) :
    (followerVerify pow round root).run s =
      .ok (s.summaryOf root) (s.setPending root height) := by
  cases h with
  | noop h =>
    simp only [followerVerify, EStateM.run_bind, EStateM.run_get, Slice.equal_iff.mpr h, if_true]
    rfl
  | block block tip hne hblock hactive htip hle hdepth =>
    have hequal : ¬root.equal s.committedStateHash = true := fun h ↦ hne (Slice.equal_iff.mp h)
    simp only [followerVerify, EStateM.run_bind, EStateM.run_get, run_ite, run_ofExcept,
      run_ensure, hequal, hblock, hactive, htip, hle, hdepth, if_true]
    rfl

theorem followerVerify_spec (pow : PowClient) (round : UInt64) (root : Slice) (s : FGPTxSystem) :
    Checked pow s root ((followerVerify pow round root).run s) := by
  by_cases hnone : ∀ height, ¬Verified pow s root height
  · refine exec_get (exec_ite (fun hnoop ↦ ?_) fun hne ↦ ?_)
    · exact absurd (.noop (Slice.equal_iff.mp hnoop)) (hnone s.committedStateHeight)
    · refine exec_ofExcept (fun _ _ ↦ .rejected _ hnone) fun block hblock ↦ ?_
      refine exec_ensure (fun _ ↦ .rejected _ hnone) fun hactive ↦ ?_
      refine exec_ofExcept (fun _ _ ↦ .rejected _ hnone) fun tip htip ↦ ?_
      refine exec_ensure (fun _ ↦ .rejected _ hnone) fun hle ↦ ?_
      refine exec_ensure (fun _ ↦ .rejected _ hnone) fun hdepth ↦ ?_
      exact absurd (.block block tip (fun h ↦ hne (Slice.equal_iff.mpr h)) hblock hactive htip
        hle hdepth) (hnone block.height)
  · push Not at hnone
    obtain ⟨height, h⟩ := hnone
    rw [followerVerify_of_verified round h]
    exact .accepted height h

theorem followerVerify_ok {pow : PowClient} {round : UInt64} {root : Slice} {s s' : FGPTxSystem}
    {summary : Summary} (h : (followerVerify pow round root).run s = .ok summary s') :
    ∃ height, Verified pow s root height ∧ summary = s.summaryOf root ∧
      s' = s.setPending root height := by
  have hspec := followerVerify_spec pow round root s
  rw [h] at hspec
  cases hspec with
  | accepted height hverified => exact ⟨height, hverified, rfl, rfl⟩

theorem commit_of_equal {s : FGPTxSystem} {uc : UnicityCertificate}
    (h : s.pendingStateHash.bytes = (getStateHash (some uc)).bytes) :
    (commit uc).run s = .ok () (s.committed uc) := by
  simp [commit, h]

theorem commit_of_ne {s : FGPTxSystem} {uc : UnicityCertificate}
    (h : s.pendingStateHash.bytes ≠ (getStateHash (some uc)).bytes) :
    ∃ err, (commit uc).run s = .error err s := by
  simp [commit, h]

theorem stateSummary_ok_iff {s : FGPTxSystem} {summary : Summary} :
    s.stateSummary = .ok summary ↔
      s.pendingStateHash = none ∧ summary = s.summaryOf s.committedStateHash := by
  unfold stateSummary
  by_cases h : s.pendingStateHash = none
  · simp [h, eq_comm]
  · simp [h]

/-- A restored system carries the certificate and its hash, and nothing pending. -/
structure Restored (pow : PowClient) (s : FGPTxSystem) (uc : UnicityCertificate)
    (s' : FGPTxSystem) : Prop where
  intro ::
  eq_restored : ∃ height, (((getStateHash (some uc)).bytes = [] ∧ height = s.committedStateHeight) ∨
      ∃ block, pow.getBlockHeaderByHash (hexEncode (getStateHash (some uc)).bytes) = .ok block ∧
        height = block.height) ∧
    s' = { s with
      committedStateHash := getStateHash (some uc)
      committedStateHeight := height
      committedUC := some uc
      pendingStateHash := none
      pendingStateHeight := 0 }

/-- How `RestoreState` ends. -/
inductive RestoreResult (pow : PowClient) (s : FGPTxSystem) (uc : UnicityCertificate) :
    EStateM.Result Err FGPTxSystem Unit → Prop where
  | restored (s' : FGPTxSystem) (h : Restored pow s uc s') : RestoreResult pow s uc (.ok () s')
  | rejected (err : Err) : RestoreResult pow s uc (.error err s)

theorem restoreState_spec (pow : PowClient) (uc : UnicityCertificate) (s : FGPTxSystem) :
    RestoreResult pow s uc ((restoreState pow uc).run s) := by
  refine exec_onlyIf (fun hne ↦ ?_) fun hempty ↦ ?_
  · rw [bind_assoc]
    refine exec_ofExcept (fun _ _ ↦ .rejected _) fun block hblock ↦ ?_
    exact .restored _ ⟨block.height, Or.inr ⟨block, hblock, rfl⟩, rfl⟩
  · exact .restored _ ⟨s.committedStateHeight, Or.inl ⟨not_not.mp hempty, rfl⟩, rfl⟩

/-- How `UpdateConfig` ends. -/
inductive Configured (shardConf : PartitionDescriptionRecord) (s : FGPTxSystem) :
    EStateM.Result Err FGPTxSystem Unit → Prop where
  | updated (dFG : UInt64) (h : parseDFG shardConf = .ok dFG) :
      Configured shardConf s (.ok () { s with shardConf := shardConf, dFG := dFG })
  | rejected (err : Err) : Configured shardConf s (.error err s)

theorem updateConfig_spec (shardConf : PartitionDescriptionRecord) (s : FGPTxSystem) :
    Configured shardConf s ((updateConfig shardConf).run s) :=
  exec_ofExcept (fun _ _ ↦ .rejected _) fun dFG hparse ↦ .updated dFG hparse

end FGPTxSystem

/-- A fresh system has nothing pending and nothing committed. -/
theorem newFGPTxSystem_eq {txConf : PartitionDescriptionRecord} {s : FGPTxSystem}
    (h : newFGPTxSystem txConf = .ok s) : s = .fresh txConf s.dFG := by
  unfold newFGPTxSystem at h
  obtain ⟨dFG, _, hs⟩ := bind_eq_ok.mp h
  cases hs
  rfl

end FinalityGadget
