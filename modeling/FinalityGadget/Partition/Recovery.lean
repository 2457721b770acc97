import FinalityGadget.Partition.Proposal

/-!
# Recovery

Replicated blocks are validated and applied one at a time on top of the committed state; recovery
ends when the committed round is the latest known one. The other side serves blocks from its store,
from a bounded queue of requests.
-/

namespace FinalityGadget

open Bytes Fallible

variable {C : Type}

section Handlers

variable (lib : BaseLibrary C) (conf : NodeConf)

/-! ## Applying a block -/

/-- The part of `handleBlock` after the certificate of the block has been seen: `committedUC` is the
committed certificate from before. -/
def applyBlock (env : Env) (block : Block C) (blockUC : UnicityCertificate)
    (committedUC : Option UnicityCertificate) : NodeM C Unit := do
  let round := getRoundNumber (some blockUC)
  ensure (block.previousBlockHash.equal (getBlockHash committedUC) = true)
    (s!"invalid block {round} (expected previous block hash=" ++
      s!"'{Text.hexUpper block.previousBlockHash}', actual previous block hash=" ++
      s!"'{Text.hexUpper (getBlockHash committedUC)}', )")
  let n ← get
  let state ← ofExcept (fun err ↦ s!"error reading current state, {err}")
    n.transactionSystem.stateSummary
  -- the uncertified genesis state is extended by anything
  ensure (committedUC = none ∨
      (getPreviousStateHash (some blockUC)).equal state.rootHash = true)
    (s!"block does not extend current state, expected state hash: " ++
      s!"{Text.hexUpper (getPreviousStateHash (some blockUC))}, actual state hash: " ++
      s!"{Text.hexUpper state.rootHash}")
  let newState ← orRevert (fun err ↦ s!"failed to verify block {round}: {err}")
    (onTx (FGPTxSystem.followerVerify env.pow round (getStateHash (some blockUC))))
  orRevert (fun err ↦ s!"failed to verify block {round} state: {err}")
    (ofExcept id (newState.equalsIR blockUC.inputRecord))
  orRevert (fun err ↦ s!"failed to finalize block {round}: {err}")
    (finalizeBlock env block blockUC)

def handleBlock (env : Env) (block : Option (Block C)) : NodeM C Unit := do
  let committedUC := (← get).committedUC
  let blockUC ← ofExcept (fun err ↦ s!"failed to extract UC from block: {err}")
    (getUCv1 lib block)
  let b := block.getD {}
  -- the shard configuration hash inside the certificate of a historical block is not verified
  ofExcept (fun err ↦ s!"invalid block for round {getRoundNumber (some blockUC)}: {err}")
    (lib.blockIsValid b none)
  EStateM.adaptExcept (fun err ↦ s!"failed to update LUC: {err}") (updateLUC lib conf blockUC none)
  if getRoundNumber (some blockUC) ≤ getRoundNumber committedUC then
    return ()
  if lib.isSuccessor blockUC committedUC = false then
    modify fun n ↦ if n.status ≠ .initializing then n.startRecovery lib conf env else n
    throw (s!"missing blocks between rounds {getRoundNumber committedUC} and " ++
      s!"{getRoundNumber (some blockUC)}")
  else
    applyBlock env b blockUC committedUC

/-- Apply blocks in order; the first error stops. Block `i` meets the environment `envs i`. -/
def handleBlocks (envs : ℕ → Env) : ℕ → List (Option (Block C)) → NodeM C Unit
  | _, [] => pure ()
  | i, block :: rest => do
    handleBlock lib conf (envs i) block
    handleBlocks envs (i + 1) rest

/-- The end of a recovery: start a round and try the last proposal seen during recovery. -/
def finishRecovery (env nextEnv : Env) : NodeM C Unit := do
  modify Node.stopRecovery
  modify fun n ↦ n.startNewRound env
  let n ← get
  onlyIf (n.recoveryLastProp ≠ none) do
    -- it may fail, which is only logged
    tryCatch (handleBlockProposal lib conf nextEnv n.recoveryLastProp) fun _ ↦ pure ()
    modify fun n ↦ { n with recoveryLastProp := none }

def handleLedgerReplicationResponse (envs : ℕ → Env)
    (response : Option (LedgerReplicationResponse C)) : NodeM C Unit := do
  ofExcept (fun err ↦ s!"invalid ledger replication response, {err}")
    (LedgerReplicationResponse.isValid response)
  let lr := response.getD default
  let n ← get
  if n.status ≠ .recovering then
    return ()
  if lr.status ≠ .ok then
    -- after a recovery caused by a timeout all known blocks may be there already
    modify fun n ↦ if n.isRecoveryComplete = true then n.stopRecovery else n
    throw s!"received error response, status={lr.status.toText}, message='{lr.message}'"
  else
    if lr.firstBlockNumber ≤ getRoundNumber n.committedUC then
      return ()
    let blocks := lr.blocks.getD []
    handleBlocks lib conf envs 0 blocks
    let n ← get
    if n.isRecoveryComplete = false then
      modify fun n ↦ n.sendLedgerReplicationRequest lib conf (envs blocks.length)
      return ()
    finishRecovery lib conf (envs blocks.length) (envs (blocks.length + 1))

/-! ## Serving blocks -/

def sendLedgerReplicationResponse (env : Env) (msg : LedgerReplicationResponse C) (toId : String) :
    NodeM C Unit := do
  let recoveringNodeID ← ofExcept (fun err ↦ s!"decoding peer id {toId.quote}: {err}")
    (lib.decodePeerID toId)
  modify fun n ↦ n.post (.replicationResponse msg) [recoveringNodeID]
  ofExcept (fun err ↦ s!"sending replication response: {err}") env.sendResponse

/-- A nil request, which no peer can send, panics already when it is logged. -/
def handleLedgerReplicationRequest (env : Env) (request : Option LedgerReplicationRequest) :
    NodeM C Unit := do
  ofExcept (fun err ↦ s!"invalid request, {err}") (LedgerReplicationRequest.isValid request)
  let lr := request.getD default
  let n ← get
  let reply (status : ReplicationStatus) (message : String) : NodeM C Unit :=
    sendLedgerReplicationResponse lib env
      { uuid := lr.uuid, status := status, message := message } lr.nodeID
  let latestBlock := getRoundNumber n.committedUC
  if ¬(lr.partitionID = n.shardConf.partitionID ∧ lr.shardID = n.shardConf.shardID) then
    reply .wrongShard
      (s!"Wrong partition/shard: requested {partitionText lr.partitionID}-{lr.shardID}, " ++
        s!"I'm {partitionText n.shardConf.partitionID}-{n.shardConf.shardID}")
  else if lr.beginBlockNumber ≤ getRoundNumber n.fuc then
    -- the node was started with a later state
    reply .blocksNotFound
      (s!"Node does not have block: {lr.beginBlockNumber}, " ++
        s!"first block: {getRoundNumber n.fuc + 1}")
  else if latestBlock < lr.beginBlockNumber then
    reply .blocksNotFound
      s!"Node does not have block: {lr.beginBlockNumber}, latest block: {latestBlock}"
  else if n.replicationCh.length < conf.replicationConfig.maxWorkers.toNat then
    modify fun n ↦ { n with replicationCh := n.replicationCh ++ [lr] }
  else
    reply .busy "Too many concurrent replication requests"

/-- The blocks a worker has read so far, with the first and last of their numbers. -/
structure Fetched (C : Type) where
  blocks : List (Option (Block C)) := []
  blockCnt : UInt64 := 0
  first : UInt64 := 0
  last : UInt64 := 0

/-- The loop of a replication worker over the entries from the requested one on. -/
def fetchBlocks (env : Env) (lr : LedgerReplicationRequest) :
    List (List UInt8 × Block C) → Fetched C → Fetched C
  | [], fetched => fetched
  | (key, block) :: rest, fetched =>
    match env.readBlock key with
    | .error _ => fetched
    | .ok _ =>
      let roundNo := bytesToUint64 key
      let fetched : Fetched C :=
        { blocks := fetched.blocks ++ [some block]
          blockCnt := fetched.blockCnt + 1
          first := if fetched.first = 0 then roundNo else fetched.first
          last := roundNo }
      if conf.replicationConfig.maxReturnBlocks ≤ fetched.blockCnt ∨
          (lr.endBlockNumber ≤ roundNo ∧ 0 < lr.endBlockNumber) then fetched
      else fetchBlocks env lr rest fetched

/-- The largest capacity for which `make` can make a slice of pointers: these take 8 bytes each, and
the runtime addresses 2^48 bytes. -/
def maxSliceCap : ℕ := 2 ^ 45

/-- The only error is the panic of `make` for the list of blocks, which has its full capacity from
the start. -/
def processReplicationRequest (env : Env) (lr : LedgerReplicationRequest) : NodeM C Unit := do
  ensure (conf.replicationConfig.maxReturnBlocks.toNat ≤ maxSliceCap)
    "runtime error: makeslice: cap out of range"
  let n ← get
  let fetched := fetchBlocks conf env lr (n.blockStore.seek (blockKey lr.beginBlockNumber)) {}
  -- a failed send is only logged
  tryCatch (sendLedgerReplicationResponse lib env
    { uuid := lr.uuid
      status := .ok
      blocks := some fetched.blocks
      firstBlockNumber := fetched.first
      lastBlockNumber := fetched.last } lr.nodeID) fun _ ↦ pure ()

end Handlers

/-! ## Exits -/

section Exits

variable (lib : BaseLibrary C) (conf : NodeConf)

/-- The checks behind a replicated block that a recovering node applies on top of the committed
certificate. -/
structure Applicable (env : Env) (m : Node C) (block : Block C) (uc : UnicityCertificate)
    (height : UInt64) : Prop where
  round_lt : getRoundNumber m.committedUC < getRoundNumber (some uc)
  successor : lib.isSuccessor uc m.committedUC = true
  linked : block.previousBlockHash.bytes = (getBlockHash m.committedUC).bytes
  clean : m.transactionSystem.pendingStateHash = none
  extends_state : m.committedUC = none ∨
    (getPreviousStateHash (some uc)).bytes = m.transactionSystem.committedStateHash.bytes
  verified : FGPTxSystem.Verified env.pow m.transactionSystem (getStateHash (some uc)) height
  equal : (m.transactionSystem.summaryOf (getStateHash (some uc))).equalsIR uc.inputRecord = .ok ()

/-- How `applyBlock` ends. -/
inductive ApplyExit (env : Env) (block : Block C) (uc : UnicityCertificate) (m : Node C) :
    EStateM.Result Err (Node C) Unit → Prop where
  | refused (err : Err) (hnot : ∀ height, ¬Applicable lib env m block uc height) :
      ApplyExit env block uc m (.error err m)
  | reverted (err : Err)
      (hnot : env.writeBlock = .ok () → ∀ height, ¬Applicable lib env m block uc height) :
      ApplyExit env block uc m (.error err m.revertState)
  | applied (height : UInt64) (h : Applicable lib env m block uc height)
      (hwrite : env.writeBlock = .ok ()) :
      ApplyExit env block uc m (.ok ()
        ((m.setTx (m.transactionSystem.setPending (getStateHash (some uc)) height)).finalized
          block uc))

theorem applyBlock_spec (env : Env) (block : Block C) (uc : UnicityCertificate) (m : Node C)
    (hstatus : m.status = .recovering)
    (hround : getRoundNumber m.committedUC < getRoundNumber (some uc))
    (hsuccessor : lib.isSuccessor uc m.committedUC = true) :
    ApplyExit lib env block uc m ((applyBlock env block uc m.committedUC).run m) := by
  refine exec_ensure (fun hno ↦ ?_) fun hlinked ↦ exec_get ?_
  · exact .refused _ fun height h ↦ hno (Slice.equal_iff.mpr h.linked)
  refine exec_ofExcept (fun err herr ↦ ?_) fun state hstate ↦ ?_
  · refine .refused _ fun height h ↦ ?_
    rw [FGPTxSystem.stateSummary_ok_iff.mpr ⟨h.clean, rfl⟩] at herr
    cases herr
  obtain ⟨hclean, rfl⟩ := FGPTxSystem.stateSummary_ok_iff.mp hstate
  refine exec_ensure (fun hno ↦ ?_) fun hextends ↦ ?_
  · exact .refused _ fun height h ↦ hno (h.extends_state.imp_right Slice.equal_iff.mpr)
  have hverify := FGPTxSystem.followerVerify_spec env.pow (getRoundNumber (some uc))
    (getStateHash (some uc)) m.transactionSystem
  generalize hrun : (FGPTxSystem.followerVerify env.pow (getRoundNumber (some uc))
    (getStateHash (some uc))).run m.transactionSystem = verified at hverify
  refine exec_tryCatch (fun err after hafter ↦ ?_) fun summary after hafter ↦ ?_
  · cases hverify with
    | accepted height h => rw [onTx_of_ok hrun] at hafter; cases hafter
    | rejected cause h =>
      rw [onTx_of_error hrun] at hafter
      cases hafter
      exact .reverted _ fun _ height happlicable ↦ h height happlicable.verified
  cases hverify with
  | rejected cause h => rw [onTx_of_error hrun] at hafter; cases hafter
  | accepted height hverified =>
    rw [onTx_of_ok hrun] at hafter
    cases hafter
    refine exec_tryCatch (fun err after hafter ↦ ?_) fun _ after hafter ↦ ?_
    · rw [run_ofExcept] at hafter
      split at hafter
      next => cases hafter
      next err hequal =>
        cases hafter
        exact .reverted _ fun _ height h ↦ by cases hequal.symm.trans h.equal
    rw [run_ofExcept] at hafter
    split at hafter
    next hequal =>
      cases hafter
      -- the verified root is the certified one, so the commit cannot fail
      have hfinalize := finalizeBlock_spec env block uc
        (m.setTx (m.transactionSystem.setPending (getStateHash (some uc)) height))
        (by simp [Node.setTx, hstatus])
      rw [orRevert, run_tryCatch]
      generalize (finalizeBlock env block uc).run _ = finalized at hfinalize
      cases hfinalize with
      | unwritten err hwrite => exact .reverted _ fun h ↦ absurd h hwrite
      | mismatched err hne hdelete => exact absurd rfl hne
      | undeleted err hne hdelete => exact absurd rfl hne
      | committed hwrite heq =>
        exact .applied height ⟨hround, hsuccessor, Slice.equal_iff.mp hlinked, hclean,
          hextends.imp_right Slice.equal_iff.mp, hverified, hequal⟩ hwrite
    next => cases hafter

/-- The certificate of a block was seen, but the block cannot be applied. -/
structure Inapplicable (env : Env) (n : Node C) (block : Option (Block C))
    (uc : UnicityCertificate) (m : Node C) : Prop where
  certificate : getUCv1 lib block = .ok uc
  seen : (updateLUC lib conf uc none).run n = .ok () m
  not_applicable : ∀ b, block = some b → env.writeBlock = .ok () →
    ∀ height, ¬Applicable lib env m b uc height

/-- How `handleBlock` ends during recovery. -/
inductive BlockExit (env : Env) (n : Node C) (block : Option (Block C)) :
    EStateM.Result Err (Node C) Unit → Prop where
  | rejected (err : Err)
      (hrejected : ∀ b uc m, block = some b → getUCv1 lib block = .ok uc →
        lib.blockIsValid b none = .ok () → (updateLUC lib conf uc none).run n ≠ .ok () m) :
      BlockExit env n block (.error err n)
  | refused (err : Err) (uc : UnicityCertificate) (m : Node C)
      (hluc : LUCExit lib conf n uc none (.ok () m))
      (hnot : Inapplicable lib conf env n block uc m) : BlockExit env n block (.error err m)
  | reverted (err : Err) (uc : UnicityCertificate) (m : Node C)
      (hluc : LUCExit lib conf n uc none (.ok () m))
      (hnot : Inapplicable lib conf env n block uc m) :
      BlockExit env n block (.error err m.revertState)
  | skipped (uc : UnicityCertificate) (m : Node C)
      (hluc : LUCExit lib conf n uc none (.ok () m))
      (hnot : Inapplicable lib conf env n block uc m) : BlockExit env n block (.ok () m)
  | applied (b : Block C) (uc : UnicityCertificate) (m : Node C) (height : UInt64)
      (hblock : block = some b) (huc : getUCv1 lib block = .ok uc)
      (hluc : LUCExit lib conf n uc none (.ok () m)) (h : Applicable lib env m b uc height)
      (hwrite : env.writeBlock = .ok ())
      (hseen : (updateLUC lib conf uc none).run n = .ok () m) :
      BlockExit env n block (.ok ()
        ((m.setTx (m.transactionSystem.setPending (getStateHash (some uc)) height)).finalized b uc))

theorem LUCExit.preserves {α : Type*} (f : Node C → α)
    (hadopt : ∀ (m : Node C) uc tr leader, f (m.adopt uc tr leader) = f m) {n m : Node C}
    {uc : UnicityCertificate} {tr : Option TechnicalRecord}
    (h : LUCExit lib conf n uc tr (.ok () m)) : f m = f n := by
  cases h with
  | stale | duplicate => rfl
  | adopted leader => exact hadopt n uc tr leader

/-- A handled block changes nothing that neither an adopted certificate, nor a revert, nor the
finalization of a block does. -/
theorem BlockExit.preserves {α : Type*} (f : Node C → α)
    (hadopt : ∀ (m : Node C) uc tr leader, f (m.adopt uc tr leader) = f m)
    (hrevert : ∀ m : Node C, f m.revertState = f m)
    (hfinalize : ∀ (m : Node C) tx block uc, f ((m.setTx tx).finalized block uc) = f m)
    {env : Env} {n : Node C} {block : Option (Block C)}
    {result : EStateM.Result Err (Node C) Unit} (h : BlockExit lib conf env n block result) :
    f (final result) = f n := by
  cases h with
  | rejected err => rfl
  | refused err uc m hluc | skipped uc m hluc => exact hluc.preserves lib conf f hadopt
  | reverted err uc m hluc => exact (hrevert m).trans (hluc.preserves lib conf f hadopt)
  | applied b uc m height hblock huc hluc happlicable hwrite =>
    exact (hfinalize m _ b uc).trans (hluc.preserves lib conf f hadopt)

theorem LUCExit.status_eq {n m : Node C} {uc : UnicityCertificate} {tr : Option TechnicalRecord}
    (h : LUCExit lib conf n uc tr (.ok () m)) : m.status = n.status := by
  cases h <;> rfl

theorem LUCExit.committedUC_eq {n m : Node C} {uc : UnicityCertificate}
    {tr : Option TechnicalRecord} (h : LUCExit lib conf n uc tr (.ok () m)) :
    m.committedUC = n.committedUC := by
  cases h <;> rfl

theorem handleBlock_spec (env : Env) (n : Node C) (block : Option (Block C))
    (hstatus : n.status = .recovering) :
    BlockExit lib conf env n block ((handleBlock lib conf env block).run n) := by
  refine exec_get (exec_ofExcept (fun err herr ↦ ?_) fun uc huc ↦ ?_)
  · refine .rejected _ fun b uc m _ huc ↦ ?_
    cases herr.symm.trans huc
  obtain ⟨b, rfl⟩ : ∃ b, block = some b := by
    cases block with
    | none => simp [getUCv1] at huc
    | some b => exact ⟨b, rfl⟩
  refine exec_ofExcept (fun err herr ↦ ?_) fun _ _ ↦ ?_
  · refine .rejected _ ?_
    rintro _ uc' m ⟨⟩ _ hvalid
    cases herr.symm.trans hvalid
  have hluc := updateLUC_spec lib conf n uc none
  refine exec_adaptExcept (fun err m hrun ↦ ?_) fun _ m hrun ↦ ?_
  · rw [hrun] at hluc
    cases hluc
    refine .rejected _ ?_
    rintro _ uc' m ⟨⟩ huc' _ hseen
    cases huc.symm.trans huc'
    cases hrun.symm.trans hseen
  rw [hrun] at hluc
  have hm : m.status = .recovering := (hluc.status_eq lib conf).trans hstatus
  have hcommitted := hluc.committedUC_eq lib conf
  rw [← hcommitted]
  refine exec_ite (fun hold ↦ .skipped uc m hluc ⟨huc, hrun, ?_⟩) fun hround ↦ ?_
  · rintro _ ⟨⟩ _ height h
    exact absurd h.round_lt (not_lt.mpr hold)
  refine exec_ite (fun hgap ↦ exec_modify ?_) fun hsuccessor ↦ ?_
  · simp only [hm, ne_eq, reduceCtorEq, not_false_eq_true, if_true,
      Node.startRecovery_of_recovering]
    refine .refused _ uc m hluc ⟨huc, hrun, ?_⟩
    rintro _ ⟨⟩ _ height h
    cases hgap.symm.trans h.successor
  have happly := applyBlock_spec lib env b uc m hm (UInt64.not_le.mp hround)
    (by simpa using hsuccessor)
  simp only [Option.getD_some]
  generalize (applyBlock env b uc m.committedUC).run m = applied at happly
  cases happly with
  | refused err hnot =>
    refine .refused err uc m hluc ⟨huc, hrun, ?_⟩
    rintro _ ⟨⟩ _
    exact hnot
  | reverted err hnot =>
    refine .reverted err uc m hluc ⟨huc, hrun, ?_⟩
    rintro _ ⟨⟩
    exact hnot
  | applied height h hwrite => exact .applied b uc m height rfl huc hluc h hwrite hrun

/-- A valid block that is applicable is applied. -/
theorem handleBlock_of_applicable {env : Env} {n m : Node C} {block : Block C}
    {uc : UnicityCertificate} {height : UInt64} (hstatus : n.status = .recovering)
    (huc : getUCv1 lib (some block) = .ok uc) (hvalid : lib.blockIsValid block none = .ok ())
    (hseen : (updateLUC lib conf uc none).run n = .ok () m)
    (happlicable : Applicable lib env m block uc height) (hwrite : env.writeBlock = .ok ()) :
    ∃ height', (handleBlock lib conf env (some block)).run n = .ok ()
      ((m.setTx (m.transactionSystem.setPending (getStateHash (some uc)) height')).finalized
        block uc) := by
  have hexit := handleBlock_spec lib conf env n (some block) hstatus
  -- every exit but the last one is left for a reason that does not hold
  have hnot : ∀ uc' m', ¬Inapplicable lib conf env n (some block) uc' m' := by
    intro uc' m' h
    cases huc.symm.trans h.certificate
    cases hseen.symm.trans h.seen
    exact h.not_applicable block rfl hwrite height happlicable
  generalize (handleBlock lib conf env (some block)).run n = result at hexit
  cases hexit with
  | rejected err hrejected => exact absurd hseen (hrejected block uc m rfl huc hvalid)
  | refused err uc' m' hluc h => exact absurd h (hnot uc' m')
  | reverted err uc' m' hluc h => exact absurd h (hnot uc' m')
  | skipped uc' m' hluc h => exact absurd h (hnot uc' m')
  | applied b uc' m' height' hblock huc' hluc h hwrite' hseen' =>
    cases hblock
    cases huc.symm.trans huc'
    cases hseen.symm.trans hseen'
    exact ⟨height', rfl⟩

end Exits

end FinalityGadget
