import FinalityGadget.Partition.Ledger
import FinalityGadget.Partition.Pending
import FinalityGadget.Partition.Replay

/-!
# Replicated batches

A response carries a batch of blocks that a recovering node applies in order. A block can be refused
at many points, some of them after its certificate was adopted, its state verified or its bytes
written. The ledger of a node is what its blocks have certified so far; over the ledger a batch has
a simple meaning, the blocks of a prefix one after the other, and whatever happens in the node is
that.
-/

namespace FinalityGadget

open Bytes Fallible

variable {C : Type}

/-! ## Ledgers -/

/-- The certified part of a node: certificate, state hash and blocks. -/
structure Ledger (C : Type) where
  committedUC : Option UnicityCertificate
  stateHash : Slice
  blocks : UInt64 → Option (Block C)

def NodeState.ledger (n : NodeState C) : Ledger C :=
  ⟨n.committedUC, n.transactionSystem.committedStateHash, storedBlock n.blockStore⟩

/-- The ledger with a block and the certificate inside it. -/
def Ledger.append (ledger : Ledger C) (block : Block C) (uc : UnicityCertificate) : Ledger C where
  committedUC := some uc
  stateHash := getStateHash (some uc)
  blocks := Function.update ledger.blocks (getRoundNumber (some uc)) (some block)

/-- One block of a batch: a block that is not above the committed round is skipped. -/
def Ledger.extend (lib : BaseLibrary C) (ledger : Ledger C) (block : Option (Block C)) : Ledger C :=
  match block, getUCv1 lib block with
  | some b, .ok uc =>
    if getRoundNumber (some uc) ≤ getRoundNumber ledger.committedUC then ledger
    else ledger.append b uc
  | _, _ => ledger

/-- The blocks of a batch one after the other. -/
def Ledger.extendAll (lib : BaseLibrary C) (ledger : Ledger C) (blocks : List (Option (Block C))) :
    Ledger C :=
  blocks.foldl (Ledger.extend lib) ledger

theorem NodeState.ledger_eq {n m : NodeState C} (hcommitted : n.committed = m.committed)
    (hstored : storedBlock n.blockStore = storedBlock m.blockStore) : n.ledger = m.ledger := by
  have huc : n.committedUC = m.committedUC := congrArg Prod.fst hcommitted
  have hhash : n.transactionSystem.committedStateHash = m.transactionSystem.committedStateHash :=
    congrArg Prod.snd hcommitted
  rw [ledger, ledger, huc, hhash, hstored]

section Ledgers

variable {lib : BaseLibrary C} {ledger : Ledger C} {block : Block C} {uc : UnicityCertificate}

theorem Ledger.extend_of_le {block : Option (Block C)} (huc : getUCv1 lib block = .ok uc)
    (hle : getRoundNumber (some uc) ≤ getRoundNumber ledger.committedUC) :
    ledger.extend lib block = ledger := by
  unfold extend
  split
  next b uc' huc' =>
    cases huc.symm.trans huc'
    rw [if_pos hle]
  next => rfl

theorem Ledger.extend_of_lt (huc : getUCv1 lib (some block) = .ok uc)
    (hlt : getRoundNumber ledger.committedUC < getRoundNumber (some uc)) :
    ledger.extend lib (some block) = ledger.append block uc := by
  simp only [extend, huc]
  rw [if_neg (not_le.mpr hlt)]

end Ledgers

/-! ## Blocks -/

section Blocks

variable (lib : BaseLibrary C) (conf : NodeConf)

/-- How `handleBlock` succeeds: the block is not above the committed round, or it is applied. -/
inductive BlockDone (env : Env) (n : Node C) (block : Option (Block C)) : Node C → Prop where
  | skipped (uc : UnicityCertificate) (m : Node C) (huc : getUCv1 lib block = .ok uc)
      (hluc : LUCExit lib conf n uc none (.ok () m))
      (hold : getRoundNumber (some uc) ≤ getRoundNumber n.committedUC) : BlockDone env n block m
  | applied (b : Block C) (uc : UnicityCertificate) (m : Node C) (height : UInt64)
      (hblock : block = some b) (huc : getUCv1 lib block = .ok uc)
      (hluc : LUCExit lib conf n uc none (.ok () m)) (h : Applicable lib env m b uc height) :
      BlockDone env n block
        ((m.setTx (m.transactionSystem.setPending (getStateHash (some uc)) height)).finalized b uc)

theorem blockDone_of_run {env : Env} {n n' : Node C} {block : Option (Block C)}
    (hstatus : n.status = .recovering) (hrun : (handleBlock lib conf env block).run n = .ok () n') :
    BlockDone lib conf env n block n' := by
  let Done (result : EStateM.Result Err (Node C) Unit) : Prop :=
    ∀ m, result = .ok () m → BlockDone lib conf env n block m
  suffices hdone : Done ((handleBlock lib conf env block).run n) from hdone n' hrun
  refine exec_get (exec_ofExcept (fun _ _ _ h ↦ by cases h) fun uc huc ↦ ?_)
  refine exec_ofExcept (fun _ _ _ h ↦ by cases h) fun _ _ ↦ ?_
  refine exec_adaptExcept (fun _ _ _ _ h ↦ by cases h) fun _ m hseen ↦ ?_
  have hluc := updateLUC_spec lib conf n uc none
  rw [hseen] at hluc
  have hm : m.status = .recovering := (hluc.status_eq lib conf).trans hstatus
  have hcommitted := hluc.committedUC_eq lib conf
  rw [← hcommitted]
  refine exec_ite (fun hold ↦ ?_) fun hround ↦ ?_
  · rintro _ ⟨⟩
    exact .skipped uc m huc hluc (hcommitted ▸ hold)
  refine exec_ite (fun _ ↦ exec_modify fun _ h ↦ by cases h) fun hsuccessor ↦ ?_
  obtain ⟨b, rfl⟩ : ∃ b, block = some b := by
    cases block with
    | none => simp [getUCv1] at huc
    | some b => exact ⟨b, rfl⟩
  have happly := applyBlock_spec lib env b uc m hm (UInt64.not_le.mp hround)
    (by simpa using hsuccessor)
  simp only [Option.getD_some]
  generalize (applyBlock env b uc m.committedUC).run m = applied at happly
  rintro m' rfl
  cases happly with
  | applied height h hwrite => exact .applied b uc m height rfl huc hluc h

/-- A block that is handled successfully extends the ledger. -/
theorem BlockDone.ledger_eq {env : Env} {n n' : Node C} {block : Option (Block C)}
    (h : BlockDone lib conf env n block n') : n'.ledger = n.ledger.extend lib block := by
  cases h with
  | skipped uc m huc hluc hold =>
    rw [Ledger.extend_of_le huc hold]
    cases hluc <;> rfl
  | applied b uc m height hblock huc hluc h =>
    have hkept : m.ledger = n.ledger := by cases hluc <;> rfl
    rw [hblock] at huc
    rw [hblock, Ledger.extend_of_lt huc (hkept ▸ h.round_lt), ← hkept]
    have hstored := storedBlock_writeBlock (getRoundNumber (some uc)) b m.blockStore
    simp only [Ledger.append, NodeState.ledger, ← hstored]
    rfl

/-- A recovering node without pending state. -/
structure Resting (n : Node C) : Prop where
  status : n.status = .recovering
  clean : n.transactionSystem.pendingStateHash = none

theorem Resting.handleBlock {n : Node C} (h : Resting n) (env : Env) (block : Option (Block C)) :
    Resting (final ((handleBlock lib conf env block).run n)) := by
  have hexit := handleBlock_spec lib conf env n block h.status
  refine ⟨hexit.status_eq.trans h.status, ?_⟩
  exact hexit.pendingStateHash_cases.elim (fun hkept ↦ hkept.trans h.clean) id

/-- A block that reports an error leaves nothing in the ledger. -/
theorem handleBlock_error_ledger {env : Env} {n n' : Node C} {block : Option (Block C)} {err : Err}
    (hstatus : n.status = .recovering)
    (hrun : (handleBlock lib conf env block).run n = .error err n') : n'.ledger = n.ledger := by
  have hexit := handleBlock_spec lib conf env n block hstatus
  rw [hrun] at hexit
  cases hexit with
  | rejected err => rfl
  | refused err uc m hluc | reverted err uc m hluc => cases hluc <;> rfl

theorem Resting.handleBlocks {n : Node C} (h : Resting n) (envs : ℕ → Env) (i : ℕ)
    (blocks : List (Option (Block C))) :
    Resting (final ((handleBlocks lib conf envs i blocks).run n)) := by
  induction blocks generalizing i n with
  | nil => exact h
  | cons block rest ih =>
    have hblock := h.handleBlock lib conf (envs i) block
    simp only [FinalityGadget.handleBlocks, EStateM.run_bind]
    cases hrun : (FinalityGadget.handleBlock lib conf (envs i) block).run n with
    | error err m => rwa [hrun] at hblock
    | ok _ m =>
      rw [hrun] at hblock
      exact ih hblock (i + 1)

/-- A batch extends the ledger by a prefix, which is the whole batch when no block fails. -/
theorem handleBlocks_ledger {n : Node C} (h : Resting n) (envs : ℕ → Env) (i : ℕ)
    (blocks : List (Option (Block C))) :
    ∃ count ≤ blocks.length, (final ((handleBlocks lib conf envs i blocks).run n)).ledger =
        n.ledger.extendAll lib (blocks.take count) ∧
      ∀ m, (handleBlocks lib conf envs i blocks).run n = .ok () m → count = blocks.length := by
  induction blocks generalizing i n with
  | nil => exact ⟨0, le_rfl, rfl, fun _ _ ↦ rfl⟩
  | cons block rest ih =>
    have hrest := h.handleBlock lib conf (envs i) block
    simp only [handleBlocks, EStateM.run_bind]
    cases hrun : (handleBlock lib conf (envs i) block).run n with
    | error err m =>
      refine ⟨0, Nat.zero_le _, handleBlock_error_ledger lib conf h.status hrun, ?_⟩
      intro m hok
      cases hok
    | ok _ m =>
      rw [hrun] at hrest
      obtain ⟨count, hcount, hledger, hall⟩ := ih hrest (i + 1)
      have hblock := (blockDone_of_run lib conf h.status hrun).ledger_eq
      refine ⟨count + 1, Nat.succ_le_succ hcount, ?_, fun m' hok ↦ ?_⟩
      · refine hledger.trans ?_
        rw [final_ok, hblock]
        rfl
      · rw [hall m' hok, List.length_cons]

theorem handleBlocks_append (envs : ℕ → Env) (first second : List (Option (Block C))) (i : ℕ)
    (n : Node C) : (handleBlocks lib conf envs i (first ++ second)).run n =
      match (handleBlocks lib conf envs i first).run n with
      | .ok _ m => (handleBlocks lib conf envs (i + first.length) second).run m
      | .error err m => .error err m := by
  induction first generalizing i n with
  | nil => rfl
  | cons block rest ih =>
    simp only [List.cons_append, handleBlocks, EStateM.run_bind]
    cases (handleBlock lib conf (envs i) block).run n with
    | error err m => rfl
    | ok _ m =>
      dsimp only
      rw [ih, List.length_cons, Nat.add_assoc, Nat.add_comm 1]

/-- The batch stops at its first block that reports an error. -/
structure FailsAt (envs : ℕ → Env) (n : Node C) (blocks : List (Option (Block C))) (j : ℕ)
    (before after : Node C) : Prop where
  intro ::
  exists_error : ∃ block err, blocks[j]? = some block ∧
    (handleBlocks lib conf envs 0 (blocks.take j)).run n = .ok () before ∧
    (handleBlock lib conf (envs j) block).run before = .error err after

theorem FailsAt.run {envs : ℕ → Env} {n before after : Node C} {blocks : List (Option (Block C))}
    {j : ℕ} (h : FailsAt lib conf envs n blocks j before after) :
    ∃ err, (handleBlocks lib conf envs 0 blocks).run n = .error err after := by
  obtain ⟨block, err, hblock, hfirst, herror⟩ := h
  obtain ⟨hlt, hget⟩ := List.getElem?_eq_some_iff.mp hblock
  have hsplit : blocks = blocks.take j ++ block :: blocks.drop (j + 1) := by
    rw [← hget, List.getElem_cons_drop, List.take_append_drop]
  refine ⟨err, ?_⟩
  rw [hsplit, handleBlocks_append, hfirst]
  simp only [List.length_take, Nat.min_eq_left hlt.le, Nat.zero_add, handleBlocks, EStateM.run_bind,
    herror]

end Blocks

/-! ## Responses -/

section Responses

variable (lib : BaseLibrary C) (conf : NodeConf)

/-- How `finishRecovery` ends: in a fresh round, in which the last proposal seen during recovery is
handled. -/
inductive FinishExit (env nextEnv : Env) (n : Node C) :
    EStateM.Result Err (Node C) Unit → Prop where
  | fresh : FinishExit env nextEnv n (.ok () (n.stopRecovery.startNewRound env))
  | tried (result : EStateM.Result Err (Node C) Unit)
      (h : ProposalExit lib conf nextEnv (n.stopRecovery.startNewRound env) n.recoveryLastProp
        result) :
      FinishExit env nextEnv n (.ok () { final result with recoveryLastProp := none })

theorem finishRecovery_spec (env nextEnv : Env) (n : Node C) :
    FinishExit lib conf env nextEnv n ((finishRecovery lib conf env nextEnv).run n) := by
  have hkept : (n.stopRecovery.startNewRound env).recoveryLastProp = n.recoveryLastProp := by
    rw [Node.startNewRound_toNodeState]
    rfl
  have hproposal := handleBlockProposal_spec lib conf nextEnv (n.stopRecovery.startNewRound env)
    n.recoveryLastProp
  refine exec_modify (exec_modify (exec_get ?_))
  rw [run_onlyIf, hkept]
  split
  · rw [EStateM.run_bind, run_tryCatch]
    generalize (handleBlockProposal lib conf nextEnv n.recoveryLastProp).run
      (n.stopRecovery.startNewRound env) = result at hproposal
    cases result with
    | ok _ m => exact .tried _ hproposal
    | error err m => exact .tried _ hproposal
  · exact .fresh

/-- How `handleLedgerReplicationResponse` ends for the given batch. -/
inductive ResponseExit (envs : ℕ → Env) (n : Node C) (blocks : List (Option (Block C))) :
    EStateM.Result Err (Node C) Unit → Prop where
  | refused (err : Err) : ResponseExit envs n blocks (.error err n)
  | unneeded : ResponseExit envs n blocks (.ok () n)
  | stopped (err : Err) (hstatus : n.status = .recovering)
      (hcomplete : n.isRecoveryComplete = true) :
      ResponseExit envs n blocks (.error err n.stopRecovery)
  | failed (err : Err) (m : Node C) (hstatus : n.status = .recovering)
      (hrun : (handleBlocks lib conf envs 0 blocks).run n = .error err m) :
      ResponseExit envs n blocks (.error err m)
  | continued (m : Node C) (hstatus : n.status = .recovering)
      (hrun : (handleBlocks lib conf envs 0 blocks).run n = .ok () m) :
      ResponseExit envs n blocks
        (.ok () (m.sendLedgerReplicationRequest lib conf (envs blocks.length)))
  | finished (m : Node C) (hstatus : n.status = .recovering)
      (hrun : (handleBlocks lib conf envs 0 blocks).run n = .ok () m)
      (hcomplete : m.isRecoveryComplete = true) (result : EStateM.Result Err (Node C) Unit)
      (hfinish : FinishExit lib conf (envs blocks.length) (envs (blocks.length + 1)) m result) :
      ResponseExit envs n blocks result

theorem handleLedgerReplicationResponse_spec (envs : ℕ → Env) (n : Node C)
    (response : Option (LedgerReplicationResponse C)) :
    ResponseExit lib conf envs n ((response.getD default).blocks.getD [])
      ((handleLedgerReplicationResponse lib conf envs response).run n) := by
  refine exec_ofExcept (fun _ _ ↦ .refused _) fun _ _ ↦ ?_
  dsimp only
  refine exec_get (exec_ite (fun _ ↦ .unneeded) fun hstatus ↦ ?_)
  have hstatus : n.status = .recovering := not_not.mp hstatus
  refine exec_ite (fun _ ↦ exec_modify ?_) fun _ ↦ exec_ite (fun _ ↦ .unneeded) fun _ ↦ ?_
  · by_cases hcomplete : n.isRecoveryComplete = true
    · rw [if_pos hcomplete]
      exact .stopped _ hstatus hcomplete
    · rw [if_neg hcomplete]
      exact .refused _
  refine exec_bind (fun err m hrun ↦ .failed err m hstatus hrun) fun _ m hrun ↦ exec_get ?_
  refine exec_ite (fun _ ↦ exec_modify (.continued m hstatus hrun)) fun hcomplete ↦ ?_
  exact .finished m hstatus hrun (by simpa using hcomplete) _
    (finishRecovery_spec lib conf _ _ m)

end Responses

/-! ## After the batch

The end of a recovery leaves the ledger alone: without a pending proposal nothing is certified. -/

section Finish

variable {lib : BaseLibrary C} {conf : NodeConf} {env : Env}

theorem startNewRound_ledger (n : Node C) (env : Env) :
    (n.startNewRound env).ledger = n.ledger :=
  NodeState.ledger_eq (n.startNewRound_committed env) (storedBlock_startNewRound n env)

theorem startRecovery_ledger (n : Node C) (env : Env) :
    (n.startRecovery lib conf env).ledger = n.ledger :=
  NodeState.ledger_eq (n.startRecovery_committed lib conf env)
    (congrArg storedBlock (n.startRecovery_blockStore lib conf env))

theorem CertificateExit.ledger_eq {uc : UnicityCertificate} {prevLUC : Option UnicityCertificate}
    {wasInitializing : Bool} {m : Node C} {result : EStateM.Result Err (Node C) Unit}
    (h : CertificateExit lib conf env uc prevLUC wasInitializing m result)
    (hnone : m.pendingBlockProposal = none) : (final result).ledger = m.ledger := by
  cases h with
  | ignored | unknown => rfl
  | resumed | initial | current => exact startNewRound_ledger m env
  | repeated => exact startNewRound_ledger m.revertState env
  | behind => exact startRecovery_ledger m env
  | unencodable err proposal hnew hpending => cases hnone.symm.trans hpending
  | unfinalized err cause proposal encoded m' hnew hsuccessor hmarshal h proposedIR hpending =>
    cases hnone.symm.trans hpending
  | finalized proposal proposedIR encoded hnew hpending => cases hnone.symm.trans hpending

theorem UCExit.ledger_eq {n : Node C} {uc : UnicityCertificate} {tr : Option TechnicalRecord}
    {result : EStateM.Result Err (Node C) Unit} (h : UCExit lib conf env n uc tr result)
    (hnone : n.pendingBlockProposal = none) : (final result).ledger = n.ledger := by
  cases h with
  | rejected => rfl
  | recovering hstatus m hluc => cases hluc <;> rfl
  | processed hstatus m haccepted result hexit =>
    cases haccepted <;> exact hexit.ledger_eq hnone

theorem VoteExit.ledger_eq {prop : BlockProposal} {uc : UnicityCertificate} {n : Node C}
    {result : EStateM.Result Err (Node C) Unit} (h : VoteExit lib conf env prop uc n result) :
    (final result).ledger = n.ledger :=
  NodeState.ledger_eq h.frame.2.1 h.storedBlock_eq

theorem ProposalExit.ledger_eq {n : Node C} {proposal : Option BlockProposal}
    {result : EStateM.Result Err (Node C) Unit} (h : ProposalExit lib conf env n proposal result)
    (hnone : n.pendingBlockProposal = none) : (final result).ledger = n.ledger := by
  cases h with
  | remembered | rejected => rfl
  | uncertified err cause prop uc m hstatus hprop huc hvalid hnewer hexit =>
    exact hexit.ledger_eq hnone
  | certified prop uc m result hstatus hprop huc hvalid hnewer hexit hvote =>
    exact hvote.ledger_eq.trans (hexit.ledger_eq hnone)
  | current prop uc result hstatus hprop huc hvalid hsame hvote => exact hvote.ledger_eq

theorem FinishExit.ledger_eq {nextEnv : Env} {n : Node C}
    {result : EStateM.Result Err (Node C) Unit} (h : FinishExit lib conf env nextEnv n result) :
    (final result).ledger = n.ledger := by
  have hfresh : (n.stopRecovery.startNewRound env).ledger = n.ledger :=
    startNewRound_ledger n.stopRecovery env
  cases h with
  | fresh => exact hfresh
  | tried result h => exact (h.ledger_eq (by simp)).trans hfresh

/-- Whatever a response carries, it extends the ledger by a prefix of its blocks. -/
theorem ResponseExit.ledger_eq {envs : ℕ → Env} {n : Node C} {blocks : List (Option (Block C))}
    {result : EStateM.Result Err (Node C) Unit} (h : ResponseExit lib conf envs n blocks result)
    (hresting : Resting n) :
    ∃ count ≤ blocks.length,
      (final result).ledger = n.ledger.extendAll lib (blocks.take count) := by
  obtain ⟨count, hcount, hledger, _⟩ := handleBlocks_ledger lib conf hresting envs 0 blocks
  cases h with
  | refused | unneeded | stopped => exact ⟨0, Nat.zero_le _, rfl⟩
  | failed err m hstatus hrun =>
    rw [hrun] at hledger
    exact ⟨count, hcount, hledger⟩
  | continued m hstatus hrun =>
    rw [hrun] at hledger
    refine ⟨count, hcount, ?_⟩
    rw [final_ok, Node.sendLedgerReplicationRequest_toNodeState]
    exact hledger
  | finished m hstatus hrun hcomplete result hfinish =>
    rw [hrun] at hledger
    exact ⟨count, hcount, hfinish.ledger_eq.trans hledger⟩

end Finish

/-- A state that a follower has verified for a certificate is committed by it. -/
theorem FGPTxSystem.commit_of_followerVerify {pow : PowClient} {round : UInt64}
    {uc : UnicityCertificate} {s s' : FGPTxSystem} {summary : Summary}
    (h : (followerVerify pow round (getStateHash (some uc))).run s = .ok summary s') :
    (commit uc).run s' = .ok () (s'.committed uc) := by
  obtain ⟨height, -, -, rfl⟩ := followerVerify_ok h
  exact commit_of_equal rfl

/-- The blocks of the response are looked at. -/
structure Considered (n : Node C) (lr : LedgerReplicationResponse C) : Prop where
  valid : LedgerReplicationResponse.isValid (some lr) = .ok ()
  status : lr.status = .ok
  ahead : getRoundNumber n.committedUC < lr.firstBlockNumber

theorem Considered.run_of_error {lib : BaseLibrary C} {conf : NodeConf} {envs : ℕ → Env}
    {n m : Node C} {lr : LedgerReplicationResponse C} {err : Err} (h : Considered n lr)
    (hstatus : n.status = .recovering)
    (hrun : (handleBlocks lib conf envs 0 (lr.blocks.getD [])).run n = .error err m) :
    (handleLedgerReplicationResponse lib conf envs (some lr)).run n = .error err m := by
  simp only [handleLedgerReplicationResponse, EStateM.run_bind, run_ofExcept, h.valid,
    EStateM.run_get, Option.getD_some, hstatus, ne_eq, not_true_eq_false, if_false, h.status,
    not_le.mpr h.ahead, hrun]

/-- A response extends the ledger of a recovering node by a prefix of its blocks. When a block
reports an error, this is the prefix before it, nothing is pending and the node is still recovering.
No commit on the way can fail. -/
theorem replicated_batch_stops_at_failure {lib : BaseLibrary C} {conf : NodeConf} {envs : ℕ → Env}
    {n : Node C} (hresting : Resting n) (lr : LedgerReplicationResponse C) :
    (∃ count ≤ (lr.blocks.getD []).length,
      (final ((handleLedgerReplicationResponse lib conf envs (some lr)).run n)).ledger =
        n.ledger.extendAll lib ((lr.blocks.getD []).take count)) ∧
    (∀ j before after, Considered n lr →
      FailsAt lib conf envs n (lr.blocks.getD []) j before after →
      final ((handleLedgerReplicationResponse lib conf envs (some lr)).run n) = after ∧
      after.ledger = n.ledger.extendAll lib ((lr.blocks.getD []).take j) ∧
      after.transactionSystem.pendingStateHash = none ∧ after.status = .recovering) ∧
    (∀ pow round uc s s' summary,
      (FGPTxSystem.followerVerify pow round (getStateHash (some uc))).run s = .ok summary s' →
      (FGPTxSystem.commit uc).run s' = .ok () (s'.committed uc)) := by
  refine ⟨?_, ?_, fun _ _ _ _ _ _ h ↦ FGPTxSystem.commit_of_followerVerify h⟩
  · exact (handleLedgerReplicationResponse_spec lib conf envs n (some lr)).ledger_eq hresting
  · intro j before after hconsidered hfails
    obtain ⟨err, hrun⟩ := hfails.run
    obtain ⟨block, cause, _, hfirst, herror⟩ := hfails
    have hbefore := hresting.handleBlocks lib conf envs 0 ((lr.blocks.getD []).take j)
    rw [hfirst] at hbefore
    obtain ⟨count, _, hledger, hall⟩ := handleBlocks_ledger lib conf hresting envs 0
      ((lr.blocks.getD []).take j)
    rw [hall before hfirst, List.take_length, hfirst] at hledger
    have hafter := hresting.handleBlocks lib conf envs 0 (lr.blocks.getD [])
    rw [hrun] at hafter
    refine ⟨?_, ?_, hafter.clean, hafter.status⟩
    · rw [hconsidered.run_of_error hresting.status hrun]
      rfl
    · exact (handleBlock_error_ledger lib conf hbefore.status herror).trans hledger

section Reference

open Reference

namespace Reference

/-- A response whose second block is missing. -/
def brokenBatch : LedgerReplicationResponse UnicityCertificate where
  blocks := some [some nextFinalized, none]
  firstBlockNumber := 3
  lastBlockNumber := 4

end Reference

/-- The recovering node `B` applies the first block of such a response, and nothing else. -/
theorem replicated_batch_stops_at_failure_broken :
    ∃ after, final ((handleLedgerReplicationResponse shardLibrary (conf "B" [2]) (fun _ ↦ env 11)
        (some brokenBatch)).run lagging) = after ∧
      after.ledger = lagging.ledger.extendAll shardLibrary [some nextFinalized] ∧
      after.committedUC = some (nextUC 8) ∧
      after.transactionSystem.pendingStateHash = none ∧ after.status = .recovering := by
  have hresting : Resting lagging := ⟨rfl, rfl⟩
  have hconsidered : Considered lagging brokenBatch := ⟨rfl, rfl, by decide⟩
  have hfails : ∃ before after, FailsAt shardLibrary (conf "B" [2]) (fun _ ↦ env 11) lagging
      (brokenBatch.blocks.getD []) 1 before after ∧ after.committedUC = some (nextUC 8) :=
    ⟨_, _, ⟨none, _, rfl, rfl, rfl⟩, rfl⟩
  obtain ⟨before, after, hfails, hcommitted⟩ := hfails
  obtain ⟨hfinal, hledger, hclean, hstatus⟩ :=
    (replicated_batch_stops_at_failure hresting brokenBatch).2.1 1 before after hconsidered hfails
  exact ⟨after, hfinal, hledger, hcommitted, hclean, hstatus⟩

end Reference

end FinalityGadget
