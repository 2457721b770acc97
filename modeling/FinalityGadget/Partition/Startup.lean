import FinalityGadget.Partition.Loop

/-!
# The node after start-up

What a successful start leaves: the state certified by the last entry of the store, no technical
record, no leader, and at most the stored proposal as pending.
-/

namespace FinalityGadget

open Bytes Fallible

variable {C : Type} (lib : BaseLibrary C) (conf : NodeConf)

/-- How `restoreLatestBlock` ends on a fresh transaction system. -/
inductive RestoreExit (env : Env) (n : Node C) : EStateM.Result Err (Node C) Unit → Prop where
  | failed (err : Err) (m : Node C) : RestoreExit env n (.error err m)
  | empty (hlast : n.blockStore.last? = none) : RestoreExit env n (.ok () n)
  | restored (key : List UInt8) (block : Block C) (uc : UnicityCertificate)
      (shardConf : PartitionDescriptionRecord) (dFG : UInt64) (s : FGPTxSystem)
      (hlast : n.blockStore.last? = some (key, block)) (huc : getUCv1 lib (some block) = .ok uc)
      (hconf : conf.shardConfByEpoch (getShardEpoch (some uc)) = .ok shardConf)
      (hrestored : FGPTxSystem.Restored env.pow
        { n.transactionSystem with shardConf := shardConf, dFG := dFG } uc s)
      (hparse : parseDFG shardConf = .ok dFG) :
      RestoreExit env n
        (.ok () { n with shardConf := shardConf, transactionSystem := s })

theorem restoreLatestBlock_spec (env : Env) (n : Node C) :
    RestoreExit lib conf env n ((restoreLatestBlock lib conf env).run n) := by
  refine exec_get ?_
  cases hlast : n.blockStore.last? with
  | none => exact .empty hlast
  | some entry =>
    obtain ⟨key, block⟩ := entry
    dsimp only
    refine exec_ofExcept (fun _ _ ↦ .failed _ _) fun _ _ ↦ ?_
    refine exec_ofExcept (fun _ _ ↦ .failed _ _) fun uc huc ↦ ?_
    refine exec_ofExcept (fun _ _ ↦ .failed _ _) fun shardConf hconf ↦ exec_modify ?_
    refine exec_adaptExcept (fun _ _ _ ↦ .failed _ _) fun _ configured hrun ↦ ?_
    -- the configuration changes only the depth parameters of the transaction system
    have hconfigured := FGPTxSystem.updateConfig_spec shardConf n.transactionSystem
    generalize hupdate : (FGPTxSystem.updateConfig shardConf).run n.transactionSystem = updated
      at hconfigured
    cases hconfigured with
    | rejected err =>
      rw [onTx_of_error (n := { n with shardConf := shardConf }) hupdate] at hrun
      cases hrun
    | updated dFG hparse =>
      rw [onTx_of_ok (n := { n with shardConf := shardConf }) hupdate] at hrun
      cases hrun
      have hrestore := FGPTxSystem.restoreState_spec env.pow uc
        { n.transactionSystem with shardConf := shardConf, dFG := dFG }
      generalize hrun : (FGPTxSystem.restoreState env.pow uc).run
        { n.transactionSystem with shardConf := shardConf, dFG := dFG } = result at hrestore
      rw [EStateM.run_adaptExcept]
      cases hrestore with
      | rejected err => rw [onTx_of_error hrun]; exact .failed _ _
      | restored s hrestored =>
        rw [onTx_of_ok hrun]
        exact .restored key block uc shardConf dFG s hlast huc hconf hrestored hparse

/-- How `restoreBlockProposal` ends; it never reports an error. -/
inductive ReplayExit (env : Env) (n : Node C) : EStateM.Result Err (Node C) Unit → Prop where
  | skipped : ReplayExit env n (.ok () n)
  | reverted : ReplayExit env n (.ok () n.revertState)
  | replayed (proposal : Block C) (uc : UnicityCertificate) (height : UInt64)
      (hstored : n.blockStore.find? proposalKey = some proposal)
      (huc : getUCv1 lib (some proposal) = .ok uc)
      (hextends : (getStateHash n.committedUC).bytes = (getPreviousStateHash (some uc)).bytes)
      (hverified : FGPTxSystem.Verified env.pow n.transactionSystem (getStateHash (some uc)) height)
      (hequal : (n.transactionSystem.summaryOf (getStateHash (some uc))).equalsIR uc.inputRecord =
        .ok ()) :
      ReplayExit env n (.ok ()
        ((n.setTx (n.transactionSystem.setPending (getStateHash (some uc)) height)).setProposal
          proposal))

theorem restoreBlockProposal_spec (env : Env) (n : Node C) :
    ReplayExit lib env n ((restoreBlockProposal lib env).run n) := by
  refine exec_get ?_
  cases env.readProposal with
  | error err => exact .skipped
  | ok _ =>
    cases hstored : n.blockStore.find? proposalKey with
    | none => exact .skipped
    | some proposal =>
      dsimp only
      cases huc : getUCv1 lib (some proposal) with
      | error err => exact .skipped
      | ok uc =>
        refine exec_ite (fun _ ↦ .skipped) fun hextends ↦ ?_
        have hextends : (getStateHash n.committedUC).bytes =
            (getPreviousStateHash (some uc)).bytes :=
          Slice.equal_iff.mp (Bool.not_eq_false _ ▸ hextends)
        have hverify := FGPTxSystem.followerVerify_spec env.pow (getRoundNumber (some uc))
          (getStateHash (some uc)) n.transactionSystem
        generalize hrun : (FGPTxSystem.followerVerify env.pow (getRoundNumber (some uc))
          (getStateHash (some uc))).run n.transactionSystem = verified at hverify
        rw [run_tryCatch, EStateM.run_bind]
        cases hverify with
        | rejected err h => rw [onTx_of_error hrun]; exact .reverted
        | accepted height hverified =>
          rw [onTx_of_ok hrun]
          cases hequal : (n.transactionSystem.summaryOf (getStateHash (some uc))).equalsIR
            uc.inputRecord with
          | error err => simp only [EStateM.run_bind, run_ofExcept, hequal]; exact .reverted
          | ok _ =>
            simp only [EStateM.run_bind, run_ofExcept, hequal]
            exact .replayed proposal uc height hstored huc hextends hverified hequal

/-! ## A started process -/

/-- A process started on the given store with a fresh transaction system. -/
def Starts (store : BlockStore C) (n : Node C) : Prop :=
  ∃ txConf txSystem env nextEnv, newFGPTxSystem txConf = .ok txSystem ∧
    newNode lib conf env nextEnv txSystem store = .ok n

/-- Where the committed certificate and state hash of a started process come from. -/
inductive Origin (store : BlockStore C) : Option UnicityCertificate → Slice → Prop where
  | genesis (hlast : store.last? = none) : Origin store none none
  | block (key : List UInt8) (block : Block C) (uc : UnicityCertificate)
      (hlast : store.last? = some (key, block)) (huc : getUCv1 lib (some block) = .ok uc) :
      Origin store (some uc) (getStateHash (some uc))

/-- What a started process has pending. -/
inductive Replay (store : BlockStore C) (n : Node C) : Prop where
  | nothing (hproposal : n.pendingBlockProposal = none)
      (hstate : n.transactionSystem.pendingStateHash = none)
  | proposal (proposal : Block C) (uc : UnicityCertificate)
      (hstored : store.find? proposalKey = some proposal)
      (huc : getUCv1 lib (some proposal) = .ok uc)
      (hextends : (getStateHash n.committedUC).bytes = (getPreviousStateHash (some uc)).bytes)
      (hproposal : n.pendingBlockProposal = some proposal)
      (hstate : n.transactionSystem.pendingStateHash = getStateHash (some uc))

/-- The node of a process before its first event. -/
structure Started (store : BlockStore C) (n : Node C) : Prop where
  status : n.status = .initializing
  luc : n.luc = n.committedUC
  ltr : n.ltr = none
  leader : n.leader = ""
  blockStore : n.blockStore = store
  storeLog : n.storeLog = []
  sent : n.sent = []
  shardConf : conf.Loads n.shardConf
  origin : Origin lib store n.transactionSystem.committedUC n.transactionSystem.committedStateHash
  replay : Replay lib store n

theorem firstShardConf_loaded {shardConf : PartitionDescriptionRecord}
    (h : conf.firstShardConf = .ok shardConf) : conf.Loads shardConf := by
  unfold NodeConf.firstShardConf at h
  split at h
  · cases h
  · exact ⟨_, h⟩

/-- Replaying the stored proposal completes a start whose state is restored. -/
theorem Started.of_replay {store : BlockStore C} {nextEnv : Env} {n m : Node C}
    (hbase : Started lib conf store n) (hproposal : n.pendingBlockProposal = none)
    (hexit : ReplayExit lib nextEnv n (.ok () m)) : Started lib conf store m := by
  cases hexit with
  | skipped => exact hbase
  | reverted =>
    exact { hbase with replay := .nothing hproposal rfl }
  | replayed proposal uc height hstored huc hextends hverified hequal =>
    rw [hbase.blockStore] at hstored
    exact { hbase with replay := .proposal proposal uc hstored huc hextends rfl rfl }

/-- A start restores the last block and then replays the stored proposal. -/
theorem newNode_spec {env nextEnv : Env} {txSystem : FGPTxSystem} {store : BlockStore C}
    {n : Node C} (h : newNode lib conf env nextEnv txSystem store = .ok n) :
    ∃ shardConf restored, conf.firstShardConf = .ok shardConf ∧
      RestoreExit lib conf env
        { shardConf := shardConf, transactionSystem := txSystem, blockStore := store }
        (.ok () restored) ∧
      ReplayExit lib nextEnv restored.initCertificates (.ok () n) := by
  obtain ⟨shardConf, hconf, hrun⟩ := bind_eq_ok.mp h
  refine ⟨shardConf, ?_⟩
  split at hrun
  next _ m hinit =>
    cases hrun
    have hrestore := restoreLatestBlock_spec lib conf env
      { shardConf := shardConf, transactionSystem := txSystem, blockStore := store }
    simp only [initState, EStateM.run_bind] at hinit
    generalize (restoreLatestBlock lib conf env).run _ = result at hrestore hinit
    cases result with
    | error err m => cases hinit
    | ok _ restored =>
      have hreplay := restoreBlockProposal_spec lib nextEnv restored.initCertificates
      simp only [EStateM.run_modify] at hinit
      rw [hinit] at hreplay
      exact ⟨restored, mapError_eq_ok.mp hconf, hrestore, hreplay⟩
  next => cases hrun

theorem started_of_starts {store : BlockStore C} {n : Node C} (h : Starts lib conf store n) :
    Started lib conf store n := by
  obtain ⟨txConf, txSystem, env, nextEnv, hfresh, hnew⟩ := h
  rw [newFGPTxSystem_eq hfresh] at hnew
  obtain ⟨shardConf, restored, hconf, hrestore, hreplay⟩ := newNode_spec lib conf hnew
  have hknown := firstShardConf_loaded conf hconf
  cases hrestore with
  | empty hlast =>
    refine Started.of_replay lib conf ?_ rfl hreplay
    exact ⟨rfl, rfl, rfl, rfl, rfl, rfl, rfl, hknown, .genesis hlast, .nothing rfl rfl⟩
  | restored key block uc shardConf' dFG s hlast huc hloaded hrestored =>
    obtain ⟨height, _, rfl⟩ := hrestored
    refine Started.of_replay lib conf ?_ rfl hreplay
    exact ⟨rfl, rfl, rfl, rfl, rfl, rfl, rfl, ⟨_, hloaded⟩, .block key block uc hlast huc,
      .nothing rfl rfl⟩

end FinalityGadget
