import FinalityGadget.Foundation.Run
import FinalityGadget.Partition.Recovery

/-!
# Start-up and the main loop

A node starts on the block store an earlier process left behind, then handles one event at a time:
a message, the firing of its timer, a scheduled epoch change, a tick of the monitor, or a
replication worker taking a request. The order and the contents of the events are arbitrary.
-/

namespace FinalityGadget

open Bytes Fallible

variable {C : Type}

section Handlers

variable (lib : BaseLibrary C) (conf : NodeConf)

/-! ## Start-up -/

/-- The start-up shortcut: restore the state certified by the last entry of the store. -/
def restoreLatestBlock (env : Env) : NodeM C Unit := do
  let n ← get
  match n.blockStore.last? with
  | none => pure ()
  | some (key, block) =>
    ofExcept (fun err ↦ s!"failed to read latest block from db: {err}") (env.readBlock key)
    let uc ← ofExcept (fun err ↦ s!"failed to extract UC from latest block: {err}")
      (getUCv1 lib (some block))
    let shardConf ← ofExcept
      (fun err ↦ s!"failed to load shard conf for epoch {getShardEpoch (some uc)}: {err}")
      (conf.shardConfByEpoch (getShardEpoch (some uc)))
    modify fun n ↦ { n with shardConf := shardConf }
    EStateM.adaptExcept (fun err ↦ s!"failed to update transaction system config: {err}")
      (onTx (FGPTxSystem.updateConfig shardConf))
    EStateM.adaptExcept (fun err ↦ s!"failed to restore transaction system state: {err}")
      (onTx (FGPTxSystem.restoreState env.pow uc))

/-- Re-apply a stored proposal that extends the committed state. Failures are only logged. -/
def restoreBlockProposal (env : Env) : NodeM C Unit := do
  let n ← get
  match env.readProposal, n.blockStore.find? proposalKey with
  | .ok _, some proposal =>
    match getUCv1 lib (some proposal) with
    | .error _ => pure ()
    | .ok uc =>
      if (getStateHash n.committedUC).equal (getPreviousStateHash (some uc)) = false then pure ()
      else
        tryCatch (do
            let state ← onTx (FGPTxSystem.followerVerify env.pow (getRoundNumber (some uc))
              (getStateHash (some uc)))
            ofExcept id (state.equalsIR uc.inputRecord)
            modify fun n ↦ n.setProposal proposal)
          fun _ ↦ modify Node.revertState
  | _, _ => pure ()

/-- The first and the latest certificate are the committed one; both are nil at genesis. -/
def Node.initCertificates (n : Node C) : Node C :=
  { n with fuc := n.committedUC, luc := n.committedUC }

def initState (env nextEnv : Env) : NodeM C Unit := do
  restoreLatestBlock lib conf env
  modify Node.initCertificates
  restoreBlockProposal lib nextEnv

/-- `NewNode` without the set-up of the network. -/
def newNode (env nextEnv : Env) (txSystem : FGPTxSystem) (blockDB : BlockStore C) :
    Except Err (Node C) := do
  let shardConf ← conf.firstShardConf.mapError fun err ↦
    s!"failed to load initial shard conf: {err}"
  match (initState lib conf env nextEnv).run
    { shardConf := shardConf, transactionSystem := txSystem, blockStore := blockDB } with
  | .ok _ n => .ok n
  | .error err _ => .error s!"node state initialization failed: {err}"

/-! ## The main loop -/

inductive Event (C : Type) where
  | certificationResponse (msg : Option CertificationResponse)
  | blockProposal (msg : Option BlockProposal)
  | ledgerReplicationRequest (msg : Option LedgerReplicationRequest)
  | ledgerReplicationResponse (msg : Option (LedgerReplicationResponse C))
  | t1Timeout
  | epochChange
  /-- A tick of the monitor; whether the last certificate and the last replication request are
  overdue. -/
  | monitoring (ucOverdue replicationOverdue : Bool)
  | replicationWorker

/-- An event together with how the surroundings answer while it is handled. -/
structure Input (C : Type) where
  event : Event C
  envs : ℕ → Env

/-- A missing configuration keeps the old one; a rejected one is still the node's. -/
def handleEpochChangeEvent : NodeM C Unit := do
  let n ← get
  match conf.shardConfByEpoch n.currentEpoch with
  | .error _ => pure ()
  | .ok shardConf =>
    modify fun n ↦ { n with shardConf := shardConf }
    tryCatch (onTx (FGPTxSystem.updateConfig shardConf)) fun _ ↦ pure ()

def handleMonitoring (env : Env) (ucOverdue replicationOverdue : Bool) : NodeM C Unit := do
  modify fun n ↦ if ucOverdue = true then n.sendHandshake lib conf env else n
  modify fun n ↦
    if n.status = .recovering ∧ replicationOverdue = true then
      n.sendLedgerReplicationRequest lib conf env
    else n

/-- Monitoring does nothing but send. -/
theorem handleMonitoring_rel {R : Node C → Node C → Prop} {env : Env} (hrefl : ∀ n, R n n)
    (htrans : ∀ {n m n'}, R n m → R m n' → R n n')
    (hhandshake : ∀ n, R n (n.sendHandshake lib conf env))
    (hrequest : ∀ n, R n (n.sendLedgerReplicationRequest lib conf env))
    (ucOverdue replicationOverdue : Bool) (n : Node C) :
    R n (final ((handleMonitoring lib conf env ucOverdue replicationOverdue).run n)) := by
  have hfirst : R n (if ucOverdue = true then n.sendHandshake lib conf env else n) := by
    split
    · exact hhandshake n
    · exact hrefl n
  apply htrans hfirst
  unfold handleMonitoring
  simp only [EStateM.run_bind, EStateM.run_modify, final_ok]
  generalize (if ucOverdue = true then n.sendHandshake lib conf env else n) = m
  split
  · exact hrequest m
  · exact hrefl m

/-- A worker takes the first waiting request. -/
def replicationWorker (env : Env) : NodeM C Unit := do
  let n ← get
  match n.replicationCh with
  | [] => pure ()
  | lr :: rest =>
    modify fun n ↦ { n with replicationCh := rest }
    processReplicationRequest lib conf env lr

/-- How `replicationWorker` ends. -/
inductive WorkerExit (env : Env) (n : Node C) : Node C → Prop where
  | idle (hqueue : n.replicationCh = []) : WorkerExit env n n
  | panicked (lr : LedgerReplicationRequest) (rest : List LedgerReplicationRequest)
      (hqueue : n.replicationCh = lr :: rest)
      (hcap : maxSliceCap < conf.replicationConfig.maxReturnBlocks.toNat) :
      WorkerExit env n { n with replicationCh := rest }
  | answered (lr : LedgerReplicationRequest) (rest : List LedgerReplicationRequest)
      (msg : LedgerReplicationResponse C) (hqueue : n.replicationCh = lr :: rest)
      (huuid : msg.uuid = lr.uuid) :
      WorkerExit env n (final ((sendLedgerReplicationResponse lib env msg lr.nodeID).run
        { n with replicationCh := rest }))

theorem replicationWorker_spec (env : Env) (n : Node C) :
    WorkerExit lib conf env n (final ((replicationWorker lib conf env).run n)) := by
  unfold replicationWorker
  simp only [EStateM.run_bind, EStateM.run_get]
  cases hqueue : n.replicationCh with
  | nil => exact .idle hqueue
  | cons lr rest =>
    let Done (result : EStateM.Result Err (Node C) Unit) : Prop :=
      WorkerExit lib conf env n (final result)
    suffices hdone : Done ((processReplicationRequest lib conf env lr).run
      { n with replicationCh := rest }) from hdone
    refine exec_ensure (fun hcap ↦ .panicked lr rest hqueue (not_le.mp hcap)) fun _ ↦ exec_get ?_
    rw [run_tryCatch]
    generalize fetchBlocks conf env lr _ _ = fetched
    have hanswered : Done ((sendLedgerReplicationResponse lib env
        { uuid := lr.uuid
          status := .ok
          blocks := some fetched.blocks
          firstBlockNumber := fetched.first
          lastBlockNumber := fetched.last } lr.nodeID).run { n with replicationCh := rest }) :=
      .answered lr rest _ hqueue rfl
    generalize (sendLedgerReplicationResponse lib env _ _).run _ = result at hanswered
    cases result <;> exact hanswered

/-- An epoch change is handled only after it was scheduled, and its slot is then free again. -/
def takeEpochChange : NodeM C Unit := do
  let n ← get
  onlyIf (n.epochChangeEvent = true) do
    modify fun n ↦ { n with epochChangeEvent := false }
    handleEpochChangeEvent conf

def handleEvent (input : Input C) : NodeM C Unit :=
  match input.event with
  | .certificationResponse msg => handleCertificationResponse lib conf (input.envs 0) msg
  | .blockProposal msg => handleBlockProposal lib conf (input.envs 0) msg
  | .ledgerReplicationRequest msg => handleLedgerReplicationRequest lib conf (input.envs 0) msg
  | .ledgerReplicationResponse msg => handleLedgerReplicationResponse lib conf input.envs msg
  | .t1Timeout => handleT1TimeoutEvent lib conf (input.envs 0)
  | .epochChange => takeEpochChange conf
  | .monitoring ucOverdue replicationOverdue =>
    handleMonitoring lib conf (input.envs 0) ucOverdue replicationOverdue
  | .replicationWorker => replicationWorker lib conf (input.envs 0)

/-- One turn of the main loop; errors are only logged. -/
def step (n : Node C) (input : Input C) : Node C := final ((handleEvent lib conf input).run n)

/-- The node after a run of its main loop. -/
def runNode (n : Node C) (inputs : List (Input C)) : Node C := Run.run (step lib conf) n inputs

theorem runNode_append (n : Node C) (first second : List (Input C)) :
    runNode lib conf n (first ++ second) = runNode lib conf (runNode lib conf n first) second :=
  Run.run_append _ n first second

end Handlers

end FinalityGadget
