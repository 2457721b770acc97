import FinalityGadget.Foundation.OrderedStore
import FinalityGadget.Network.Validation
import FinalityGadget.TxSystem.FGP

/-!
# The node

State, configuration and environment of one partition node. The first record holds the fields the
program has; the node adds two observation logs that no handler reads: the mutations of the block
store in the order they were performed, so that every prefix is a store a crash can leave behind,
and the messages handed to the network, each with the state it was sent in.

One environment fixes how everything outside the node answers during one handler: the proof-of-work
client, the block store, the network. A handler performs each kind of access at most once, reads of
single blocks and sends to single peers apart, so one answer of each kind covers every behaviour.
-/

namespace FinalityGadget

open Bytes Fallible

variable {C : Type}

inductive Status where
  | initializing
  | normal
  | recovering
  deriving DecidableEq, Inhabited

/-! ## The block store -/

abbrev BlockStore (C : Type) := OrderedStore (List UInt8) (Block C)

/-- The pending proposal has a four-byte key, blocks have eight-byte keys. -/
def proposalKey : List UInt8 := uint32ToBytes 0

def blockKey (round : UInt64) : List UInt8 := uint64ToBytes round

/-- A mutation of the block store. -/
inductive StoreOp (C : Type) where
  | writeBlock (round : UInt64) (block : Block C)
  | deleteBlock (round : UInt64)
  | writeProposal (block : Block C)
  | deleteProposal

def StoreOp.apply (op : StoreOp C) (store : BlockStore C) : BlockStore C :=
  match op with
  | .writeBlock round block => store.insert (blockKey round) block
  | .deleteBlock round => store.erase (blockKey round)
  | .writeProposal block => store.insert proposalKey block
  | .deleteProposal => store.erase proposalKey

/-- The store after a sequence of mutations. -/
def applyOps (store : BlockStore C) (ops : List (StoreOp C)) : BlockStore C :=
  ops.foldl (fun store op ↦ op.apply store) store

/-! ### The two parts of the store

Blocks and the pending proposal share one key space without touching each other. -/

/-- The block stored for a round. -/
def storedBlock (store : BlockStore C) (round : UInt64) : Option (Block C) :=
  store.find? (blockKey round)

/-- The stored pending proposal. -/
def storedProposal (store : BlockStore C) : Option (Block C) := store.find? proposalKey

theorem blockKey_ne_proposalKey (round : UInt64) : blockKey round ≠ proposalKey :=
  (uint32ToBytes_ne_uint64ToBytes 0 round).symm

theorem blockKey_inj {first second : UInt64} : blockKey first = blockKey second ↔ first = second :=
  uint64ToBytes_inj

@[simp]
theorem storedBlock_empty (round : UInt64) :
    storedBlock (OrderedStore.empty : BlockStore C) round = none := rfl

theorem storedBlock_apply (op : StoreOp C) (store : BlockStore C) (round : UInt64) :
    storedBlock (op.apply store) round =
      match op with
      | .writeBlock written block =>
        if round = written then some block else storedBlock store round
      | .deleteBlock deleted => if round = deleted then none else storedBlock store round
      | .writeProposal _ => storedBlock store round
      | .deleteProposal => storedBlock store round := by
  unfold storedBlock StoreOp.apply
  cases op with
  | writeBlock written block =>
    dsimp only
    split
    next h => rw [h, OrderedStore.find?_insert_self]
    next h => exact OrderedStore.find?_insert_of_ne _ _ fun heq ↦ h (blockKey_inj.mp heq)
  | deleteBlock deleted =>
    dsimp only
    split
    next h => rw [h, OrderedStore.find?_erase_self]
    next h => exact OrderedStore.find?_erase_of_ne _ fun heq ↦ h (blockKey_inj.mp heq)
  | writeProposal block => exact OrderedStore.find?_insert_of_ne _ _ (blockKey_ne_proposalKey round)
  | deleteProposal => exact OrderedStore.find?_erase_of_ne _ (blockKey_ne_proposalKey round)

theorem storedProposal_apply (op : StoreOp C) (store : BlockStore C) :
    storedProposal (op.apply store) =
      match op with
      | .writeBlock _ _ => storedProposal store
      | .deleteBlock _ => storedProposal store
      | .writeProposal block => some block
      | .deleteProposal => none := by
  unfold storedProposal StoreOp.apply
  cases op with
  | writeBlock round block =>
    exact OrderedStore.find?_insert_of_ne _ _ (blockKey_ne_proposalKey round).symm
  | deleteBlock round => exact OrderedStore.find?_erase_of_ne _ (blockKey_ne_proposalKey round).symm
  | writeProposal block => exact OrderedStore.find?_insert_self _ _ _
  | deleteProposal => exact OrderedStore.find?_erase_self _ _

/-! ## Node state -/

structure NodeState (C : Type) where
  status : Status := .initializing
  /-- First certificate of this process; nil when it started from genesis. -/
  fuc : Option UnicityCertificate := none
  /-- Latest certificate seen; ahead of the committed one during recovery. -/
  luc : Option UnicityCertificate := none
  /-- Technical record of the latest certificate; nil when that one came with a block. -/
  ltr : Option TechnicalRecord := none
  leader : PeerID := ""
  pendingBlockProposal : Option (Block C) := none
  recoveryLastProp : Option BlockProposal := none
  shardConf : PartitionDescriptionRecord
  /-- The one-slot channel that schedules an epoch change. -/
  epochChangeEvent : Bool := false
  transactionSystem : FGPTxSystem
  blockStore : BlockStore C
  /-- Requests waiting for a replication worker. -/
  replicationCh : List LedgerReplicationRequest := []

/-- A message handed to the network and the state of its sender at that moment. -/
structure Sent (C : Type) where
  message : Message C
  receivers : List PeerID
  sender : NodeState C

structure Node (C : Type) extends NodeState C where
  storeLog : List (StoreOp C) := []
  sent : List (Sent C) := []

/-- Handlers stop at their first error and keep what they changed before it. -/
abbrev NodeM (C : Type) := EStateM Err (Node C)

structure ReplicationConfig where
  maxFetchBlocks : UInt64 := 1000
  maxReturnBlocks : UInt64 := 1000
  maxWorkers : UInt64 := 10

structure NodeConf where
  peerID : PeerID
  signHash : Slice → Except Err Slice
  signBytes : Slice → Except Err Slice
  /-- `TrustBaseStore.GetByEpoch`. -/
  trustBaseByEpoch : UInt64 → Except Err RootTrustBase
  /-- `ShardConfStore.Get`. -/
  shardConfByEpoch : UInt64 → Except Err PartitionDescriptionRecord
  /-- The smallest epoch in the shard configuration store. -/
  firstShardEpoch : Option UInt64
  replicationConfig : ReplicationConfig := {}

/-- `ShardConfStore.GetFirst`. -/
def NodeConf.firstShardConf (conf : NodeConf) : Except Err PartitionDescriptionRecord :=
  match conf.firstShardEpoch with
  | none => .error "empty shard conf db"
  | some epoch => conf.shardConfByEpoch epoch

/-- The configuration is one of those in the shard configuration store. -/
def NodeConf.Loads (conf : NodeConf) (shardConf : PartitionDescriptionRecord) : Prop :=
  ∃ epoch, conf.shardConfByEpoch epoch = .ok shardConf

/-- All configurations in the shard configuration store name one shard. `NewShardConfStore` checks
this of the store it opens, but the command stores its own files only after the check. -/
def NodeConf.OneShard (conf : NodeConf) : Prop :=
  ∀ shardConf shardConf', conf.Loads shardConf → conf.Loads shardConf' →
    shardConf.partitionID = shardConf'.partitionID ∧ shardConf.shardID = shardConf'.shardID

/-- How the surroundings of the node answer during one handler. -/
structure Env where
  pow : PowClient
  readBlock : List UInt8 → Except Err Unit := fun _ ↦ .ok ()
  readProposal : Except Err Unit := .ok ()
  writeBlock : Except Err Unit := .ok ()
  deleteBlock : Except Err Unit := .ok ()
  writeProposal : Except Err Unit := .ok ()
  deleteProposal : Except Err Unit := .ok ()
  sendHandshake : Except Err Unit := .ok ()
  sendProposal : Except Err Unit := .ok ()
  sendRequest : Except Err Unit := .ok ()
  sendReplication : PeerID → Except Err Unit := fun _ ↦ .ok ()
  sendResponse : Except Err Unit := .ok ()
  shuffle : List PeerID → List PeerID := id
  uuid : ℕ := 0

/-! ## Reading the state -/

namespace NodeState

variable (n : NodeState C)

def committedUC : Option UnicityCertificate := n.transactionSystem.committedUC

def currentEpoch : UInt64 :=
  match n.ltr with
  | some ltr => ltr.epoch
  | none => getShardEpoch n.luc

def currentRoundNumber : UInt64 :=
  match n.ltr with
  | some ltr => ltr.round
  | none => getRoundNumber n.luc + 1

/-- Recovery is complete when the committed round is the latest known one. -/
def isRecoveryComplete : Bool := getRoundNumber n.committedUC == getRoundNumber n.luc

/-- A validator whose identifier does not decode leaves an empty entry. -/
def validators (lib : BaseLibrary C) : List PeerID :=
  n.shardConf.validators.map fun validator ↦
    match lib.decodePeerID validator.nodeID with
    | .ok id => id
    | .error _ => ""

def filterValidatorNodes (lib : BaseLibrary C) (exclude : PeerID) : List PeerID :=
  (n.validators lib).filter fun id ↦ decide (id ≠ exclude)

def rootValidators (lib : BaseLibrary C) (conf : NodeConf) : Except Err (List PeerID) := do
  let rootEpoch := getRootEpoch n.luc
  let trustBase ← (conf.trustBaseByEpoch rootEpoch).mapError fun err ↦
    s!"failed to load trust base for epoch {rootEpoch}: {err}"
  trustBase.rootNodes.mapM fun validator ↦
    (lib.decodePeerID validator.nodeID).mapError fun err ↦
      s!"failed to decode root validator ID {validator.nodeID}: {err}"

end NodeState

/-! ## Choosing receivers -/

def randomNodeSelector (shuffle : List PeerID → List PeerID) (nodes : List PeerID)
    (upToNodes : ℕ) : Except Err (List PeerID) :=
  if nodes.length < 1 then .error "node list is empty"
  else if upToNodes = 0 then .error "invalid parameter, number of nodes to select is 0"
  else if nodes.length ≤ upToNodes then .ok nodes
  else .ok ((shuffle nodes).take upToNodes)

/-- One round of the selection loop: append, advance with wrap-around, stop at the start index or
when enough nodes are chosen. -/
def selectNodes (nodes : List PeerID) (index upToNodes : ℕ) :
    ℕ → ℕ → List PeerID → Option (List PeerID)
  | 0, _, _ => none
  | fuel + 1, idx, chosen =>
    match nodes[idx]? with
    | none => none
    | some node =>
      let chosen := chosen ++ [node]
      let idx := if nodes.length ≤ idx + 1 then 0 else idx + 1
      if idx = index ∨ chosen.length = upToNodes then some chosen
      else selectNodes nodes index upToNodes fuel idx chosen

def rootNodesSelector (lib : BaseLibrary C) (luc : Option UnicityCertificate)
    (nodes : List PeerID) (upToNodes : ℕ) : Except Err (List PeerID) :=
  match luc with
  | none => .error "UC is nil"
  | some uc =>
    if nodes.length < 1 then .error "root node list is empty"
    else if upToNodes = 0 then .error "invalid parameter, number of nodes to select is 0"
    else if nodes.length ≤ upToNodes then .ok nodes
    else
      match lib.certificateHash uc with
      | .error err => .error s!"failed to hash UC: {err}"
      | .ok hash =>
        let value := hash.foldl (fun value byte ↦ value * 256 + byte.toNat) 0
        let index := value % nodes.length
        match selectNodes nodes index upToNodes nodes.length index [] with
        | some chosen => .ok chosen
        | none => .error "index out of range"

/-! ## Elementary changes -/

namespace Node

variable (n : Node C)

/-- Perform a mutation of the block store. -/
def store (op : StoreOp C) : Node C :=
  { n with blockStore := op.apply n.blockStore, storeLog := n.storeLog ++ [op] }

/-- Hand a message to the network. -/
def post (message : Message C) (receivers : List PeerID) : Node C :=
  { n with sent := n.sent ++ [⟨message, receivers, n.toNodeState⟩] }

def setTx (transactionSystem : FGPTxSystem) : Node C :=
  { n with transactionSystem := transactionSystem }

def setStatus (status : Status) : Node C := { n with status := status }

def revertState : Node C := n.setTx n.transactionSystem.revert

def resetProposal : Node C := { n with pendingBlockProposal := none }

def setProposal (block : Block C) : Node C := { n with pendingBlockProposal := some block }

/-- A failed delete of the stored proposal is only logged. -/
def deletePendingProposal (env : Env) : Node C :=
  match env.deleteProposal with
  | .ok _ => n.store .deleteProposal
  | .error _ => n

def startNewRound (env : Env) : Node C := n.resetProposal.deletePendingProposal env

/-- The request for the blocks after the committed one; the range end wraps like the program's. -/
def replicationRequest (lib : BaseLibrary C) (conf : NodeConf) (env : Env) :
    LedgerReplicationRequest :=
  let startingBlockNr := getRoundNumber n.committedUC + 1
  { uuid := env.uuid
    partitionID := n.shardConf.partitionID
    shardID := n.shardConf.shardID
    nodeID := lib.peerIDString conf.peerID
    beginBlockNumber := startingBlockNr
    endBlockNumber := startingBlockNr + conf.replicationConfig.maxFetchBlocks }

/-- Try the peers in order until one send succeeds. -/
def postReplicationRequest (conf : NodeConf) (env : Env) (request : LedgerReplicationRequest) :
    List PeerID → Node C → Node C
  | [], n => n
  | peer :: rest, n =>
    if conf.peerID = peer then postReplicationRequest conf env request rest n
    else
      match env.sendReplication peer with
      | .ok _ => n.post (.replicationRequest request) [peer]
      | .error _ =>
        postReplicationRequest conf env request rest (n.post (.replicationRequest request) [peer])

def sendLedgerReplicationRequest (lib : BaseLibrary C) (conf : NodeConf) (env : Env) : Node C :=
  postReplicationRequest conf env (n.replicationRequest lib conf env)
    (env.shuffle (n.validators lib)) n

def startRecovery (lib : BaseLibrary C) (conf : NodeConf) (env : Env) : Node C :=
  if n.status = .recovering then n
  else (n.setStatus .recovering).revertState.resetProposal.sendLedgerReplicationRequest lib conf env

def stopRecovery : Node C := n.setStatus .normal

def sendHandshake (lib : BaseLibrary C) (conf : NodeConf) (env : Env) : Node C :=
  match n.rootValidators lib conf with
  | .error _ => n
  | .ok rootValidators =>
    match randomNodeSelector env.shuffle rootValidators 3 with
    | .error _ => n
    | .ok rootIDs =>
      n.post (.handshake ⟨n.shardConf.partitionID, n.shardConf.shardID,
        lib.peerIDString conf.peerID⟩) rootIDs

end Node

/-! ## What elementary changes keep -/

namespace Node

variable (n : Node C)

/-- The certification requests handed to the network, each with the state it was sent in. -/
def requests : List (NodeState C × BlockCertificationRequest) :=
  n.sent.filterMap fun sent ↦
    match sent.message with
    | .certificationRequest request => some (sent.sender, request)
    | _ => none

@[simp]
theorem setTx_ltr (transactionSystem : FGPTxSystem) : (n.setTx transactionSystem).ltr = n.ltr := rfl

/-- The store after the delete of a stored proposal, which may fail. -/
def storeAfterDelete (env : Env) (store : BlockStore C) : BlockStore C :=
  match env.deleteProposal with
  | .ok _ => StoreOp.deleteProposal.apply store
  | .error _ => store

theorem deletePendingProposal_toNodeState (env : Env) :
    (n.deletePendingProposal env).toNodeState =
      { n.toNodeState with blockStore := storeAfterDelete env n.blockStore } := by
  unfold deletePendingProposal storeAfterDelete
  split <;> rfl

theorem deletePendingProposal_sent (env : Env) : (n.deletePendingProposal env).sent = n.sent := by
  unfold deletePendingProposal
  split <;> rfl

theorem startNewRound_toNodeState (env : Env) :
    (n.startNewRound env).toNodeState =
      { n.toNodeState with
        pendingBlockProposal := none
        blockStore := storeAfterDelete env n.blockStore } :=
  n.resetProposal.deletePendingProposal_toNodeState env

@[simp]
theorem startNewRound_requests (env : Env) : (n.startNewRound env).requests = n.requests := by
  unfold requests startNewRound
  rw [deletePendingProposal_sent]
  rfl

theorem postReplicationRequest_frame (conf : NodeConf) (env : Env)
    (request : LedgerReplicationRequest) (peers : List PeerID) :
    (postReplicationRequest conf env request peers n).toNodeState = n.toNodeState ∧
      (postReplicationRequest conf env request peers n).storeLog = n.storeLog ∧
      (postReplicationRequest conf env request peers n).requests = n.requests := by
  induction peers generalizing n with
  | nil => exact ⟨rfl, rfl, rfl⟩
  | cons peer rest ih =>
    have hpost : (n.post (.replicationRequest request) [peer]).requests = n.requests := by
      simp [requests, post]
    unfold postReplicationRequest
    split
    · exact ih n
    · split
      · exact ⟨rfl, rfl, hpost⟩
      · obtain ⟨hstate, hlog, hrequests⟩ := ih (n.post (.replicationRequest request) [peer])
        exact ⟨hstate, hlog, hrequests.trans hpost⟩

section Recovery

variable (lib : BaseLibrary C) (conf : NodeConf) (env : Env)

@[simp]
theorem sendLedgerReplicationRequest_toNodeState :
    (n.sendLedgerReplicationRequest lib conf env).toNodeState = n.toNodeState :=
  (n.postReplicationRequest_frame conf env _ _).1

@[simp]
theorem sendLedgerReplicationRequest_storeLog :
    (n.sendLedgerReplicationRequest lib conf env).storeLog = n.storeLog :=
  (n.postReplicationRequest_frame conf env _ _).2.1

@[simp]
theorem sendLedgerReplicationRequest_requests :
    (n.sendLedgerReplicationRequest lib conf env).requests = n.requests :=
  (n.postReplicationRequest_frame conf env _ _).2.2

theorem startRecovery_of_recovering (h : n.status = .recovering) :
    n.startRecovery lib conf env = n := by
  simp [startRecovery, h]

theorem startRecovery_toNodeState (h : n.status ≠ .recovering) :
    (n.startRecovery lib conf env).toNodeState =
      { n.toNodeState with
        status := .recovering
        transactionSystem := n.transactionSystem.revert
        pendingBlockProposal := none } := by
  rw [startRecovery, if_neg h, sendLedgerReplicationRequest_toNodeState]
  rfl

@[simp]
theorem startRecovery_storeLog : (n.startRecovery lib conf env).storeLog = n.storeLog := by
  unfold startRecovery
  split
  · rfl
  · exact sendLedgerReplicationRequest_storeLog _ lib conf env

@[simp]
theorem startRecovery_requests : (n.startRecovery lib conf env).requests = n.requests := by
  unfold startRecovery
  split
  · rfl
  · exact sendLedgerReplicationRequest_requests _ lib conf env

@[simp]
theorem sendHandshake_toNodeState :
    (n.sendHandshake lib conf env).toNodeState = n.toNodeState := by
  unfold sendHandshake
  split
  · rfl
  · split <;> rfl

@[simp]
theorem sendHandshake_storeLog : (n.sendHandshake lib conf env).storeLog = n.storeLog := by
  unfold sendHandshake
  split
  · rfl
  · split <;> rfl

@[simp]
theorem sendHandshake_requests : (n.sendHandshake lib conf env).requests = n.requests := by
  unfold sendHandshake
  split
  · rfl
  · split
    · rfl
    · simp [requests, post]

end Recovery

end Node

/-- Run an operation of the transaction system. -/
def onTx {α : Type} (operation : TxM α) : NodeM C α :=
  zoom (fun n ↦ n.transactionSystem) Node.setTx operation

theorem onTx_of_ok {α : Type} {operation : TxM α} {n : Node C} {value : α} {s : FGPTxSystem}
    (h : operation.run n.transactionSystem = .ok value s) :
    (onTx operation).run n = .ok value (n.setTx s) := by
  rw [onTx, run_zoom, h]

theorem onTx_of_error {α : Type} {operation : TxM α} {n : Node C} {err : Err} {s : FGPTxSystem}
    (h : operation.run n.transactionSystem = .error err s) :
    (onTx operation).run n = .error err (n.setTx s) := by
  rw [onTx, run_zoom, h]

/-- On an error, roll the transaction system back and report the error. -/
def orRevert {α : Type} (wrap : Err → Err) (program : NodeM C α) : NodeM C α :=
  tryCatch program fun err ↦ do
    modify Node.revertState
    throw (wrap err)

/-! ## Store helpers -/

def storeBlock (env : Env) (round : UInt64) (block : Block C) : NodeM C Unit := do
  ofExcept id env.writeBlock
  modify fun n ↦ n.store (.writeBlock round block)

def deleteBlock (env : Env) (round : UInt64) : NodeM C Unit := do
  ofExcept id env.deleteBlock
  modify fun n ↦ n.store (.deleteBlock round)

def storePendingProposal (env : Env) (block : Block C) : NodeM C Unit := do
  ofExcept (fun err ↦ s!"persist error, {err}") env.writeProposal
  modify fun n ↦ n.store (.writeProposal block)

/-- The certificate inside a block. -/
def getUCv1 (lib : BaseLibrary C) (block : Option (Block C)) : Except Err UnicityCertificate :=
  match block with
  | none => .error "block is nil"
  | some b =>
    match b.unicityCertificate with
    | none => .error "block unicity certificate is nil"
    | some encoded => lib.unmarshal encoded

/-- Persist the block before committing it; when the commit fails, remove the block again. -/
def finalizeBlock (env : Env) (block : Block C) (uc : UnicityCertificate) : NodeM C Unit := do
  let blockNumber := getRoundNumber (some uc)
  let n ← get
  onlyIf (n.status ≠ .initializing) do
    EStateM.adaptExcept (fun err ↦ s!"db write failed, {err}") (storeBlock env blockNumber block)
  tryCatch (onTx (FGPTxSystem.commit uc)) fun err ↦ do
    let err := s!"unable to finalize block {blockNumber}: {err}"
    onlyIf (n.status ≠ .initializing) do
      EStateM.adaptExcept
        (fun err2 ↦ err ++ s!"\nunable to delete block {blockNumber} from store: {err2}")
        (deleteBlock env blockNumber)
    throw err

/-- The node after storing a block and certifying its state. -/
def Node.finalized (n : Node C) (block : Block C) (uc : UnicityCertificate) : Node C :=
  (n.store (.writeBlock (getRoundNumber (some uc)) block)).setTx (n.transactionSystem.committed uc)

/-- How `finalizeBlock` ends once the node has left its initial status. -/
inductive Finalized (env : Env) (block : Block C) (uc : UnicityCertificate) (n : Node C) :
    EStateM.Result Err (Node C) Unit → Prop where
  | unwritten (err : Err) (hwrite : env.writeBlock ≠ .ok ()) :
      Finalized env block uc n (.error err n)
  | mismatched (err : Err)
      (hne : n.transactionSystem.pendingStateHash.bytes ≠ (getStateHash (some uc)).bytes)
      (hdelete : env.deleteBlock = .ok ()) :
      Finalized env block uc n (.error err
        ((n.store (.writeBlock (getRoundNumber (some uc)) block)).store
          (.deleteBlock (getRoundNumber (some uc)))))
  | undeleted (err : Err)
      (hne : n.transactionSystem.pendingStateHash.bytes ≠ (getStateHash (some uc)).bytes)
      (hdelete : env.deleteBlock ≠ .ok ()) :
      Finalized env block uc n (.error err
        (n.store (.writeBlock (getRoundNumber (some uc)) block)))
  | committed (hwrite : env.writeBlock = .ok ())
      (heq : n.transactionSystem.pendingStateHash.bytes = (getStateHash (some uc)).bytes) :
      Finalized env block uc n (.ok () (n.finalized block uc))

theorem finalizeBlock_spec (env : Env) (block : Block C) (uc : UnicityCertificate) (n : Node C)
    (hstatus : n.status ≠ .initializing) :
    Finalized env block uc n ((finalizeBlock env block uc).run n) := by
  have hstored : (storeBlock env (getRoundNumber (some uc)) block).run n =
      match env.writeBlock with
      | .ok _ => .ok () (n.store (.writeBlock (getRoundNumber (some uc)) block))
      | .error err => .error err n := by
    unfold storeBlock
    cases env.writeBlock <;> rfl
  refine exec_get (exec_onlyIf (fun _ ↦ ?_) fun h ↦ absurd hstatus h)
  refine exec_adaptExcept (fun err after hrun ↦ ?_) fun _ after hrun ↦ ?_
  · rw [hstored] at hrun
    cases hwrite : env.writeBlock with
    | ok _ => simp [hwrite] at hrun
    | error err =>
      simp only [hwrite] at hrun
      cases hrun
      exact .unwritten _ (by simp [hwrite])
  · rw [hstored] at hrun
    cases hwrite : env.writeBlock with
    | error err => simp [hwrite] at hrun
    | ok _ =>
      simp only [hwrite] at hrun
      cases hrun
      -- the commit decides; its failure removes the block again
      by_cases heq : n.transactionSystem.pendingStateHash.bytes = (getStateHash (some uc)).bytes
      · have hcommit := FGPTxSystem.commit_of_equal heq
        simp only [onTx, run_tryCatch, run_zoom]
        simp only [Node.store, hcommit]
        exact .committed hwrite heq
      · obtain ⟨err, hcommit⟩ := FGPTxSystem.commit_of_ne heq
        simp only [onTx, run_tryCatch, run_zoom]
        simp only [Node.store, hcommit]
        cases hdelete : env.deleteBlock with
        | ok _ =>
          refine exec_onlyIf (fun _ ↦ ?_) fun h ↦ absurd hstatus h
          simp only [deleteBlock, hdelete]
          exact .mismatched _ heq hdelete
        | error err2 =>
          refine exec_onlyIf (fun _ ↦ ?_) fun h ↦ absurd hstatus h
          simp only [deleteBlock, hdelete]
          exact .undeleted _ heq (by simp [hdelete])

end FinalityGadget
