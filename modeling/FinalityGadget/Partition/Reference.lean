import FinalityGadget.Partition.Startup
import FinalityGadget.TxSystem.Reference
import FinalityGadget.Types.Reference

/-!
# A reference shard

Nodes of a shard of two validators over the reference library and the reference proof-of-work
chain. Every node of the shard starts on an empty store.
-/

namespace FinalityGadget.Reference

open Bytes Fallible

/-- The configuration of the validator with the given identifier and key. -/
def conf (id : PeerID) (key : List UInt8) : NodeConf where
  peerID := id
  signHash hash := .ok (some (key ++ hash.bytes))
  signBytes data := .ok data
  trustBaseByEpoch epoch := .ok { epoch := epoch, rootNodes := [{ nodeID := "R" }] }
  shardConfByEpoch _ := .ok shardConf
  firstShardEpoch := some 0

theorem conf_oneShard (id : PeerID) (key : List UInt8) : (conf id key).OneShard := by
  rintro _ _ ⟨_, ⟨⟩⟩ ⟨_, ⟨⟩⟩
  exact ⟨rfl, rfl⟩

/-- Surroundings in which nothing fails. -/
def env (tip : UInt8) : Env := { pow := pow tip }

/-- The node of a validator before its first event, on an empty store. -/
def node : Node UnicityCertificate where
  shardConf := shardConf
  transactionSystem := .fresh shardConf 1
  blockStore := OrderedStore.empty

theorem starts_empty {issued : UnicityCertificate → Bool} (id : PeerID) (key : List UInt8) :
    Starts (libraryOf issued) (conf id key) OrderedStore.empty node :=
  ⟨shardConf, _, env 0, env 0, rfl, rfl⟩

/-- The technical record that opens a round with the given leader. -/
def technical (round : UInt64) (leader : PeerID) : TechnicalRecord where
  round := round
  leader := leader
  statHash := some [1]
  feeHash := some [1]

/-- A certificate of the shard: an input record sealed in a root round, with the record that opens
the next round. -/
def certify (record : InputRecord) (rootRound : UInt64) (tr : TechnicalRecord) :
    UnicityCertificate where
  inputRecord := some record
  trHash := match referenceLibrary.technicalRecordHash tr with
    | .ok hash => some hash
    | .error _ => none
  shardConfHash := some (uint64ToBytes 0)
  unicityTreeCertificate := some { partition := 1 }
  unicitySeal := some { rootChainRoundNumber := rootRound, timestamp := rootRound }

/-- The response of the root chain that delivers a certificate. -/
def response (uc : UnicityCertificate) (tr : TechnicalRecord) : CertificationResponse where
  partition := 1
  technical := tr
  uc := uc

/-- An event handled while nothing fails. -/
def input (tip : UInt8) (event : Event UnicityCertificate) : Input UnicityCertificate where
  event := event
  envs _ := env tip

/-- The delivery of a certificate together with its technical record. -/
def deliver (record : InputRecord) (rootRound : UInt64) (tr : TechnicalRecord) :
    Input UnicityCertificate :=
  input 10 (.certificationResponse (some (response (certify record rootRound tr) tr)))

/-- The initial certificate makes `A` the leader, and its timer fires with the chain at height
10. -/
def proposing : List (Input UnicityCertificate) :=
  [deliver { roundNumber := 1 } 5 (technical 2 "A"), input 10 .t1Timeout]

/-- The record `A` asks to certify in that run. -/
def proposedRecord : InputRecord where
  roundNumber := 2
  hash := some [10]
  summaryValue := some []
  timestamp := 5
  blockHash := some [10]

/-- The block `A` proposes in that run. -/
def proposedBlock : Block UnicityCertificate where
  header := some { partitionID := 1, proposerID := "A" }
  unicityCertificate := some { inputRecord := some proposedRecord }
  transactions := some []

theorem proposing_storeLog : (runNode referenceLibrary (conf "A" [1]) node proposing).storeLog =
    [.deleteProposal, .writeProposal proposedBlock] := rfl

/-- The same run with the proposal certified. -/
def finalizing : List (Input UnicityCertificate) :=
  proposing ++ [deliver proposedRecord 6 (technical 3 "A")]

/-- The certificate of that proposal. -/
def proposalUC : UnicityCertificate := certify proposedRecord 6 (technical 3 "A")

/-- The block `A` stores when its proposal is certified. -/
def finalizedBlock : Block UnicityCertificate :=
  { proposedBlock with unicityCertificate := some proposalUC }

theorem finalizing_storeLog :
    (runNode referenceLibrary (conf "A" [1]) node finalizing).storeLog =
      [.deleteProposal, .writeProposal proposedBlock, .writeBlock 2 finalizedBlock,
        .deleteProposal] := rfl

/-- The node that starts on the store with that block. -/
def restarted : Node UnicityCertificate where
  fuc := some proposalUC
  luc := some proposalUC
  shardConf := shardConf
  transactionSystem := ((FGPTxSystem.fresh shardConf 1).setPending (some [10]) 10).committed
    proposalUC
  blockStore := applyOps OrderedStore.empty
    [.deleteProposal, .writeProposal proposedBlock, .writeBlock 2 finalizedBlock, .deleteProposal]

theorem starts_finalized {issued : UnicityCertificate → Bool} (id : PeerID) (key : List UInt8) :
    Starts (libraryOf issued) (conf id key) restarted.blockStore restarted :=
  ⟨shardConf, _, env 10, env 10, rfl, rfl⟩

/-- The record of the next proposal of `A`, at height 11. -/
def nextRecord : InputRecord where
  roundNumber := 3
  previousHash := some [10]
  hash := some [11]
  summaryValue := some []
  timestamp := 6
  blockHash := some [10, 11]

/-- The block of that proposal. -/
def nextBlock : Block UnicityCertificate where
  header := some { partitionID := 1, proposerID := "A", previousBlockHash := some [10] }
  unicityCertificate := some { inputRecord := some nextRecord }
  transactions := some []

/-- The certificate of that record, sealed in the given root round. -/
def nextUC (rootRound : UInt64) : UnicityCertificate :=
  certify nextRecord rootRound (technical 4 "A")

end FinalityGadget.Reference
