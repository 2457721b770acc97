import FinalityGadget.Foundation.Bytes

/-!
# Certificates, blocks and configurations

The records that the root chain, the shard and the block store exchange. A pointer that the program
compares with nil is an option; the getters are defined on the pointer, so that a missing
certificate has round zero and empty hashes. The certificate inside a block stays in its encoded
form: `C` is the type of encoded certificates.
-/

namespace FinalityGadget

open Bytes

abbrev Err := String

/-- A libp2p peer identifier; the empty string stands for an unknown peer. -/
abbrev PeerID := String

abbrev PartitionID := UInt32

abbrev ShardID := List Bool

structure InputRecord where
  version : UInt32 := 1
  roundNumber : UInt64 := 0
  epoch : UInt64 := 0
  previousHash : Slice := none
  hash : Slice := none
  summaryValue : Slice := none
  timestamp : UInt64 := 0
  blockHash : Slice := none
  sumOfEarnedFees : UInt64 := 0
  etHash : Slice := none
  deriving DecidableEq, Inhabited

/-- Two records agree in every field, with slices compared byte by byte. -/
structure InputRecord.Same (left right : InputRecord) : Prop where
  version : left.version = right.version
  roundNumber : left.roundNumber = right.roundNumber
  epoch : left.epoch = right.epoch
  previousHash : left.previousHash.bytes = right.previousHash.bytes
  hash : left.hash.bytes = right.hash.bytes
  summaryValue : left.summaryValue.bytes = right.summaryValue.bytes
  timestamp : left.timestamp = right.timestamp
  blockHash : left.blockHash.bytes = right.blockHash.bytes
  sumOfEarnedFees : left.sumOfEarnedFees = right.sumOfEarnedFees
  etHash : left.etHash.bytes = right.etHash.bytes

structure UnicityTreeCertificate where
  version : UInt32 := 1
  partition : PartitionID := 0
  hashSteps : Slice := none
  deriving DecidableEq, Inhabited

structure UnicitySeal where
  version : UInt32 := 1
  epoch : UInt64 := 0
  rootChainRoundNumber : UInt64 := 0
  timestamp : UInt64 := 0
  previousHash : Slice := none
  hash : Slice := none
  signatures : Slice := none
  deriving DecidableEq, Inhabited

structure UnicityCertificate where
  version : UInt32 := 1
  inputRecord : Option InputRecord := none
  trHash : Slice := none
  shardConfHash : Slice := none
  shardTreeCertificate : Slice := none
  unicityTreeCertificate : Option UnicityTreeCertificate := none
  unicitySeal : Option UnicitySeal := none
  deriving DecidableEq, Inhabited

/-! ## Getters of a possibly missing certificate -/

section Getters

variable (uc : Option UnicityCertificate)

def getInputRecord : Option InputRecord := uc.bind UnicityCertificate.inputRecord

def getUnicitySeal : Option UnicitySeal := uc.bind UnicityCertificate.unicitySeal

def getRoundNumber : UInt64 := (getInputRecord uc).elim 0 InputRecord.roundNumber

def getStateHash : Slice := (getInputRecord uc).bind InputRecord.hash

def getPreviousStateHash : Slice := (getInputRecord uc).bind InputRecord.previousHash

def getBlockHash : Slice := (getInputRecord uc).bind InputRecord.blockHash

def getETHash : Slice := (getInputRecord uc).bind InputRecord.etHash

/-- The shard epoch is the epoch of the input record. -/
def getShardEpoch : UInt64 := (getInputRecord uc).elim 0 InputRecord.epoch

def getRootRoundNumber : UInt64 := (getUnicitySeal uc).elim 0 UnicitySeal.rootChainRoundNumber

def getRootEpoch : UInt64 := (getUnicitySeal uc).elim 0 UnicitySeal.epoch

/-- The timestamp of the seal, which the program reads without a getter. -/
def getTimestamp : UInt64 := (getUnicitySeal uc).elim 0 UnicitySeal.timestamp

end Getters

@[simp] theorem getRootRoundNumber_none : getRootRoundNumber none = 0 := rfl

/-- The two certificates are about one record. -/
def UnicityCertificate.SameIR (uc other : UnicityCertificate) : Prop :=
  ∃ ir record, uc.inputRecord = some ir ∧ other.inputRecord = some record ∧ ir.Same record

theorem getStateHash_of_record {uc : UnicityCertificate} {ir : InputRecord}
    (h : uc.inputRecord = some ir) : getStateHash (some uc) = ir.hash := by
  simp [getStateHash, getInputRecord, h]

theorem UnicityCertificate.SameIR.stateHash_eq {uc other : UnicityCertificate}
    (h : uc.SameIR other) : (getStateHash (some uc)).bytes = (getStateHash (some other)).bytes := by
  obtain ⟨ir, record, hir, hrecord, hsame⟩ := h
  rw [getStateHash_of_record hir, getStateHash_of_record hrecord, hsame.hash]

@[simp] theorem getStateHash_none : getStateHash none = none := rfl

/-! ## Blocks -/

structure Header where
  version : UInt32 := 1
  partitionID : PartitionID := 0
  shardID : ShardID := []
  proposerID : String := ""
  previousBlockHash : Slice := none
  deriving DecidableEq, Inhabited

structure Block (C : Type) where
  header : Option Header := none
  unicityCertificate : Option C := none
  transactions : Option (List (List UInt8)) := none
  deriving DecidableEq, Inhabited

/-- The previous block hash in the header of a block. -/
def Block.previousBlockHash {C : Type} (block : Block C) : Slice :=
  block.header.bind Header.previousBlockHash

/-! ## Configurations -/

structure NodeInfo where
  nodeID : String
  sigKey : Slice := none
  deriving DecidableEq, Inhabited

structure PartitionDescriptionRecord where
  version : UInt32 := 1
  networkID : UInt16 := 0
  partitionTypeID : UInt32 := 0
  partitionID : PartitionID := 0
  shardID : ShardID := []
  epoch : UInt64 := 0
  validators : List NodeInfo := []
  partitionParams : List (String × String) := []
  deriving DecidableEq, Inhabited

structure RootTrustBase where
  epoch : UInt64 := 0
  rootNodes : List NodeInfo := []
  deriving DecidableEq, Inhabited

end FinalityGadget
