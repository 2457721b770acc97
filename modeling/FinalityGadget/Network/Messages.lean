import FinalityGadget.Types.Certificates

/-!
# Protocol messages

The messages a validator receives from root nodes and from the other validators of its shard, and
the ones it sends. A message arrives as a pointer, so the handlers take an option.
-/

namespace FinalityGadget

open Bytes

/-- Synchronization for the next block production attempt of a shard. -/
structure TechnicalRecord where
  round : UInt64 := 0
  epoch : UInt64 := 0
  leader : String := ""
  statHash : Slice := none
  feeHash : Slice := none
  deriving DecidableEq, Inhabited

structure CertificationResponse where
  partition : PartitionID := 0
  shard : ShardID := []
  technical : TechnicalRecord := {}
  uc : UnicityCertificate := {}
  deriving DecidableEq, Inhabited

structure BlockProposal where
  partitionID : PartitionID := 0
  shardID : ShardID := []
  nodeID : PeerID := ""
  unicityCertificate : Option UnicityCertificate := none
  technical : TechnicalRecord := {}
  proposedRoot : Slice := none
  signature : Slice := none
  deriving DecidableEq, Inhabited

structure BlockCertificationRequest where
  partitionID : PartitionID := 0
  shardID : ShardID := []
  nodeID : String := ""
  inputRecord : Option InputRecord := none
  blockSize : UInt64 := 0
  stateSize : UInt64 := 0
  signature : Slice := none
  deriving DecidableEq, Inhabited

structure Handshake where
  partitionID : PartitionID := 0
  shardID : ShardID := []
  nodeID : String := ""
  deriving DecidableEq, Inhabited

structure LedgerReplicationRequest where
  uuid : ℕ := 0
  partitionID : PartitionID := 0
  shardID : ShardID := []
  nodeID : String := ""
  beginBlockNumber : UInt64 := 0
  endBlockNumber : UInt64 := 0
  deriving DecidableEq, Inhabited

inductive ReplicationStatus where
  | ok
  | invalidRequestParameters
  | wrongShard
  | blocksNotFound
  | unknown
  | busy
  /-- A status code outside the enumeration. -/
  | other (code : ℤ)
  deriving DecidableEq, Inhabited

def ReplicationStatus.toText : ReplicationStatus → String
  | .ok => "OK"
  | .blocksNotFound => "Blocks Not Found"
  | .invalidRequestParameters => "Invalid Request Parameters"
  | .wrongShard => "Wrong Partition or Shard Identifier"
  | .unknown => "Unknown"
  | .busy => "Busy"
  | .other _ => "Unknown Status Code"

structure LedgerReplicationResponse (C : Type) where
  uuid : ℕ := 0
  status : ReplicationStatus := .ok
  message : String := ""
  blocks : Option (List (Option (Block C))) := none
  firstBlockNumber : UInt64 := 0
  lastBlockNumber : UInt64 := 0
  deriving DecidableEq, Inhabited

/-- What a node hands to its network for sending. -/
inductive Message (C : Type) where
  | handshake (msg : Handshake)
  | blockProposal (msg : BlockProposal)
  | certificationRequest (msg : BlockCertificationRequest)
  | replicationRequest (msg : LedgerReplicationRequest)
  | replicationResponse (msg : LedgerReplicationResponse C)
  deriving DecidableEq

end FinalityGadget
