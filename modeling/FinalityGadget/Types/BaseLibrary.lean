import FinalityGadget.Network.Messages

/-!
# The base library

Certificate verification, certificate comparison, the CBOR codec, block hashing and signatures come
from packages outside this repository. They are the fields of one record, and what the node relies
on about them is stated as separate laws, so that each result names the ones it uses.
-/

namespace FinalityGadget

open Bytes

/-- Functions of the base library and of libp2p that the node calls. `C` is the type of CBOR-encoded
certificates. -/
structure BaseLibrary (C : Type) where
  /-- `UnicityCertificate.Verify`, on a possibly nil receiver. -/
  verify : Option UnicityCertificate → RootTrustBase → PartitionID → ShardID → Slice →
    Except Err Unit
  isDuplicate : UnicityCertificate → Option UnicityCertificate → Bool
  isRepeat : UnicityCertificate → Option UnicityCertificate → Except Err Bool
  isSuccessor : UnicityCertificate → Option UnicityCertificate → Bool
  isInitial : UnicityCertificate → Bool
  /-- `CheckNonEquivocatingCertificates`, older certificate first. -/
  checkNonEquivocatingCertificates : UnicityCertificate → UnicityCertificate → Except Err Unit
  /-- `UnicityCertificate.Hash` with SHA-256. -/
  certificateHash : UnicityCertificate → Except Err (List UInt8)
  assertEqualIR : Option InputRecord → Option InputRecord → Except Err Unit
  marshal : UnicityCertificate → Except Err C
  unmarshal : C → Except Err UnicityCertificate
  /-- `Block.CalculateBlockHash` returns the input record with its block hash filled in and leaves
  that record in the block, the second component. -/
  calculateBlockHash : Block C → Except Err (InputRecord × Block C)
  /-- `Block.InputRecord`. -/
  blockInputRecord : Block C → Except Err InputRecord
  /-- `Block.IsValid`, with the shard configuration hash to compare or nil. -/
  blockIsValid : Block C → Slice → Except Err Unit
  /-- `Block.Size`. -/
  blockSize : Block C → Except Err UInt64
  /-- `PartitionDescriptionRecord.Hash`. -/
  shardConfHash : PartitionDescriptionRecord → Except Err Slice
  findValidator : PartitionDescriptionRecord → String → Option NodeInfo
  /-- `NodeInfo.SigVerifier`, the public key a signature is checked with. -/
  sigVerifier : NodeInfo → Except Err (List UInt8)
  /-- `Verifier.VerifyHash` of a signature and a hash. -/
  verifyHash : List UInt8 → Slice → Slice → Except Err Unit
  /-- The hash of a technical record's CBOR encoding. -/
  technicalRecordHash : TechnicalRecord → Except Err (List UInt8)
  /-- The hash of a proposal's CBOR encoding, signature included. -/
  blockProposalHash : BlockProposal → Except Err (List UInt8)
  /-- The CBOR encoding of a certification request. -/
  requestBytes : BlockCertificationRequest → Except Err (List UInt8)
  /-- `peer.Decode`. -/
  decodePeerID : String → Except Err PeerID
  /-- `peer.ID.String`. -/
  peerIDString : PeerID → String

namespace BaseLibrary

variable {C : Type} (lib : BaseLibrary C)

/-! ## Laws -/

/-- A successor has a greater round and extends the state of its predecessor; a missing predecessor
counts as round zero with an empty hash. -/
structure SuccessorLaw : Prop where
  round_lt : ∀ {uc prev}, lib.isSuccessor uc prev = true →
    getRoundNumber prev < getRoundNumber (some uc)
  previousHash : ∀ {uc prev}, lib.isSuccessor uc prev = true →
    (getPreviousStateHash (some uc)).bytes = (getStateHash prev).bytes

/-- Duplicates are certificates of one root round. -/
structure DuplicateLaw : Prop where
  rootRound_eq : ∀ {uc prev}, lib.isDuplicate uc prev = true →
    getRootRoundNumber (some uc) = getRootRoundNumber prev
  of_rootRound_eq : ∀ {uc prev}, getRootRoundNumber (some uc) = getRootRoundNumber (some prev) →
    lib.isDuplicate uc (some prev) = true

/-- A certificate of a smaller root round never replaces the latest one. -/
def EquivocationLaw : Prop :=
  ∀ {luc uc}, lib.checkNonEquivocatingCertificates luc uc = .ok () →
    getRootRoundNumber (some luc) ≤ getRootRoundNumber (some uc)

/-- Neither does a certificate of a smaller round, or one of the same round with another record. -/
structure RoundLaw : Prop where
  round_le : ∀ {luc uc}, lib.checkNonEquivocatingCertificates luc uc = .ok () →
    getRoundNumber (some luc) ≤ getRoundNumber (some uc)
  sameIR : ∀ {luc uc}, lib.checkNonEquivocatingCertificates luc uc = .ok () →
    getRoundNumber (some luc) = getRoundNumber (some uc) → uc.SameIR luc

/-- A repeated certificate is about the record of its predecessor, in a later root round. -/
def RepeatLaw : Prop :=
  ∀ {uc prev}, lib.isRepeat uc prev = .ok true →
    ∃ prevUC, prev = some prevUC ∧ uc.SameIR prevUC ∧
      getRootRoundNumber prev < getRootRoundNumber (some uc)

/-- The initial certificate is about the empty state. -/
structure InitialLaw : Prop where
  stateHash : ∀ {uc}, lib.isInitial uc = true → (getStateHash (some uc)).bytes = []
  previousHash : ∀ {uc}, lib.isInitial uc = true → (getPreviousStateHash (some uc)).bytes = []

/-- Decoding inverts encoding. -/
def CborLaw : Prop := ∀ {uc encoded}, lib.marshal uc = .ok encoded → lib.unmarshal encoded = .ok uc

/-- Calculating the block hash changes nothing in the block but the block hash of the input record
inside its certificate. -/
structure BlockHashLaw : Prop where
  header : ∀ {block block' record}, lib.calculateBlockHash block = .ok (record, block') →
    block'.header = block.header
  transactions : ∀ {block block' record}, lib.calculateBlockHash block = .ok (record, block') →
    block'.transactions = block.transactions
  certificate : ∀ {block block' record encoded uc old},
    lib.calculateBlockHash block = .ok (record, block') → block.unicityCertificate = some encoded →
    lib.unmarshal encoded = .ok uc → uc.inputRecord = some old →
    record = { old with blockHash := record.blockHash } ∧
      ∃ encoded', block'.unicityCertificate = some encoded' ∧
        lib.unmarshal encoded' = .ok { uc with inputRecord := some record }

/-- The input record of a block is the one inside its certificate. -/
structure BlockRecordLaw : Prop where
  record : ∀ {block encoded uc record}, block.unicityCertificate = some encoded →
    lib.unmarshal encoded = .ok uc → uc.inputRecord = some record →
    lib.blockInputRecord block = .ok record
  certificate : ∀ {block record}, lib.blockInputRecord block = .ok record →
    ∃ encoded uc, block.unicityCertificate = some encoded ∧ lib.unmarshal encoded = .ok uc ∧
      uc.inputRecord = some record

/-- Records are compared field by field, slices by their bytes. -/
def EqualIRLaw : Prop :=
  ∀ {ir other}, lib.assertEqualIR (some ir) other = .ok () →
    ∃ record, other = some record ∧ ir.Same record

end BaseLibrary

end FinalityGadget
