import FinalityGadget.Types.BaseLibrary
import FinalityGadget.Foundation.Fallible
import FinalityGadget.Foundation.Text

/-!
# Message validation

The checks a received message passes before its handler looks at it, in the order the program makes
them, and the signing of the messages a node sends.
-/

namespace FinalityGadget

open Bytes Fallible

/-- A partition identifier in messages: four bytes in hexadecimal. -/
def partitionText (partition : PartitionID) : String :=
  Text.hexUpper (some (uint32ToBytes partition))

variable {C : Type} (lib : BaseLibrary C)

/-! ## Technical records and certification responses -/

def TechnicalRecord.isValid (tr : TechnicalRecord) : Except Err Unit := do
  require (tr.round ≠ 0) "round is unassigned"
  require (tr.leader ≠ "") "leader is unassigned"
  require (tr.statHash.bytes ≠ []) "stat hash is unassigned"
  require (tr.feeHash.bytes ≠ []) "fee hash is unassigned"

def TechnicalRecord.hashMatches (tr : TechnicalRecord) (trHash : Slice) : Except Err Unit := do
  let hash ← (lib.technicalRecordHash tr).mapError fun err ↦ s!"calculating hash: {err}"
  require (trHash.equal (some hash)) "hash mismatch"

def CertificationResponse.isValid (response : Option CertificationResponse) : Except Err Unit :=
  match response with
  | none => .error "nil CertificationResponse"
  | some cr => do
    require (cr.partition ≠ 0) "partition ID is unassigned"
    match cr.uc.unicityTreeCertificate with
    | none => .error "UnicityTreeCertificate is unassigned"
    | some utc =>
      require (utc.partition = cr.partition)
        (s!"partition {partitionText cr.partition} doesn't match " ++
          s!"UnicityTreeCertificate partition {partitionText utc.partition}")
      cr.technical.isValid.mapError fun err ↦ s!"invalid TechnicalRecord: {err}"
      (cr.technical.hashMatches lib cr.uc.trHash).mapError fun err ↦
        s!"comparing TechnicalRecord hash to UC.TRHash: {err}"

/-! ## Block proposals -/

namespace BlockProposal

/-- The hash that is signed leaves the signature out. -/
def hash (prop : BlockProposal) : Except Err Slice :=
  match lib.blockProposalHash { prop with signature := none } with
  | .ok digest => .ok (some digest)
  | .error err => .error s!"failed to calculate block proposal hash: {err}"

def sign (prop : BlockProposal) (signHash : Slice → Except Err Slice) :
    Except Err BlockProposal := do
  let digest ← prop.hash lib
  let signature ← signHash digest
  pure { prop with signature := signature }

def verify (prop : BlockProposal) (key : List UInt8) : Except Err Unit := do
  let digest ← prop.hash lib
  lib.verifyHash key prop.signature digest

def isValid (proposal : Option BlockProposal) (trustBase : RootTrustBase)
    (shardConf : PartitionDescriptionRecord) : Except Err Unit :=
  match proposal with
  | none => .error "block proposal is nil"
  | some prop => do
    require (shardConf.partitionID = prop.partitionID)
      (s!"invalid partition identifier, expected {partitionText shardConf.partitionID}, " ++
        s!"got {partitionText prop.partitionID}")
    require (shardConf.shardID = prop.shardID)
      s!"invalid shard identifier, expected {shardConf.shardID}, got {prop.shardID}"
    require (prop.nodeID ≠ "") "block proposer id is missing"
    match lib.findValidator shardConf (lib.peerIDString prop.nodeID) with
    | none => .error s!"block proposal from unknown validator {prop.nodeID}"
    | some proposer =>
      let key ← (lib.sigVerifier proposer).mapError fun err ↦
        s!"failed to get block proposer signature verifier: {err}"
      lib.verify prop.unicityCertificate trustBase shardConf.partitionID shardConf.shardID none
      prop.technical.isValid.mapError fun err ↦ s!"invalid TechnicalRecord: {err}"
      (prop.technical.hashMatches lib
        (prop.unicityCertificate.bind UnicityCertificate.trHash)).mapError
        fun err ↦ s!"comparing TechnicalRecord hash to UC.TRHash: {err}"
      prop.verify lib key

end BlockProposal

/-! ## Certification requests and ledger replication -/

def BlockCertificationRequest.sign (request : BlockCertificationRequest)
    (signBytes : Slice → Except Err Slice) : Except Err BlockCertificationRequest := do
  let data ← (lib.requestBytes { request with signature := none }).mapError fun err ↦
    s!"failed to marshal block certification request, {err}"
  let signature ← (signBytes (some data)).mapError fun err ↦ s!"sign error, {err}"
  pure { request with signature := signature }

def LedgerReplicationRequest.isValid (request : Option LedgerReplicationRequest) :
    Except Err Unit :=
  match request with
  | none => .error "ledger replication requests is nil"
  | some lr => do
    require (lr.partitionID ≠ 0) "invalid partition identifier"
    require (lr.nodeID ≠ "") "node identifier is missing"
    require (¬(lr.endBlockNumber ≠ 0 ∧ lr.endBlockNumber < lr.beginBlockNumber))
      s!"invalid block request range from {lr.beginBlockNumber} to {lr.endBlockNumber}"

def LedgerReplicationResponse.isValid (response : Option (LedgerReplicationResponse C)) :
    Except Err Unit :=
  match response with
  | none => .error "ledger replication response is nil"
  | some lr => require (¬(lr.status = .ok ∧ lr.blocks.isNone)) "ledger response blocks is nil"

/-! ## Certificates -/

/-- `DefaultUnicityCertificateValidator.Validate`: the configuration hash is compared only for a
certificate of the configuration's own epoch. -/
def validateCertificate (uc : UnicityCertificate) (shardConf : PartitionDescriptionRecord)
    (trustBase : RootTrustBase) : Except Err Unit := do
  let shardConfHash ←
    if getShardEpoch (some uc) = shardConf.epoch then
      (lib.shardConfHash shardConf).mapError fun err ↦
        s!"failed to calculate shard conf hash: {err}"
    else .ok none
  lib.verify (some uc) trustBase shardConf.partitionID shardConf.shardID shardConfHash

/-! ## What accepted messages satisfy -/

theorem CertificationResponse.technical_of_isValid {cr : CertificationResponse}
    (h : CertificationResponse.isValid lib (some cr) = .ok ()) :
    cr.technical.isValid = .ok () ∧ cr.technical.hashMatches lib cr.uc.trHash = .ok () := by
  simp only [isValid, bind_eq_ok] at h
  obtain ⟨_, _, h⟩ := h
  split at h
  · simp at h
  · simp only [bind_eq_ok, mapError_eq_ok] at h
    obtain ⟨_, _, _, htr, hmatches⟩ := h
    exact ⟨htr, hmatches⟩

/-- A signature is added to the proposal without changing what was signed. -/
theorem BlockProposal.sign_eq_ok {prop signed : BlockProposal}
    {signHash : Slice → Except Err Slice} (h : prop.sign lib signHash = .ok signed) :
    ∃ digest signature, prop.hash lib = .ok digest ∧ signHash digest = .ok signature ∧
      signed = { prop with signature := signature } := by
  obtain ⟨digest, hdigest, h⟩ := bind_eq_ok.mp h
  obtain ⟨signature, hsignature, h⟩ := bind_eq_ok.mp h
  cases h
  exact ⟨digest, signature, hdigest, hsignature, rfl⟩

/-- A key that accepts what the signer produces accepts a signed proposal. -/
theorem BlockProposal.verify_of_sign {prop signed : BlockProposal}
    {signHash : Slice → Except Err Slice} {key : List UInt8}
    (h : prop.sign lib signHash = .ok signed)
    (hkey : ∀ digest signature, signHash digest = .ok signature →
      lib.verifyHash key signature digest = .ok ()) : signed.verify lib key = .ok () := by
  obtain ⟨digest, signature, hdigest, hsignature, rfl⟩ := BlockProposal.sign_eq_ok lib h
  refine bind_eq_ok.mpr ⟨digest, ?_, hkey digest signature hsignature⟩
  exact hdigest

/-- A validated certificate is verified, with or without the hash of the configuration. -/
theorem verify_of_validateCertificate {uc : UnicityCertificate}
    {shardConf : PartitionDescriptionRecord} {trustBase : RootTrustBase}
    (h : validateCertificate lib uc shardConf trustBase = .ok ()) :
    ∃ shardConfHash, lib.verify (some uc) trustBase shardConf.partitionID shardConf.shardID
      shardConfHash = .ok () := by
  unfold validateCertificate at h
  split at h
  · obtain ⟨shardConfHash, _, hverify⟩ := bind_eq_ok.mp h
    exact ⟨shardConfHash, hverify⟩
  · exact ⟨none, h⟩

/-- Every check of a block proposal, as one conjunction. -/
theorem BlockProposal.isValid_iff {prop : BlockProposal} {trustBase : RootTrustBase}
    {shardConf : PartitionDescriptionRecord} :
    BlockProposal.isValid lib (some prop) trustBase shardConf = .ok () ↔
      shardConf.partitionID = prop.partitionID ∧ shardConf.shardID = prop.shardID ∧
      prop.nodeID ≠ "" ∧
      ∃ proposer key, lib.findValidator shardConf (lib.peerIDString prop.nodeID) = some proposer ∧
        lib.sigVerifier proposer = .ok key ∧
        lib.verify prop.unicityCertificate trustBase shardConf.partitionID shardConf.shardID none =
          .ok () ∧
        prop.technical.isValid = .ok () ∧
        prop.technical.hashMatches lib
          (prop.unicityCertificate.bind UnicityCertificate.trHash) = .ok () ∧
        prop.verify lib key = .ok () := by
  simp only [isValid, bind_eq_ok, require_eq_ok]
  cases hfind : lib.findValidator shardConf (lib.peerIDString prop.nodeID) with
  | none => simp
  | some proposer =>
    simp only [bind_eq_ok, mapError_eq_ok, Option.some.injEq]
    constructor
    · rintro ⟨_, hpartition, _, hshard, _, hnode, key, hkey, _, hverify, _, htr, _, hhash, hsig⟩
      exact ⟨hpartition, hshard, hnode, proposer, key, rfl, hkey, hverify, htr, hhash, hsig⟩
    · rintro ⟨hpartition, hshard, hnode, _, key, rfl, hkey, hverify, htr, hhash, hsig⟩
      exact ⟨(), hpartition, (), hshard, (), hnode, key, hkey, (), hverify, (), htr, (), hhash,
        hsig⟩

end FinalityGadget
