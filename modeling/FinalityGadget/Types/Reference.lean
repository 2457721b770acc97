import FinalityGadget.Types.BaseLibrary

/-!
# A reference base library

An idealized base library in which every law holds: certificates are stored unencoded, hashes are
the hashed data itself and a signature is the key followed by the signed hash. It decides every
comparison the way the laws describe it. `Block.IsValid` accepts here every block with a header,
a partition, a proposer and transactions, the first block of a shard among them.
-/

namespace FinalityGadget

open Bytes

instance (left right : InputRecord) : Decidable (left.Same right) :=
  decidable_of_iff
    (left.version = right.version ∧ left.roundNumber = right.roundNumber ∧
      left.epoch = right.epoch ∧ left.previousHash.bytes = right.previousHash.bytes ∧
      left.hash.bytes = right.hash.bytes ∧ left.summaryValue.bytes = right.summaryValue.bytes ∧
      left.timestamp = right.timestamp ∧ left.blockHash.bytes = right.blockHash.bytes ∧
      left.sumOfEarnedFees = right.sumOfEarnedFees ∧ left.etHash.bytes = right.etHash.bytes)
    ⟨fun ⟨h1, h2, h3, h4, h5, h6, h7, h8, h9, h10⟩ ↦ ⟨h1, h2, h3, h4, h5, h6, h7, h8, h9, h10⟩,
      fun ⟨h1, h2, h3, h4, h5, h6, h7, h8, h9, h10⟩ ↦ ⟨h1, h2, h3, h4, h5, h6, h7, h8, h9, h10⟩⟩

/-- Two optional records are present and agree. -/
def sameRecord (left right : Option InputRecord) : Bool :=
  match left, right with
  | some left, some right => decide (left.Same right)
  | _, _ => false

namespace Reference

def verify (issued : UnicityCertificate → Bool) (uc : Option UnicityCertificate)
    (_ : RootTrustBase) (partition : PartitionID) (_ : ShardID) (shardConfHash : Slice) :
    Except Err Unit :=
  match uc with
  | none => .error "unicity certificate is nil"
  | some uc =>
    match uc.inputRecord, uc.unicityTreeCertificate, uc.unicitySeal with
    | none, _, _ => .error "input record is nil"
    | _, none, _ => .error "unicity tree certificate is nil"
    | _, _, none => .error "unicity seal is nil"
    | some _, some utc, some _ =>
      if utc.partition ≠ partition then .error "invalid partition identifier"
      else if shardConfHash ≠ none ∧ ¬uc.shardConfHash.equal shardConfHash = true then
        .error "invalid shard configuration hash"
      else if issued uc = false then .error "invalid unicity seal"
      else .ok ()

def isDuplicate (uc : UnicityCertificate) (prev : Option UnicityCertificate) : Bool :=
  getRootRoundNumber (some uc) == getRootRoundNumber prev

def isRepeat (uc : UnicityCertificate) (prev : Option UnicityCertificate) : Except Err Bool :=
  .ok (sameRecord uc.inputRecord (getInputRecord prev) &&
    decide (getRootRoundNumber prev < getRootRoundNumber (some uc)))

def isSuccessor (uc : UnicityCertificate) (prev : Option UnicityCertificate) : Bool :=
  decide (getRoundNumber prev < getRoundNumber (some uc)) &&
    (getPreviousStateHash (some uc)).equal (getStateHash prev)

def isInitial (uc : UnicityCertificate) : Bool :=
  decide ((getStateHash (some uc)).bytes = [] ∧ (getPreviousStateHash (some uc)).bytes = [])

/-- Root rounds and rounds do not decrease, and one round has one record. -/
def checkNonEquivocatingCertificates (prev uc : UnicityCertificate) : Except Err Unit :=
  if getRootRoundNumber (some uc) < getRootRoundNumber (some prev) then
    .error "new certificate is from older root round"
  else if getRoundNumber (some uc) < getRoundNumber (some prev) then
    .error "new certificate is from older round"
  else if (getRootRoundNumber (some uc) = getRootRoundNumber (some prev) ∨
      getRoundNumber (some uc) = getRoundNumber (some prev)) ∧
      sameRecord uc.inputRecord prev.inputRecord = false then
    .error "equivocating certificates"
  else .ok ()

/-- The block hash is nil when the state does not change. -/
def calculateBlockHash (block : Block UnicityCertificate) :
    Except Err (InputRecord × Block UnicityCertificate) :=
  match block.unicityCertificate with
  | none => .error "block unicity certificate is nil"
  | some uc =>
    match uc.inputRecord with
    | none => .error "input record is nil"
    | some ir =>
      let blockHash : Slice :=
        if ir.hash.equal ir.previousHash = true then none
        else some (block.previousBlockHash.bytes ++ ir.hash.bytes)
      let record := { ir with blockHash := blockHash }
      .ok (record, { block with unicityCertificate := some { uc with inputRecord := some record } })

def blockInputRecord (block : Block UnicityCertificate) : Except Err InputRecord :=
  match block.unicityCertificate.bind UnicityCertificate.inputRecord with
  | none => .error "input record is nil"
  | some ir => .ok ir

def blockIsValid (block : Block UnicityCertificate) (_ : Slice) : Except Err Unit :=
  match block.header with
  | none => .error "block header is nil"
  | some header =>
    if header.partitionID = 0 then .error "partition identifier is unassigned"
    else if header.proposerID = "" then .error "block proposer node identifier is missing"
    else if block.transactions = none then .error "transactions is nil"
    else .ok ()

end Reference

open Reference in
/-- The reference library in which the root chain has issued the given certificates. -/
def libraryOf (issued : UnicityCertificate → Bool) : BaseLibrary UnicityCertificate where
  verify := verify issued
  isDuplicate := isDuplicate
  isRepeat := isRepeat
  isSuccessor := isSuccessor
  isInitial := isInitial
  checkNonEquivocatingCertificates := checkNonEquivocatingCertificates
  certificateHash uc := .ok (uint64ToBytes (getRootRoundNumber (some uc)))
  assertEqualIR left right :=
    if sameRecord left right = true then .ok () else .error "input records differ"
  marshal uc := .ok uc
  unmarshal uc := .ok uc
  calculateBlockHash := calculateBlockHash
  blockInputRecord := blockInputRecord
  blockIsValid := blockIsValid
  blockSize block := .ok (UInt64.ofNat (block.previousBlockHash.bytes.length + 1))
  shardConfHash shardConf := .ok (some (uint64ToBytes shardConf.epoch))
  findValidator shardConf id := shardConf.validators.find? fun info ↦ info.nodeID == id
  sigVerifier info := .ok info.sigKey.bytes
  verifyHash key signature hash :=
    if signature.bytes = key ++ hash.bytes then .ok () else .error "verification failed"
  technicalRecordHash tr := .ok (uint64ToBytes tr.round ++ uint64ToBytes tr.epoch ++
    uint64ToBytes (UInt64.ofNat tr.leader.length) ++ tr.statHash.bytes ++ tr.feeHash.bytes)
  blockProposalHash prop := .ok prop.proposedRoot.bytes
  requestBytes request := .ok (uint64ToBytes request.blockSize)
  decodePeerID text := if text = "" then .error "multihash too short" else .ok text
  peerIDString id := id

/-- The reference library in which every certificate with all its parts is taken as issued. -/
abbrev referenceLibrary : BaseLibrary UnicityCertificate := libraryOf fun _ ↦ true

namespace Reference

variable {issued : UnicityCertificate → Bool}

theorem successorLaw : (libraryOf issued).SuccessorLaw where
  round_lt {uc prev} h := by
    simp only [libraryOf, isSuccessor, Bool.and_eq_true, decide_eq_true_eq] at h
    exact h.1
  previousHash {uc prev} h := by
    simp only [libraryOf, isSuccessor, Bool.and_eq_true] at h
    exact Slice.equal_iff.mp h.2

theorem duplicateLaw : (libraryOf issued).DuplicateLaw where
  rootRound_eq {uc prev} h := by simpa [libraryOf, isDuplicate] using h
  of_rootRound_eq {uc prev} h := by simpa [libraryOf, isDuplicate] using h

theorem of_checkNonEquivocatingCertificates {prev uc : UnicityCertificate}
    (h : checkNonEquivocatingCertificates prev uc = .ok ()) :
    getRootRoundNumber (some prev) ≤ getRootRoundNumber (some uc) ∧
      getRoundNumber (some prev) ≤ getRoundNumber (some uc) ∧
      (getRoundNumber (some uc) = getRoundNumber (some prev) →
        sameRecord uc.inputRecord prev.inputRecord = true) := by
  unfold checkNonEquivocatingCertificates at h
  split at h
  next => cases h
  next hroot =>
    split at h
    next => cases h
    next hround =>
      split at h
      next => cases h
      next hrecord =>
        refine ⟨not_lt.mp hroot, not_lt.mp hround, fun hsame ↦ ?_⟩
        by_contra hdiffers
        exact hrecord ⟨Or.inr hsame, Bool.not_eq_true _ ▸ hdiffers⟩

theorem equivocationLaw : (libraryOf issued).EquivocationLaw :=
  fun h ↦ (of_checkNonEquivocatingCertificates h).1

theorem sameIR_of_sameRecord {uc other : UnicityCertificate}
    (h : sameRecord uc.inputRecord other.inputRecord = true) : uc.SameIR other := by
  unfold sameRecord at h
  split at h
  next ir record hir hrecord => exact ⟨ir, record, hir, hrecord, of_decide_eq_true h⟩
  next => cases h

theorem roundLaw : (libraryOf issued).RoundLaw where
  round_le h := (of_checkNonEquivocatingCertificates h).2.1
  sameIR h hround :=
    sameIR_of_sameRecord ((of_checkNonEquivocatingCertificates h).2.2 hround.symm)

theorem repeatLaw : (libraryOf issued).RepeatLaw := by
  intro uc prev h
  simp only [libraryOf, isRepeat, Except.ok.injEq, Bool.and_eq_true, decide_eq_true_eq] at h
  obtain ⟨hsame, hlt⟩ := h
  cases prev with
  | none =>
    unfold sameRecord at hsame
    split at hsame
    next _ _ _ hrecord => cases hrecord
    next => cases hsame
  | some prevUC => exact ⟨prevUC, rfl, sameIR_of_sameRecord hsame, hlt⟩

theorem initialLaw : (libraryOf issued).InitialLaw where
  stateHash h := (of_decide_eq_true h).1
  previousHash h := (of_decide_eq_true h).2

theorem cborLaw : (libraryOf issued).CborLaw := by
  rintro uc encoded ⟨⟩
  rfl

theorem calculateBlockHash_eq_ok {block block' : Block UnicityCertificate} {record : InputRecord}
    (h : calculateBlockHash block = .ok (record, block')) :
    ∃ uc old, block.unicityCertificate = some uc ∧ uc.inputRecord = some old ∧
      record = { old with blockHash := record.blockHash } ∧
      block' =
        { block with unicityCertificate := some { uc with inputRecord := some record } } := by
  unfold calculateBlockHash at h
  cases huc : block.unicityCertificate with
  | none => simp [huc] at h
  | some uc =>
    cases hir : uc.inputRecord with
    | none => simp [huc, hir] at h
    | some old =>
      simp only [huc, hir] at h
      cases h
      exact ⟨uc, old, rfl, hir, rfl, rfl⟩

theorem blockHashLaw : (libraryOf issued).BlockHashLaw where
  header h := by
    obtain ⟨uc, old, _, _, _, rfl⟩ := calculateBlockHash_eq_ok h
    rfl
  transactions h := by
    obtain ⟨uc, old, _, _, _, rfl⟩ := calculateBlockHash_eq_ok h
    rfl
  certificate h huc hdecode hrecord := by
    obtain ⟨uc', old', huc', hrecord', heq, rfl⟩ := calculateBlockHash_eq_ok h
    cases hdecode
    cases huc.symm.trans huc'
    cases hrecord.symm.trans hrecord'
    exact ⟨heq, _, rfl, rfl⟩

theorem blockRecordLaw : (libraryOf issued).BlockRecordLaw where
  record huc hdecode hrecord := by
    cases hdecode
    simp [libraryOf, blockInputRecord, huc, hrecord]
  certificate {block record} h := by
    simp only [libraryOf, blockInputRecord] at h
    split at h
    next => cases h
    next ir hir =>
      cases h
      obtain ⟨uc, huc, hrecord⟩ := Option.bind_eq_some_iff.mp hir
      exact ⟨uc, uc, huc, rfl, hrecord⟩

theorem equalIRLaw : (libraryOf issued).EqualIRLaw := by
  intro ir other h
  simp only [libraryOf] at h
  split at h
  next hsame =>
    cases other with
    | none => cases hsame
    | some record => exact ⟨record, rfl, of_decide_eq_true hsame⟩
  next => cases h

end Reference

end FinalityGadget
