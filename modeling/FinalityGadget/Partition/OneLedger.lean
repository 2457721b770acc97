import Mathlib.Data.Fintype.EquivFin
import FinalityGadget.Foundation.MatchingChains
import FinalityGadget.Partition.Lifetimes

/-!
# The validators keep one ledger

A block enters a store on two paths, and on both the block hash in its certificate is the hash of
the block: a proposal is certified with the hash that was calculated when it was built, and a
replicated block is checked. The hash covers the link to the previous block, so validators that hold
a block for the same round hold the same blocks below it, as long as no two of their blocks collide.
-/

namespace FinalityGadget

open Bytes Fallible LinkedChain

variable {C : Type}

/-! ## Blocks and the hashes in their certificates -/

/-- The block hash inside the certificate is the one that is calculated from the block. -/
def Sealed (lib : BaseLibrary C) (block : Block C) : Prop :=
  ∀ uc, getUCv1 lib (some block) = .ok uc → ∃ record result,
    lib.calculateBlockHash block = .ok (record, result) ∧
      record.blockHash.bytes = (getBlockHash (some uc)).bytes

/-- What the library does with block hashes: in particular, a valid block is sealed. -/
structure SealLaws (lib : BaseLibrary C) : Prop where
  cbor : lib.CborLaw
  blockHash : lib.BlockHashLaw
  blockHashInput : BlockHashInputLaw lib
  blockRecord : lib.BlockRecordLaw
  equalIR : lib.EqualIRLaw
  blockIsValid : ∀ {block}, lib.blockIsValid block none = .ok () → Sealed lib block

/-- The pending proposal and everything that was written is sealed. -/
structure HoldsSealed (lib : BaseLibrary C) (n : Node C) : Prop where
  proposal : ∀ {block}, n.pendingBlockProposal = some block → Sealed lib block
  written : ∀ op ∈ n.storeLog, op.Carries (Sealed lib)

section Sealing

variable {lib : BaseLibrary C} {conf : NodeConf} {admitted : Env → Prop} {n n' : Node C}

theorem getBlockHash_of_record {uc : UnicityCertificate} {ir : InputRecord}
    (h : uc.inputRecord = some ir) : getBlockHash (some uc) = ir.blockHash := by
  simp [getBlockHash, getInputRecord, h]

/-- A certificate about the same record seals the block as well. -/
theorem Sealed.recertified (hlaws : SealLaws lib) {block : Block C} (h : Sealed lib block)
    {ir record : InputRecord} (hir : lib.blockInputRecord block = .ok ir)
    {uc : UnicityCertificate} {encoded : C} (hmarshal : lib.marshal uc = .ok encoded)
    (huc : uc.inputRecord = some record) (hsame : ir.Same record) :
    Sealed lib { block with unicityCertificate := some encoded } := by
  obtain ⟨encoded₀, uc₀, hencoded₀, hdecoded₀, huc₀⟩ := hlaws.blockRecord.certificate hir
  have hget₀ : getUCv1 lib (some block) = .ok uc₀ := by simp only [getUCv1, hencoded₀, hdecoded₀]
  have hget : getUCv1 lib (some { block with unicityCertificate := some encoded }) = .ok uc :=
    hlaws.cbor hmarshal
  obtain ⟨calculated, result, hcalculate, hhash⟩ := h uc₀ hget₀
  have hheader : Block.header { block with unicityCertificate := some encoded } = block.header :=
    rfl
  obtain ⟨calculated', result', hcalculate', hhash'⟩ := hlaws.blockHashInput hheader rfl hget₀ hget
    huc₀ huc hsame.hash.symm hsame.previousHash.symm hcalculate
  intro uc' huc'
  rw [hget] at huc'
  cases huc'
  refine ⟨calculated', result', hcalculate', ?_⟩
  calc
    calculated'.blockHash.bytes = calculated.blockHash.bytes := hhash'
    _ = ir.blockHash.bytes := by rw [hhash, getBlockHash_of_record huc₀]
    _ = record.blockHash.bytes := hsame.blockHash
    _ = (getBlockHash (some uc)).bytes := by rw [getBlockHash_of_record huc]

/-- A built proposal is sealed. -/
theorem sealed_of_buildProposal (hlaws : SealLaws lib) {state : NodeState C} {author : String}
    {summary : Summary} {ir : InputRecord} {block : Block C}
    (hbuild : buildProposal lib state author summary = .ok (ir, block)) : Sealed lib block := by
  have hbuilt := built_of_buildProposal lib hlaws.cbor hlaws.blockHash hlaws.blockRecord hbuild
  obtain ⟨encoded, hmarshal, hcalculate⟩ := bind_eq_ok.mp hbuild
  have hdraft : getUCv1 lib (some
      { header := some (proposedHeader state author)
        unicityCertificate := some encoded
        transactions := some [] }) = .ok (proposedUC state summary) :=
    hlaws.cbor (mapError_eq_ok.mp hmarshal)
  have hhash : ir.hash.bytes = (proposedIR state summary).hash.bytes := by rw [hbuilt.ir_eq]
  have hprevious : ir.previousHash.bytes = (proposedIR state summary).previousHash.bytes := by
    rw [hbuilt.ir_eq]
  obtain ⟨record, result, hcalculated, hrecord⟩ := hlaws.blockHashInput hbuilt.header
    hbuilt.transactions hdraft hbuilt.certificate rfl rfl hhash hprevious
    (mapError_eq_ok.mp hcalculate)
  intro uc huc
  rw [hbuilt.certificate] at huc
  cases huc
  exact ⟨record, result, hcalculated, hrecord⟩

theorem HoldsSealed.move (hlaws : SealLaws lib) (h : HoldsSealed lib n)
    (hmove : Move lib conf admitted n n') : HoldsSealed lib n' := by
  obtain ⟨ops, hperforms, hwrites⟩ := hmove.stores
  have hheld := hmove.held
  constructor
  · intro block hblock
    rw [hblock] at hheld
    generalize hproposal : some block = proposal at hheld
    cases hheld with
    | kept => exact h.proposal hproposal.symm
    | dropped => cases hproposal
    | stripped =>
      cases hproposal
      intro uc huc
      cases huc
    | built hchosen hbuild =>
      cases hproposal
      exact sealed_of_buildProposal hlaws hbuild
  · intro op hop
    rw [hperforms.storeLog] at hop
    rcases List.mem_append.mp hop with hop | hop
    · exact h.written op hop
    · cases hwrites op hop with
      | finalize hpending hir hequal hmarshal =>
        obtain ⟨record, huc, hsame⟩ := hlaws.equalIR hequal
        exact (h.proposal hpending).recertified hlaws hir hmarshal huc hsame
      | replay henv huc hsuccessor hverified hvalid hblock => exact hlaws.blockIsValid hblock
      | propose hchosen hbuild => exact sealed_of_buildProposal hlaws hbuild
      | undo | forget => trivial

/-- Nothing but sealed blocks gets into a store, over any number of processes. -/
theorem Outlives.sealed (hlaws : SealLaws lib) {confs : Set NodeConf} {store : BlockStore C}
    (h : Outlives lib confs admitted OrderedStore.empty store) : Entries (Sealed lib) store := by
  refine h.invariant (P := Entries (Sealed lib)) ?_ entries_empty
  intro conf store n inputs hstore hconf hboots henvs count
  have hstarted := hboots.started
  have hinit : HoldsSealed lib n := by
    constructor
    · intro block hblock
      cases hstarted.replay with
      | nothing hproposal => cases hproposal.symm.trans hblock
      | proposal proposal uc hstored _ _ hproposal =>
        cases hproposal.symm.trans hblock
        exact hstore _ _ hstored
    · rw [hstarted.storeLog]
      simp
  have hholds : HoldsSealed lib (runNode lib conf n inputs) :=
    invariant_moves (fun hinv hmove ↦ hinv.move hlaws hmove) hinit henvs
  exact hstore.applyOps fun op hop ↦ hholds.written op (List.mem_of_mem_take hop)

end Sealing

/-! ## Linked stores -/

/-- The store of a validator whose processes stop between two turns and start without a pending
proposal, as long as blocks can be deleted. -/
inductive CleanlyLeft (lib : BaseLibrary C) (confs : Set NodeConf) : BlockStore C → Prop where
  | empty : CleanlyLeft lib confs OrderedStore.empty
  | run {store : BlockStore C} {conf : NodeConf} {n : Node C} {inputs : List (Input C)}
      (h : CleanlyLeft lib confs store) (hclean : storedProposal store = none)
      (hconf : conf ∈ confs) (hboots : Boots lib conf (fun env ↦ env.deleteBlock = .ok ()) store n)
      (hdeletes : ∀ input ∈ inputs, ∀ i, (input.envs i).deleteBlock = .ok ()) :
      CleanlyLeft lib confs (runNode lib conf n inputs).blockStore

/-- The block does not name a previous one. -/
def Block.IsFirst (block : Block C) : Prop := block.previousBlockHash.bytes = []

/-- A linked ledger whose lowest block names no previous one. -/
structure LinkedLedger (lib : BaseLibrary C) (n : Node C) : Prop extends LedgerState lib n where
  grounded : Grounded Block.IsFirst (storedBlock n.blockStore)

section Links

variable {lib : BaseLibrary C} {confs : Set NodeConf} {conf : NodeConf} {store : BlockStore C}
  {n n' : Node C}

theorem LinkedLedger.step (hlaw : lib.SuccessorLaw) (h : LinkedLedger lib n)
    (hstep : LedgerStep lib n n') (hidle : Idle n') : LinkedLedger lib n' := by
  refine ⟨h.toLedgerState.step hlaw hstep hidle, ?_⟩
  cases hstep with
  | kept hblocks =>
    rw [hblocks]
    exact h.grounded
  | appended block uc hblocks huc hsuccessor hlinked =>
    rw [hblocks]
    apply h.grounded.append (h.head.lt_of_successor hlaw hsuccessor)
    -- without a stored block nothing is committed, and the block names no previous one
    intro hnone
    have hhead := h.head
    cases hcommitted : n.committedUC with
    | none =>
      rw [hcommitted] at hlinked
      exact hlinked
    | some committed =>
      rw [hcommitted] at hhead
      obtain ⟨head, hstored, _⟩ := hhead
      cases (hnone _).symm.trans hstored

/-- A process keeps the blocks in its store linked. -/
theorem linkedLedger_runNode (hlaw : lib.SuccessorLaw) (hcbor : lib.CborLaw)
    (hhash : lib.BlockHashLaw) (hstore : ChainStore lib confs store)
    (hgrounded : Grounded Block.IsFirst (storedBlock store)) (hstart : Starts lib conf store n)
    {inputs : List (Input C)}
    (hdeletes : ∀ input ∈ inputs, ∀ i, (input.envs i).deleteBlock = .ok ()) :
    LinkedLedger lib (runNode lib conf n inputs) := by
  have hstarted := started_of_starts lib conf hstart
  have hinit : LinkedLedger lib n := by
    refine ⟨hstore.ledgerState hstarted, ?_⟩
    rwa [hstarted.blockStore]
  have hadmits : Run.Guarded (step lib conf) (deletesGuard.Admits lib conf) n inputs :=
    Run.guarded_of_mem
      (fun input hinput n ↦ Guard.ofEnv_admits lib conf n (hdeletes input hinput)) n
  exact invariant_runNode (Guard.ofEnv_sound lib _)
    (fun hinv hsegment ↦ hinv.step hlaw (hsegment.ledgerStep hlaw hcbor hhash hinv.toLedgerState)
      (hinv.idle.segment hsegment)) hinit hadmits

theorem CleanlyLeft.outlives (hcbor : lib.CborLaw) (h : CleanlyLeft lib confs store) :
    Outlives lib confs (fun env ↦ env.deleteBlock = .ok ()) OrderedStore.empty store := by
  induction h with
  | empty => exact .refl
  | @run store conf n inputs _ hclean hconf hboots hdeletes ih =>
    have htraced : Traced lib conf store (runNode lib conf n inputs) :=
      invariant_runNode (Guard.none_sound lib) (fun hinv hsegment ↦ hinv.segment hcbor hsegment)
        hboots.started.traced
        (Run.guarded_of_forall (fun n input ↦ Guard.none_admits lib conf n input) n inputs)
    refine ih.tail ⟨conf, hconf, n, hboots, inputs, hdeletes,
      (runNode lib conf n inputs).storeLog.length, ?_⟩
    rw [List.take_length]
    exact htraced.blockStore

theorem CleanlyLeft.linked (hlaw : lib.SuccessorLaw) (hcbor : lib.CborLaw)
    (hhash : lib.BlockHashLaw) (h : CleanlyLeft lib confs store) :
    Linked (BlockLink lib) (storedBlock store) ∧ Grounded Block.IsFirst (storedBlock store) := by
  induction h with
  | empty => exact ⟨linked_of_empty fun _ ↦ rfl, grounded_of_empty fun _ ↦ rfl⟩
  | run hbefore hclean hconf hboots hdeletes ih =>
    have hkept := (hbefore.outlives hcbor).leftBehind.wellKept hcbor
    have hledger := linkedLedger_runNode hlaw hcbor hhash ⟨hkept, ih.1, hclean⟩ ih.2 hboots.starts
      hdeletes
    exact ⟨hledger.linked, hledger.grounded⟩

end Links

/-! ## Agreement -/

/-- The root chain certifies one record in a round, and a block in one round only. -/
structure RootChainLaw (lib : BaseLibrary C) (confs : Set NodeConf) : Prop where
  sameRound : ∀ {uc other}, WasValidated lib confs uc → WasValidated lib confs other →
    getRoundNumber (some uc) = getRoundNumber (some other) → uc.SameIR other
  oneRound : ∀ {uc other}, WasValidated lib confs uc → WasValidated lib confs other →
    (getBlockHash (some uc)).bytes = (getBlockHash (some other)).bytes →
    (getBlockHash (some uc)).bytes ≠ [] → getRoundNumber (some uc) = getRoundNumber (some other)

/-- No block of the one store and block of the other have the same hash without being the same. -/
def NoCollision (lib : BaseLibrary C) (store store' : BlockStore C) : Prop :=
  ∀ {round round' block block' record record' result result'},
    storedBlock store round = some block → storedBlock store' round' = some block' →
    lib.calculateBlockHash block = .ok (record, result) →
    lib.calculateBlockHash block' = .ok (record', result') →
    record.blockHash.bytes = record'.blockHash.bytes → record.blockHash.bytes ≠ [] →
    block.header = block'.header ∧ block.transactions = block'.transactions

/-- The certificates of all blocks have a block hash. -/
def Hashed (lib : BaseLibrary C) (store : BlockStore C) : Prop :=
  ∀ {round block uc}, storedBlock store round = some block → getUCv1 lib (some block) = .ok uc →
    (getBlockHash (some uc)).bytes ≠ []

/-- The blocks are the same, with certificates about one record. -/
structure SameBlock (lib : BaseLibrary C) (block block' : Block C) : Prop where
  header : block.header = block'.header
  transactions : block.transactions = block'.transactions
  certified : ∃ uc uc', getUCv1 lib (some block) = .ok uc ∧ getUCv1 lib (some block') = .ok uc' ∧
    uc.SameIR uc'

section Agreement

variable {lib : BaseLibrary C} {confs : Set NodeConf} {store store' : BlockStore C}

theorem getBlockHash_of_sameIR {uc other : UnicityCertificate} (h : uc.SameIR other) :
    (getBlockHash (some uc)).bytes = (getBlockHash (some other)).bytes := by
  obtain ⟨ir, record, hir, hrecord, hsame⟩ := h
  rw [getBlockHash_of_record hir, getBlockHash_of_record hrecord, hsame.blockHash]

/-- Sealed blocks of one round do not differ. -/
theorem sameBlock_of_sameIR (hcollision : NoCollision lib store store') (hhashed : Hashed lib store)
    {round round' : UInt64} {block block' : Block C} (hblock : storedBlock store round = some block)
    (hblock' : storedBlock store' round' = some block') (hsealed : Sealed lib block)
    (hsealed' : Sealed lib block') {uc uc' : UnicityCertificate}
    (huc : getUCv1 lib (some block) = .ok uc) (huc' : getUCv1 lib (some block') = .ok uc')
    (hsame : uc.SameIR uc') : SameBlock lib block block' := by
  obtain ⟨record, result, hcalculate, hhash⟩ := hsealed uc huc
  obtain ⟨record', result', hcalculate', hhash'⟩ := hsealed' uc' huc'
  have hequal : record.blockHash.bytes = record'.blockHash.bytes := by
    rw [hhash, hhash', getBlockHash_of_sameIR hsame]
  have hne : record.blockHash.bytes ≠ [] := hhash ▸ hhashed hblock huc
  obtain ⟨hheader, htransactions⟩ :=
    hcollision hblock hblock' hcalculate hcalculate' hequal hne
  exact ⟨hheader, htransactions, uc, uc', huc, huc', hsame⟩

theorem SameBlock.previousBlockHash_eq {block block' : Block C} (h : SameBlock lib block block') :
    block.previousBlockHash = block'.previousBlockHash := by
  rw [Block.previousBlockHash, Block.previousBlockHash, h.header]

/-- A block names the hash of the block it is linked to. -/
theorem BlockLink.previousBlockHash_eq {left right : Block C} (h : BlockLink lib left right)
    {prevUC uc : UnicityCertificate} (hprevUC : getUCv1 lib (some left) = .ok prevUC)
    (huc : getUCv1 lib (some right) = .ok uc) :
    right.previousBlockHash.bytes = (getBlockHash (some prevUC)).bytes :=
  (h prevUC uc hprevUC huc).2

/-- The blocks below two equal ones are equal. -/
theorem determines_of_sealed (hroot : RootChainLaw lib confs)
    (hcollision : NoCollision lib store store') (hkept : WellKept lib confs store)
    (hkept' : WellKept lib confs store') (hsealed : Entries (Sealed lib) store)
    (hsealed' : Entries (Sealed lib) store') (hhashed : Hashed lib store)
    (hhashed' : Hashed lib store') :
    Determines (BlockLink lib) (SameBlock lib) Block.IsFirst (storedBlock store)
      (storedBlock store') := by
  constructor
  case lower =>
    intro first first' left left' right right' hleft hleft' hlink hlink' hsame
    obtain ⟨prevUC, hprevUC, hfirst, hvalid⟩ := hkept.certified hleft
    obtain ⟨prevUC', hprevUC', hfirst', hvalid'⟩ := hkept'.certified hleft'
    obtain ⟨uc, uc', huc, huc', _⟩ := hsame.certified
    have hhash : (getBlockHash (some prevUC)).bytes = (getBlockHash (some prevUC')).bytes := by
      rw [← hlink.previousBlockHash_eq hprevUC huc, ← hlink'.previousBlockHash_eq hprevUC' huc',
        hsame.previousBlockHash_eq]
    have hround := hroot.oneRound hvalid hvalid' hhash (hhashed hleft hprevUC)
    refine ⟨hfirst.symm.trans (hround.trans hfirst'), ?_⟩
    exact sameBlock_of_sameIR hcollision hhashed hleft hleft' (hsealed _ _ hleft)
      (hsealed' _ _ hleft') hprevUC hprevUC' (hroot.sameRound hvalid hvalid' hround)
  case bottom =>
    intro first left right right' hleft hlink hsame hfirst
    obtain ⟨prevUC, hprevUC, _⟩ := hkept.certified hleft
    obtain ⟨uc, _, huc, _⟩ := hsame.certified
    apply hhashed hleft hprevUC
    rw [← hlink.previousBlockHash_eq hprevUC huc, hsame.previousBlockHash_eq]
    exact hfirst
  case bottom' =>
    intro first left right right' hleft hlink hsame hfirst
    obtain ⟨prevUC, hprevUC, _⟩ := hkept'.certified hleft
    obtain ⟨_, uc', _, huc', _⟩ := hsame.certified
    apply hhashed' hleft hprevUC
    rw [← hlink.previousBlockHash_eq hprevUC huc', ← hsame.previousBlockHash_eq]
    exact hfirst

theorem finite_rounds : Finite UInt64 :=
  Finite.of_injective (fun round ↦ (⟨round.toNat, round.toNat_lt⟩ : Fin (2 ^ 64)))
    fun _ _ h ↦ UInt64.toNat_inj.mp (congrArg Fin.val h)

/-- Two validators that hold a block for the same round hold the same blocks for the same rounds
below, with the same headers, transactions and certified records. -/
theorem ledgers_match (hlaws : SealLaws lib) (hsuccessor : lib.SuccessorLaw)
    (hroot : RootChainLaw lib confs) (hstore : CleanlyLeft lib confs store)
    (hstore' : CleanlyLeft lib confs store') (hcollision : NoCollision lib store store')
    (hhashed : Hashed lib store) (hhashed' : Hashed lib store') {round : UInt64}
    {block block' : Block C} (hblock : storedBlock store round = some block)
    (hblock' : storedBlock store' round = some block') :
    ∀ earlier ≤ round,
      Option.Rel (SameBlock lib) (storedBlock store earlier) (storedBlock store' earlier) := by
  have hfinite := finite_rounds
  have hlives := hstore.outlives hlaws.cbor
  have hlives' := hstore'.outlives hlaws.cbor
  have hkept := hlives.leftBehind.wellKept hlaws.cbor
  have hkept' := hlives'.leftBehind.wellKept hlaws.cbor
  have hsealed := hlives.sealed hlaws
  have hsealed' := hlives'.sealed hlaws
  obtain ⟨hlinked, hgrounded⟩ := hstore.linked hsuccessor hlaws.cbor hlaws.blockHash
  obtain ⟨hlinked', hgrounded'⟩ := hstore'.linked hsuccessor hlaws.cbor hlaws.blockHash
  obtain ⟨uc, huc, hround, hvalid⟩ := hkept.certified hblock
  obtain ⟨uc', huc', hround', hvalid'⟩ := hkept'.certified hblock'
  have hsame : SameBlock lib block block' :=
    sameBlock_of_sameIR hcollision hhashed hblock hblock' (hsealed _ _ hblock)
      (hsealed' _ _ hblock') huc huc' (hroot.sameRound hvalid hvalid' (hround.trans hround'.symm))
  exact matching hlinked hlinked' hgrounded hgrounded'
    (determines_of_sealed hroot hcollision hkept hkept' hsealed hsealed' hhashed hhashed')
    hblock hblock' hsame

end Agreement

namespace Reference

/-- The checks of a block, the comparison of its hash with the certified one included. -/
def blockIsSealed (block : Block UnicityCertificate) (hash : Slice) : Except Err Unit := do
  blockIsValid block hash
  let (record, _) ← calculateBlockHash block
  require (record.blockHash.bytes = (getBlockHash block.unicityCertificate).bytes)
    "block hash does not match to the block hash in the unicity certificate input record"

def sealingLibrary : BaseLibrary UnicityCertificate :=
  { shardLibrary with blockIsValid := blockIsSealed }

theorem sealingLibrary_sealLaws : SealLaws sealingLibrary := by
  have hlaws := shardLibrary_replayLaws validators
  constructor
  case cbor => exact hlaws.cbor
  case blockHash =>
    exact ⟨hlaws.blockHash.header, hlaws.blockHash.transactions, hlaws.blockHash.certificate⟩
  case blockHashInput => exact hlaws.blockHashInput
  case blockRecord => exact ⟨hlaws.blockRecord.record, hlaws.blockRecord.certificate⟩
  case equalIR => exact hlaws.equalIR
  case blockIsValid =>
    intro block h uc huc
    have huc' : getUCv1 shardLibrary (some block) = .ok uc := huc
    have hencoded : block.unicityCertificate = some uc := certificate_of_getUCv1 huc'
    obtain ⟨_, _, hrest⟩ := bind_eq_ok.mp h
    obtain ⟨⟨record, result⟩, hcalculate, hhash⟩ := bind_eq_ok.mp hrest
    rw [require_eq_ok, hencoded] at hhash
    exact ⟨record, result, hcalculate, hhash⟩

theorem sealingLibrary_rootChainLaw : RootChainLaw sealingLibrary validators := by
  have hissued : ∀ {uc}, WasValidated sealingLibrary validators uc → uc ∈ issuedUCs := by
    intro uc h
    have hvalidated : WasValidated shardLibrary validators uc := h
    exact of_decide_eq_true (issued_of_wasValidated hvalidated)
  constructor
  case sameRound => exact fun h h' ↦ (shardLibrary_verifiedLaw validators).sameRound h h'
  case oneRound =>
    intro uc other h h' hhash hne
    have hround : ∀ uc ∈ issuedUCs, ∀ other ∈ issuedUCs,
        (getBlockHash (some uc)).bytes = (getBlockHash (some other)).bytes →
        (getBlockHash (some uc)).bytes ≠ [] →
        getRoundNumber (some uc) = getRoundNumber (some other) := by decide
    exact hround uc (hissued h) other (hissued h') hhash hne

/-- The second block of `A` with the certificate of the given root round. -/
def nextCertified (rootRound : UInt64) : Block UnicityCertificate :=
  { nextBlock with unicityCertificate := some (nextUC rootRound) }

/-- A ledger with both blocks of `A`. -/
def twoBlocks (rootRound : UInt64) : BlockStore UnicityCertificate :=
  applyOps OrderedStore.empty
    [.writeBlock 2 finalizedBlock, .writeBlock 3 (nextCertified rootRound)]

theorem storedBlock_twoBlocks {rootRound round : UInt64} {block : Block UnicityCertificate}
    (h : storedBlock (twoBlocks rootRound) round = some block) :
    block = finalizedBlock ∨ block = nextCertified rootRound := by
  rw [twoBlocks, applyOps, List.foldl_cons, List.foldl_cons, List.foldl_nil, storedBlock_apply] at h
  dsimp only at h
  rw [storedBlock_apply] at h
  dsimp only at h
  split_ifs at h
  · exact Or.inr (Option.some.inj h).symm
  · exact Or.inl (Option.some.inj h).symm
  · cases h

theorem cleanlyLeft_restarted : CleanlyLeft sealingLibrary validators restarted.blockStore := by
  have hboots : Boots sealingLibrary (conf "A" [1]) (fun env ↦ env.deleteBlock = .ok ())
      OrderedStore.empty node := ⟨shardConf, _, env 0, env 0, rfl, rfl, rfl, rfl, rfl⟩
  have hrun : (runNode sealingLibrary (conf "A" [1]) node finalizing).blockStore =
      restarted.blockStore := rfl
  rw [← hrun]
  exact .run .empty rfl (Set.mem_insert _ _) hboots
    (by simp [finalizing, proposing, deliver, input, env])

theorem cleanlyLeft_ran {id : PeerID} {key : List UInt8} (hconf : conf id key ∈ validators)
    {inputs : List (Input UnicityCertificate)}
    (hdeletes : ∀ input ∈ inputs, ∀ i, (input.envs i).deleteBlock = .ok ()) :
    CleanlyLeft sealingLibrary validators
      (runNode sealingLibrary (conf id key) restarted inputs).blockStore := by
  have hboots : Boots sealingLibrary (conf id key) (fun env ↦ env.deleteBlock = .ok ())
      restarted.blockStore restarted := ⟨shardConf, _, env 10, env 10, rfl, rfl, rfl, rfl, rfl⟩
  exact .run cleanlyLeft_restarted rfl hconf hboots hdeletes

end Reference

section Reference

open Reference

/-- After a restart `A` gets its second block certified in root round 8, and `B` recovers it with
the certificate of root round 7. -/
theorem ledgers_match_recovered :
    CleanlyLeft sealingLibrary validators (twoBlocks 8) ∧
      CleanlyLeft sealingLibrary validators (twoBlocks 7) ∧
      ∀ earlier ≤ 3, Option.Rel (SameBlock sealingLibrary) (storedBlock (twoBlocks 8) earlier)
        (storedBlock (twoBlocks 7) earlier) := by
  have hleader : (runNode sealingLibrary (conf "A" [1]) restarted
      [deliver proposedRecord 6 (technical 3 "A"), input 11 .t1Timeout,
        deliver nextRecord 8 (technical 4 "A")]).blockStore = twoBlocks 8 := rfl
  have hfollower : (runNode sealingLibrary (conf "B" [2]) restarted
      [deliver proposedRecord 6 (technical 3 "A"), deliver nextRecord 7 (technical 4 "A"),
        input 11 (.ledgerReplicationResponse (some
          { blocks := some [some (nextCertified 7)], firstBlockNumber := 3
            lastBlockNumber := 3 }))]).blockStore = twoBlocks 7 := rfl
  have hstore : CleanlyLeft sealingLibrary validators (twoBlocks 8) :=
    hleader ▸ cleanlyLeft_ran (Set.mem_insert _ _) (by simp [deliver, input, env])
  have hstore' : CleanlyLeft sealingLibrary validators (twoBlocks 7) :=
    hfollower ▸ cleanlyLeft_ran (Or.inr rfl) (by simp [deliver, input, env])
  have hhashed : ∀ rootRound, Hashed sealingLibrary (twoBlocks rootRound) := by
    intro rootRound round block uc hblock huc
    rcases storedBlock_twoBlocks hblock with rfl | rfl <;> cases huc <;> exact List.cons_ne_nil _ _
  have hcollision : NoCollision sealingLibrary (twoBlocks 8) (twoBlocks 7) := by
    intro round round' block block' record record' result result' hblock hblock' hcalculate
      hcalculate' hhash _
    rcases storedBlock_twoBlocks hblock with rfl | rfl <;>
      rcases storedBlock_twoBlocks hblock' with rfl | rfl <;> cases hcalculate <;>
      cases hcalculate'
    · exact ⟨rfl, rfl⟩
    · exact absurd hhash (by decide)
    · exact absurd hhash (by decide)
    · exact ⟨rfl, rfl⟩
  have hblock : storedBlock (twoBlocks 8) 3 = some (nextCertified 8) := rfl
  have hblock' : storedBlock (twoBlocks 7) 3 = some (nextCertified 7) := rfl
  have hsuccessor := (shardLibrary_chainLaws validators).successor
  exact ⟨hstore, hstore', ledgers_match sealingLibrary_sealLaws
    ⟨hsuccessor.round_lt, hsuccessor.previousHash⟩ sealingLibrary_rootChainLaw hstore hstore'
    hcollision (hhashed 8) (hhashed 7) hblock hblock'⟩

end Reference

end FinalityGadget
