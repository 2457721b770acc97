import FinalityGadget.Partition.Agreement
import FinalityGadget.Partition.Ledger
import FinalityGadget.Partition.Pending

/-!
# Recovery accepts what consensus finalizes

A block reaches a store on two independent paths. The node that proposed it builds the block,
certifies it and finalizes it; a recovering node validates it, verifies its state and applies it.
The pending proposal of a process is built on the committed certificate of the moment, and this does
not move while the proposal is pending. So the block that is finalized fits the state of every node
with that committed certificate.
-/

namespace FinalityGadget

open Bytes Fallible

variable {C : Type}

/-! ## Laws -/

/-- The certificates that the root chain issues never equivocate. -/
def NonEquivocationLaw (lib : BaseLibrary C) (confs : Set NodeConf) : Prop :=
  ∀ {luc uc}, WasValidated lib confs luc → WasValidated lib confs uc →
    getRootRoundNumber (some luc) ≤ getRootRoundNumber (some uc) →
    lib.checkNonEquivocatingCertificates luc uc = .ok ()

/-- The block hash is a function of the header, the transactions and the two state hashes. -/
def BlockHashInputLaw (lib : BaseLibrary C) : Prop :=
  ∀ {block block' result : Block C} {uc uc' : UnicityCertificate} {ir ir' record : InputRecord},
    block'.header = block.header → block'.transactions = block.transactions →
    getUCv1 lib (some block) = .ok uc → getUCv1 lib (some block') = .ok uc' →
    uc.inputRecord = some ir → uc'.inputRecord = some ir' →
    ir'.hash.bytes = ir.hash.bytes → ir'.previousHash.bytes = ir.previousHash.bytes →
    lib.calculateBlockHash block = .ok (record, result) →
    ∃ record' result', lib.calculateBlockHash block' = .ok (record', result') ∧
      record'.blockHash.bytes = record.blockHash.bytes

/-- A block is valid when no field of its header is empty, it has transactions, its certificate is
verified and carries the block hash. -/
def BlockValidLaw (lib : BaseLibrary C) : Prop :=
  ∀ {block result : Block C} {header : Header} {uc : UnicityCertificate} {record : InputRecord}
    {trustBase : RootTrustBase} {partition : PartitionID} {shard : ShardID},
    block.header = some header → header.version = 1 → header.partitionID ≠ 0 →
    header.proposerID ≠ "" → header.previousBlockHash.bytes ≠ [] → block.transactions ≠ none →
    getUCv1 lib (some block) = .ok uc →
    lib.verify (some uc) trustBase partition shard none = .ok () →
    lib.calculateBlockHash block = .ok (record, result) →
    record.blockHash.bytes = (getBlockHash (some uc)).bytes → lib.blockIsValid block none = .ok ()

/-- A decoded peer identifier is written as a non-empty text. -/
def PeerIDLaw (lib : BaseLibrary C) : Prop :=
  ∀ {text id}, lib.decodePeerID text = .ok id → lib.peerIDString id ≠ ""

/-- What the agreement of the two paths rests on. -/
structure ReplayLaws (lib : BaseLibrary C) (confs : Set NodeConf) : Prop where
  chain : ChainLaws lib confs
  nonEquivocation : NonEquivocationLaw lib confs
  cbor : lib.CborLaw
  blockHash : lib.BlockHashLaw
  blockHashInput : BlockHashInputLaw lib
  blockRecord : lib.BlockRecordLaw
  equalIR : lib.EqualIRLaw
  verify : VerifyLaw lib
  blockValid : BlockValidLaw lib
  peerID : PeerIDLaw lib

/-! ## The pending proposal of a process -/

/-- The block was proposed on top of the committed certificate of the node, by a named author. -/
def BuiltOn (lib : BaseLibrary C) (n : NodeState C) (block : Block C) : Prop :=
  ∃ (state : NodeState C) (author : String) (root : Slice) (ir : InputRecord),
    buildProposal lib state author (state.transactionSystem.summaryOf root) = .ok (ir, block) ∧
      author ≠ "" ∧ state.committedUC = n.committedUC

/-- A process whose pending proposal, once it has built it itself, is on top of the committed
certificate. -/
structure Builder (lib : BaseLibrary C) (conf : NodeConf) (n : Node C) : Prop where
  loaded : conf.Loads n.shardConf
  leader : LeaderCoherent lib n.toNodeState
  idle : Idle n
  built : ∀ block, n.pendingBlockProposal = some block → .writeProposal block ∈ n.storeLog →
    BuiltOn lib n.toNodeState block

/-- How a segment treats the pending proposal. -/
inductive ProposalStep (lib : BaseLibrary C) (n n' : Node C) : Prop where
  | dropped (hproposal : n'.pendingBlockProposal = none)
  | kept (hproposal : n'.pendingBlockProposal = n.pendingBlockProposal)
      (hlog : n'.storeLog = n.storeLog) (hcommitted : n'.committedUC = n.committedUC)
  | built (root : Slice) (ir : InputRecord) (block : Block C)
      (hbuild : buildProposal lib n.toNodeState (lib.peerIDString n.leader)
        (n.transactionSystem.summaryOf root) = .ok (ir, block))
      (hproposal : n'.pendingBlockProposal = some block)
      (hcommitted : n'.committedUC = n.committedUC) (hleader : n.ltr ≠ none ∨ n.leader ≠ "")

section Proposals

variable {lib : BaseLibrary C} {confs : Set NodeConf} {conf : NodeConf} {env : Env} {n n' : Node C}

/-- A request records the block it is about, or changes neither the proposal nor the store. -/
theorem RequestExit.record_cases {author : String} {state : Summary}
    {result : EStateM.Result Err (Node C) Unit}
    (h : RequestExit lib conf env author state n result) :
    ((final result).pendingBlockProposal = n.pendingBlockProposal ∧
        (final result).storeLog = n.storeLog) ∨
      ∃ ir block, buildProposal lib n.toNodeState author state = .ok (ir, block) ∧
        (final result).pendingBlockProposal = some block := by
  cases h with
  | unbuilt | unstored => exact Or.inl ⟨rfl, rfl⟩
  | unsent err ir block hbuild => exact Or.inr ⟨ir, block, hbuild, rfl⟩
  | undelivered err ir block request rootIDs hbuild => exact Or.inr ⟨ir, block, hbuild, rfl⟩
  | sent ir block request rootIDs hbuild => exact Or.inr ⟨ir, block, hbuild, rfl⟩

theorem ProposalStep.revertState (h : ProposalStep lib n n') :
    ProposalStep lib n n'.revertState := by
  cases h with
  | dropped hproposal => exact .dropped hproposal
  | kept hproposal hlog hcommitted => exact .kept hproposal hlog hcommitted
  | built root ir block hbuild hproposal hcommitted hleader =>
    exact .built root ir block hbuild hproposal hcommitted hleader

theorem TimeoutExit.proposalStep {result : EStateM.Result Err (Node C) Unit}
    (h : TimeoutExit lib conf env n result) : ProposalStep lib n (final result) := by
  have hcommitted := NodeState.committedUC_of_committed h.frame.2.1
  -- the announcement changes nothing that a request is built from
  have hrequested : ∀ {data m result'}, n.leader = conf.peerID →
      Announced lib conf env n data m →
      RequestExit lib conf env (lib.peerIDString conf.peerID)
        (n.transactionSystem.summaryOf (some data)) m result' →
      (final result').committedUC = n.committedUC → ProposalStep lib n (final result') := by
    intro data m result' hleader hannounced hrequest hcommitted
    obtain ⟨height, ltr, _, _, hltr, _, rfl⟩ := hannounced
    rcases hrequest.record_cases with ⟨hproposal, hlog⟩ | ⟨ir, block, hbuild, hproposal⟩
    · exact .kept hproposal hlog hcommitted
    · rw [← hleader] at hbuild
      exact .built (some data) ir block hbuild hproposal hcommitted (Or.inl (by simp [hltr]))
  cases h with
  | idle => exact .kept rfl rfl rfl
  | abandoned => exact .kept rfl rfl rfl
  | unproposed data m hstatus hleader hannounced =>
    obtain ⟨height, _, _, _, _, _, rfl⟩ := hannounced
    exact .kept rfl rfl rfl
  | unrequested data m m' err hstatus hleader hannounced hrequest =>
    have hstep : ProposalStep lib n m' := hrequested hleader hannounced hrequest hcommitted
    exact hstep.revertState
  | requested data m m' hstatus hleader hannounced hrequest =>
    exact hrequested hleader hannounced hrequest hcommitted

theorem VoteExit.proposalStep {prop : BlockProposal} {uc : UnicityCertificate}
    {result : EStateM.Result Err (Node C) Unit} (h : VoteExit lib conf env prop uc n result) :
    ProposalStep lib n (final result) := by
  have hcommitted := NodeState.committedUC_of_committed h.frame.2.1
  have hrequested : ∀ {height result'}, Electable lib n prop uc →
      RequestExit lib conf env (lib.peerIDString prop.nodeID)
        (n.transactionSystem.summaryOf prop.proposedRoot)
        (n.setTx (n.transactionSystem.setPending prop.proposedRoot height)) result' →
      (final result').committedUC = n.committedUC → ProposalStep lib n (final result') := by
    intro height result' helectable hrequest hcommitted
    rcases hrequest.record_cases with ⟨hproposal, hlog⟩ | ⟨ir, block, hbuild, hproposal⟩
    · exact .kept hproposal hlog hcommitted
    · rw [helectable.author_eq] at hbuild
      exact .built prop.proposedRoot ir block hbuild hproposal hcommitted
        (Or.inr helectable.leader_ne)
  cases h with
  | refused => exact .kept rfl rfl rfl
  | unverified => exact .kept rfl rfl rfl
  | unrequested height err cause m helectable hverified hrequest =>
    have hstep : ProposalStep lib n m := hrequested helectable hrequest hcommitted
    exact hstep
  | requested height m helectable hverified hrequest =>
    exact hrequested helectable hrequest hcommitted

/-- A certificate drops the pending proposal, or changes nothing that it is built on. -/
theorem CertificateExit.proposal_cases {uc : UnicityCertificate}
    {prevLUC : Option UnicityCertificate} {wasInitializing : Bool} {m : Node C}
    {result : EStateM.Result Err (Node C) Unit} (hnormal : m.status = .normal)
    (hmarshal : ∃ encoded, lib.marshal uc = .ok encoded)
    (h : CertificateExit lib conf env uc prevLUC wasInitializing m result) :
    (final result).pendingBlockProposal = none ∨ final result = m := by
  have hrunning : m.status ≠ .recovering := by simp [hnormal]
  cases h with
  | ignored | unknown => exact Or.inr rfl
  | resumed | repeated | initial | current | finalized => exact Or.inl (by simp)
  | behind => exact Or.inl (m.startRecovery_pendingBlockProposal lib conf env hrunning)
  | unencodable err proposal hnew hpending hnone =>
    obtain ⟨encoded, hencoded⟩ := hmarshal
    exact absurd hencoded (hnone encoded)
  | unfinalized err cause proposal encoded m' hnew hsuccessor hencoded hfinalize =>
    have hstatus : m'.status = m.status := hfinalize.status_eq
    exact Or.inl (m'.startRecovery_pendingBlockProposal lib conf env (hstatus ▸ hrunning))

theorem Segment.proposalStep (hlaws : ChainLaws lib confs) (hconf : conf ∈ confs)
    (hloaded : conf.Loads n.shardConf) (hidle : Idle n) {guard : Guard C}
    (h : Segment lib conf guard n n') : ProposalStep lib n n' := by
  have hrecovering : n.status = .recovering → n'.pendingBlockProposal = n.pendingBlockProposal →
      ProposalStep lib n n' :=
    fun hstatus hproposal ↦ .dropped (hproposal.trans (hidle hstatus))
  cases h with
  | quiet hquiet =>
    refine .kept hquiet.pendingBlockProposal hquiet.storeLog ?_
    rw [NodeState.committedUC, NodeState.committedUC, ← hquiet.transactionSystem]
  | adopt hstatus htr hluc => exact hrecovering hstatus (by cases hluc <;> rfl)
  | certificate henv hstatus hguard htr haccepted hexit =>
    have hmarshal := hlaws.verified.marshal ⟨conf, hconf, n.shardConf, hloaded, haccepted.validated⟩
    rcases hexit.proposal_cases rfl hmarshal with hnone | hsame
    · exact .dropped hnone
    · rw [hsame]
      cases haccepted <;> exact .kept rfl rfl rfl
  | timeout henv hguard hexit => exact hexit.proposalStep
  | vote henv hrunning hguard hvote => exact hvote.proposalStep
  | block henv hstatus hexit => exact hrecovering hstatus hexit.pendingBlockProposal_eq
  | finish henv hstatus hcomplete => exact .dropped (by simp)
  | stop hstatus hcomplete => exact hrecovering hstatus rfl

/-- The leader that a proposal is built for has a name. -/
theorem LeaderCoherent.author_ne (hpeerID : PeerIDLaw lib) (h : LeaderCoherent lib n.toNodeState)
    (hleader : n.ltr ≠ none ∨ n.leader ≠ "") : lib.peerIDString n.leader ≠ "" := by
  have hltr : n.ltr ≠ none := hleader.elim id h.ltr_ne
  rcases h with ⟨hnone, _⟩ | ⟨tr, _, _, _, _, _, _, hdecode⟩
  · exact absurd hnone hltr
  · exact hpeerID hdecode

theorem Builder.segment (hlaws : ReplayLaws lib confs) (hconf : conf ∈ confs) {guard : Guard C}
    (h : Builder lib conf n) (hsegment : Segment lib conf guard n n') : Builder lib conf n' := by
  refine ⟨hsegment.loads h.loaded, h.leader.segment hsegment, h.idle.segment hsegment, ?_⟩
  intro block hblock hwritten
  cases hsegment.proposalStep hlaws.chain hconf h.loaded h.idle with
  | dropped hproposal => cases hproposal.symm.trans hblock
  | kept hproposal hlog hcommitted =>
    obtain ⟨state, author, root, ir, hbuild, hauthor, hstate⟩ :=
      h.built block (hproposal ▸ hblock) (hlog ▸ hwritten)
    exact ⟨state, author, root, ir, hbuild, hauthor, hstate.trans hcommitted.symm⟩
  | built root ir block' hbuild hproposal hcommitted hleader =>
    cases hproposal.symm.trans hblock
    exact ⟨n.toNodeState, _, root, ir, hbuild, h.leader.author_ne hlaws.peerID hleader,
      hcommitted.symm⟩

theorem Started.builder {store : BlockStore C} (h : Started lib conf store n) :
    Builder lib conf n := by
  refine ⟨h.shardConf, h.coherent.leader, h.idle, ?_⟩
  intro block _ hwritten
  rw [h.storeLog] at hwritten
  cases hwritten

theorem Reachable.builder (hlaws : ReplayLaws lib confs) (h : Reachable lib confs conf n) :
    Builder lib conf n := by
  obtain ⟨store, start, inputs, hconf, _, hstart, rfl⟩ := h
  exact invariant_runNode (Guard.none_sound lib)
    (fun hinv hsegment ↦ hinv.segment hlaws hconf hsegment)
    (started_of_starts lib conf hstart).builder
    (Run.guarded_of_forall (fun n input ↦ Guard.none_admits lib conf n input) start inputs)

end Proposals

/-! ## The finalizing node -/

/-- A node finalizes its pending proposal, which the same process has built, and stores the
block. -/
structure Finalizes (lib : BaseLibrary C) (conf : NodeConf) (env : Env) (n : Node C)
    (uc : UnicityCertificate) (tr : Option TechnicalRecord) (proposal block : Block C)
    (n' : Node C) : Prop where
  pending : n.pendingBlockProposal = some proposal
  built : .writeProposal proposal ∈ n.storeLog
  run : (handleUnicityCertificate lib conf env uc tr).run n = .ok () n'
  stored : ∃ ops, n'.storeLog = n.storeLog ++ .writeBlock (getRoundNumber (some uc)) block :: ops

/-- What the finalizing node has checked and what it has become. -/
structure FinalizedBy (lib : BaseLibrary C) (conf : NodeConf) (n : Node C)
    (uc : UnicityCertificate) (proposal block : Block C) (n' : Node C) : Prop where
  validated : Validated lib conf n.shardConf uc
  successor : lib.isSuccessor uc n.committedUC = true
  record : ∃ ir, lib.blockInputRecord proposal = .ok ir ∧
    lib.assertEqualIR (some ir) uc.inputRecord = .ok ()
  certificate : ∃ encoded, lib.marshal uc = .ok encoded ∧
    block = { proposal with unicityCertificate := some encoded }
  committedUC : n'.committedUC = some uc
  committedHash : n'.transactionSystem.committedStateHash.bytes = (getStateHash (some uc)).bytes
  stored : storedBlock n'.blockStore (getRoundNumber (some uc)) = some block

section Finalizing

variable {lib : BaseLibrary C} {confs : Set NodeConf} {conf : NodeConf} {env : Env} {n n' : Node C}
  {uc : UnicityCertificate} {tr : Option TechnicalRecord} {proposal block : Block C}

/-- A new round stores no block. -/
theorem startNewRound_stores_nothing {m : Node C} {round : UInt64} {ops : List (StoreOp C)}
    (hstored : (m.startNewRound env).storeLog = n.storeLog ++ .writeBlock round block :: ops)
    (hlog : m.storeLog = n.storeLog) : False := by
  obtain ⟨ops', hperforms, hforget⟩ := startNewRound_performs m env
  rw [hperforms.storeLog, hlog, List.append_cancel_left_eq] at hstored
  cases hforget _ (hstored ▸ List.mem_cons_self)

/-- The only exit that stores a block is the one that finalizes the proposal. -/
theorem Finalizes.finalizedBy (h : Finalizes lib conf env n uc tr proposal block n') :
    FinalizedBy lib conf n uc proposal block n' := by
  obtain ⟨hpending, _, hrun, ops, hstored⟩ := h
  have hexit := handleUnicityCertificate_spec lib conf env n uc tr
  rw [hrun] at hexit
  cases hexit with
  | recovering hstatus _ hluc =>
    have hlog : n'.storeLog = n.storeLog := by cases hluc <;> rfl
    simp [hlog] at hstored
  | processed hstatus m haccepted _ hexit =>
    have hlog : m.storeLog = n.storeLog := by cases haccepted <;> rfl
    have hproposal : m.pendingBlockProposal = n.pendingBlockProposal := by cases haccepted <;> rfl
    have hcommitted := NodeState.committedUC_of_committed haccepted.committed_eq
    cases hexit with
    | ignored => simp [Node.setStatus, hlog] at hstored
    | resumed | repeated | initial | current => cases startNewRound_stores_nothing hstored hlog
    | finalized proposal' ir encoded hnew hpending' hsuccessor hrecord hequal hmarshal hwrite
        hcommit =>
      obtain rfl : proposal = proposal' :=
        Option.some.inj ((hproposal.trans hpending).symm.trans hpending')
      obtain ⟨ops', hperforms, _⟩ := startNewRound_performs
        ((m.setStatus .normal).finalized
          { proposal with unicityCertificate := some encoded } uc) env
      have hfinal : ((m.setStatus .normal).finalized
          { proposal with unicityCertificate := some encoded } uc).storeLog =
          n.storeLog ++ [.writeBlock (getRoundNumber (some uc))
            { proposal with unicityCertificate := some encoded }] := congrArg (· ++ _) hlog
      have hwritten : block = { proposal with unicityCertificate := some encoded } := by
        rw [hperforms.storeLog, hfinal, List.append_assoc, List.append_cancel_left_eq] at hstored
        injection hstored with hwrite _
        injection hwrite with _ hblock
        exact hblock.symm
      refine ⟨haccepted.validated, hcommitted ▸ hsuccessor, ⟨ir, hrecord, hequal⟩,
        ⟨encoded, hmarshal, hwritten⟩, ?_, ?_, ?_⟩
      · exact NodeState.committedUC_of_committed (Node.startNewRound_committed _ env)
      · rw [Node.startNewRound_transactionSystem]
        exact hcommit
      · rw [storedBlock_startNewRound, hwritten]
        simp only [Node.finalized, Node.store, Node.setTx, storedBlock_writeBlock,
          Function.update_self]

end Finalizing

/-! ## The recovering node -/

/-- What a recovering node checks of the block that another node has finalized on top of its
committed certificate. -/
structure Replayable (lib : BaseLibrary C) (n : NodeState C) (uc : UnicityCertificate)
    (block : Block C) : Prop where
  certificate : getUCv1 lib (some block) = .ok uc
  isValid : lib.blockIsValid block none = .ok ()
  linked : block.previousBlockHash.bytes = (getBlockHash n.committedUC).bytes
  record : ∃ record, uc.inputRecord = some record ∧ record.summaryValue.bytes = [] ∧
    record.sumOfEarnedFees = 0 ∧ record.etHash.bytes = []

section Recovering

variable {lib : BaseLibrary C} {confs : Set NodeConf} {conf conf' : NodeConf} {env : Env}
  {n n' : Node C} {uc : UnicityCertificate} {proposal block : Block C}

/-- The block hash of a certified proposal is calculated from the stored block again. -/
theorem blockHash_of_certified (hlaws : ReplayLaws lib confs) {state : NodeState C}
    {author : String} {summary : Summary} {ir record : InputRecord} {encoded : C}
    (hbuild : buildProposal lib state author summary = .ok (ir, proposal))
    (hmarshal : lib.marshal uc = .ok encoded) (huc : uc.inputRecord = some record)
    (hsame : ir.Same record) :
    ∃ record' result, lib.calculateBlockHash { proposal with unicityCertificate := some encoded } =
      .ok (record', result) ∧ record'.blockHash.bytes = (getBlockHash (some uc)).bytes := by
  have hbuilt := built_of_buildProposal lib hlaws.cbor hlaws.blockHash hlaws.blockRecord hbuild
  obtain ⟨encoded₀, hmarshal₀, hcalculate⟩ := bind_eq_ok.mp hbuild
  have hdecoded₀ : getUCv1 lib (some
      { header := some (proposedHeader state author)
        unicityCertificate := some encoded₀
        transactions := some [] }) = .ok (proposedUC state summary) :=
    hlaws.cbor (mapError_eq_ok.mp hmarshal₀)
  have hdecoded :
      getUCv1 lib (some { proposal with unicityCertificate := some encoded }) = .ok uc :=
    hlaws.cbor hmarshal
  have hhash : record.hash.bytes = (proposedIR state summary).hash.bytes := by
    rw [← hsame.hash, hbuilt.ir_eq]
  have hprevious : record.previousHash.bytes = (proposedIR state summary).previousHash.bytes := by
    rw [← hsame.previousHash, hbuilt.ir_eq]
  obtain ⟨record', result, hcalculate', hblockHash⟩ := hlaws.blockHashInput hbuilt.header
    hbuilt.transactions hdecoded₀ hdecoded rfl huc hhash hprevious (mapError_eq_ok.mp hcalculate)
  refine ⟨record', result, hcalculate', ?_⟩
  calc
    record'.blockHash.bytes = ir.blockHash.bytes := hblockHash
    _ = record.blockHash.bytes := hsame.blockHash
    _ = (getBlockHash (some uc)).bytes := by simp [getBlockHash, getInputRecord, huc]

/-- A finalized block can be replayed on top of the certificate it was finalized on, if the library
takes a header without a partition or without a previous block hash in case the block has one. -/
theorem FinalizedBy.replayable (hlaws : ReplayLaws lib confs)
    (h : FinalizedBy lib conf n uc proposal block n') (hbuilt : BuiltOn lib n.toNodeState proposal)
    (haccepted : ∀ header, block.header = some header →
      header.partitionID = 0 ∨ header.previousBlockHash.bytes = [] →
      lib.blockIsValid block none = .ok ()) :
    Replayable lib n.toNodeState uc block := by
  obtain ⟨state, author, root, ir, hbuild, hauthor, hcommitted⟩ := hbuilt
  obtain ⟨encoded, hmarshal, rfl⟩ := h.certificate
  obtain ⟨ir', hrecord, hequal⟩ := h.record
  have hbuilt := built_of_buildProposal lib hlaws.cbor hlaws.blockHash hlaws.blockRecord hbuild
  cases hbuilt.record.symm.trans hrecord
  obtain ⟨record, huc, hsame⟩ := hlaws.equalIR hequal
  obtain ⟨record', result, hcalculate, hcalculated⟩ :=
    blockHash_of_certified hlaws hbuild hmarshal huc hsame
  obtain ⟨trustBase, _, hvalid⟩ := h.validated
  obtain ⟨shardConfHash, hverified⟩ := verify_of_validateCertificate lib hvalid
  have hunmarshal := hlaws.cbor hmarshal
  have hlinked : (proposedHeader state author).previousBlockHash = getBlockHash n.committedUC :=
    congrArg getBlockHash hcommitted
  constructor
  case certificate => exact hunmarshal
  case isValid =>
    have htransactions : proposal.transactions ≠ none := by simp [hbuilt.transactions]
    by_cases hfilled : (proposedHeader state author).partitionID = 0 ∨
        (proposedHeader state author).previousBlockHash.bytes = []
    · exact haccepted _ hbuilt.header hfilled
    · obtain ⟨hpartition, hprevious⟩ := not_or.mp hfilled
      exact hlaws.blockValid hbuilt.header rfl hpartition hauthor hprevious htransactions
        hunmarshal (hlaws.verify hverified) hcalculate hcalculated
  case linked =>
    rw [← hlinked, Block.previousBlockHash, hbuilt.header]
    rfl
  case record =>
    refine ⟨record, huc, ?_, ?_, ?_⟩
    · rw [← hsame.summaryValue, hbuilt.ir_eq, FGPTxSystem.summaryOf_eq]
      rfl
    · rw [← hsame.sumOfEarnedFees, hbuilt.ir_eq, FGPTxSystem.summaryOf_eq]
      rfl
    · rw [← hsame.etHash, hbuilt.ir_eq, FGPTxSystem.summaryOf_eq]
      rfl

/-- A recovering node accepts every certificate that the root chain has issued: it is older than the
latest one, or does not equivocate. -/
theorem updateLUC_of_validated (hlaws : ReplayLaws lib confs) (hconf : conf ∈ confs)
    (h : Aligned lib confs conf n) (hstatus : n.status = .recovering)
    (hvalid : Validated lib conf n.shardConf uc) :
    ∃ m, (updateLUC lib conf uc none).run n = .ok () m := by
  have hissued := h.wasValidated hconf hvalid
  obtain ⟨trustBase, htrust, hvalidate⟩ := hvalid
  obtain ⟨luc, hluc, hlatest⟩ := h.recovering hstatus
  simp only [updateLUC, EStateM.run_bind, EStateM.run_get, run_ofExcept, htrust, hvalidate, run_ite]
  by_cases hstale : n.status = .recovering ∧ getRootRoundNumber (some uc) < getRootRoundNumber n.luc
  · exact ⟨n, by simp [hstale]⟩
  · have hle : getRootRoundNumber (some luc) ≤ getRootRoundNumber (some uc) :=
      not_lt.mp fun hlt ↦ hstale ⟨hstatus, hluc ▸ hlt⟩
    have hcheck : checkEquivocation lib n.luc uc = .ok () := by
      rw [hluc]
      exact hlaws.nonEquivocation hlatest hissued hle
    simp only [hstale, hcheck, decodeLeader, EStateM.run_pure, EStateM.run_set, if_false]
    split
    · exact ⟨n, rfl⟩
    · exact ⟨_, rfl⟩

theorem Validated.congr {shardConf : PartitionDescriptionRecord}
    (h : Validated lib conf shardConf uc)
    (htrust : conf'.trustBaseByEpoch = conf.trustBaseByEpoch) :
    Validated lib conf' shardConf uc := by
  unfold Validated
  rw [htrust]
  exact h

/-- A block that can be replayed, and that the transaction system verifies, is applicable. -/
theorem Replayable.applicable (hlaws : ReplayLaws lib confs) {m : Node C} {height : UInt64}
    (h : Replayable lib m.toNodeState uc block)
    (hcommittedHash : m.transactionSystem.committedStateHash.bytes =
      (getStateHash m.committedUC).bytes) (hsuccessor : lib.isSuccessor uc m.committedUC = true)
    (hclean : m.transactionSystem.pendingStateHash = none)
    (hverified : FGPTxSystem.Verified env.pow m.transactionSystem (getStateHash (some uc)) height) :
    Applicable lib env m block uc height := by
  obtain ⟨record, huc, hsummary, hfees, het⟩ := h.record
  constructor
  case round_lt => exact hlaws.chain.successor.round_lt hsuccessor
  case successor => exact hsuccessor
  case linked => exact h.linked
  case clean => exact hclean
  case extends_state =>
    right
    rw [hcommittedHash]
    exact hlaws.chain.successor.previousHash hsuccessor
  case verified => exact hverified
  case equal =>
    have hvalues : Slice.bytes (some []) = [] ∧ Slice.bytes none = [] := ⟨rfl, rfl⟩
    simp [Summary.equalsIR, FGPTxSystem.summaryOf_eq, huc, getStateHash_of_record huc, bind_eq_ok,
      hsummary, hfees, het, hvalues]

/-- What one node has finalized is accepted by every recovering node with the committed certificate
from before: the block is applied and leaves the same committed certificate, the same committed
state and the same stored block. The law of `Block.IsValid` is about headers without empty fields;
the first block has no previous block hash, and there the answer of the library is assumed. -/
theorem recovery_accepts_finalized (hlaws : ReplayLaws lib confs)
    {finalizer finalizer' recoverer : Node C} {env' : Env} {tr : Option TechnicalRecord}
    {round : UInt64} {summary : Summary} {verified : FGPTxSystem}
    (hfinalizer : Reachable lib confs conf finalizer)
    (hfinalizes : Finalizes lib conf env finalizer uc tr proposal block finalizer')
    (hrecoverer : Reachable lib confs conf' recoverer) (hstatus : recoverer.status = .recovering)
    (hcommitted : recoverer.committedUC = finalizer.committedUC)
    (hclean : recoverer.transactionSystem.pendingStateHash = none)
    (htrust : conf'.trustBaseByEpoch = conf.trustBaseByEpoch)
    (hshardConf : recoverer.shardConf = finalizer.shardConf)
    (hverified : (FGPTxSystem.followerVerify env'.pow round (getStateHash (some uc))).run
      recoverer.transactionSystem = .ok summary verified)
    (hwrite : env'.writeBlock = .ok ())
    (haccepted : ∀ header, block.header = some header →
      header.partitionID = 0 ∨ header.previousBlockHash.bytes = [] →
      lib.blockIsValid block none = .ok ()) :
    storedBlock finalizer'.blockStore (getRoundNumber (some uc)) = some block ∧
      ∃ recoverer', (handleBlock lib conf' env' (some block)).run recoverer = .ok () recoverer' ∧
        recoverer'.committedUC = finalizer'.committedUC ∧
        recoverer'.transactionSystem.committedStateHash.bytes =
          finalizer'.transactionSystem.committedStateHash.bytes ∧
        storedBlock recoverer'.blockStore (getRoundNumber (some uc)) = some block := by
  have hby := hfinalizes.finalizedBy
  have hbuilt := (hfinalizer.builder hlaws).built proposal hfinalizes.pending hfinalizes.built
  have hreplayable := hby.replayable hlaws hbuilt haccepted
  have hpeer' := hrecoverer.peer hlaws.chain hlaws.cbor hlaws.blockHash hlaws.blockRecord
  obtain ⟨_, _, _, hconf', _⟩ := hrecoverer
  have hvalid : Validated lib conf' recoverer.shardConf uc := by
    rw [hshardConf]
    exact hby.validated.congr htrust
  obtain ⟨m, hseen⟩ := updateLUC_of_validated hlaws hconf' hpeer'.aligned hstatus hvalid
  have hluc := updateLUC_spec lib conf' recoverer uc none
  rw [hseen] at hluc
  -- seeing the certificate leaves the committed state alone
  have htx : m.transactionSystem = recoverer.transactionSystem := by cases hluc <;> rfl
  have hcommitted' : m.committedUC = finalizer.committedUC :=
    (congrArg FGPTxSystem.committedUC htx).trans hcommitted
  have hreplayable' : Replayable lib m.toNodeState uc block := by
    refine ⟨hreplayable.certificate, hreplayable.isValid, ?_, hreplayable.record⟩
    rw [hcommitted']
    exact hreplayable.linked
  have hhash : m.transactionSystem.committedStateHash.bytes =
      (getStateHash m.committedUC).bytes := by
    rw [NodeState.committedUC, htx]
    exact hpeer'.aligned.committedHash
  obtain ⟨height, hverifies, -, -⟩ := FGPTxSystem.followerVerify_ok hverified
  rw [← htx] at hclean hverifies
  have happlicable : Applicable lib env' m block uc height :=
    hreplayable'.applicable hlaws hhash (hcommitted' ▸ hby.successor) hclean hverifies
  obtain ⟨height', hrun⟩ := handleBlock_of_applicable lib conf' hstatus hreplayable.certificate
    hreplayable.isValid hseen happlicable hwrite
  refine ⟨hby.stored, _, hrun, hby.committedUC.symm, hby.committedHash.symm, ?_⟩
  simp only [Node.finalized, Node.store, Node.setTx, storedBlock_writeBlock, Function.update_self]

end Recovering

namespace Reference

variable {issued : UnicityCertificate → Bool}

/-- The reference library keeps certificates unencoded. -/
theorem certificate_of_getUCv1 {block : Block UnicityCertificate} {uc : UnicityCertificate}
    (h : getUCv1 (libraryOf issued) (some block) = .ok uc) :
    block.unicityCertificate = some uc := by
  unfold getUCv1 at h
  cases hencoded : block.unicityCertificate with
  | none => simp [hencoded] at h
  | some encoded =>
    simp only [hencoded] at h
    cases h
    rfl

theorem blockHashInputLaw : BlockHashInputLaw (libraryOf issued) := by
  intro block block' result uc uc' ir ir' record hheader _ huc huc' hir hir' hhash hprevious
    hcalculate
  have hencoded := certificate_of_getUCv1 huc
  have hencoded' := certificate_of_getUCv1 huc'
  have hlinked : block'.previousBlockHash = block.previousBlockHash := by
    rw [Block.previousBlockHash, Block.previousBlockHash, hheader]
  have hchanged : ir'.hash.equal ir'.previousHash = ir.hash.equal ir.previousHash := by
    rw [Slice.equal, Slice.equal, hhash, hprevious]
  simp only [libraryOf, calculateBlockHash, hencoded, hir] at hcalculate
  cases hcalculate
  simp only [libraryOf, calculateBlockHash, hencoded', hir', hchanged, hhash, hlinked]
  exact ⟨_, _, rfl, rfl⟩

theorem blockValidLaw : BlockValidLaw (libraryOf issued) := by
  intro block result header uc record trustBase partition shard hheader _ hpartition hproposer
    _ htransactions _ _ _ _
  simp [libraryOf, blockIsValid, hheader, hpartition, hproposer, htransactions]

theorem peerIDLaw : PeerIDLaw (libraryOf issued) := by
  intro text id h
  simp only [libraryOf] at h ⊢
  split at h
  · cases h
  · cases h
    assumption

theorem shardLibrary_replayLaws (confs : Set NodeConf) : ReplayLaws shardLibrary confs := by
  have hissued : ∀ {uc}, WasValidated shardLibrary confs uc → uc ∈ issuedUCs :=
    fun h ↦ of_decide_eq_true (issued_of_wasValidated h)
  constructor
  case chain => exact shardLibrary_chainLaws confs
  case nonEquivocation =>
    intro luc uc h h' hle
    have hcheck : ∀ luc ∈ issuedUCs, ∀ uc ∈ issuedUCs,
        getRootRoundNumber (some luc) ≤ getRootRoundNumber (some uc) →
        checkNonEquivocatingCertificates luc uc = .ok () := by decide
    exact hcheck luc (hissued h) uc (hissued h') hle
  case cbor => exact cborLaw
  case blockHash => exact blockHashLaw
  case blockHashInput => exact blockHashInputLaw
  case blockRecord => exact blockRecordLaw
  case equalIR => exact equalIRLaw
  case verify => exact verifyLaw
  case blockValid => exact blockValidLaw
  case peerID => exact peerIDLaw

/-- After a restart the leader `A` has proposed its second block. -/
def proposer : Node UnicityCertificate :=
  runNode shardLibrary (conf "A" [1]) restarted
    [deliver proposedRecord 6 (technical 3 "A"), input 11 .t1Timeout]

/-- After a restart `B` has missed that proposal and learns of its certificate. -/
def lagging : Node UnicityCertificate :=
  runNode shardLibrary (conf "B" [2]) restarted
    [deliver proposedRecord 6 (technical 3 "A"), deliver nextRecord 7 (technical 4 "A")]

theorem proposer_committed : proposer.shardConf = shardConf ∧
    proposer.committedUC = some proposalUC := ⟨rfl, rfl⟩

theorem lagging_committed : lagging.shardConf = shardConf ∧
    lagging.committedUC = some proposalUC := ⟨rfl, rfl⟩

end Reference

section Reference

open Reference

/-- The block that `A` finalizes on top of its first one is accepted by the recovering `B`. -/
theorem recovery_accepts_second_block :
    ∃ finalizer' recoverer',
      Finalizes shardLibrary (conf "A" [1]) (env 11) proposer (nextUC 8) (some (technical 4 "A"))
        nextBlock nextFinalized finalizer' ∧ lagging.status = .recovering ∧
      (handleBlock shardLibrary (conf "B" [2]) (env 11) (some nextFinalized)).run lagging =
        .ok () recoverer' ∧ recoverer'.committedUC = finalizer'.committedUC := by
  have hfinalizer : Reachable shardLibrary validators (conf "A" [1]) proposer :=
    reachable_restarted (Set.mem_insert _ _) _
  have hrecoverer : Reachable shardLibrary validators (conf "B" [2]) lagging :=
    reachable_restarted (Or.inr rfl) _
  have hbuilt : proposer.storeLog[1]? = some (.writeProposal nextBlock) := rfl
  obtain ⟨finalizer', hfinalizes⟩ : ∃ finalizer', Finalizes shardLibrary (conf "A" [1]) (env 11)
      proposer (nextUC 8) (some (technical 4 "A")) nextBlock nextFinalized finalizer' :=
    ⟨_, rfl, List.mem_of_getElem? hbuilt, rfl, [.deleteProposal], rfl⟩
  have hverified : (FGPTxSystem.followerVerify (env 11).pow 3
      (getStateHash (some (nextUC 8)))).run lagging.transactionSystem =
        .ok (lagging.transactionSystem.summaryOf (some [11]))
        (lagging.transactionSystem.setPending (some [11]) 11) := rfl
  have hwrite : (env 11).writeBlock = .ok () := rfl
  have haccepts := recovery_accepts_finalized (shardLibrary_replayLaws validators) hfinalizer
    hfinalizes hrecoverer rfl (lagging_committed.2.trans proposer_committed.2.symm) rfl rfl
    (lagging_committed.1.trans proposer_committed.1.symm) hverified hwrite fun _ _ _ ↦ rfl
  obtain ⟨_, recoverer', hrun, hcommitted, _⟩ := haccepts
  exact ⟨finalizer', recoverer', hfinalizes, rfl, hrun, hcommitted⟩

end Reference

end FinalityGadget
