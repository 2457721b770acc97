import FinalityGadget.Partition.Coherence

/-!
# One record per root round

A node must not ask the root chain to certify two records in one root round. A request records the
proposal behind it as pending, and a pending proposal is dropped only by a certificate of a new root
round. So a second request of the round can only come from a timer that fires, or a vote that is
cast, while a proposal is pending; it carries the same record as long as the root is the same.
-/

namespace FinalityGadget

open Bytes Fallible

variable {C : Type}

/-! ## Requests of a segment -/

namespace Node

variable (n : Node C)

@[simp]
theorem post_certificationRequest (request : BlockCertificationRequest) (receivers : List PeerID) :
    (n.post (.certificationRequest request) receivers).requests =
      n.requests ++ [(n.toNodeState, request)] := by
  simp [requests, post]

@[simp]
theorem post_blockProposal (prop : BlockProposal) (receivers : List PeerID) :
    (n.post (.blockProposal prop) receivers).requests = n.requests := by
  simp [requests, post]

/-- The state in which a request leaves: the proposal is recorded and its root is pending. -/
def voting (root : Slice) (height : UInt64) (block : Block C) : NodeState C :=
  { n.toNodeState with
    transactionSystem := n.transactionSystem.setPending root height
    blockStore := (StoreOp.writeProposal block).apply n.blockStore
    pendingBlockProposal := some block }

end Node

/-- What a timeout or a vote for a root leaves of the pending proposal and of the requests. -/
inductive Proposing (lib : BaseLibrary C) (n : Node C) (root : Slice) (height : UInt64)
    (n' : Node C) : Prop where
  | kept (hproposal : n'.pendingBlockProposal = n.pendingBlockProposal)
      (hrequests : n'.requests = n.requests)
  | recorded (ir : InputRecord) (block : Block C)
      (hbuild : buildProposal lib n.toNodeState (lib.peerIDString n.leader)
        (n.transactionSystem.summaryOf root) = .ok (ir, block))
      (hproposal : n'.pendingBlockProposal = some block) (hrequests : n'.requests = n.requests)
  | requested (ir : InputRecord) (block : Block C) (request : BlockCertificationRequest)
      (hbuild : buildProposal lib n.toNodeState (lib.peerIDString n.leader)
        (n.transactionSystem.summaryOf root) = .ok (ir, block))
      (hproposal : n'.pendingBlockProposal = some block)
      (hrequest : request.inputRecord = some ir)
      (hrequests : n'.requests = n.requests ++ [(n.voting root height block, request)])

section Proposing

variable {lib : BaseLibrary C} {conf : NodeConf} {env : Env} {n : Node C}

theorem Proposing.revertState {root : Slice} {height : UInt64} {n' : Node C}
    (h : Proposing lib n root height n') : Proposing lib n root height n'.revertState := by
  cases h with
  | kept hproposal hrequests => exact .kept hproposal hrequests
  | recorded ir block hbuild hproposal hrequests =>
    exact .recorded ir block hbuild hproposal hrequests
  | requested ir block request hbuild hproposal hrequest hrequests =>
    exact .requested ir block request hbuild hproposal hrequest hrequests

theorem RequestExit.proposing {m : Node C} {root : Slice} {height : UInt64}
    {result : EStateM.Result Err (Node C) Unit}
    (h : RequestExit lib conf env (lib.peerIDString n.leader) (n.transactionSystem.summaryOf root) m
      result)
    (hstate : m.toNodeState = { n.toNodeState with
      transactionSystem := n.transactionSystem.setPending root height })
    (hsent : m.requests = n.requests) : Proposing lib n root height (final result) := by
  have hproposal : m.pendingBlockProposal = n.pendingBlockProposal := by rw [hstate]
  have hbuilds : ∀ author state, buildProposal lib m.toNodeState author state =
      buildProposal lib n.toNodeState author state := by
    intro author state
    rw [hstate]
    rfl
  have hvoting : ∀ block, (m.recorded block).toNodeState = n.voting root height block := by
    intro block
    have hrecorded : (m.recorded block).toNodeState =
        { m.toNodeState with
          blockStore := (StoreOp.writeProposal block).apply m.blockStore
          pendingBlockProposal := some block } := rfl
    rw [hrecorded, hstate]
    rfl
  cases h with
  | unbuilt err hbuild => exact .kept hproposal hsent
  | unstored err hwrite => exact .kept hproposal hsent
  | unsent err ir block hbuild hprepare =>
    exact .recorded ir block (hbuilds _ _ ▸ hbuild) rfl hsent
  | undelivered err ir block request rootIDs hbuild hprepare hsend =>
    refine .requested ir block request (hbuilds _ _ ▸ hbuild) rfl
      (prepareRequest_content lib conf hprepare).1 ?_
    rw [final_error, Node.post_certificationRequest, hvoting]
    exact congrArg (· ++ _) hsent
  | sent ir block request rootIDs hbuild hprepare =>
    refine .requested ir block request (hbuilds _ _ ▸ hbuild) rfl
      (prepareRequest_content lib conf hprepare).1 ?_
    rw [final_ok, Node.post_certificationRequest, hvoting]
    exact congrArg (· ++ _) hsent

/-- A timeout keeps the proposal, or proposes a candidate of an active leader. -/
theorem TimeoutExit.proposing {result : EStateM.Result Err (Node C) Unit}
    (h : TimeoutExit lib conf env n result) :
    ((final result).pendingBlockProposal = n.pendingBlockProposal ∧
        (final result).requests = n.requests) ∨
      n.status ≠ .recovering ∧ n.leader = conf.peerID ∧ n.ltr ≠ none ∧
        ∃ data height, n.transactionSystem.Candidate env.pow data height ∧
          Proposing lib n (some data) height (final result) := by
  cases h with
  | idle hidle => exact Or.inl ⟨rfl, rfl⟩
  | abandoned hstatus hleader hnone => exact Or.inl ⟨rfl, rfl⟩
  | unproposed data m hstatus hleader hannounced hsend =>
    obtain ⟨height, _, _, _, _, _, rfl⟩ := hannounced
    exact Or.inl ⟨rfl, Node.post_blockProposal _ _ _⟩
  | unrequested data m m' err hstatus hleader hannounced hrequest =>
    obtain ⟨height, _, _, hcandidate, hltr, _, rfl⟩ := hannounced
    rw [← hleader] at hrequest
    have hproposing := hrequest.proposing rfl (Node.post_blockProposal _ _ _)
    exact Or.inr ⟨hstatus, hleader, by simp [hltr], data, height, hcandidate,
      hproposing.revertState⟩
  | requested data m m' hstatus hleader hannounced hrequest =>
    obtain ⟨height, _, _, hcandidate, hltr, _, rfl⟩ := hannounced
    rw [← hleader] at hrequest
    have hproposing := hrequest.proposing rfl (Node.post_blockProposal _ _ _)
    exact Or.inr ⟨hstatus, hleader, by simp [hltr], data, height, hcandidate, hproposing⟩

/-- A vote keeps the proposal, or is for the verified root of the leader. -/
theorem VoteExit.proposing {prop : BlockProposal} {uc : UnicityCertificate}
    {result : EStateM.Result Err (Node C) Unit} (h : VoteExit lib conf env prop uc n result) :
    ((final result).pendingBlockProposal = n.pendingBlockProposal ∧
        (final result).requests = n.requests) ∨
      Electable lib n prop uc ∧ ∃ height,
        FGPTxSystem.Verified env.pow n.transactionSystem prop.proposedRoot height ∧
          Proposing lib n prop.proposedRoot height (final result) := by
  cases h with
  | refused err => exact Or.inl ⟨rfl, rfl⟩
  | unverified err => exact Or.inl ⟨rfl, rfl⟩
  | unrequested height err cause m helectable hverified hrequest =>
    rw [helectable.author_eq] at hrequest
    have hproposing : Proposing lib n prop.proposedRoot height m := hrequest.proposing rfl rfl
    exact Or.inr ⟨helectable, height, hverified, hproposing⟩
  | requested height m helectable hverified hrequest =>
    rw [helectable.author_eq] at hrequest
    exact Or.inr ⟨helectable, height, hverified, hrequest.proposing rfl rfl⟩

end Proposing

/-! ## The invariant -/

/-- No two requests of one root round carry different records. -/
def SignsOnce (n : Node C) : Prop :=
  ∀ first ∈ n.requests, ∀ second ∈ n.requests,
    getRootRoundNumber first.1.luc = getRootRoundNumber second.1.luc →
      first.2.inputRecord = second.2.inputRecord

/-- The request is what the node would ask for again: its record is built from the present state and
belongs to the pending proposal. -/
structure Standing (lib : BaseLibrary C) (n : Node C) (request : BlockCertificationRequest) : Prop
    where
  status : n.status = .normal
  ltr : n.ltr ≠ none
  built : ∃ ir block, n.pendingBlockProposal = some block ∧ request.inputRecord = some ir ∧
    buildProposal lib n.toNodeState (lib.peerIDString n.leader)
      (n.transactionSystem.summaryOf ir.hash) = .ok (ir, block)

/-- The requests of a node: none is of a later root round, those of the present one stand. -/
structure History (lib : BaseLibrary C) (n : Node C) : Prop where
  rootRound_le : ∀ sent ∈ n.requests, getRootRoundNumber sent.1.luc ≤ getRootRoundNumber n.luc
  standing : ∀ sent ∈ n.requests, getRootRoundNumber sent.1.luc = getRootRoundNumber n.luc →
    Standing lib n sent.2
  once : SignsOnce n

structure Signing (lib : BaseLibrary C) (conf : NodeConf) (n : Node C) : Prop where
  loaded : conf.Loads n.shardConf
  leader : LeaderCoherent lib n.toNodeState
  initializing : n.status = .initializing → n.ltr = none
  history : History lib n

/-- The record of the block has the given state hash. -/
def HashOf (lib : BaseLibrary C) (block : Block C) (root : Slice) : Prop :=
  ∀ ir, lib.blockInputRecord block = .ok ir → ir.hash = root

/-- While a proposal is pending, an active leader whose timer fires finds no other candidate, and
a vote that the transaction system does not refuse is for the same root. -/
def signingGuard (lib : BaseLibrary C) (conf : NodeConf) : Guard C where
  timeout n env := n.status ≠ .recovering → n.leader = conf.peerID →
    ∀ block, n.pendingBlockProposal = some block → ∀ data height,
      n.transactionSystem.Candidate env.pow data height → HashOf lib block (some data)
  vote n prop := n.transactionSystem.pendingStateHash = none →
    ∀ block, n.pendingBlockProposal = some block → HashOf lib block prop.proposedRoot

theorem signingGuard_sound {lib : BaseLibrary C} (hduplicate : lib.DuplicateLaw) (conf : NodeConf) :
    (signingGuard lib conf).Sound lib where
  vote_of_fresh := by
    intro n prop _ hfresh _ block hblock
    simp [hfresh] at hblock
  vote_of_duplicate := by
    intro n prop uc luc hlt hsame
    rw [hduplicate.rootRound_eq hsame] at hlt
    exact absurd hlt (UInt64.lt_irrefl _)
  certificate_of_normal := fun _ ↦ trivial

section Steps

variable {lib : BaseLibrary C} {conf : NodeConf} {n n' : Node C}

/-- What a segment keeps of the data behind a request. -/
structure Keeps (n n' : Node C) : Prop where
  status : n'.status = n.status
  latest : n'.latest = n.latest
  committed : n'.committed = n.committed
  shard : n'.shardConf.partitionID = n.shardConf.partitionID ∧
    n'.shardConf.shardID = n.shardConf.shardID

/-- A proposal is built from the latest and the committed certificate and the identifiers of the
shard. -/
theorem Keeps.buildProposal_eq (h : Keeps n n') (root : Slice) :
    buildProposal lib n'.toNodeState (lib.peerIDString n'.leader)
        (n'.transactionSystem.summaryOf root) =
      buildProposal lib n.toNodeState (lib.peerIDString n.leader)
        (n.transactionSystem.summaryOf root) := by
  have hluc := NodeState.luc_of_latest h.latest
  have hltr := NodeState.ltr_of_latest h.latest
  have hleader := NodeState.leader_of_latest h.latest
  have huc := NodeState.committedUC_of_committed h.committed
  simp only [buildProposal, proposedUC, proposedIR, proposedHeader, FGPTxSystem.summaryOf_eq,
    NodeState.currentRoundNumber, NodeState.currentEpoch, hluc, hltr, hleader, huc, h.shard.1,
    h.shard.2]

theorem CertificateExit.requests_eq {env : Env} {uc : UnicityCertificate}
    {prevLUC : Option UnicityCertificate} {wasInitializing : Bool} {m : Node C}
    {result : EStateM.Result Err (Node C) Unit}
    (h : CertificateExit lib conf env uc prevLUC wasInitializing m result) :
    (final result).requests = m.requests :=
  h.preserves Node.requests (fun m ↦ m.startNewRound_requests env)
    (fun m ↦ m.startRecovery_requests lib conf env) (fun _ ↦ rfl) (fun _ _ ↦ rfl)
    fun hfinalize ↦ by cases hfinalize <;> rfl

theorem BlockExit.requests_eq {env : Env} {block : Option (Block C)}
    {result : EStateM.Result Err (Node C) Unit} (h : BlockExit lib conf env n block result) :
    (final result).requests = n.requests :=
  h.preserves lib conf Node.requests (fun _ _ _ _ ↦ rfl) (fun _ ↦ rfl) fun _ _ _ _ ↦ rfl

/-- Nothing that was asked for in the present root round is open after the segment: the node was not
running with a technical record, or the root round has passed. -/
def Renews (n n' : Node C) : Prop :=
  n.status ≠ .normal ∨ n.ltr = none ∨ n.luc = none ∨
    getRootRoundNumber n.luc < getRootRoundNumber n'.luc

/-- The three ways in which a segment treats the requests. -/
inductive RequestStep (lib : BaseLibrary C) (n n' : Node C) : Prop where
  | kept (hkeeps : Keeps n n') (hproposal : n'.pendingBlockProposal = n.pendingBlockProposal)
      (hrequests : n'.requests = n.requests)
  | renewed (hrenews : Renews n n') (hrequests : n'.requests = n.requests)
  | proposed (hkeeps : Keeps n n') (hstatus : n.status ≠ .recovering)
      (hleader : n.ltr ≠ none ∨ n.leader ≠ "") (root : Slice) (height : UInt64)
      (hproposing : Proposing lib n root height n')
      (hsame : ∀ block, n.pendingBlockProposal = some block → HashOf lib block root)

/-- A certificate that is not a duplicate is of a later root round. -/
theorem rootRound_lt_of_new (hequivocation : lib.EquivocationLaw) (hduplicate : lib.DuplicateLaw)
    {uc luc : UnicityCertificate} {tr : Option TechnicalRecord} {leader : PeerID}
    (h : Adoptable lib conf n uc tr leader) (hluc : n.luc = some luc)
    (hnew : lib.isDuplicate uc n.luc ≠ true) :
    getRootRoundNumber n.luc < getRootRoundNumber (some uc) := by
  have hle := rootRound_le_of_adoptable hequivocation h
  refine UInt64.lt_of_le_of_ne hle fun heq ↦ hnew ?_
  rw [hluc] at heq ⊢
  exact hduplicate.of_rootRound_eq heq.symm

theorem Accepted.renews (hequivocation : lib.EquivocationLaw) (hduplicate : lib.DuplicateLaw)
    {m : Node C} {uc : UnicityCertificate} {tr : Option TechnicalRecord}
    (h : Accepted lib conf n uc tr m) (hlatest : n'.latest = m.latest) :
    Renews n n' ∨ n = m ∧ lib.isDuplicate uc n.luc = true := by
  cases h with
  | duplicate _ _ hsame _ => exact Or.inr ⟨rfl, hsame⟩
  | adopted leader h =>
    left
    cases hluc : n.luc with
    | none => exact Or.inr (Or.inr (Or.inl hluc))
    | some luc =>
      by_cases hsame : lib.isDuplicate uc n.luc = true
      · have hltr : n.ltr = none := by simpa using fun hltr ↦ h.isNew ⟨hsame, hltr⟩
        exact Or.inr (Or.inl hltr)
      · have hluc' : n'.luc = some uc := congrArg Prod.fst hlatest
        refine Or.inr (Or.inr (Or.inr ?_))
        rw [hluc']
        exact rootRound_lt_of_new hequivocation hduplicate h hluc hsame

/-- A duplicate changes nothing while the node runs. -/
theorem CertificateExit.of_duplicate {env : Env} {uc : UnicityCertificate} {status : Bool}
    {prevLUC : Option UnicityCertificate} {m : Node C} {result : EStateM.Result Err (Node C) Unit}
    (h : CertificateExit lib conf env uc prevLUC status m result)
    (hsame : lib.isDuplicate uc prevLUC = true) :
    (status = false ∧ result = .ok () m) ∨ status = true := by
  cases h with
  | ignored _ hrunning => exact Or.inl ⟨hrunning, rfl⟩
  | resumed _ hfirst => exact Or.inr hfirst
  | unknown _ hnew | repeated hnew | behind _ hnew | initial hnew | current hnew
  | unencodable _ _ hnew | unfinalized _ _ _ _ _ hnew | finalized _ _ _ hnew => simp [hsame] at hnew

theorem Segment.requestStep (hequivocation : lib.EquivocationLaw) (hduplicate : lib.DuplicateLaw)
    (hshard : n'.shardConf.partitionID = n.shardConf.partitionID ∧
      n'.shardConf.shardID = n.shardConf.shardID)
    (h : Segment lib conf (signingGuard lib conf) n n') : RequestStep lib n n' := by
  cases h with
  | quiet h =>
    refine .kept ⟨h.status, ?_, ?_, hshard⟩ h.pendingBlockProposal h.requests
    · simp only [NodeState.latest, h.luc, h.ltr, h.leader]
    · rw [NodeState.committed, NodeState.committed, ← h.transactionSystem]
  | adopt hstatus htr hluc =>
    refine .renewed (Or.inl (by simp [hstatus])) ?_
    cases hluc <;> rfl
  | certificate henv hstatus hguard htr haccepted hexit =>
    have hrequests := hexit.requests_eq
    rcases haccepted.renews hequivocation hduplicate hexit.latest_eq with hrenews | ⟨rfl, hsame⟩
    · refine .renewed hrenews (hrequests.trans ?_)
      cases haccepted <;> rfl
    · rcases hexit.of_duplicate hsame with ⟨hrunning, rfl⟩ | hfirst
      · have hnormal : n.status = .normal := by
          cases hs : n.status <;> simp_all
        refine .kept ⟨hnormal.symm, rfl, rfl, hshard⟩ rfl rfl
      · have hinitializing : n.status = .initializing := of_decide_eq_true hfirst
        exact .renewed (Or.inl (by simp [hinitializing])) hrequests
  | timeout henv hguard hexit =>
    obtain ⟨hlatest, hcommitted, hstatus, _⟩ := hexit.frame
    rcases hexit.proposing with ⟨hproposal, hrequests⟩ |
      ⟨hrunning, hleader, hltr, data, height, hcandidate, hproposing⟩
    · exact .kept ⟨hstatus, hlatest, hcommitted, hshard⟩ hproposal hrequests
    · refine .proposed ⟨hstatus, hlatest, hcommitted, hshard⟩ hrunning
        (Or.inl hltr) (some data) height hproposing fun block hblock ↦ ?_
      exact hguard hrunning hleader block hblock data height hcandidate
  | vote henv hrunning hguard hvote =>
    obtain ⟨hlatest, hcommitted, hstatus, _⟩ := hvote.frame
    rcases hvote.proposing with ⟨hproposal, hrequests⟩ | ⟨helectable, _, _, hproposing⟩
    · exact .kept ⟨hstatus, hlatest, hcommitted, hshard⟩ hproposal hrequests
    · exact .proposed ⟨hstatus, hlatest, hcommitted, hshard⟩ hrunning
        (Or.inr helectable.leader_ne) _ _ hproposing (hguard helectable.clean)
  | block henv hstatus hexit => exact .renewed (Or.inl (by simp [hstatus])) hexit.requests_eq
  | finish henv hstatus hcomplete =>
    exact .renewed (Or.inl (by simp [hstatus])) (Node.startNewRound_requests _ _)
  | stop hstatus hcomplete => exact .renewed (Or.inl (by simp [hstatus])) rfl

/-! ## Preservation -/

section Laws

variable (hequivocation : lib.EquivocationLaw) (hduplicate : lib.DuplicateLaw)
  (hcbor : lib.CborLaw) (hhash : lib.BlockHashLaw) (hrecord : lib.BlockRecordLaw)

theorem Standing.of_keeps {request : BlockCertificationRequest} (h : Standing lib n request)
    (hkeeps : Keeps n n')
    (hproposal : n'.pendingBlockProposal = n.pendingBlockProposal) : Standing lib n' request := by
  obtain ⟨hstatus, hltr, ir, block, hblock, hir, hbuild⟩ := h
  refine ⟨hkeeps.status.trans hstatus, ?_, ir, block, hproposal.trans hblock, hir, ?_⟩
  · rwa [NodeState.ltr_of_latest hkeeps.latest]
  · rwa [hkeeps.buildProposal_eq]

include hcbor hhash hrecord in
/-- A proposal for the root of a standing request is the block of that request. -/
theorem Standing.same {request : BlockCertificationRequest} (h : Standing lib n request)
    {root : Slice} (hsame : ∀ block, n.pendingBlockProposal = some block → HashOf lib block root)
    {ir : InputRecord} {block : Block C}
    (hbuild : buildProposal lib n.toNodeState (lib.peerIDString n.leader)
      (n.transactionSystem.summaryOf root) = .ok (ir, block)) :
    n.pendingBlockProposal = some block ∧ request.inputRecord = some ir := by
  obtain ⟨_, _, ir₀, block₀, hblock, hir, hbuild₀⟩ := h
  have hbuilt := built_of_buildProposal lib hcbor hhash hrecord hbuild₀
  have hroot : ir₀.hash = root := hsame block₀ hblock ir₀ hbuilt.record
  rw [hroot, hbuild] at hbuild₀
  cases hbuild₀
  exact ⟨hblock, hir⟩

/-- A record is built for the root of its own state hash. -/
theorem buildProposal_root {ir : InputRecord} {block : Block C} {root : Slice}
    (hbuilt : Built lib n.toNodeState (lib.peerIDString n.leader)
      (n.transactionSystem.summaryOf root) ir block) : ir.hash = root := by
  rw [hbuilt.ir_eq]
  rfl

include hequivocation in
theorem Signing.renewed {guard : Guard C} (h : Signing lib conf n)
    (hsegment : Segment lib conf guard n n') (hrenews : Renews n n')
    (hrequests : n'.requests = n.requests) (sent : NodeState C × BlockCertificationRequest)
    (hsent : sent ∈ n'.requests) :
    getRootRoundNumber sent.1.luc < getRootRoundNumber n'.luc := by
  rw [hrequests] at hsent
  have hle := h.history.rootRound_le sent hsent
  have hmono := hsegment.adoption.rootRound_le hequivocation
  refine UInt64.lt_of_le_of_ne (UInt64.le_trans hle hmono) fun heq ↦ ?_
  have heq' : getRootRoundNumber sent.1.luc = getRootRoundNumber n.luc :=
    UInt64.le_antisymm hle (heq ▸ hmono)
  have hstanding := h.history.standing sent hsent heq'
  rcases hrenews with hstatus | hltr | hluc | hlt
  · exact hstatus hstanding.status
  · exact hstanding.ltr hltr
  · rcases h.leader with ⟨hltr, _⟩ | ⟨_, uc, _, _, huc, _⟩
    · exact hstanding.ltr hltr
    · simp [hluc] at huc
  · rw [← heq', heq] at hlt
    exact UInt64.lt_irrefl _ hlt

theorem SignsOnce.append {new : NodeState C × BlockCertificationRequest} (h : SignsOnce n)
    (hrequests : n'.requests = n.requests ++ [new])
    (hnew : ∀ sent ∈ n.requests, getRootRoundNumber sent.1.luc = getRootRoundNumber new.1.luc →
      sent.2.inputRecord = new.2.inputRecord) : SignsOnce n' := by
  intro first hfirst second hsecond hround
  simp only [hrequests, List.mem_append, List.mem_singleton] at hfirst hsecond
  rcases hfirst with hfirst | rfl <;> rcases hsecond with hsecond | rfl
  · exact h first hfirst second hsecond hround
  · exact hnew first hfirst hround
  · exact (hnew second hsecond hround.symm).symm
  · rfl

theorem SignsOnce.of_requests_eq (h : SignsOnce n) (hrequests : n'.requests = n.requests) :
    SignsOnce n' := by
  unfold SignsOnce
  rw [hrequests]
  exact h

theorem History.kept (h : History lib n) (hkeeps : Keeps n n')
    (hproposal : n'.pendingBlockProposal = n.pendingBlockProposal)
    (hrequests : n'.requests = n.requests) : History lib n' := by
  have hluc := NodeState.luc_of_latest hkeeps.latest
  refine ⟨?_, ?_, h.once.of_requests_eq hrequests⟩ <;> rw [hrequests, hluc]
  · exact h.rootRound_le
  · intro sent hsent hround
    exact (h.standing sent hsent hround).of_keeps hkeeps hproposal

include hcbor hhash hrecord in
/-- A node that proposes for the root of its standing requests asks for the same record again. -/
theorem History.proposed (h : History lib n) (hkeeps : Keeps n n') (hstatus : n.status = .normal)
    (hltr : n.ltr ≠ none) {root : Slice} {height : UInt64}
    (hproposing : Proposing lib n root height n')
    (hsame : ∀ block, n.pendingBlockProposal = some block → HashOf lib block root) :
    History lib n' := by
  have hluc := NodeState.luc_of_latest hkeeps.latest
  -- an earlier request of the round keeps standing, as the new proposal is its own block
  have hearlier : ∀ ir block, buildProposal lib n.toNodeState (lib.peerIDString n.leader)
        (n.transactionSystem.summaryOf root) = .ok (ir, block) →
      n'.pendingBlockProposal = some block → ∀ sent ∈ n.requests,
      getRootRoundNumber sent.1.luc = getRootRoundNumber n.luc → Standing lib n' sent.2 := by
    intro ir block hbuild hproposal sent hsent hround
    have hstanding := h.standing sent hsent hround
    have hblock := (hstanding.same hcbor hhash hrecord hsame hbuild).1
    exact hstanding.of_keeps hkeeps (hproposal.trans hblock.symm)
  cases hproposing with
  | kept hproposal hrequests => exact h.kept hkeeps hproposal hrequests
  | recorded ir block hbuild hproposal hrequests =>
    refine ⟨?_, ?_, h.once.of_requests_eq hrequests⟩ <;> rw [hrequests, hluc]
    · exact h.rootRound_le
    · exact hearlier ir block hbuild hproposal
  | requested ir block request hbuild hproposal hrequest hrequests =>
    refine ⟨?_, ?_, h.once.append hrequests ?_⟩
    · rw [hrequests, hluc, List.forall_mem_append, List.forall_mem_singleton]
      exact ⟨h.rootRound_le, UInt64.le_refl _⟩
    · rw [hrequests, hluc, List.forall_mem_append, List.forall_mem_singleton]
      refine ⟨hearlier ir block hbuild hproposal, fun _ ↦ ?_⟩
      have hbuilt := built_of_buildProposal lib hcbor hhash hrecord hbuild
      refine ⟨hkeeps.status.trans hstatus, ?_, ir, block, hproposal, hrequest, ?_⟩
      · rwa [NodeState.ltr_of_latest hkeeps.latest]
      · rw [hkeeps.buildProposal_eq, buildProposal_root hbuilt]
        exact hbuild
    · intro sent hsent hround
      have hstanding := h.standing sent hsent hround
      exact (hstanding.same hcbor hhash hrecord hsame hbuild).2.trans hrequest.symm

include hequivocation hduplicate hcbor hhash hrecord in
theorem Signing.segment (h : Signing lib conf n) (hone : conf.OneShard)
    (hsegment : Segment lib conf (signingGuard lib conf) n n') : Signing lib conf n' := by
  have hloaded : conf.Loads n'.shardConf := hsegment.loads h.loaded
  refine ⟨hloaded, h.leader.segment hsegment, fun hstatus ↦ ?_, ?_⟩
  · obtain ⟨hbefore, hlatest⟩ := hsegment.of_initializing hstatus
    rw [NodeState.ltr_of_latest hlatest]
    exact h.initializing hbefore
  cases hsegment.requestStep hequivocation hduplicate (hone _ _ hloaded h.loaded) with
  | kept hkeeps hproposal hrequests => exact h.history.kept hkeeps hproposal hrequests
  | renewed hrenews hrequests =>
    have hlt := h.renewed hequivocation hsegment hrenews hrequests
    refine ⟨fun sent hsent ↦ UInt64.le_of_lt (hlt sent hsent), fun sent hsent hround ↦ ?_,
      h.history.once.of_requests_eq hrequests⟩
    exact absurd (hlt sent hsent) (hround ▸ UInt64.lt_irrefl _)
  | proposed hkeeps hrunning hleader root height hproposing hsame =>
    have hltr : n.ltr ≠ none := hleader.elim id h.leader.ltr_ne
    have hnormal : n.status = .normal := by
      cases hstatus : n.status with
      | initializing => exact absurd (h.initializing hstatus) hltr
      | normal => rfl
      | recovering => exact absurd hstatus hrunning
    exact h.history.proposed hcbor hhash hrecord hkeeps hnormal hltr hproposing hsame

theorem Started.signing {store : BlockStore C} (h : Started lib conf store n) :
    Signing lib conf n := by
  have hrequests : n.requests = [] := by simp [Node.requests, h.sent]
  refine ⟨h.shardConf, h.coherent.leader, fun _ ↦ h.ltr, ?_, ?_, ?_⟩
  · simp [hrequests]
  · simp [hrequests]
  · simp [SignsOnce, hrequests]

include hequivocation hduplicate hcbor hhash hrecord

/-- A process whose stored configurations name one shard, and in which no timer and no vote proposes
another root while a proposal is pending, asks for at most one record in each root round. -/
theorem signs_once {store : BlockStore C} (hone : conf.OneShard)
    (hstart : Starts lib conf store n) (inputs : List (Input C))
    (hadmits : Run.Guarded (step lib conf) ((signingGuard lib conf).Admits lib conf) n inputs) :
    SignsOnce (runNode lib conf n inputs) := by
  have hsigning : Signing lib conf (runNode lib conf n inputs) :=
    invariant_runNode (signingGuard_sound hduplicate conf)
      (fun hinv hsegment ↦
        hinv.segment hequivocation hduplicate hcbor hhash hrecord hone hsegment)
      (started_of_starts lib conf hstart).signing hadmits
  exact hsigning.history.once

end Laws

end Steps

section Reference

open Reference

/-- The run of the leader `A` whose timer fires twice, the second time at the given tip. -/
def timeouts (tip : UInt8) : List (Input UnicityCertificate) := proposing ++ [input tip .t1Timeout]

/-- With the chain unchanged, the second request repeats the record of the first one. -/
theorem signs_once_same_tip :
    (runNode referenceLibrary (conf "A" [1]) node (timeouts 10)).requests.length = 2 ∧
      SignsOnce (runNode referenceLibrary (conf "A" [1]) node (timeouts 10)) := by
  refine ⟨rfl, signs_once equivocationLaw duplicateLaw cborLaw blockHashLaw blockRecordLaw
    (conf_oneShard "A" [1]) (starts_empty "A" [1]) (timeouts 10) ?_⟩
  have hcertificate : ∀ n : Node UnicityCertificate,
      (signingGuard referenceLibrary (conf "A" [1])).Admits referenceLibrary (conf "A" [1]) n
        (deliver { roundNumber := 1 } 5 (technical 2 "A")) :=
    fun n ↦ ⟨fun _ ↦ trivial, fun _ _ _ ↦ trivial, fun _ _ _ _ ↦ trivial⟩
  refine ⟨hcertificate node, ⟨fun _ ↦ trivial, ?_, fun _ _ _ _ ↦ trivial⟩,
    ⟨fun _ ↦ trivial, ?_, fun _ _ _ _ ↦ trivial⟩, trivial⟩
  · rintro _ _ block ⟨⟩
  · rintro _ _ block hblock data height hcandidate
    cases (show some proposedBlock = some block from hblock)
    have htip : FGPTxSystem.Candidate (pow 10)
        (runNode referenceLibrary (conf "A" [1]) node proposing).transactionSystem [10] 10 :=
      ⟨powHeader 10, 0, powHeader 10, [], rfl, rfl, by decide, by decide, by decide, rfl, rfl, rfl,
        rfl, rfl⟩
    rw [hcandidate.data_unique htip]
    rintro _ ⟨⟩
    rfl

/-- With the chain one block ahead, the leader asks for a second record in one root round. -/
theorem second_timeout_signs_twice :
    Starts referenceLibrary (conf "A" [1]) OrderedStore.empty node ∧
      (runNode referenceLibrary (conf "A" [1]) node (timeouts 11)).requests.map
          (fun sent ↦ (getRootRoundNumber sent.1.luc, sent.2.inputRecord)) =
        [(5, some proposedRecord),
          (5, some { proposedRecord with hash := some [11], blockHash := some [11] })] ∧
      ¬SignsOnce (runNode referenceLibrary (conf "A" [1]) node (timeouts 11)) := by
  have hrequests : (runNode referenceLibrary (conf "A" [1]) node (timeouts 11)).requests.map
      (fun sent ↦ (getRootRoundNumber sent.1.luc, sent.2.inputRecord)) =
        [(5, some proposedRecord),
          (5, some { proposedRecord with hash := some [11], blockHash := some [11] })] := rfl
  refine ⟨starts_empty "A" [1], hrequests, fun honce ↦ ?_⟩
  have hfirst := List.mem_of_getElem? (congrArg (fun sent ↦ sent[0]?) hrequests)
  have hsecond := List.mem_of_getElem? (congrArg (fun sent ↦ sent[1]?) hrequests)
  obtain ⟨first, hfirst, hleft⟩ := List.mem_map.mp hfirst
  obtain ⟨second, hsecond, hright⟩ := List.mem_map.mp hsecond
  have hround := (congrArg Prod.fst hleft).trans (congrArg Prod.fst hright).symm
  have hsame := honce first hfirst second hsecond hround
  have hdiffer := ((congrArg Prod.snd hleft).symm.trans hsame).trans (congrArg Prod.snd hright)
  exact absurd hdiffer (by decide)

end Reference

end FinalityGadget
