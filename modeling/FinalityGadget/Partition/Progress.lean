import FinalityGadget.Partition.Replay
import FinalityGadget.Partition.Shard

/-!
# Rounds that complete

The validators of a shard are in the same round: they have the same latest certificate and technical
record, the same committed block, and nothing pending. The timer of the leader fires, the followers
hear of its proposal, and the root chain certifies the record that all of them have asked for. Then
every validator has stored the same block and is in the same next round. Replication traffic,
monitoring, copies of the latest certificate and proposals that are not of a newer root round make
no difference in between, and neither does the order in which the events of different validators
happen. So the rounds of a shard follow each other for as long as the surroundings do their part:
everything that is sent or written succeeds, and no certificate repeats a round.
-/

namespace FinalityGadget

open Bytes Fallible Interleaving

variable {C : Type}

/-- What the validators of a shard agree on between two rounds. -/
structure RoundState where
  shardConf : PartitionDescriptionRecord
  luc : UnicityCertificate
  technical : TechnicalRecord
  leader : PeerID
  committedUC : Option UnicityCertificate

/-- A running node in a round. -/
structure InRound (lib : BaseLibrary C) (confs : Set NodeConf) (conf : NodeConf) (r : RoundState)
    (n : Node C) : Prop where
  peer : Peer lib confs conf n
  status : n.status = .normal
  shardConf : n.shardConf = r.shardConf
  luc : n.luc = some r.luc
  ltr : n.ltr = some r.technical
  leader : n.leader = r.leader
  committed : n.committedUC = r.committedUC

/-- A node in a round that it has not voted in. -/
structure Undecided (lib : BaseLibrary C) (confs : Set NodeConf) (conf : NodeConf)
    (r : RoundState) (n : Node C) : Prop extends InRound lib confs conf r n where
  clean : n.transactionSystem.pendingStateHash = none

/-- What a round is about: the proposal of the leader with its record and block, and the response of
the root chain, whose certificate is stored with the block and whose technical record names the next
leader. -/
structure Exchange (C : Type) where
  proposal : BlockProposal
  record : InputRecord
  block : Block C
  response : CertificationResponse
  encoded : C
  nextLeader : PeerID

namespace Exchange

/-- The round of the certified block. -/
def round (e : Exchange C) : UInt64 := getRoundNumber (some e.response.uc)

/-- The block as it is stored. -/
def stored (e : Exchange C) : Block C := { e.block with unicityCertificate := some e.encoded }

end Exchange

/-- The state of the shard after the round. -/
def RoundState.next (r : RoundState) (e : Exchange C) : RoundState :=
  { r with
    luc := e.response.uc
    technical := e.response.technical
    leader := e.nextLeader
    committedUC := some e.response.uc }

/-! ## The surroundings -/

/-- Everything works that the node needs to propose, to vote and to finalize. -/
structure Works (lib : BaseLibrary C) (conf : NodeConf) (env : Env) (n : NodeState C) : Prop where
  sendProposal : env.sendProposal = .ok ()
  writeProposal : env.writeProposal = .ok ()
  sendRequest : env.sendRequest = .ok ()
  writeBlock : env.writeBlock = .ok ()
  can : CanRequest lib conf n

/-- The leader finds a candidate, signs the proposal and builds the block. -/
structure Leads (lib : BaseLibrary C) (conf : NodeConf) (env : Env) (r : RoundState) (n : Node C)
    (e : Exchange C) (data : List UInt8) (height : UInt64) : Prop where
  self : r.leader = conf.peerID
  candidate : n.transactionSystem.Candidate env.pow data height
  signed : (announcement conf n.toNodeState r.technical (some data)).sign lib conf.signHash =
    .ok e.proposal
  built : buildProposal lib n.toNodeState (lib.peerIDString conf.peerID)
    (n.transactionSystem.summaryOf (some data)) = .ok (e.record, e.block)
  sized : ∃ size, lib.blockSize e.block = .ok size

/-- The root chain certifies the record, and opens the next round with a known leader. -/
structure Certifies (lib : BaseLibrary C) (conf : NodeConf) (r : RoundState) (e : Exchange C) :
    Prop where
  isValid : CertificationResponse.isValid lib (some e.response) = .ok ()
  own : e.response.partition = r.shardConf.partitionID ∧ e.response.shard = r.shardConf.shardID
  validated : Validated lib conf r.shardConf e.response.uc
  nonEquivocating : lib.checkNonEquivocatingCertificates r.luc e.response.uc = .ok ()
  isNew : lib.isDuplicate e.response.uc (some r.luc) = false
  isNext : lib.isRepeat e.response.uc (some r.luc) = .ok false
  successor : lib.isSuccessor e.response.uc r.committedUC = true
  equal : lib.assertEqualIR (some e.record) e.response.uc.inputRecord = .ok ()
  marshal : lib.marshal e.response.uc = .ok e.encoded
  leader : lib.decodePeerID e.response.technical.leader = .ok e.nextLeader

/-! ## Other events -/

/-- The node has the same state up to the queue of its replication workers. -/
def Unaffected (n n' : Node C) : Prop :=
  ∃ queue, n'.toNodeState = { n.toNodeState with replicationCh := queue }

/-- An event that does not concern the round: replication and monitoring, the timer of a follower,
a copy of the latest certificate, and a proposal of the same or an older round, if it is not the
leader's or the node has something pending. -/
inductive Noise (lib : BaseLibrary C) (conf : NodeConf) (r : RoundState) (voted : Bool) :
    Event C → Prop where
  | request (msg : Option LedgerReplicationRequest) :
      Noise lib conf r voted (.ledgerReplicationRequest msg)
  | response (msg : Option (LedgerReplicationResponse C)) :
      Noise lib conf r voted (.ledgerReplicationResponse msg)
  | worker : Noise lib conf r voted .replicationWorker
  | monitoring (ucOverdue replicationOverdue : Bool) :
      Noise lib conf r voted (.monitoring ucOverdue replicationOverdue)
  | timer (hfollower : r.leader ≠ conf.peerID) : Noise lib conf r voted .t1Timeout
  | certificate (cr : CertificationResponse) (hcopy : lib.isDuplicate cr.uc (some r.luc) = true) :
      Noise lib conf r voted (.certificationResponse (some cr))
  | proposal (prop : BlockProposal)
      (hknown : getRootRoundNumber prop.unicityCertificate ≤ getRootRoundNumber (some r.luc))
      (hrefused : voted = true ∨ prop.nodeID ≠ r.leader) :
      Noise lib conf r voted (.blockProposal (some prop))

section Disturbance

variable {lib : BaseLibrary C} {confs : Set NodeConf} {conf : NodeConf} {env : Env}
  {r : RoundState} {voted : Bool} {n m n' : Node C}

theorem Unaffected.refl (n : Node C) : Unaffected n n := ⟨n.replicationCh, rfl⟩

theorem Unaffected.of_eq (h : n'.toNodeState = n.toNodeState) : Unaffected n n' :=
  ⟨n.replicationCh, h⟩

theorem Unaffected.trans (h : Unaffected n m) (h' : Unaffected m n') : Unaffected n n' := by
  obtain ⟨queue, hm⟩ := h
  obtain ⟨queue', hn'⟩ := h'
  exact ⟨queue', by rw [hn', hm]⟩

theorem InRound.unaffected (h : InRound lib confs conf r n) (hsame : Unaffected n n')
    (hpeer : Peer lib confs conf n') : InRound lib confs conf r n' := by
  obtain ⟨queue, hstate⟩ := hsame
  refine ⟨hpeer, ?_, ?_, ?_, ?_, ?_, ?_⟩ <;> rw [hstate]
  · exact h.status
  · exact h.shardConf
  · exact h.luc
  · exact h.ltr
  · exact h.leader
  · exact h.committed

theorem unaffected_sendResponse (n : Node C) (msg : LedgerReplicationResponse C) (toId : String) :
    Unaffected n (final ((sendLedgerReplicationResponse lib env msg toId).run n)) := by
  unfold sendLedgerReplicationResponse
  cases lib.decodePeerID toId with
  | error err => exact .refl n
  | ok id => cases env.sendResponse <;> exact .of_eq rfl

/-- A copy of the latest certificate changes nothing. -/
theorem UCExit.unaffected {uc : UnicityCertificate} {tr : Option TechnicalRecord}
    {result : EStateM.Result Err (Node C) Unit} (h : UCExit lib conf env n uc tr result)
    (hn : InRound lib confs conf r n) (hcopy : lib.isDuplicate uc (some r.luc) = true) :
    Unaffected n (final result) := by
  have hnormal : n.setStatus .normal = n := by
    unfold Node.setStatus
    rw [← hn.status]
  rw [← hn.luc] at hcopy
  cases h with
  | rejected err => exact .refl n
  | recovering hstatus => cases hn.status.symm.trans hstatus
  | processed _ m haccepted _ hexit =>
    obtain rfl : m = n := by
      cases haccepted with
      | duplicate => rfl
      | adopted leader hadoptable => exact absurd ⟨hcopy, by simp [hn.ltr]⟩ hadoptable.isNew
    rw [hnormal] at hexit
    cases hexit with
    | ignored => exact .refl m
    | resumed _ hfirst => simp [hn.status] at hfirst
    | unknown _ hnew | repeated hnew | behind _ hnew | initial hnew | current hnew
    | unencodable _ _ hnew | unfinalized _ _ _ _ _ hnew | finalized _ _ _ hnew =>
      cases hcopy.symm.trans hnew

/-- A proposal that the node does not vote for changes nothing. -/
theorem ProposalExit.unaffected {prop : BlockProposal}
    {result : EStateM.Result Err (Node C) Unit}
    (h : ProposalExit lib conf env n (some prop) result) (hn : InRound lib confs conf r n)
    (hknown : getRootRoundNumber prop.unicityCertificate ≤ getRootRoundNumber (some r.luc))
    (hrefused : n.transactionSystem.pendingStateHash ≠ none ∨ prop.nodeID ≠ r.leader) :
    Unaffected n (final result) := by
  rw [← hn.luc] at hknown
  rw [← hn.leader] at hrefused
  cases h with
  | remembered _ hstatus => cases hn.status.symm.trans hstatus
  | rejected => exact .refl n
  | uncertified _ _ _ _ _ _ hprop huc _ hnewer | certified _ _ _ _ _ hprop huc _ hnewer =>
    cases hprop
    rw [huc] at hknown
    exact absurd hknown hnewer.not_ge
  | current _ _ _ _ hprop _ _ _ hvote =>
    cases hprop
    have helectable : ∀ {uc}, ¬Electable lib n prop uc := by
      intro uc helectable
      rcases hrefused with hpending | hauthor
      · exact hpending helectable.clean
      · exact hauthor helectable.author_eq
    cases hvote with
    | refused => exact .refl n
    | unverified _ h | unrequested _ _ _ _ h | requested _ _ h => exact absurd h helectable

theorem Noise.unaffected {input : Input C} (h : Noise lib conf r voted input.event)
    (hn : InRound lib confs conf r n)
    (hvoted : voted = true → n.transactionSystem.pendingStateHash ≠ none) :
    Unaffected n (step lib conf n input) := by
  have hservice : input.event.isService = true → Unaffected n (step lib conf n input) := by
    intro hservice
    apply step_service _ _ _ hservice
    · exact fun h h' ↦ h.trans h'
    · exact fun _ queue ↦ ⟨queue, rfl⟩
    · exact fun _ msg toId n ↦ unaffected_sendResponse n msg toId
  obtain ⟨event, envs⟩ := input
  cases h with
  | request | worker => exact hservice rfl
  | response msg =>
    have hexit := handleLedgerReplicationResponse_spec lib conf envs n msg
    have hstep : step lib conf n ⟨.ledgerReplicationResponse msg, envs⟩ =
        final ((handleLedgerReplicationResponse lib conf envs msg).run n) := rfl
    rw [hstep]
    generalize (handleLedgerReplicationResponse lib conf envs msg).run n = result at hexit
    cases hexit with
    | refused | unneeded => exact .refl n
    | stopped _ hstatus | failed _ _ hstatus | continued _ hstatus | finished _ hstatus =>
      cases hn.status.symm.trans hstatus
  | monitoring ucOverdue replicationOverdue =>
    apply handleMonitoring_rel (R := Unaffected)
    · exact Unaffected.refl
    · exact fun h h' ↦ h.trans h'
    · exact fun n ↦ .of_eq (n.sendHandshake_toNodeState lib conf (envs 0))
    · exact fun n ↦ .of_eq (n.sendLedgerReplicationRequest_toNodeState lib conf (envs 0))
  | timer hfollower =>
    have hexit := handleT1TimeoutEvent_spec lib conf (envs 0) n
    have hstep : step lib conf n ⟨.t1Timeout, envs⟩ =
        final ((handleT1TimeoutEvent lib conf (envs 0)).run n) := rfl
    rw [hstep]
    rw [← hn.leader] at hfollower
    generalize (handleT1TimeoutEvent lib conf (envs 0)).run n = result at hexit
    cases hexit with
    | idle => exact .refl n
    | abandoned _ hself | unproposed _ _ _ hself | unrequested _ _ _ _ _ hself
    | requested _ _ _ _ hself => exact absurd hself hfollower
  | certificate cr hcopy =>
    let Done (result : EStateM.Result Err (Node C) Unit) : Prop := Unaffected n (final result)
    suffices hdone : Done ((handleCertificationResponse lib conf (envs 0) (some cr)).run n) from
      hdone
    refine exec_get (exec_ofExcept (fun _ _ ↦ .refl n) fun _ _ ↦ ?_)
    refine exec_ensure (fun _ ↦ .refl n) fun _ ↦ ?_
    exact (handleUnicityCertificate_spec lib conf (envs 0) n cr.uc _).unaffected hn hcopy
  | proposal prop hknown hrefused =>
    exact (handleBlockProposal_spec lib conf (envs 0) n (some prop)).unaffected hn hknown
      (hrefused.imp_left hvoted)

end Disturbance

/-! ## Voting -/

section Voting

variable {lib : BaseLibrary C} {confs : Set NodeConf} {conf conf' : NodeConf} {env env' : Env}
  {r : RoundState} {e : Exchange C} {n m : Node C} {data : List UInt8} {height : UInt64}

/-- The node has recorded the block and asked for its record. -/
structure Voted (n : Node C) (e : Exchange C) (m : Node C) : Prop where
  state : ∃ height queue, m.toNodeState =
    { n.voting e.proposal.proposedRoot height e.block with replicationCh := queue }
  requested : ∃ voter request, (voter, request) ∈ requestsIn m.sent ∧
    request.inputRecord = some e.record

theorem RequestExit.requested {author : String} {state : Summary} {ir : InputRecord}
    {block : Block C} {size : UInt64} {result : EStateM.Result Err (Node C) Unit}
    (h : RequestExit lib conf env author state n result)
    (hbuild : buildProposal lib n.toNodeState author state = .ok (ir, block))
    (hwrite : env.writeProposal = .ok ()) (hcan : CanRequest lib conf n.toNodeState)
    (hsize : lib.blockSize block = .ok size) (hsend : env.sendRequest = .ok ()) :
    ∃ request rootIDs, request.inputRecord = some ir ∧
      result = .ok () ((n.recorded block).post (.certificationRequest request) rootIDs) := by
  cases h with
  | unbuilt err hnone => exact absurd hbuild (hnone _)
  | unstored err hfails => exact absurd hwrite hfails
  | unsent err ir' block' hbuild' hnone =>
    cases hbuild.symm.trans hbuild'
    obtain ⟨prepared, hprepare⟩ := hcan ir block size hsize
    exact absurd hprepare (hnone prepared)
  | undelivered err ir' block' request rootIDs hbuild' hprepare hfails =>
    exact absurd hsend hfails
  | sent ir' block' request rootIDs hbuild' hprepare =>
    cases hbuild.symm.trans hbuild'
    exact ⟨request, rootIDs, (prepareRequest_content lib conf hprepare).1, rfl⟩

/-- A posted request completes the vote. -/
theorem voted_post {block : Block C} {request : BlockCertificationRequest} {rootIDs : List PeerID}
    (hblock : block = e.block) (hrequest : request.inputRecord = some e.record)
    (hstate : m.toNodeState = { n.toNodeState with
      transactionSystem := n.transactionSystem.setPending e.proposal.proposedRoot height }) :
    Voted n e ((m.recorded block).post (.certificationRequest request) rootIDs) := by
  refine ⟨⟨height, n.replicationCh, ?_⟩, (m.recorded block).toNodeState, request, ?_, hrequest⟩
  · have hrecorded : ((m.recorded block).post (.certificationRequest request)
        rootIDs).toNodeState = { m.toNodeState with
          blockStore := (StoreOp.writeProposal block).apply m.blockStore
          pendingBlockProposal := some block } := rfl
    rw [hrecorded, hstate, hblock]
    rfl
  · have hrequests : requestsIn ((m.recorded block).post (.certificationRequest request)
        rootIDs).sent =
        (m.recorded block).requests ++ [((m.recorded block).toNodeState, request)] :=
      Node.post_certificationRequest _ _ _
    rw [hrequests]
    exact List.mem_append_right _ List.mem_cons_self

/-- The timer of the leader. -/
theorem Leads.voted (hleads : Leads lib conf env r n e data height)
    (h : InRound lib confs conf r n) (hworks : Works lib conf env n.toNodeState) :
    Voted n e (final ((handleT1TimeoutEvent lib conf env).run n)) := by
  have hannounced : Announced lib conf env n data
      ((n.setTx (n.transactionSystem.setPending (some data) height)).post
        (.blockProposal e.proposal) (n.filterValidatorNodes lib conf.peerID)) :=
    ⟨height, r.technical, e.proposal, hleads.candidate, h.ltr, hleads.signed, rfl⟩
  obtain ⟨_, _, _, _, hprop⟩ := BlockProposal.sign_eq_ok lib hleads.signed
  have hroot : e.proposal.proposedRoot = some data := by rw [hprop]; rfl
  obtain ⟨size, hsize⟩ := hleads.sized
  have hexit := handleT1TimeoutEvent_spec lib conf env n
  generalize (handleT1TimeoutEvent lib conf env).run n = result at hexit
  cases hexit with
  | idle hidle =>
    rcases hidle with hrecovering | hother
    · cases h.status.symm.trans hrecovering
    · exact absurd (h.leader.trans hleads.self) hother
  | abandoned _ _ hnone => exact absurd hannounced (hnone _ _)
  | unproposed _ _ _ _ _ hsend => exact absurd hworks.sendProposal hsend
  | unrequested data' m m' err _ _ hannounced' hrequest =>
    obtain rfl : data' = data := hannounced'.data_unique lib conf hleads.candidate
    obtain ⟨height', _, _, _, _, _, rfl⟩ := hannounced'
    obtain ⟨_, _, _, hsent⟩ := hrequest.requested hleads.built hworks.writeProposal hworks.can hsize
      hworks.sendRequest
    cases hsent
  | requested data' m m' _ _ hannounced' hrequest =>
    obtain rfl : data' = data := hannounced'.data_unique lib conf hleads.candidate
    obtain ⟨height', _, _, _, _, _, rfl⟩ := hannounced'
    obtain ⟨request, rootIDs, hrecord, hsent⟩ := hrequest.requested hleads.built
      hworks.writeProposal hworks.can hsize hworks.sendRequest
    cases hsent
    exact voted_post rfl hrecord (by rw [hroot]; rfl)

/-- A follower that hears of the proposal of the leader. -/
theorem Leads.voted_follower (hleads : Leads lib conf env r n e data height)
    (hverify : VerifyLaw lib) (hone : conf.OneShard) (hn : InRound lib confs conf r n)
    (hm : Undecided lib confs conf' r m)
    (hregistered : Registered lib conf r.shardConf)
    (htrust : conf'.trustBaseByEpoch = conf.trustBaseByEpoch)
    (hworks : Works lib conf' env' m.toNodeState)
    (hverified : ∃ height',
      FGPTxSystem.Verified env'.pow m.transactionSystem e.proposal.proposedRoot height') :
    Voted m e (final ((handleBlockProposal lib conf' env' (some e.proposal)).run m)) := by
  obtain ⟨size, hsize⟩ := hleads.sized
  have hrecord : LeaderRecord lib conf n e.proposal
      { inputRecord := some e.record, blockSize := size } r.technical data e.record e.block :=
    ⟨by simp [hn.status], hn.leader.trans hleads.self, hn.ltr, hleads.signed, hleads.built, rfl,
      hsize⟩
  have hshardConf : m.shardConf = n.shardConf := hm.shardConf.trans hn.shardConf.symm
  have hvalid : ValidProposal lib conf' m e.proposal :=
    hrecord.validProposal hverify hone hn.peer (hn.shardConf ▸ hregistered) htrust hshardConf
  obtain ⟨_, _, _, _, hprop⟩ := BlockProposal.sign_eq_ok lib hleads.signed
  have hroot : e.proposal.proposedRoot = some data := by rw [hprop]; rfl
  have hauthor : e.proposal.nodeID = conf.peerID := by rw [hprop]; rfl
  have huc : e.proposal.unicityCertificate = some r.luc := by
    rw [hprop, ← hn.luc]
    rfl
  have hsame : SameRound n.toNodeState m.toNodeState := by
    refine ⟨hm.ltr.trans hn.ltr.symm, hm.leader.trans hn.leader.symm, ?_, ?_⟩
    · rw [hm.luc, hn.luc]
    · rw [hm.luc, hn.luc]
  have hcommitted : m.committedUC = n.committedUC := hm.committed.trans hn.committed.symm
  have hvoter : Voter lib confs conf' n m m := ⟨hm.peer, hsame, rfl, rfl⟩
  have helectable : Electable lib m e.proposal r.luc :=
    hvoter.electable hn.peer hregistered.peerID_ne hn.luc hrecord hm.clean hcommitted
  have hbuild : buildProposal lib m.toNodeState (lib.peerIDString e.proposal.nodeID)
      (m.transactionSystem.summaryOf e.proposal.proposedRoot) = .ok (e.record, e.block) := by
    rw [hsame.buildProposal_eq hn.ltr hshardConf hcommitted,
      hauthor, hroot]
    exact hleads.built
  have hvotes : ComesToVote lib conf' env' m e.proposal r.luc m := .current (by rw [hm.luc])
  have hexit := hvotes.voteExit (by simp [hm.status]) hvalid huc
  obtain ⟨height', hverified⟩ := hverified
  generalize (handleBlockProposal lib conf' env' (some e.proposal)).run m = result at hexit
  cases hexit with
  | refused err hrefused => exact absurd helectable hrefused
  | unverified err _ hnone => exact absurd hverified (hnone height')
  | unrequested height'' err cause m' _ _ hrequest =>
    obtain ⟨_, _, _, hsent⟩ := hrequest.requested hbuild hworks.writeProposal hworks.can hsize
      hworks.sendRequest
    cases hsent
  | requested height'' m' _ _ hrequest =>
    obtain ⟨request, rootIDs, hrecord, hsent⟩ := hrequest.requested hbuild hworks.writeProposal
      hworks.can hsize hworks.sendRequest
    cases hsent
    exact voted_post rfl hrecord rfl

end Voting

/-! ## Finalizing -/

section Finalizing

variable {lib : BaseLibrary C} {confs : Set NodeConf} {conf : NodeConf} {env : Env}
  {r : RoundState} {e : Exchange C} {n m n' : Node C} {data : List UInt8} {height : UInt64}

/-- The block of the leader carries its record, and that one the proposed root. -/
theorem Leads.content (hleads : Leads lib conf env r n e data height)
    (hlaws : ReplayLaws lib confs) :
    lib.blockInputRecord e.block = .ok e.record ∧ e.record.hash = e.proposal.proposedRoot := by
  have hbuilt := built_of_buildProposal lib hlaws.cbor hlaws.blockHash hlaws.blockRecord
    hleads.built
  obtain ⟨_, _, _, _, hprop⟩ := BlockProposal.sign_eq_ok lib hleads.signed
  refine ⟨hbuilt.record, ?_⟩
  rw [hbuilt.ir_eq, hprop]
  rfl

/-- A certificate that passes all checks becomes the latest one. -/
theorem updateLUC_of_adoptable {uc : UnicityCertificate} {tr : Option TechnicalRecord}
    {leader : PeerID} (hstatus : n.status ≠ .recovering)
    (h : Adoptable lib conf n uc tr leader) :
    (updateLUC lib conf uc tr).run n = .ok () (n.adopt uc tr leader) := by
  obtain ⟨trustBase, htrust, hvalidate⟩ := h.validated
  simp only [updateLUC, EStateM.run_bind, EStateM.run_get, run_ofExcept, htrust, hvalidate,
    hstatus, false_and, if_false, h.nonEquivocating, h.isNew, h.leader_eq, EStateM.run_set]

/-- A certificate of the next block finalizes the pending proposal, unless something fails. -/
theorem CertificateExit.finalizes {uc : UnicityCertificate} {prevLUC : Option UnicityCertificate}
    {wasInitializing : Bool} {result : EStateM.Result Err (Node C) Unit} {proposal : Block C}
    {ir : InputRecord} {encoded : C}
    (h : CertificateExit lib conf env uc prevLUC wasInitializing m result)
    (hnew : lib.isDuplicate uc prevLUC = false) (hnext : lib.isRepeat uc prevLUC = .ok false)
    (hsuccessor : lib.isSuccessor uc m.committedUC = true)
    (hpending : m.pendingBlockProposal = some proposal)
    (hrecord : lib.blockInputRecord proposal = .ok ir)
    (hequal : lib.assertEqualIR (some ir) uc.inputRecord = .ok ())
    (hmarshal : lib.marshal uc = .ok encoded) (hwrite : env.writeBlock = .ok ())
    (hcommit : m.transactionSystem.pendingStateHash.bytes = (getStateHash (some uc)).bytes) :
    result = .ok () ((m.finalized { proposal with unicityCertificate := some encoded }
      uc).startNewRound env) := by
  cases h with
  | ignored hduplicate | resumed hduplicate => cases hnew.symm.trans hduplicate
  | unknown err _ hfails => exact absurd hnext (hfails false)
  | repeated _ hrepeat => cases hnext.symm.trans hrepeat
  | behind err _ hbehind =>
    cases hbehind with
    | gap hgap => cases hsuccessor.symm.trans hgap
    | unproposed hnone => cases hpending.symm.trans hnone
    | differs other hother hdiffers =>
      cases hpending.symm.trans hother
      exact absurd hequal (hdiffers ir hrecord)
  | initial _ _ hnone | current _ _ hnone => cases hpending.symm.trans hnone
  | unencodable err _ _ _ hfails => exact absurd hmarshal (hfails encoded)
  | unfinalized err cause _ _ m' _ _ _ hfinalize =>
    cases hfinalize with
    | unwritten _ hunwritten => exact absurd hwrite hunwritten
    | mismatched _ hne | undeleted _ hne => exact absurd hcommit hne
  | finalized other ir' encoded' _ hother _ _ _ hmarshal' =>
    cases hpending.symm.trans hother
    cases hmarshal.symm.trans hmarshal'
    rfl

/-- The certificate of the recorded block finalizes it. -/
theorem Certifies.finalizes (hcertifies : Certifies lib conf r e) (hequalIR : lib.EqualIRLaw)
    (hrecord : lib.blockInputRecord e.block = .ok e.record)
    (hhash : e.record.hash = e.proposal.proposedRoot) (h : InRound lib confs conf r m)
    (hvoted : Voted n e m) (hwrite : env.writeBlock = .ok ()) :
    (handleCertificationResponse lib conf env (some e.response)).run m =
      .ok () ((((m.adopt e.response.uc (some e.response.technical) e.nextLeader).setStatus
        .normal).finalized e.stored e.response.uc).startNewRound env) := by
  obtain ⟨height, queue, hstate⟩ := hvoted.state
  have hpending : m.pendingBlockProposal = some e.block := by
    rw [hstate]
    rfl
  have htx : m.transactionSystem.pendingStateHash = e.record.hash := by
    rw [hstate, hhash]
    rfl
  have hadoptable : Adoptable lib conf m e.response.uc (some e.response.technical)
      e.nextLeader := by
    refine ⟨h.shardConf ▸ hcertifies.validated, ?_, ?_, mapError_eq_ok.mpr hcertifies.leader⟩
    · rw [h.luc]
      exact hcertifies.nonEquivocating
    · rw [h.luc, hcertifies.isNew]
      simp
  have hcommit : m.transactionSystem.pendingStateHash.bytes =
      (getStateHash (some e.response.uc)).bytes := by
    obtain ⟨record, hinput, hsame⟩ := hequalIR hcertifies.equal
    rw [htx, getStateHash_of_record hinput, hsame.hash]
  let Done (result : EStateM.Result Err (Node C) Unit) : Prop := result =
    .ok () ((((m.adopt e.response.uc (some e.response.technical) e.nextLeader).setStatus
      .normal).finalized e.stored e.response.uc).startNewRound env)
  suffices hdone : Done ((handleCertificationResponse lib conf env (some e.response)).run m) from
    hdone
  refine exec_get (exec_ofExcept (fun err herr ↦ ?_) fun _ _ ↦ ?_)
  · cases hcertifies.isValid.symm.trans herr
  refine exec_ensure (fun hother ↦ ?_) fun _ ↦ ?_
  · rw [h.shardConf] at hother
    exact absurd hcertifies.own hother
  have hupdate := updateLUC_of_adoptable (by simp [h.status]) hadoptable
  refine exec_get (exec_adaptExcept (fun err after hrun ↦ ?_) fun _ after hrun ↦ ?_)
  · cases hupdate.symm.trans hrun
  cases hupdate.symm.trans hrun
  refine exec_get (exec_ite (fun hrecovering ↦ ?_) fun hrunning ↦ exec_modify ?_)
  · cases h.status.symm.trans hrecovering
  rw [Node.endInitialization_eq _ hrunning, h.luc]
  have hexit := processCertificate_spec lib conf env e.response.uc (some r.luc)
    (decide ((m.adopt e.response.uc (some e.response.technical) e.nextLeader).status =
      .initializing))
    ((m.adopt e.response.uc (some e.response.technical) e.nextLeader).setStatus .normal) rfl
  exact hexit.finalizes hcertifies.isNew hcertifies.isNext (h.committed ▸ hcertifies.successor)
    hpending hrecord hcertifies.equal hcertifies.marshal hwrite hcommit

/-- A validator that has voted and gets the certificate is in the next round. -/
theorem Certifies.completes (hcertifies : Certifies lib conf r e) (hequalIR : lib.EqualIRLaw)
    (hrecord : lib.blockInputRecord e.block = .ok e.record)
    (hhash : e.record.hash = e.proposal.proposedRoot) (h : InRound lib confs conf r m)
    (hvoted : Voted n e m) (hwrite : env.writeBlock = .ok ())
    (hn' : n' = final ((handleCertificationResponse lib conf env (some e.response)).run m))
    (hpeer : Peer lib confs conf n') :
    Undecided lib confs conf (r.next e) n' ∧
      storedBlock n'.blockStore =
        Function.update (storedBlock n.blockStore) e.round (some e.stored) := by
  rw [hcertifies.finalizes hequalIR hrecord hhash h hvoted hwrite, final_ok] at hn'
  obtain ⟨height, queue, hstate⟩ := hvoted.state
  have hstate' := congrArg Node.toNodeState hn'
  rw [Node.startNewRound_toNodeState] at hstate'
  refine ⟨⟨⟨hpeer, ?_, ?_, ?_, ?_, ?_, ?_⟩, ?_⟩, ?_⟩
  · rw [hstate']
    rfl
  · rw [hstate']
    exact h.shardConf
  · rw [hstate']
    rfl
  · rw [hstate']
    rfl
  · rw [hstate']
    rfl
  · rw [hstate']
    rfl
  · rw [hstate']
    rfl
  · rw [hn', storedBlock_startNewRound]
    have hstore : storedBlock m.blockStore = storedBlock n.blockStore := by
      rw [hstate]
      exact storedBlock_writeProposal e.block n.blockStore
    rw [← hstore]
    exact storedBlock_writeBlock _ _ m.blockStore

end Finalizing

/-! ## A round of one validator -/

/-- The events of a validator in a round: it votes and gets the certificate, and other events happen
before and between. -/
inductive Attends (lib : BaseLibrary C) (conf : NodeConf) (env : Env) (r : RoundState)
    (e : Exchange C) (vote : Event C) : List (Happening C) → Prop where
  | mk (before between : List (Input C))
      (hbefore : ∀ input ∈ before, Noise lib conf r false input.event)
      (hbetween : ∀ input ∈ between, Noise lib conf r true input.event) :
      Attends lib conf env r e vote
        (List.map Happening.turn (before ++ Input.mk vote (fun _ ↦ env) ::
          (between ++ [Input.mk (.certificationResponse (some e.response)) fun _ ↦ env])))

/-- The stored blocks after the rounds. -/
def storedAfter (stored : UInt64 → Option (Block C)) (es : List (Exchange C)) :
    UInt64 → Option (Block C) :=
  es.foldl (fun stored e ↦ Function.update stored e.round (some e.stored)) stored

/-- The validator has gone through the rounds: it is about to vote in the round after them, has
stored their blocks on top of what it had before, and has asked for all records. -/
structure Completed (lib : BaseLibrary C) (confs : Set NodeConf) (conf : NodeConf) (r : RoundState)
    (es : List (Exchange C)) (v v' : Validator C) : Prop where
  next : Undecided lib confs conf (es.foldl RoundState.next r) v'.node
  stored : storedBlock v'.node.blockStore = storedAfter (storedBlock v.node.blockStore) es
  requested : ∀ e ∈ es, ∃ voter request, (voter, request) ∈ requestsIn v'.sent ∧
    request.inputRecord = some e.record

section Attendance

variable {lib : BaseLibrary C} {confs : Set NodeConf} {conf : NodeConf} {env : Env}
  {r : RoundState} {e : Exchange C} {n m m' : Node C} {v v' : Validator C}

theorem Peer.step (hlaws : ChainLaws lib confs) (hconf : conf ∈ confs) (h : Peer lib confs conf n)
    (input : Input C) : Peer lib confs conf (FinalityGadget.step lib conf n input) := by
  have hadmits : Run.Guarded (FinalityGadget.step lib conf) (Guard.none.Admits lib conf) n
      [input] := ⟨Guard.none_admits lib conf n input, trivial⟩
  exact invariant_runNode (Guard.none_sound lib)
    (fun hinv hsegment ↦ hinv.segment hlaws hconf hsegment) h hadmits

theorem runNode_sent (hduplicate : lib.DuplicateLaw) (conf : NodeConf) (n : Node C)
    (inputs : List (Input C)) :
    n.sent ⊆ (runNode lib conf n inputs).sent := by
  let Grown (m : Node C) : Prop := n.sent ⊆ m.sent
  have hstep : ∀ m input, Grown m → Grown (step lib conf m input) := fun m input h ↦
    List.Subset.trans h (step_sent hduplicate conf m input)
  exact Run.invariant_run_of_forall hstep inputs (List.Subset.refl _)

/-- The turns of a process are a run of its main loop. -/
theorem run_turns (v : Validator C) (inputs : List (Input C)) :
    Run.run (Validator.next lib conf) v (inputs.map .turn) =
      { v with node := runNode lib conf v.node inputs } := by
  induction inputs generalizing v with
  | nil => rfl
  | cons input inputs ih => exact ih (v.next lib conf (.turn input))

/-- A node stays in its round during other events. -/
theorem InRound.run_noise {voted : Bool} (hlaws : ChainLaws lib confs) (hconf : conf ∈ confs)
    (h : InRound lib confs conf r n)
    (hvoted : voted = true → n.transactionSystem.pendingStateHash ≠ none) {inputs : List (Input C)}
    (hnoise : ∀ input ∈ inputs, Noise lib conf r voted input.event) :
    InRound lib confs conf r (runNode lib conf n inputs) ∧
      Unaffected n (runNode lib conf n inputs) := by
  let Same (m : Node C) : Prop := InRound lib confs conf r m ∧ Unaffected n m
  have hstep : ∀ m (input : Input C), Same m → Noise lib conf r voted input.event →
      Same (step lib conf m input) := by
    rintro m input ⟨hround, hsame⟩ hevent
    have hpending : voted = true → m.transactionSystem.pendingStateHash ≠ none := by
      obtain ⟨queue, hstate⟩ := hsame
      rw [hstate]
      exact hvoted
    have hkept := hevent.unaffected hround hpending
    exact ⟨hround.unaffected hkept (hround.peer.step hlaws hconf input), hsame.trans hkept⟩
  exact Run.invariant_run hstep ⟨h, .refl n⟩ (Run.guarded_of_mem (fun input hinput _ ↦
    hnoise input hinput) n)

theorem Voted.unaffected (h : Voted n e m) (hsame : Unaffected m m') (hsent : m.sent ⊆ m'.sent) :
    Voted n e m' := by
  obtain ⟨⟨height, queue, hstate⟩, voter, request, hrequest, hrecord⟩ := h
  obtain ⟨queue', hstate'⟩ := hsame
  refine ⟨⟨height, queue', ?_⟩, voter, request, requestsIn_mono hsent hrequest, hrecord⟩
  rw [hstate', hstate]

/-- A vote does not leave the round. -/
theorem InRound.voted (h : InRound lib confs conf r n) (hvoted : Voted n e m)
    (hpeer : Peer lib confs conf m) : InRound lib confs conf r m := by
  obtain ⟨height, queue, hstate⟩ := hvoted.state
  refine ⟨hpeer, ?_, ?_, ?_, ?_, ?_, ?_⟩ <;> rw [hstate]
  · exact h.status
  · exact h.shardConf
  · exact h.luc
  · exact h.ltr
  · exact h.leader
  · exact h.committed

/-- A validator that votes, whatever it hears of before, and then gets the certificate, whatever it
hears of in between, goes through the round. -/
theorem Attends.completed (hlaws : ReplayLaws lib confs) (hconf : conf ∈ confs) {vote : Event C}
    {events : List (Happening C)} (h : Attends lib conf env r e vote events)
    (hstart : Undecided lib confs conf r v.node)
    (hvotes : ∀ n, Unaffected v.node n → Undecided lib confs conf r n →
      Voted n e (step lib conf n ⟨vote, fun _ ↦ env⟩))
    (hrecord : lib.blockInputRecord e.block = .ok e.record)
    (hhash : e.record.hash = e.proposal.proposedRoot) (hroot : e.proposal.proposedRoot ≠ none)
    (hcertifies : Certifies lib conf r e) (hwrite : env.writeBlock = .ok ()) :
    Completed lib confs conf r [e] v (Run.run (Validator.next lib conf) v events) := by
  obtain ⟨before, between, hbefore, hbetween⟩ := h
  rw [run_turns, runNode_append]
  -- before the vote
  obtain ⟨hround, hsame⟩ := hstart.toInRound.run_noise hlaws.chain hconf (by simp) hbefore
  generalize runNode lib conf v.node before = n at hround hsame
  have hundecided : Undecided lib confs conf r n := by
    refine ⟨hround, ?_⟩
    obtain ⟨queue, hstate⟩ := hsame
    rw [hstate]
    exact hstart.clean
  have hvoted := hvotes n hsame hundecided
  have hpeer := hround.peer.step hlaws.chain hconf ⟨vote, fun _ ↦ env⟩
  have hround := hround.voted hvoted hpeer
  have hnext : ∀ inputs, runNode lib conf n (⟨vote, fun _ ↦ env⟩ :: inputs) =
      runNode lib conf (step lib conf n ⟨vote, fun _ ↦ env⟩) inputs := fun _ ↦ rfl
  rw [hnext, runNode_append]
  generalize step lib conf n ⟨vote, fun _ ↦ env⟩ = m at hvoted hpeer hround
  -- until the certificate
  have hpending : m.transactionSystem.pendingStateHash ≠ none := by
    obtain ⟨height, queue, hstate⟩ := hvoted.state
    rw [hstate]
    exact hroot
  obtain ⟨hround, hsame'⟩ := hround.run_noise hlaws.chain hconf (fun _ ↦ hpending) hbetween
  have hsent := runNode_sent hlaws.chain.duplicate conf m between
  have hvoted := hvoted.unaffected hsame' hsent
  generalize runNode lib conf m between = m' at hround hvoted
  have hpeer := hround.peer.step hlaws.chain hconf
    ⟨.certificationResponse (some e.response), fun _ ↦ env⟩
  obtain ⟨hcompleted, hstored⟩ := hcertifies.completes hlaws.equalIR hrecord hhash hround hvoted
    hwrite rfl hpeer
  constructor
  case next => exact hcompleted
  case stored =>
    obtain ⟨queue, hstate⟩ := hsame
    have hstore : n.blockStore = v.node.blockStore := by rw [hstate]
    rw [← hstore]
    exact hstored
  case requested =>
    rw [List.forall_mem_singleton]
    obtain ⟨voter, request, hrequest, hrecord⟩ := hvoted.requested
    have hlast := step_sent hlaws.chain.duplicate conf m'
      ⟨.certificationResponse (some e.response), fun _ ↦ env⟩
    refine ⟨voter, request, requestsIn_mono ?_ hrequest, hrecord⟩
    exact List.Subset.trans hlast (List.subset_append_right _ _)

theorem Completed.trans {es es' : List (Exchange C)} {v'' : Validator C}
    (h : Completed lib confs conf r es v v')
    (h' : Completed lib confs conf (es.foldl RoundState.next r) es' v' v'')
    (hsent : v'.sent ⊆ v''.sent) : Completed lib confs conf r (es ++ es') v v'' where
  next := by
    rw [List.foldl_append]
    exact h'.next
  stored := by
    rw [h'.stored, h.stored, storedAfter, storedAfter, storedAfter, List.foldl_append]
  requested := by
    rw [List.forall_mem_append]
    refine ⟨fun e he ↦ ?_, h'.requested⟩
    obtain ⟨voter, request, hrequest, hrecord⟩ := h.requested e he
    exact ⟨voter, request, requestsIn_mono hsent hrequest, hrecord⟩

end Attendance

/-! ## Rounds of a shard -/

section Rounds

variable {ι : Type} [DecidableEq ι]

/-- A round in which the surroundings do their part: the leader finds a block and the others agree
with it, the root chain certifies it, and everybody hears of the proposal and of the certificate. -/
structure GoodRound (lib : BaseLibrary C) (confs : ι → NodeConf) (envs : ι → Env) (k : ι)
    (r : RoundState) (shard : ι → Validator C) (e : Exchange C)
    (schedule : List (ι × Happening C)) : Prop where
  registered : Registered lib (confs k) r.shardConf
  leads : ∃ data height, Leads lib (confs k) (envs k) r (shard k).node e data height
  verified : ∀ i, i ≠ k → ∃ height, FGPTxSystem.Verified (envs i).pow
    (shard i).node.transactionSystem e.proposal.proposedRoot height
  certified : ∀ i, Certifies lib (confs i) r e
  works : ∀ i, Works lib (confs i) (envs i) (shard i).node.toNodeState
  attends : ∀ i, Attends lib (confs i) (envs i) r e
    (if i = k then .t1Timeout else .blockProposal (some e.proposal)) (eventsOf i schedule)

/-- Good rounds, one after the other. -/
inductive Rounds (lib : BaseLibrary C) (confs : ι → NodeConf) :
    RoundState → (ι → Validator C) → List (Exchange C) → List (ι × Happening C) → Prop where
  | nil (r : RoundState) (shard : ι → Validator C) : Rounds lib confs r shard [] []
  | cons {r : RoundState} {shard : ι → Validator C} {e : Exchange C} {es : List (Exchange C)}
      {schedule rest : List (ι × Happening C)} (envs : ι → Env) (k : ι)
      (hgood : GoodRound lib confs envs k r shard e schedule)
      (hrest : Rounds lib confs (r.next e) (runShard lib confs shard schedule) es rest) :
      Rounds lib confs r shard (e :: es) (schedule ++ rest)

variable {lib : BaseLibrary C} {confs : ι → NodeConf} {envs : ι → Env} {k : ι} {r : RoundState}
  {shard : ι → Validator C} {e : Exchange C} {es : List (Exchange C)}
  {schedule lockstep : List (ι × Happening C)}

/-- In a good round every validator votes. -/
theorem GoodRound.voted (h : GoodRound lib confs envs k r shard e schedule)
    (hlaws : ReplayLaws lib (Set.range confs)) (hone : ∀ i, (confs i).OneShard)
    (htrust : ∀ i j, (confs i).trustBaseByEpoch = (confs j).trustBaseByEpoch)
    (hstart : ∀ i, Undecided lib (Set.range confs) (confs i) r (shard i).node) {i : ι} {n : Node C}
    (hsame : Unaffected (shard i).node n) (hn : Undecided lib (Set.range confs) (confs i) r n) :
    Voted n e (step lib (confs i)
      n ⟨if i = k then .t1Timeout else .blockProposal (some e.proposal), fun _ ↦ envs i⟩) := by
  obtain ⟨data, height, hleads⟩ := h.leads
  obtain ⟨queue, hstate⟩ := hsame
  have hworks : Works lib (confs i) (envs i) n.toNodeState := by
    rw [hstate]
    exact ⟨(h.works i).sendProposal, (h.works i).writeProposal, (h.works i).sendRequest,
      (h.works i).writeBlock, (h.works i).can⟩
  by_cases hleader : i = k
  · subst hleader
    rw [if_pos rfl]
    have hleads : Leads lib (confs i) (envs i) r n e data height := by
      refine ⟨hleads.self, ?_, ?_, ?_, hleads.sized⟩ <;> rw [hstate]
      · exact hleads.candidate
      · exact hleads.signed
      · exact hleads.built
    exact hleads.voted hn.toInRound hworks
  · rw [if_neg hleader]
    refine hleads.voted_follower hlaws.verify (hone k) (hstart k).toInRound hn h.registered
      (htrust i k) hworks ?_
    rw [hstate]
    exact h.verified i hleader

/-- In a good round every validator gets to the next round. -/
theorem GoodRound.completed (h : GoodRound lib confs envs k r shard e schedule)
    (hlaws : ReplayLaws lib (Set.range confs)) (hone : ∀ i, (confs i).OneShard)
    (htrust : ∀ i j, (confs i).trustBaseByEpoch = (confs j).trustBaseByEpoch)
    (hstart : ∀ i, Undecided lib (Set.range confs) (confs i) r (shard i).node) (i : ι) :
    Completed lib (Set.range confs) (confs i) r [e] (shard i)
      (runShard lib confs shard schedule i) := by
  obtain ⟨data, height, hleads⟩ := h.leads
  obtain ⟨hrecord, hhash⟩ := hleads.content hlaws
  obtain ⟨_, _, _, _, hprop⟩ := BlockProposal.sign_eq_ok lib hleads.signed
  have hroot : e.proposal.proposedRoot ≠ none := by
    rw [hprop]
    exact Option.some_ne_none data
  rw [runShard, run_turn_apply]
  exact (h.attends i).completed hlaws (Set.mem_range_self i) (hstart i)
    (fun n hsame hn ↦ h.voted hlaws hone htrust hstart hsame hn) hrecord hhash hroot (h.certified i)
    (h.works i).writeBlock

theorem runShard_sent (hduplicate : lib.DuplicateLaw) (shard : ι → Validator C)
    (schedule : List (ι × Happening C)) (i : ι) :
    (shard i).sent ⊆ (runShard lib confs shard schedule i).sent := by
  let Grown (shard' : ι → Validator C) : Prop := (shard i).sent ⊆ (shard' i).sent
  have hstep : ∀ shard' move, Grown shard' →
      Grown (turn (fun i ↦ Validator.next lib (confs i)) shard' move) := fun shard' move h ↦
    List.Subset.trans h (turn_sent hduplicate move i)
  exact Run.invariant_run_of_forall hstep schedule (List.Subset.refl _)

theorem Rounds.completed (h : Rounds lib confs r shard es schedule)
    (hlaws : ReplayLaws lib (Set.range confs)) (hone : ∀ i, (confs i).OneShard)
    (htrust : ∀ i j, (confs i).trustBaseByEpoch = (confs j).trustBaseByEpoch)
    (hstart : ∀ i, Undecided lib (Set.range confs) (confs i) r (shard i).node) (i : ι) :
    Completed lib (Set.range confs) (confs i) r es (shard i)
      (runShard lib confs shard schedule i) := by
  induction h with
  | nil r shard =>
    refine ⟨hstart i, rfl, ?_⟩
    intro e he
    cases he
  | @cons r shard e es first rest envs k hgood hrest ih =>
    have hfirst := hgood.completed hlaws hone htrust hstart
    have hrun : runShard lib confs shard (first ++ rest) =
        runShard lib confs (runShard lib confs shard first) rest := Run.run_append _ _ _ _
    rw [hrun]
    exact (hfirst i).trans (ih fun j ↦ (hfirst j).next)
      (runShard_sent hlaws.chain.duplicate _ rest i)

/-- The validators of a shard that start in the same round go through any number of good rounds, in
whatever order their events are interleaved: in the end they are in the same round and have stored
the same new blocks, and everyone has asked for every record. -/
theorem rounds_complete (hlaws : ReplayLaws lib (Set.range confs))
    (hone : ∀ i, (confs i).OneShard)
    (htrust : ∀ i j, (confs i).trustBaseByEpoch = (confs j).trustBaseByEpoch)
    (hstart : ∀ i, Undecided lib (Set.range confs) (confs i) r (shard i).node)
    (hrounds : Rounds lib confs r shard es lockstep)
    (hsame : ∀ i, eventsOf i schedule = eventsOf i lockstep) (i : ι) :
    Completed lib (Set.range confs) (confs i) r es (shard i)
      (runShard lib confs shard schedule i) := by
  have hschedule : runShard lib confs shard schedule = runShard lib confs shard lockstep :=
    run_turn_congr shard hsame
  rw [hschedule]
  exact hrounds.completed hlaws hone htrust hstart i

end Rounds

section Reference

open Reference

namespace Reference

/-- Both validators have got the initial certificate. -/
def convened (i : Bool) : Validator UnicityCertificate where
  node := runNode shardLibrary (members i) node [deliver { roundNumber := 1 } 5 (technical 2 "A")]

/-- The round that this certificate opens. -/
def openingRound : RoundState where
  shardConf := shardConf
  luc := certify { roundNumber := 1 } 5 (technical 2 "A")
  technical := technical 2 "A"
  leader := "A"
  committedUC := none

def firstExchange : Exchange UnicityCertificate where
  proposal := firstProposal
  record := proposedRecord
  block := proposedBlock
  response := response proposalUC (technical 3 "A")
  encoded := proposalUC
  nextLeader := "A"

def secondExchange : Exchange UnicityCertificate where
  proposal :=
    { firstProposal with
      unicityCertificate := some proposalUC
      technical := technical 3 "A"
      proposedRoot := some [11]
      signature := some [1, 11] }
  record := nextRecord
  block := nextBlock
  response := response (nextUC 7) (technical 4 "A")
  encoded := nextUC 7
  nextLeader := "A"

/-- The first round, in which `B` hears of the proposal twice. -/
def firstMoves : List (Bool × Happening UnicityCertificate) :=
  [(false, .turn (input 10 .t1Timeout)),
    (true, .turn (input 10 (.blockProposal (some firstProposal)))),
    (true, .turn (input 10 (.blockProposal (some firstProposal)))),
    (false, .turn (input 10 (.certificationResponse (some firstExchange.response)))),
    (true, .turn (input 10 (.certificationResponse (some firstExchange.response))))]

def secondMoves : List (Bool × Happening UnicityCertificate) :=
  [(false, .turn (input 11 .t1Timeout)),
    (true, .turn (input 11 (.blockProposal (some secondExchange.proposal)))),
    (false, .turn (input 11 (.certificationResponse (some secondExchange.response)))),
    (true, .turn (input 11 (.certificationResponse (some secondExchange.response))))]

/-- The same events, when `A` has gone through both rounds before `B` votes in the first one. -/
def hurried : List (Bool × Happening UnicityCertificate) :=
  [(false, .turn (input 10 .t1Timeout)),
    (false, .turn (input 10 (.certificationResponse (some firstExchange.response)))),
    (false, .turn (input 11 .t1Timeout)),
    (false, .turn (input 11 (.certificationResponse (some secondExchange.response)))),
    (true, .turn (input 10 (.blockProposal (some firstProposal)))),
    (true, .turn (input 10 (.blockProposal (some firstProposal)))),
    (true, .turn (input 10 (.certificationResponse (some firstExchange.response)))),
    (true, .turn (input 11 (.blockProposal (some secondExchange.proposal)))),
    (true, .turn (input 11 (.certificationResponse (some secondExchange.response))))]

end Reference

theorem convened_undecided (i : Bool) :
    Undecided shardLibrary (Set.range members) (members i) openingRound (convened i).node := by
  have hreachable : Reachable shardLibrary (Set.range members) (members i) (convened i).node := by
    cases i with
    | false => exact ⟨_, _, _, ⟨false, rfl⟩, .empty, starts_empty "A" [1], rfl⟩
    | true => exact ⟨_, _, _, ⟨true, rfl⟩, .empty, starts_empty "B" [2], rfl⟩
  have hpeer := hreachable.peer (shardLibrary_chainLaws _) cborLaw blockHashLaw blockRecordLaw
  cases i <;> exact ⟨⟨hpeer, rfl, rfl, rfl, rfl, rfl, rfl⟩, rfl⟩

/-- The certificates of the two rounds pass all checks. -/
theorem exchanges_certified (i : Bool) :
    Certifies shardLibrary (members i) openingRound firstExchange ∧
      Certifies shardLibrary (members i) (openingRound.next firstExchange) secondExchange := by
  constructor <;> cases i <;>
    exact ⟨rfl, ⟨rfl, rfl⟩, ⟨_, rfl, rfl⟩, rfl, rfl, rfl, rfl, rfl, rfl, rfl⟩

theorem firstMoves_good : GoodRound shardLibrary members (fun _ ↦ env 10) false openingRound
    convened firstExchange firstMoves := by
  constructor
  case registered => exact registered
  case leads =>
    refine ⟨[10], 10, rfl, ⟨powHeader 10, 0, powHeader 10, [], rfl, rfl, ?_⟩, rfl, rfl, 1, rfl⟩
    exact ⟨by decide, by decide, by decide, rfl, rfl, rfl, rfl, rfl⟩
  case verified =>
    rintro (_ | _) hother
    · exact absurd rfl hother
    · exact ⟨_, .block (powHeader 10) (powHeader 10) (by decide) rfl rfl rfl (by decide)
        (by decide)⟩
  case certified => exact fun i ↦ (exchanges_certified i).1
  case works =>
    rintro (_ | _) <;> exact ⟨rfl, rfl, rfl, rfl, fun _ _ _ _ ↦ ⟨_, rfl⟩⟩
  case attends =>
    rintro (_ | _)
    · exact .mk [] [] (by simp) (by simp)
    · refine .mk [] [input 10 (.blockProposal (some firstProposal))] (by simp) ?_
      rw [List.forall_mem_singleton]
      exact .proposal firstProposal le_rfl (Or.inl rfl)

theorem secondMoves_good : GoodRound shardLibrary members (fun _ ↦ env 11) false
    (openingRound.next firstExchange) (runShard shardLibrary members convened firstMoves)
    secondExchange secondMoves := by
  constructor
  case registered => exact registered
  case leads =>
    refine ⟨[11], 11, rfl, ⟨powHeader 11, 10, powHeader 11, [], rfl, rfl, ?_⟩, rfl, rfl, 2, rfl⟩
    exact ⟨by decide, by decide, by decide, rfl, rfl, rfl, rfl, rfl⟩
  case verified =>
    rintro (_ | _) hother
    · exact absurd rfl hother
    · exact ⟨_, .block (powHeader 11) (powHeader 11) (by decide) rfl rfl rfl (by decide)
        (by decide)⟩
  case certified => exact fun i ↦ (exchanges_certified i).2
  case works =>
    rintro (_ | _) <;> exact ⟨rfl, rfl, rfl, rfl, fun _ _ _ _ ↦ ⟨_, rfl⟩⟩
  case attends => rintro (_ | _) <;> exact .mk [] [] (by simp) (by simp)

/-- The shard goes through its first two rounds although `A` hurries. -/
theorem rounds_complete_hurried :
    (runShard shardLibrary members convened (hurried.take 4) true).node.committedUC = none ∧
      ∀ i, Completed shardLibrary (Set.range members) (members i) openingRound
        [firstExchange, secondExchange] (convened i)
        (runShard shardLibrary members convened hurried i) := by
  have hrounds : Rounds shardLibrary members openingRound convened [firstExchange, secondExchange]
      (firstMoves ++ (secondMoves ++ [])) :=
    .cons _ _ firstMoves_good (.cons _ _ secondMoves_good (.nil _ _))
  have htrust : ∀ i j, (members i).trustBaseByEpoch = (members j).trustBaseByEpoch := by
    rintro (_ | _) (_ | _) <;> rfl
  have hone : ∀ i, (members i).OneShard := by
    rintro (_ | _) <;> exact conf_oneShard _ _
  have hsame : ∀ i, eventsOf i hurried = eventsOf i (firstMoves ++ (secondMoves ++ [])) := by
    rintro (_ | _) <;> rfl
  exact ⟨rfl, rounds_complete (shardLibrary_replayLaws _) hone htrust convened_undecided hrounds
    hsame⟩

end Reference

end FinalityGadget
