import FinalityGadget.Partition.Signing
import FinalityGadget.Partition.Silence

/-!
# What a turn sends and queues

A relation between the nodes before and after a turn can often be read off the messages, the queue
of the replication workers and the remembered proposal. Whatever else a handler changes does not
matter to it, so it is enough to look at the places where a handler touches one of these: the timer,
a vote for a proposal the node has heard of, and the routine messages of the monitor and the
recovery.
-/

namespace FinalityGadget

open Bytes Fallible

variable {C : Type}

/-- Handshakes, and replication requests in the name of the node. -/
def Message.Routine (lib : BaseLibrary C) (conf : NodeConf) : Message C → Prop
  | .handshake _ => True
  | .replicationRequest request => request.nodeID = lib.peerIDString conf.peerID
  | _ => False

/-- The events of the replication service. -/
def Event.isService : Event C → Bool
  | .ledgerReplicationRequest _ => true
  | .replicationWorker => true
  | _ => false

/-- Every proposal that the event delivers has the property. -/
def Event.Delivers (heard : BlockProposal → Prop) : Event C → Prop
  | .blockProposal (some prop) => heard prop
  | _ => True

/-- The relation holds at every place where a handler sends, queues or remembers something outside
the replication service, and cannot see anything else. -/
structure Carries (lib : BaseLibrary C) (conf : NodeConf) (heard : BlockProposal → Prop)
    (R : Node C → Node C → Prop) : Prop where
  trans : ∀ {n m n'}, R n m → R m n' → R n n'
  kept : ∀ {n n' : Node C}, n'.sent = n.sent → n'.replicationCh = n.replicationCh →
    n'.recoveryLastProp = n.recoveryLastProp → R n n'
  routine : ∀ (n : Node C) {message : Message C} (receivers : List PeerID),
    message.Routine lib conf → R n (n.post message receivers)
  remembers : ∀ (n : Node C) {proposal : Option BlockProposal},
    (∀ prop, proposal = some prop → heard prop) → R n { n with recoveryLastProp := proposal }
  proposes : ∀ {env : Env} {n : Node C} {result : EStateM.Result Err (Node C) Unit},
    TimeoutExit lib conf env n result → R n (final result)
  votes : ∀ {env : Env} {n : Node C} {prop : BlockProposal} {uc : UnicityCertificate}
    {result : EStateM.Result Err (Node C) Unit}, heard prop → prop.unicityCertificate = some uc →
    n.status ≠ .recovering → ValidProposal lib conf n prop →
    (lib.DuplicateLaw → getRootRoundNumber n.luc = getRootRoundNumber (some uc)) →
    VoteExit lib conf env prop uc n result → R n (final result)

namespace Carries

variable {lib : BaseLibrary C} {conf : NodeConf} {heard : BlockProposal → Prop}
  {R : Node C → Node C → Prop} {env : Env} {n : Node C}
  {result : EStateM.Result Err (Node C) Unit}

theorem refl (h : Carries lib conf heard R) (n : Node C) : R n n := h.kept rfl rfl rfl

/-! ## Routine messages -/

theorem postReplicationRequest (h : Carries lib conf heard R) {request : LedgerReplicationRequest}
    (hown : request.nodeID = lib.peerIDString conf.peerID) (peers : List PeerID) (n : Node C) :
    R n (Node.postReplicationRequest conf env request peers n) := by
  induction peers generalizing n with
  | nil => exact h.refl n
  | cons peer rest ih =>
    have hpost : R n (n.post (.replicationRequest request) [peer]) := h.routine n [peer] hown
    unfold Node.postReplicationRequest
    split
    · exact ih n
    split
    · exact hpost
    · exact h.trans hpost (ih _)

theorem sendLedgerReplicationRequest (h : Carries lib conf heard R) (n : Node C) :
    R n (n.sendLedgerReplicationRequest lib conf env) :=
  h.postReplicationRequest rfl _ n

theorem sendHandshake (h : Carries lib conf heard R) (n : Node C) :
    R n (n.sendHandshake lib conf env) := by
  unfold Node.sendHandshake
  split
  · exact h.refl n
  split
  · exact h.refl n
  · exact h.routine n _ trivial

theorem startRecovery (h : Carries lib conf heard R) (n : Node C) :
    R n (n.startRecovery lib conf env) := by
  unfold Node.startRecovery
  split
  · exact h.refl n
  · have hreverted : R n (n.setStatus .recovering).revertState.resetProposal := h.kept rfl rfl rfl
    exact h.trans hreverted (h.sendLedgerReplicationRequest _)

theorem startNewRound (h : Carries lib conf heard R) (n : Node C) : R n (n.startNewRound env) := by
  apply h.kept
  · exact n.resetProposal.deletePendingProposal_sent env
  · rw [Node.startNewRound_toNodeState]
  · rw [Node.startNewRound_toNodeState]

/-! ## Certificates and proposals -/

theorem certificateExit (h : Carries lib conf heard R) {uc : UnicityCertificate}
    {prevLUC : Option UnicityCertificate} {wasInitializing : Bool}
    (hexit : CertificateExit lib conf env uc prevLUC wasInitializing n result) :
    R n (final result) := by
  cases hexit with
  | ignored | unknown | unencodable => exact h.kept rfl rfl rfl
  | resumed | initial | current => exact h.startNewRound n
  | repeated =>
    have hreverted : R n n.revertState := h.kept rfl rfl rfl
    exact h.trans hreverted (h.startNewRound n.revertState)
  | behind => exact h.startRecovery n
  | unfinalized err cause proposal encoded m hnew hsuccessor hmarshal hfinalize =>
    have hkept : R n m := by cases hfinalize <;> exact h.kept rfl rfl rfl
    exact h.trans hkept (h.startRecovery m)
  | finalized proposal proposedIR encoded =>
    have hfinalized : R n (n.finalized { proposal with unicityCertificate := some encoded } uc) :=
      h.kept rfl rfl rfl
    exact h.trans hfinalized (h.startNewRound _)

theorem ucExit (h : Carries lib conf heard R) {uc : UnicityCertificate}
    {tr : Option TechnicalRecord} (hexit : UCExit lib conf env n uc tr result) :
    R n (final result) := by
  cases hexit with
  | rejected => exact h.refl n
  | recovering hstatus m hluc => cases hluc <;> exact h.kept rfl rfl rfl
  | processed hstatus m haccepted result hexit =>
    have hkept : R n (m.setStatus .normal) := by cases haccepted <;> exact h.kept rfl rfl rfl
    exact h.trans hkept (h.certificateExit hexit)

theorem certificationResponse (h : Carries lib conf heard R)
    (response : Option CertificationResponse) (n : Node C) :
    R n (final ((handleCertificationResponse lib conf env response).run n)) := by
  let Done (result : EStateM.Result Err (Node C) Unit) : Prop := R n (final result)
  suffices hdone : Done ((handleCertificationResponse lib conf env response).run n) from hdone
  refine exec_get (exec_ofExcept (fun _ _ ↦ h.refl n) fun _ _ ↦ ?_)
  refine exec_ensure (fun _ ↦ h.refl n) fun _ ↦ ?_
  exact h.ucExit (handleUnicityCertificate_spec lib conf env n _ _)

/-- A newer certificate that is processed becomes the latest one. -/
theorem luc_eq_of_newer (hduplicate : lib.DuplicateLaw) {m : Node C} {uc : UnicityCertificate}
    {tr : Option TechnicalRecord} (hstatus : n.status ≠ .recovering)
    (hnewer : getRootRoundNumber n.luc < getRootRoundNumber (some uc))
    (hexit : UCExit lib conf env n uc tr (.ok () m)) : m.luc = some uc := by
  cases hexit with
  | recovering hrecovering => exact absurd hrecovering hstatus
  | processed _ m' haccepted _ hexit =>
    have hnew : lib.isDuplicate uc n.luc = false := by
      by_contra hsame
      have hround := hduplicate.rootRound_eq (Bool.not_eq_false _ ▸ hsame)
      exact absurd hnewer (hround ▸ lt_irrefl _)
    have hlatest := hexit.latest_eq
    obtain ⟨leader, _, rfl⟩ := haccepted.adopted_of_new hnew
    exact congrArg Prod.fst hlatest

theorem proposalExit (h : Carries lib conf heard R)
    {proposal : Option BlockProposal} (hheard : ∀ prop, proposal = some prop → heard prop)
    (hexit : ProposalExit lib conf env n proposal result) : R n (final result) := by
  cases hexit with
  | remembered => exact h.remembers n hheard
  | rejected => exact h.refl n
  | uncertified err cause prop uc m hstatus hprop huc hvalid hnewer hexit =>
    have hfirst : R n m := h.ucExit hexit
    exact hfirst
  | certified prop uc m result hstatus hprop huc hvalid hnewer hexit hvote =>
    have hfirst : R n m := h.ucExit hexit
    have hrunning : m.status ≠ .recovering := by simp [(hexit.running hstatus).1]
    have hround (hduplicate : lib.DuplicateLaw) :
        getRootRoundNumber m.luc = getRootRoundNumber (some uc) :=
      congrArg getRootRoundNumber (luc_eq_of_newer hduplicate hstatus hnewer hexit)
    exact h.trans hfirst (h.votes (hheard prop hprop) huc hrunning
      (hvalid.congr hexit.shardConf_eq) hround hvote)
  | current prop uc result hstatus hprop huc hvalid hsame hvote =>
    exact h.votes (hheard prop hprop) huc hstatus hvalid (fun _ ↦ hsame) hvote

/-! ## Recovery -/

theorem handleBlocks (h : Carries lib conf heard R) {envs : ℕ → Env}
    {blocks : List (Option (Block C))} {i : ℕ} (hstatus : n.status = .recovering)
    (hrun : (FinalityGadget.handleBlocks lib conf envs i blocks).run n = result) :
    R n (final result) ∧ (final result).recoveryLastProp = n.recoveryLastProp := by
  induction blocks generalizing i n with
  | nil =>
    rw [← hrun]
    exact ⟨h.refl n, rfl⟩
  | cons block rest ih =>
    have hexit := handleBlock_spec lib conf (envs i) n block hstatus
    have hsent := hexit.sent_eq
    have hqueue := hexit.preserves lib conf (fun m ↦ m.replicationCh) (fun _ _ _ _ ↦ rfl)
      (fun _ ↦ rfl) fun _ _ _ _ ↦ rfl
    have hlast := hexit.preserves lib conf (fun m ↦ m.recoveryLastProp) (fun _ _ _ _ ↦ rfl)
      (fun _ ↦ rfl) fun _ _ _ _ ↦ rfl
    have hkept := hexit.status_eq
    simp only [FinalityGadget.handleBlocks, EStateM.run_bind] at hrun
    split at hrun
    next _ m hblock =>
      rw [hblock] at hsent hqueue hlast hkept
      obtain ⟨hrest, hlast'⟩ := ih (hkept.trans hstatus) hrun
      exact ⟨h.trans (h.kept hsent hqueue hlast) hrest, hlast'.trans hlast⟩
    next err m hblock =>
      rw [hblock] at hsent hqueue hlast
      rw [← hrun]
      exact ⟨h.kept hsent hqueue hlast, hlast⟩

theorem finishExit (h : Carries lib conf heard R) {nextEnv : Env}
    (hheard : ∀ prop, n.recoveryLastProp = some prop → heard prop)
    (hexit : FinishExit lib conf env nextEnv n result) : R n (final result) := by
  have hstopped : R n n.stopRecovery := h.kept rfl rfl rfl
  have hfresh : R n (n.stopRecovery.startNewRound env) :=
    h.trans hstopped (h.startNewRound n.stopRecovery)
  cases hexit with
  | fresh => exact hfresh
  | tried result hproposal =>
    have htried : R (n.stopRecovery.startNewRound env) (final result) :=
      h.proposalExit hheard hproposal
    have hforgot : R (final result) { final result with recoveryLastProp := none } :=
      h.remembers (final result) fun _ hnone ↦ by cases hnone
    exact h.trans hfresh (h.trans htried hforgot)

theorem responseExit (h : Carries lib conf heard R) {envs : ℕ → Env}
    {blocks : List (Option (Block C))}
    (hheard : ∀ prop, n.recoveryLastProp = some prop → heard prop)
    (hexit : ResponseExit lib conf envs n blocks result) : R n (final result) := by
  cases hexit with
  | refused | unneeded | stopped => exact h.kept rfl rfl rfl
  | failed err m hstatus hrun => exact (h.handleBlocks hstatus hrun).1
  | continued m hstatus hrun =>
    exact h.trans (h.handleBlocks hstatus hrun).1 (h.sendLedgerReplicationRequest m)
  | finished m hstatus hrun hcomplete result hfinish =>
    obtain ⟨hblocks, hlast⟩ := h.handleBlocks hstatus hrun
    have hlast : m.recoveryLastProp = n.recoveryLastProp := hlast
    exact h.trans hblocks (h.finishExit (hlast ▸ hheard) hfinish)

/-! ## Turns -/

theorem monitoring (h : Carries lib conf heard R) (ucOverdue replicationOverdue : Bool)
    (n : Node C) :
    R n (final ((handleMonitoring lib conf env ucOverdue replicationOverdue).run n)) := by
  apply handleMonitoring_rel
  · exact h.refl
  · exact h.trans
  · exact h.sendHandshake
  · exact h.sendLedgerReplicationRequest

theorem epochChange (h : Carries lib conf heard R) (n : Node C) :
    R n (final ((takeEpochChange conf).run n)) := by
  have hexit := takeEpochChange_spec conf n
  have hsent : (final ((takeEpochChange conf).run n)).sent = n.sent := takeEpochChange_sent n
  generalize final ((takeEpochChange conf).run n) = after at hexit hsent
  apply h.kept hsent <;> cases hexit <;> rfl

/-- A turn outside the replication service. -/
theorem step (h : Carries lib conf heard R) {input : Input C}
    (hevent : input.event.Delivers heard)
    (hheard : ∀ prop, n.recoveryLastProp = some prop → heard prop)
    (hother : input.event.isService = false) : R n (FinalityGadget.step lib conf n input) := by
  obtain ⟨event, envs⟩ := input
  cases event with
  | certificationResponse response => exact h.certificationResponse response n
  | blockProposal proposal =>
    apply h.proposalExit _ (handleBlockProposal_spec lib conf (envs 0) n proposal)
    rintro prop rfl
    exact hevent
  | ledgerReplicationRequest request => cases hother
  | ledgerReplicationResponse response =>
    exact h.responseExit hheard
      (handleLedgerReplicationResponse_spec lib conf envs n response)
  | t1Timeout => exact h.proposes (handleT1TimeoutEvent_spec lib conf (envs 0) n)
  | epochChange => exact h.epochChange n
  | monitoring ucOverdue replicationOverdue => exact h.monitoring ucOverdue replicationOverdue n
  | replicationWorker => cases hother

end Carries

/-! ## Consensus messages -/

/-- Certification requests, and proposals in the name of the node. -/
def Message.Campaign (conf : NodeConf) : Message C → Prop
  | .blockProposal prop => prop.nodeID = conf.peerID
  | .certificationRequest _ => True
  | _ => False

/-- The node has sent some proposals and certification requests. -/
structure Campaigns (conf : NodeConf) (n n' : Node C) : Prop where
  sent : ∃ news, n'.sent = n.sent ++ news ∧ ∀ sent ∈ news, sent.message.Campaign conf
  queue : n'.replicationCh = n.replicationCh

section Campaigns

variable {lib : BaseLibrary C} {conf : NodeConf} {env : Env} {n m n' : Node C}
  {result : EStateM.Result Err (Node C) Unit}

theorem campaigns_of_sent (hsent : n'.sent = n.sent) (hqueue : n'.replicationCh = n.replicationCh) :
    Campaigns conf n n' :=
  ⟨⟨[], hsent.trans (List.append_nil _).symm, by simp⟩, hqueue⟩

theorem Campaigns.trans (h : Campaigns conf n m) (h' : Campaigns conf m n') :
    Campaigns conf n n' := by
  obtain ⟨⟨news, hsent, hnews⟩, hqueue⟩ := h
  obtain ⟨⟨news', hsent', hnews'⟩, hqueue'⟩ := h'
  refine ⟨⟨news ++ news', ?_, List.forall_mem_append.mpr ⟨hnews, hnews'⟩⟩, hqueue'.trans hqueue⟩
  rw [hsent', hsent, List.append_assoc]

theorem campaigns_post (n : Node C) {message : Message C} (receivers : List PeerID)
    (h : message.Campaign conf) : Campaigns conf n (n.post message receivers) :=
  ⟨⟨[⟨message, receivers, n.toNodeState⟩], rfl, List.forall_mem_singleton.mpr h⟩, rfl⟩

theorem RequestExit.campaigns {author : String} {state : Summary}
    (h : RequestExit lib conf env author state n result) : Campaigns conf n (final result) := by
  have hrecorded : ∀ block, Campaigns conf n (n.recorded block) := fun _ ↦ campaigns_of_sent rfl rfl
  cases h with
  | unbuilt | unstored => exact campaigns_of_sent rfl rfl
  | unsent err ir block => exact hrecorded block
  | undelivered err ir block request rootIDs =>
    exact (hrecorded block).trans (campaigns_post _ rootIDs trivial)
  | sent ir block request rootIDs =>
    exact (hrecorded block).trans (campaigns_post _ rootIDs trivial)

theorem Announced.campaigns {data : List UInt8} (h : Announced lib conf env n data m) :
    Campaigns conf n m := by
  obtain ⟨height, ltr, prop, _, _, hsign, rfl⟩ := h
  have hpending : Campaigns conf n (n.setTx (n.transactionSystem.setPending (some data) height)) :=
    campaigns_of_sent rfl rfl
  obtain ⟨_, _, _, _, rfl⟩ := BlockProposal.sign_eq_ok lib hsign
  exact hpending.trans (campaigns_post _ _ rfl)

theorem TimeoutExit.campaigns (h : TimeoutExit lib conf env n result) :
    Campaigns conf n (final result) := by
  have hreverted : ∀ m : Node C, Campaigns conf m m.revertState := fun _ ↦ campaigns_of_sent rfl rfl
  cases h with
  | idle | abandoned => exact campaigns_of_sent rfl rfl
  | unproposed data m hstatus hleader hannounced =>
    exact hannounced.campaigns.trans (hreverted m)
  | unrequested data m m' err hstatus hleader hannounced hrequest =>
    have hrequested : Campaigns conf m m' := hrequest.campaigns
    exact hannounced.campaigns.trans (hrequested.trans (hreverted m'))
  | requested data m m' hstatus hleader hannounced hrequest =>
    exact hannounced.campaigns.trans hrequest.campaigns

theorem VoteExit.campaigns {prop : BlockProposal} {uc : UnicityCertificate}
    (h : VoteExit lib conf env prop uc n result) : Campaigns conf n (final result) := by
  have hpending : ∀ height, Campaigns conf n
      (n.setTx (n.transactionSystem.setPending prop.proposedRoot height)) :=
    fun _ ↦ campaigns_of_sent rfl rfl
  cases h with
  | refused | unverified => exact campaigns_of_sent rfl rfl
  | unrequested height err cause m helectable hverified hrequest =>
    have hrequested := hrequest.campaigns
    exact (hpending height).trans hrequested
  | requested height m helectable hverified hrequest =>
    exact (hpending height).trans hrequest.campaigns

end Campaigns

/-! ## The replication service -/

section Service

variable {lib : BaseLibrary C} {conf : NodeConf}

/-- How `handleLedgerReplicationRequest` ends. -/
inductive ServiceExit (lib : BaseLibrary C) (conf : NodeConf) (env : Env) (n : Node C)
    (request : Option LedgerReplicationRequest) : EStateM.Result Err (Node C) Unit → Prop where
  | invalid (err cause : Err) (hvalid : LedgerReplicationRequest.isValid request = .error cause) :
      ServiceExit lib conf env n request (.error err n)
  | replied (lr : LedgerReplicationRequest) (msg : LedgerReplicationResponse C)
      (hrequest : request.getD default = lr)
      (hvalid : LedgerReplicationRequest.isValid request = .ok ()) (huuid : msg.uuid = lr.uuid) :
      ServiceExit lib conf env n request
        ((sendLedgerReplicationResponse lib env msg lr.nodeID).run n)
  | queued (lr : LedgerReplicationRequest) (hrequest : request.getD default = lr)
      (hvalid : LedgerReplicationRequest.isValid request = .ok ())
      (hroom : n.replicationCh.length < conf.replicationConfig.maxWorkers.toNat) :
      ServiceExit lib conf env n request
        (.ok () { n with replicationCh := n.replicationCh ++ [lr] })

theorem handleLedgerReplicationRequest_spec (env : Env) (n : Node C)
    (request : Option LedgerReplicationRequest) :
    ServiceExit lib conf env n request
      ((handleLedgerReplicationRequest lib conf env request).run n) := by
  refine exec_ofExcept (fun _ herr ↦ .invalid _ _ herr) fun _ hvalid ↦ ?_
  dsimp only
  refine exec_get ?_
  refine exec_ite (fun _ ↦ .replied _ _ rfl hvalid rfl) fun _ ↦ ?_
  refine exec_ite (fun _ ↦ .replied _ _ rfl hvalid rfl) fun _ ↦ ?_
  refine exec_ite (fun _ ↦ .replied _ _ rfl hvalid rfl) fun _ ↦ ?_
  exact exec_ite (fun hroom ↦ .queued _ rfl hvalid hroom) fun _ ↦ .replied _ _ rfl hvalid rfl

/-- A turn of the replication service changes the queue and sends responses. -/
theorem step_service {R : Node C → Node C → Prop} (htrans : ∀ {n m n'}, R n m → R m n' → R n n')
    (hqueue : ∀ (n : Node C) queue, R n { n with replicationCh := queue })
    (hsend : ∀ env msg toId n,
      R n (final ((sendLedgerReplicationResponse lib env msg toId).run n)))
    {input : Input C} (hservice : input.event.isService = true) (n : Node C) :
    R n (step lib conf n input) := by
  obtain ⟨event, envs⟩ := input
  cases event with
  | ledgerReplicationRequest request =>
    have hexit : ServiceExit lib conf (envs 0) n request
        ((handleLedgerReplicationRequest lib conf (envs 0) request).run n) :=
      handleLedgerReplicationRequest_spec (envs 0) n request
    have hstep : step lib conf n ⟨.ledgerReplicationRequest request, envs⟩ =
        final ((handleLedgerReplicationRequest lib conf (envs 0) request).run n) := rfl
    rw [hstep]
    generalize (handleLedgerReplicationRequest lib conf (envs 0) request).run n = result at hexit
    cases hexit with
    | invalid => exact hqueue n n.replicationCh
    | queued => exact hqueue n _
    | replied => exact hsend _ _ _ n
  | replicationWorker =>
    have hexit := replicationWorker_spec lib conf (envs 0) n
    have hstep : step lib conf n ⟨.replicationWorker, envs⟩ =
        final ((replicationWorker lib conf (envs 0)).run n) := rfl
    rw [hstep]
    generalize final ((replicationWorker lib conf (envs 0)).run n) = after at hexit
    cases hexit with
    | idle => exact hqueue n n.replicationCh
    | panicked _ rest => exact hqueue n rest
    | answered lr rest msg => exact htrans (hqueue n rest) (hsend _ msg lr.nodeID _)
  | _ => cases hservice

end Service

/-- A process starts with an empty queue and no remembered proposal. -/
theorem Starts.queues_empty {lib : BaseLibrary C} {conf : NodeConf} {store : BlockStore C}
    {n : Node C} (h : Starts lib conf store n) :
    n.replicationCh = [] ∧ n.recoveryLastProp = none := by
  obtain ⟨txConf, txSystem, env, nextEnv, _, hnew⟩ := h
  obtain ⟨shardConf, restored, _, hrestore, hreplay⟩ := newNode_spec lib conf hnew
  cases hrestore <;> cases hreplay <;> exact ⟨rfl, rfl⟩

end FinalityGadget
