import FinalityGadget.Partition.Batch

/-!
# A recovering node

Recovery is entered from many places and left in two ways, one of which handles a remembered
proposal at once. Whatever the order of events, a recovering node has nothing pending, and what it
hands to the network are handshakes and replication messages only: proposals and certification
requests leave a node that is not recovering.
-/

namespace FinalityGadget

open Bytes Fallible

variable {C : Type}

/-! ## Nothing pending -/

/-- A recovering node has no pending state. -/
def Clean (n : Node C) : Prop :=
  n.status = .recovering → n.transactionSystem.pendingStateHash = none

section Clean

variable {lib : BaseLibrary C} {conf : NodeConf} {guard : Guard C} {env : Env} {n n' : Node C}

theorem CertificateExit.clean {uc : UnicityCertificate} {prevLUC : Option UnicityCertificate}
    {wasInitializing : Bool} {m : Node C} {result : EStateM.Result Err (Node C) Unit}
    (hnormal : m.status = .normal)
    (h : CertificateExit lib conf env uc prevLUC wasInitializing m result) :
    Clean (final result) := by
  have hrunning : m.status ≠ .recovering := by simp [hnormal]
  cases h with
  | ignored | unknown | unencodable => exact fun hstatus ↦ absurd hstatus hrunning
  | resumed | repeated | initial | current | finalized =>
    intro hstatus
    rw [final_ok, Node.startNewRound_status] at hstatus
    exact absurd hstatus hrunning
  | behind =>
    intro _
    rw [final_error, m.startRecovery_transactionSystem lib conf env hrunning]
    rfl
  | unfinalized err cause proposal encoded m' hnew hsuccessor hmarshal hfinalize =>
    intro _
    have hstatus' : m'.status = m.status := hfinalize.status_eq
    rw [final_error, m'.startRecovery_transactionSystem lib conf env (hstatus' ▸ hrunning)]
    rfl

theorem Clean.segment (hclean : Clean n) (h : Segment lib conf guard n n') : Clean n' := by
  apply h.of_recovering (P := fun n ↦ n.transactionSystem.pendingStateHash = none) hclean
  · intro n n' hquiet hnone
    rw [← hquiet.transactionSystem] at hnone
    exact hnone
  · intro n m uc tr hluc hnone
    cases hluc <;> exact hnone
  · exact fun hnormal hexit ↦ hexit.clean hnormal
  · exact fun hexit hnone ↦ hexit.pendingStateHash_cases.elim (fun hkept ↦ hkept.trans hnone) id

end Clean

/-! ## Nothing sent -/

/-- Proposals and certification requests take part in the consensus of the shard. -/
def Message.isConsensus : Message C → Bool
  | .blockProposal _ => true
  | .certificationRequest _ => true
  | _ => false

/-- The message was not a consensus message of a recovering node. -/
def Sent.Silent (sent : Sent C) : Prop :=
  sent.message.isConsensus = true → sent.sender.status ≠ .recovering

/-- Every message added to the log is silent. -/
def SendsSilently (n n' : Node C) : Prop := ∀ sent ∈ n'.sent, sent ∈ n.sent ∨ sent.Silent

theorem sendsSilently_of_eq {n n' : Node C} (h : n'.sent = n.sent) : SendsSilently n n' :=
  fun _ hsent ↦ Or.inl (h ▸ hsent)

theorem SendsSilently.trans {n m n' : Node C} (h : SendsSilently n m) (h' : SendsSilently m n') :
    SendsSilently n n' :=
  fun sent hsent ↦ (h' sent hsent).elim (h sent) Or.inr

theorem sendsSilently_post {n : Node C} {message : Message C} (receivers : List PeerID)
    (h : message.isConsensus = true → n.status ≠ .recovering) :
    SendsSilently n (n.post message receivers) := by
  intro sent hsent
  rcases List.mem_append.mp hsent with hold | hnew
  · exact Or.inl hold
  · rw [List.mem_singleton.mp hnew]
    exact Or.inr h

section Silence

variable {lib : BaseLibrary C} {conf : NodeConf} {env : Env}

theorem sendsSilently_postReplicationRequest (request : LedgerReplicationRequest)
    (peers : List PeerID) (n : Node C) :
    SendsSilently n (Node.postReplicationRequest conf env request peers n) := by
  induction peers generalizing n with
  | nil => exact sendsSilently_of_eq rfl
  | cons peer rest ih =>
    have hpost : SendsSilently n (n.post (.replicationRequest request) [peer]) :=
      sendsSilently_post [peer] fun h ↦ by cases h
    unfold Node.postReplicationRequest
    split
    · exact ih n
    split
    · exact hpost
    · exact hpost.trans (ih _)

theorem sendsSilently_sendLedgerReplicationRequest (n : Node C) :
    SendsSilently n (n.sendLedgerReplicationRequest lib conf env) :=
  sendsSilently_postReplicationRequest _ _ n

theorem sendsSilently_startRecovery (n : Node C) :
    SendsSilently n (n.startRecovery lib conf env) := by
  unfold Node.startRecovery
  split
  · exact sendsSilently_of_eq rfl
  · exact (sendsSilently_of_eq rfl).trans (sendsSilently_sendLedgerReplicationRequest _)

theorem sendsSilently_startNewRound (n : Node C) : SendsSilently n (n.startNewRound env) :=
  sendsSilently_of_eq (n.resetProposal.deletePendingProposal_sent env)

theorem sendsSilently_sendHandshake (n : Node C) :
    SendsSilently n (n.sendHandshake lib conf env) := by
  unfold Node.sendHandshake
  split
  · exact sendsSilently_of_eq rfl
  split
  · exact sendsSilently_of_eq rfl
  · exact sendsSilently_post _ fun h ↦ by cases h

/-! ### Handlers of the consensus -/

theorem CertificateExit.sendsSilently {uc : UnicityCertificate}
    {prevLUC : Option UnicityCertificate} {wasInitializing : Bool} {m : Node C}
    {result : EStateM.Result Err (Node C) Unit}
    (h : CertificateExit lib conf env uc prevLUC wasInitializing m result) :
    SendsSilently m (final result) := by
  cases h with
  | ignored | unknown | unencodable => exact sendsSilently_of_eq rfl
  | resumed | initial | current => exact sendsSilently_startNewRound m
  | repeated => exact sendsSilently_startNewRound m.revertState
  | behind => exact sendsSilently_startRecovery m
  | unfinalized err cause proposal encoded m' hnew hsuccessor hmarshal hfinalize =>
    have hkept : m'.sent = m.sent := by cases hfinalize <;> rfl
    exact (sendsSilently_of_eq hkept).trans (sendsSilently_startRecovery m')
  | finalized proposal proposedIR encoded =>
    exact sendsSilently_startNewRound
      (m.finalized { proposal with unicityCertificate := some encoded } uc)

theorem UCExit.sendsSilently {n : Node C} {uc : UnicityCertificate} {tr : Option TechnicalRecord}
    {result : EStateM.Result Err (Node C) Unit} (h : UCExit lib conf env n uc tr result) :
    SendsSilently n (final result) := by
  cases h with
  | rejected => exact sendsSilently_of_eq rfl
  | recovering hstatus m hluc => cases hluc <;> exact sendsSilently_of_eq rfl
  | processed hstatus m haccepted result hexit => cases haccepted <;> exact hexit.sendsSilently

/-- A certification request leaves a node that is not recovering. -/
theorem RequestExit.sendsSilently {author : String} {state : Summary} {n : Node C}
    {result : EStateM.Result Err (Node C) Unit}
    (h : RequestExit lib conf env author state n result) (hstatus : n.status ≠ .recovering) :
    SendsSilently n (final result) := by
  cases h with
  | unbuilt | unstored | unsent => exact sendsSilently_of_eq rfl
  | undelivered err ir block request rootIDs =>
    exact sendsSilently_post (n := n.recorded block) rootIDs fun _ ↦ hstatus
  | sent ir block request rootIDs =>
    exact sendsSilently_post (n := n.recorded block) rootIDs fun _ ↦ hstatus

/-- A proposal leaves a node that is not recovering. -/
theorem Announced.sendsSilently {n m : Node C} {data : List UInt8}
    (hstatus : n.status ≠ .recovering) (h : Announced lib conf env n data m) :
    SendsSilently n m ∧ m.status ≠ .recovering := by
  obtain ⟨height, ltr, prop, _, _, _, rfl⟩ := h
  exact ⟨sendsSilently_post (n := n.setTx (n.transactionSystem.setPending (some data) height)) _
    fun _ ↦ hstatus, hstatus⟩

theorem TimeoutExit.sendsSilently {n : Node C} {result : EStateM.Result Err (Node C) Unit}
    (h : TimeoutExit lib conf env n result) : SendsSilently n (final result) := by
  cases h with
  | idle | abandoned => exact sendsSilently_of_eq rfl
  | unproposed data m hstatus hleader hannounced => exact (hannounced.sendsSilently hstatus).1
  | unrequested data m m' err hstatus hleader hannounced hrequest =>
    obtain ⟨hfirst, hrunning⟩ := hannounced.sendsSilently hstatus
    have hlast : SendsSilently m m' := hrequest.sendsSilently hrunning
    exact hfirst.trans hlast
  | requested data m m' hstatus hleader hannounced hrequest =>
    obtain ⟨hfirst, hrunning⟩ := hannounced.sendsSilently hstatus
    exact hfirst.trans (hrequest.sendsSilently hrunning)

theorem VoteExit.sendsSilently {prop : BlockProposal} {uc : UnicityCertificate} {n : Node C}
    {result : EStateM.Result Err (Node C) Unit} (hstatus : n.status ≠ .recovering)
    (h : VoteExit lib conf env prop uc n result) : SendsSilently n (final result) := by
  cases h with
  | refused | unverified => exact sendsSilently_of_eq rfl
  | unrequested height err cause m helectable hverified hrequest =>
    have hsilent := hrequest.sendsSilently hstatus
    exact hsilent
  | requested height m helectable hverified hrequest =>
    have hsilent := hrequest.sendsSilently hstatus
    exact hsilent

theorem ProposalExit.sendsSilently {n : Node C} {proposal : Option BlockProposal}
    {result : EStateM.Result Err (Node C) Unit}
    (h : ProposalExit lib conf env n proposal result) : SendsSilently n (final result) := by
  cases h with
  | remembered | rejected => exact sendsSilently_of_eq rfl
  | uncertified err cause prop uc m hstatus hprop huc hvalid hnewer hexit =>
    exact hexit.sendsSilently
  | certified prop uc m result hstatus hprop huc hvalid hnewer hexit hvote =>
    have hrunning : m.status ≠ .recovering := by simp [(hexit.running hstatus).1]
    have hfirst : SendsSilently n m := hexit.sendsSilently
    exact hfirst.trans (hvote.sendsSilently hrunning)
  | current prop uc result hstatus hprop huc hvalid hsame hvote =>
    exact hvote.sendsSilently hstatus

/-! ### Recovery and replication -/

theorem BlockExit.sent_eq {n : Node C} {block : Option (Block C)}
    {result : EStateM.Result Err (Node C) Unit} (h : BlockExit lib conf env n block result) :
    (final result).sent = n.sent :=
  h.preserves lib conf Node.sent (fun _ _ _ _ ↦ rfl) (fun _ ↦ rfl) fun _ _ _ _ ↦ rfl

theorem handleBlocks_sent {envs : ℕ → Env} {blocks : List (Option (Block C))} {i : ℕ} {n : Node C}
    {result : EStateM.Result Err (Node C) Unit} (hstatus : n.status = .recovering)
    (hrun : (handleBlocks lib conf envs i blocks).run n = result) :
    (final result).sent = n.sent := by
  induction blocks generalizing i n with
  | nil =>
    rw [← hrun]
    rfl
  | cons block rest ih =>
    have hexit := handleBlock_spec lib conf (envs i) n block hstatus
    have hkept := hexit.status_eq
    simp only [handleBlocks, EStateM.run_bind] at hrun
    split at hrun
    next _ m hblock =>
      rw [hblock] at hexit hkept
      exact (ih (hkept.trans hstatus) hrun).trans hexit.sent_eq
    next err m hblock =>
      rw [hblock] at hexit
      rw [← hrun]
      exact hexit.sent_eq

theorem FinishExit.sendsSilently {nextEnv : Env} {n : Node C}
    {result : EStateM.Result Err (Node C) Unit} (h : FinishExit lib conf env nextEnv n result) :
    SendsSilently n (final result) := by
  have hfresh : SendsSilently n (n.stopRecovery.startNewRound env) :=
    sendsSilently_startNewRound n.stopRecovery
  cases h with
  | fresh => exact hfresh
  | tried result h => exact hfresh.trans h.sendsSilently

theorem ResponseExit.sendsSilently {envs : ℕ → Env} {n : Node C}
    {blocks : List (Option (Block C))} {result : EStateM.Result Err (Node C) Unit}
    (h : ResponseExit lib conf envs n blocks result) : SendsSilently n (final result) := by
  cases h with
  | refused | unneeded | stopped => exact sendsSilently_of_eq rfl
  | failed err m hstatus hrun =>
    exact sendsSilently_of_eq (handleBlocks_sent hstatus hrun)
  | continued m hstatus hrun =>
    exact (sendsSilently_of_eq (handleBlocks_sent hstatus hrun)).trans
      (sendsSilently_sendLedgerReplicationRequest m)
  | finished m hstatus hrun hcomplete result hfinish =>
    exact (sendsSilently_of_eq (handleBlocks_sent hstatus hrun)).trans hfinish.sendsSilently

theorem sendsSilently_sendResponse (msg : LedgerReplicationResponse C) (toId : String)
    (n : Node C) :
    SendsSilently n (final ((sendLedgerReplicationResponse lib env msg toId).run n)) := by
  unfold sendLedgerReplicationResponse
  cases lib.decodePeerID toId with
  | error err => exact sendsSilently_of_eq rfl
  | ok id =>
    have hpost : SendsSilently n (n.post (.replicationResponse msg) [id]) :=
      sendsSilently_post _ fun h ↦ by cases h
    cases env.sendResponse <;> exact hpost

theorem sendsSilently_replicationRequest (request : Option LedgerReplicationRequest) (n : Node C) :
    SendsSilently n (final ((handleLedgerReplicationRequest lib conf env request).run n)) := by
  unfold handleLedgerReplicationRequest
  cases LedgerReplicationRequest.isValid request with
  | error err => exact sendsSilently_of_eq rfl
  | ok _ =>
    simp only [EStateM.run_bind, run_ofExcept, EStateM.run_get]
    split
    · exact sendsSilently_sendResponse _ _ n
    split
    · exact sendsSilently_sendResponse _ _ n
    split
    · exact sendsSilently_sendResponse _ _ n
    split
    · exact sendsSilently_of_eq rfl
    · exact sendsSilently_sendResponse _ _ n

theorem sendsSilently_replicationWorker (n : Node C) :
    SendsSilently n (final ((replicationWorker lib conf env).run n)) := by
  have hexit := replicationWorker_spec lib conf env n
  generalize final ((replicationWorker lib conf env).run n) = after at hexit
  cases hexit with
  | idle => exact sendsSilently_of_eq rfl
  | panicked => exact sendsSilently_of_eq rfl
  | answered lr rest msg =>
    exact sendsSilently_sendResponse msg lr.nodeID { n with replicationCh := rest }

theorem sendsSilently_monitoring (ucOverdue replicationOverdue : Bool) (n : Node C) :
    SendsSilently n
      (final ((handleMonitoring lib conf env ucOverdue replicationOverdue).run n)) := by
  apply handleMonitoring_rel (R := SendsSilently)
  · exact fun _ ↦ sendsSilently_of_eq rfl
  · exact SendsSilently.trans
  · exact sendsSilently_sendHandshake
  · exact sendsSilently_sendLedgerReplicationRequest

theorem takeEpochChange_sent (n : Node C) :
    (final ((takeEpochChange conf).run n)).sent = n.sent := by
  unfold takeEpochChange handleEpochChangeEvent
  simp only [EStateM.run_bind, EStateM.run_get, run_onlyIf]
  split
  · simp only [EStateM.run_modify]
    cases conf.shardConfByEpoch _ with
    | error err => rfl
    | ok shardConf =>
      simp only [EStateM.run_bind, EStateM.run_modify, run_tryCatch, onTx, run_zoom]
      cases (FGPTxSystem.updateConfig shardConf).run _ <;> rfl
  · rfl

theorem sendsSilently_certificationResponse (response : Option CertificationResponse)
    (n : Node C) :
    SendsSilently n (final ((handleCertificationResponse lib conf env response).run n)) := by
  let Silently (result : EStateM.Result Err (Node C) Unit) : Prop := SendsSilently n (final result)
  suffices hsilent : Silently ((handleCertificationResponse lib conf env response).run n) from
    hsilent
  refine exec_get (exec_ofExcept (fun _ _ ↦ sendsSilently_of_eq rfl) fun _ _ ↦ ?_)
  refine exec_ensure (fun _ ↦ sendsSilently_of_eq rfl) fun _ ↦ ?_
  exact (handleUnicityCertificate_spec lib conf env n _ _).sendsSilently

theorem step_sendsSilently (n : Node C) (input : Input C) :
    SendsSilently n (step lib conf n input) := by
  obtain ⟨event, envs⟩ := input
  cases event with
  | certificationResponse response => exact sendsSilently_certificationResponse response n
  | blockProposal proposal =>
    exact (handleBlockProposal_spec lib conf (envs 0) n proposal).sendsSilently
  | ledgerReplicationRequest request => exact sendsSilently_replicationRequest request n
  | ledgerReplicationResponse response =>
    exact (handleLedgerReplicationResponse_spec lib conf envs n response).sendsSilently
  | t1Timeout => exact (handleT1TimeoutEvent_spec lib conf (envs 0) n).sendsSilently
  | epochChange => exact sendsSilently_of_eq (takeEpochChange_sent n)
  | monitoring ucOverdue replicationOverdue =>
    exact sendsSilently_monitoring ucOverdue replicationOverdue n
  | replicationWorker => exact sendsSilently_replicationWorker n

theorem runNode_sendsSilently (start : Node C) (inputs : List (Input C)) :
    SendsSilently start (runNode lib conf start inputs) := by
  refine Run.invariant_run_of_forall (fun n input hinv ↦ ?_) inputs (sendsSilently_of_eq rfl)
  exact hinv.trans (step_sendsSilently n input)

end Silence

/-- Along every run a recovering node has nothing pending, so that the summary of its state is there
for the next block, and no proposal and no certification request is sent by a recovering node. -/
theorem recovering_clean_and_silent {lib : BaseLibrary C} {conf : NodeConf} {store : BlockStore C}
    {start : Node C} (hstart : Starts lib conf store start) (inputs : List (Input C)) :
    ((runNode lib conf start inputs).status = .recovering →
      (runNode lib conf start inputs).pendingBlockProposal = none ∧
      (runNode lib conf start inputs).transactionSystem.pendingStateHash = none ∧
      ∃ summary, (runNode lib conf start inputs).transactionSystem.stateSummary = .ok summary) ∧
    ∀ sent ∈ (runNode lib conf start inputs).sent, sent.message.isConsensus = true →
      sent.sender.status ≠ .recovering := by
  have hstarted := started_of_starts lib conf hstart
  have hadmits : Run.Guarded (step lib conf) (Guard.none.Admits lib conf) start inputs :=
    Run.guarded_of_forall (fun n input ↦ Guard.none_admits lib conf n input) start inputs
  have hinitial : start.status ≠ .recovering := by simp [hstarted.status]
  constructor
  · intro hstatus
    have hidle : Idle (runNode lib conf start inputs) :=
      invariant_runNode (Guard.none_sound lib) (fun hinv hsegment ↦ hinv.segment hsegment)
        (fun h ↦ absurd h hinitial) hadmits
    have hclean : Clean (runNode lib conf start inputs) :=
      invariant_runNode (Guard.none_sound lib) (fun hinv hsegment ↦ hinv.segment hsegment)
        (fun h ↦ absurd h hinitial) hadmits
    exact ⟨hidle hstatus, hclean hstatus, _,
      FGPTxSystem.stateSummary_ok_iff.mpr ⟨hclean hstatus, rfl⟩⟩
  · intro sent hsent
    rcases runNode_sendsSilently start inputs sent hsent with hold | hsilent
    · rw [hstarted.sent] at hold
      cases hold
    · exact hsilent

section Reference

open Reference

/-- The node `B`, which is recovering after it has missed a proposal. -/
theorem recovering_clean_and_silent_lagging :
    lagging.status = .recovering ∧ lagging.pendingBlockProposal = none ∧
      lagging.transactionSystem.pendingStateHash = none ∧ lagging.sent ≠ [] ∧
      ∀ sent ∈ lagging.sent, sent.message.isConsensus = true →
        sent.sender.status ≠ .recovering := by
  obtain ⟨hclean, hsilent⟩ := recovering_clean_and_silent (starts_finalized "B" [2])
    [deliver proposedRecord 6 (technical 3 "A"), deliver nextRecord 7 (technical 4 "A")]
  have hrecovering : lagging.status = .recovering := rfl
  obtain ⟨hproposal, hstate, _⟩ := hclean hrecovering
  exact ⟨hrecovering, hproposal, hstate, by decide, hsilent⟩

end Reference

end FinalityGadget
