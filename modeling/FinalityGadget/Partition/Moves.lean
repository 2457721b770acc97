import FinalityGadget.Partition.Batch
import FinalityGadget.TxSystem.Calls

/-!
# What a turn changes

A turn is a sequence of moves: ordinary segments, in which a recovering node writes only blocks that
it has checked, and changes of the epoch. Three things outlast a turn: the transaction system, the
block store and the pending proposal. The transaction system changes by calls of its operations
only, each entry of the store is written for a reason that can be read off the state before the
move, and a new pending proposal is one the node has just built.
-/

namespace FinalityGadget

open Bytes Fallible Relation

variable {C : Type}

/-- A root that a node proposes or votes for: the candidate of a leader, or what a follower has
verified. -/
inductive Chosen (admitted : Env → Prop) (s : FGPTxSystem) : Slice → UInt64 → Prop where
  | candidate {env : Env} {data : List UInt8} {height : UInt64} (henv : admitted env)
      (h : s.Candidate env.pow data height) : Chosen admitted s (some data) height
  | verified {env : Env} {root : Slice} {height : UInt64} (henv : admitted env)
      (h : FGPTxSystem.Verified env.pow s root height) : Chosen admitted s root height

/-- A recovering node writes only blocks that are valid. -/
def Checked (lib : BaseLibrary C) (n n' : Node C) : Prop :=
  n.status = .recovering → ∀ ops, n'.storeLog = n.storeLog ++ ops → ∀ round block,
    .writeBlock round block ∈ ops → lib.blockIsValid block none = .ok ()

/-- A part of a turn that meets admitted surroundings. -/
inductive Move (lib : BaseLibrary C) (conf : NodeConf) (admitted : Env → Prop) (n n' : Node C) :
    Prop where
  | ordinary (h : Ordinary lib conf (Guard.ofEnv admitted) n n') (hchecked : Checked lib n n')
  | epoch (h : EpochExit conf n n')

/-- A sequence of such parts. -/
abbrev Moves (lib : BaseLibrary C) (conf : NodeConf) (admitted : Env → Prop) :
    Node C → Node C → Prop :=
  ReflTransGen (Move lib conf admitted)

section Checks

variable {lib : BaseLibrary C} {conf : NodeConf} {env : Env} {n n' : Node C}

theorem checked_of_running (h : n.status ≠ .recovering) : Checked lib n n' :=
  fun hstatus ↦ absurd hstatus h

theorem checked_of_storeLog_eq (h : n'.storeLog = n.storeLog) : Checked lib n n' := by
  intro _ ops hops round block hmem
  rw [h, List.self_eq_append_right] at hops
  rw [hops] at hmem
  cases hmem

theorem checked_finish (n : Node C) (env : Env) :
    Checked lib n (n.stopRecovery.startNewRound env) := by
  intro _ ops hops round block hmem
  obtain ⟨performed, hperforms, hforget⟩ := startNewRound_performs n.stopRecovery env
  have hlog : n.storeLog ++ ops = n.storeLog ++ performed := hops.symm.trans hperforms.storeLog
  rw [List.append_cancel_left_eq] at hlog
  rw [hlog] at hmem
  cases hforget _ hmem

theorem TimeoutExit.checked {result : EStateM.Result Err (Node C) Unit}
    (h : TimeoutExit lib conf env n result) : Checked lib n (final result) := by
  cases h with
  | idle => exact checked_of_storeLog_eq rfl
  | abandoned hstatus | unproposed data m hstatus | unrequested data m m' err hstatus
  | requested data m m' hstatus => exact checked_of_running hstatus

/-- A block that is handled successfully is valid. -/
theorem blockIsValid_of_handleBlock {block : Block C}
    (hrun : (handleBlock lib conf env (some block)).run n = .ok () n') :
    lib.blockIsValid block none = .ok () := by
  let Done (result : EStateM.Result Err (Node C) Unit) : Prop :=
    ∀ m, result = .ok () m → lib.blockIsValid block none = .ok ()
  suffices hdone : Done ((handleBlock lib conf env (some block)).run n) from hdone n' hrun
  refine exec_get (exec_ofExcept (fun _ _ _ h ↦ by cases h) fun uc _ ↦ ?_)
  exact exec_ofExcept (fun _ _ _ h ↦ by cases h) fun _ hvalid _ _ ↦ hvalid

theorem checked_handleBlock (hstatus : n.status = .recovering) (block : Option (Block C)) :
    Checked lib n (final ((handleBlock lib conf env block).run n)) := by
  have hexit := handleBlock_spec lib conf env n block hstatus
  have hvalid : ∀ b m, block = some b → (handleBlock lib conf env block).run n = .ok () m →
      lib.blockIsValid b none = .ok () := by
    rintro b m rfl hrun
    exact blockIsValid_of_handleBlock hrun
  generalize (handleBlock lib conf env block).run n = result at hexit hvalid
  cases hexit with
  | rejected => exact checked_of_storeLog_eq rfl
  | refused err uc m hluc | reverted err uc m hluc | skipped uc m hluc =>
    cases hluc <;> exact checked_of_storeLog_eq rfl
  | applied b uc m height hblock huc hluc =>
    intro _ ops hops round block' hmem
    have hlog : m.storeLog = n.storeLog := by cases hluc <;> rfl
    have hwritten : n.storeLog ++ [.writeBlock (getRoundNumber (some uc)) b] =
        n.storeLog ++ ops := by
      rw [← hops, ← hlog]
      rfl
    rw [List.append_cancel_left_eq] at hwritten
    rw [← hwritten, List.mem_singleton] at hmem
    cases hmem
    exact hvalid b _ hblock rfl

end Checks

section Turns

variable {lib : BaseLibrary C} {conf : NodeConf} {admitted : Env → Prop} {env : Env} {n : Node C}
  {result : EStateM.Result Err (Node C) Unit}

/-- Handlers that need nothing from the surroundings write nothing. -/
theorem moves_of_idle {n' : Node C}
    (h : ReflTransGen (Ordinary lib conf (Guard.ofEnv fun _ ↦ False)) n n') :
    Moves lib conf admitted n n' := by
  refine ReflTransGen.mono (fun m m' hidle ↦ ?_) _ _ h
  obtain ⟨hsegment, hkept⟩ := hidle
  cases hsegment with
  | quiet hquiet => exact .ordinary ⟨.quiet hquiet, hkept⟩ (checked_of_storeLog_eq hquiet.storeLog)
  | adopt hstatus htr hluc =>
    refine .ordinary ⟨.adopt hstatus htr hluc, hkept⟩ (checked_of_storeLog_eq ?_)
    cases hluc <;> rfl
  | stop hstatus hcomplete =>
    exact .ordinary ⟨.stop hstatus hcomplete, hkept⟩ (checked_of_storeLog_eq rfl)
  | certificate henv | timeout henv | vote henv | block henv | finish henv => cases henv

theorem UCExit.moves {uc : UnicityCertificate} {tr : TechnicalRecord} (henv : admitted env)
    (htr : Technical lib uc (some tr)) (h : UCExit lib conf env n uc (some tr) result) :
    Moves lib conf admitted n (final result) := by
  cases h with
  | rejected => exact .refl
  | recovering hstatus m hluc => exact moves_of_idle (.single (.adopt hstatus htr hluc))
  | processed hstatus m haccepted _ hexit =>
    exact .single (.ordinary (.certificate henv hstatus trivial htr haccepted hexit)
      (checked_of_running hstatus))

theorem ProposalExit.moves {proposal : Option BlockProposal} (henv : admitted env)
    (h : ProposalExit lib conf env n proposal result) :
    Moves lib conf admitted n (final result) := by
  cases h with
  | remembered err hstatus =>
    exact moves_of_idle (.single (.of_state ⟨_, proposal, rfl⟩ rfl rfl))
  | rejected err => exact .refl
  | uncertified err cause prop uc m hstatus hprop huc hvalid hnewer hexit =>
    have hfirst : Moves lib conf admitted n m := hexit.moves henv (hvalid.technical huc)
    exact hfirst
  | certified prop uc m result hstatus hprop huc hvalid hnewer hexit hvote =>
    have hfirst : Moves lib conf admitted n m := hexit.moves henv (hvalid.technical huc)
    have hrunning : m.status ≠ .recovering := by simp [(hexit.running hstatus).1]
    exact hfirst.tail (.ordinary
      (.vote henv hrunning trivial hvote (hvalid.congr hexit.shardConf_eq) trivial)
      (checked_of_running hrunning))
  | current prop uc result hstatus hprop huc hvalid hsame hvote =>
    exact .single (.ordinary (.vote henv hstatus trivial hvote hvalid trivial)
      (checked_of_running hstatus))

theorem moves_handleBlocks {envs : ℕ → Env} (henv : ∀ i, admitted (envs i))
    (blocks : List (Option (Block C))) (i : ℕ) (hstatus : n.status = .recovering) :
    Moves lib conf admitted n (final ((handleBlocks lib conf envs i blocks).run n)) ∧
      (final ((handleBlocks lib conf envs i blocks).run n)).status = .recovering := by
  induction blocks generalizing i n with
  | nil => exact ⟨.refl, hstatus⟩
  | cons block rest ih =>
    have hblock := handleBlock_spec lib conf (envs i) n block hstatus
    have hmove : Move lib conf admitted n
        (final ((handleBlock lib conf (envs i) block).run n)) :=
      .ordinary ⟨.block (henv i) hstatus hblock, hblock.keepsEpoch⟩
        (checked_handleBlock hstatus block)
    have hkept := hblock.status_eq
    simp only [handleBlocks, EStateM.run_bind]
    cases hrun : (handleBlock lib conf (envs i) block).run n with
    | error err m =>
      rw [hrun] at hmove hkept
      exact ⟨.single hmove, hkept.trans hstatus⟩
    | ok _ m =>
      rw [hrun] at hmove hkept
      obtain ⟨hrest, hfinal⟩ := ih (i + 1) (hkept.trans hstatus)
      exact ⟨.head hmove hrest, hfinal⟩

theorem FinishExit.moves {nextEnv : Env} (henv : admitted env) (hnext : admitted nextEnv)
    (hstatus : n.status = .recovering) (hcomplete : n.isRecoveryComplete = true)
    (h : FinishExit lib conf env nextEnv n result) : Moves lib conf admitted n (final result) := by
  have hfirst : Move lib conf admitted n (n.stopRecovery.startNewRound env) :=
    .ordinary (.finish henv hstatus hcomplete) (checked_finish n env)
  cases h with
  | fresh => exact .single hfirst
  | tried result hproposal =>
    exact (ReflTransGen.head hfirst (hproposal.moves hnext)).trans
      (moves_of_idle (.single (ordinary_resetLastProp _)))

theorem ResponseExit.moves {envs : ℕ → Env} {blocks : List (Option (Block C))}
    (henv : ∀ i, admitted (envs i)) (h : ResponseExit lib conf envs n blocks result) :
    Moves lib conf admitted n (final result) := by
  have hblocks : n.status = .recovering → Moves lib conf admitted n
        (final ((handleBlocks lib conf envs 0 blocks).run n)) ∧
      (final ((handleBlocks lib conf envs 0 blocks).run n)).status = .recovering :=
    moves_handleBlocks henv blocks 0
  cases h with
  | refused | unneeded => exact .refl
  | stopped err hstatus hcomplete =>
    exact moves_of_idle (.single ⟨.stop hstatus hcomplete, .of_eq rfl⟩)
  | failed err m hstatus hrun =>
    have hmoves := (hblocks hstatus).1
    rw [hrun] at hmoves
    exact hmoves
  | continued m hstatus hrun =>
    have hmoves := (hblocks hstatus).1
    rw [hrun] at hmoves
    exact hmoves.trans (moves_of_idle (.single (ordinary_sendLedgerReplicationRequest m _)))
  | finished m hstatus hrun hcomplete result hfinish =>
    obtain ⟨hmoves, hrecovering⟩ := hblocks hstatus
    rw [hrun] at hmoves hrecovering
    exact hmoves.trans (hfinish.moves (henv _) (henv _) hrecovering hcomplete)

theorem moves_certificationResponse (henv : admitted env)
    (response : Option CertificationResponse) :
    Moves lib conf admitted n
      (final ((handleCertificationResponse lib conf env response).run n)) := by
  let Ends (result : EStateM.Result Err (Node C) Unit) : Prop :=
    Moves lib conf admitted n (final result)
  suffices hends : Ends ((handleCertificationResponse lib conf env response).run n) from hends
  refine exec_get (exec_ofExcept (fun _ _ ↦ .refl) fun _ hvalid ↦ ?_)
  cases response with
  | none => simp [CertificationResponse.isValid] at hvalid
  | some cr =>
    have htr : Technical lib cr.uc (some cr.technical) := by
      rintro _ ⟨⟩
      exact CertificationResponse.technical_of_isValid lib hvalid
    dsimp only [Option.getD_some]
    refine exec_ensure (fun _ ↦ .refl) fun _ ↦ ?_
    exact (handleUnicityCertificate_spec lib conf env n cr.uc (some cr.technical)).moves henv htr

/-- A turn is a sequence of moves. -/
theorem step_moves {input : Input C} (henv : ∀ i, admitted (input.envs i)) :
    Moves lib conf admitted n (step lib conf n input) := by
  obtain ⟨event, envs⟩ := input
  cases event with
  | certificationResponse response => exact moves_certificationResponse (henv 0) response
  | blockProposal proposal =>
    exact (handleBlockProposal_spec lib conf (envs 0) n proposal).moves (henv 0)
  | ledgerReplicationRequest request =>
    exact moves_of_idle (segments_replicationRequest (envs 0) request n)
  | ledgerReplicationResponse response =>
    exact (handleLedgerReplicationResponse_spec lib conf envs n response).moves henv
  | t1Timeout =>
    have hexit := handleT1TimeoutEvent_spec lib conf (envs 0) n
    exact .single (.ordinary ⟨.timeout (henv 0) trivial hexit, .of_eq hexit.epochState_eq⟩
      hexit.checked)
  | epochChange => exact .single (.epoch (takeEpochChange_spec conf n))
  | monitoring ucOverdue replicationOverdue =>
    exact moves_of_idle (segments_monitoring (envs 0) ucOverdue replicationOverdue n)
  | replicationWorker => exact moves_of_idle (segments_replicationWorker (envs 0) n)

/-- A run is a sequence of moves. -/
theorem runNode_moves {n : Node C} {inputs : List (Input C)}
    (henvs : ∀ input ∈ inputs, ∀ i, admitted (input.envs i)) :
    Moves lib conf admitted n (runNode lib conf n inputs) := by
  induction inputs generalizing n with
  | nil => exact .refl
  | cons input rest ih =>
    have hfirst : Moves lib conf admitted n (step lib conf n input) :=
      step_moves (henvs input List.mem_cons_self)
    exact hfirst.trans (ih fun later hlater ↦ henvs later (List.mem_cons_of_mem input hlater))

/-- What every move keeps is kept by every run. -/
theorem invariant_moves {invariant : Node C → Prop}
    (hmove : ∀ {n n'}, invariant n → Move lib conf admitted n n' → invariant n') {n : Node C}
    {inputs : List (Input C)} (hinit : invariant n)
    (henvs : ∀ input ∈ inputs, ∀ i, admitted (input.envs i)) :
    invariant (runNode lib conf n inputs) := by
  have hmoves : Moves lib conf admitted n (runNode lib conf n inputs) :=
    runNode_moves henvs
  generalize runNode lib conf n inputs = n' at hmoves
  induction hmoves with
  | refl => exact hinit
  | tail _ hlast ih => exact hmove ih hlast

theorem Move.segment {n' : Node C} (h : Move lib conf admitted n n') :
    Segment lib conf (Guard.ofEnv admitted) n n' := by
  cases h with
  | ordinary h => exact h.1
  | epoch h => exact .quiet h.quiet

theorem Move.checked {n' : Node C} (h : Move lib conf admitted n n') : Checked lib n n' := by
  cases h with
  | ordinary _ hchecked => exact hchecked
  | epoch h => exact checked_of_storeLog_eq h.quiet.storeLog

end Turns

/-! ## The transaction system -/

/-- A call that a running node makes: the client answers as admitted, configurations are loaded
from the store of configurations, and nothing is restored. -/
def TxCall.Available (conf : NodeConf) (admitted : Env → Prop) : TxCall → Prop
  | .leaderPropose pow _ | .followerVerify pow _ _ => ∃ env, admitted env ∧ env.pow = pow
  | .restoreState _ _ => False
  | .updateConfig shardConf => conf.Loads shardConf
  | .stateSummary | .revert | .commit _ => True

/-- One call of a node on its transaction system. -/
def TxStep (conf : NodeConf) (admitted : Env → Prop) (s s' : FGPTxSystem) : Prop :=
  ∃ call : TxCall, call.Available conf admitted ∧ call.apply s = s'

/-- A sequence of such calls. -/
abbrev TxSteps (conf : NodeConf) (admitted : Env → Prop) : FGPTxSystem → FGPTxSystem → Prop :=
  ReflTransGen (TxStep conf admitted)

section Calls

variable {conf : NodeConf} {admitted : Env → Prop} {s s' : FGPTxSystem}

theorem TxStep.of_returns (call : TxCall) {value : Option Summary}
    (havailable : call.Available conf admitted) (h : call.Returns s value s') :
    TxStep conf admitted s s' := by
  refine ⟨call, havailable, ?_⟩
  rw [TxCall.apply, TxCall.exec_of_returns h, final_ok]

theorem txStep_revert (s : FGPTxSystem) : TxStep conf admitted s s.revert :=
  ⟨.revert, trivial, rfl⟩

theorem Chosen.txStep {root : Slice} {height : UInt64} (h : Chosen admitted s root height) :
    TxStep conf admitted s (s.setPending root height) := by
  cases h with
  | @candidate env data _ henv hcandidate =>
    exact .of_returns (.leaderPropose env.pow 0) ⟨env, henv, rfl⟩ (.proposed 0 hcandidate)
  | @verified env _ _ henv hverified =>
    exact .of_returns (.followerVerify env.pow 0 root) ⟨env, henv, rfl⟩
      (.verified 0 hverified)

theorem txStep_committed {uc : UnicityCertificate}
    (h : s.pendingStateHash.bytes = (getStateHash (some uc)).bytes) :
    TxStep conf admitted s (s.committed uc) :=
  .of_returns (.commit (some uc)) trivial (.committed h)

/-- What every call keeps is kept by every sequence of calls. -/
theorem TxSteps.invariant {P : FGPTxSystem → Prop}
    (hcall : ∀ {s call}, P s → TxCall.Available conf admitted call → P (call.apply s))
    (h : TxSteps conf admitted s s') (hinit : P s) : P s' := by
  induction h with
  | refl => exact hinit
  | tail _ hlast ih =>
    obtain ⟨call, havailable, rfl⟩ := hlast
    exact hcall ih havailable

end Calls

section TransactionSystem

variable {lib : BaseLibrary C} {conf : NodeConf} {admitted : Env → Prop} {env : Env} {n : Node C}
  {result : EStateM.Result Err (Node C) Unit}

/-- A request leaves the transaction system alone or reverts it. -/
theorem RequestExit.tx_cases {author : String} {state : Summary}
    (h : RequestExit lib conf env author state n result) :
    (final result).transactionSystem = n.transactionSystem ∨
      (final result).transactionSystem = n.transactionSystem.revert := by
  cases h with
  | unbuilt | unsent | undelivered | sent => exact Or.inl rfl
  | unstored => exact Or.inr rfl

theorem RequestExit.txSteps {author : String} {state : Summary}
    (h : RequestExit lib conf env author state n result) :
    TxSteps conf admitted n.transactionSystem (final result).transactionSystem := by
  rcases h.tx_cases with hkept | hreverted
  · rw [hkept]
  · rw [hreverted]
    exact .single (txStep_revert _)

theorem TimeoutExit.txSteps (henv : admitted env) (h : TimeoutExit lib conf env n result) :
    TxSteps conf admitted n.transactionSystem (final result).transactionSystem := by
  have hannounce : ∀ {data m}, Announced lib conf env n data m →
      TxSteps conf admitted n.transactionSystem m.transactionSystem := by
    rintro data m ⟨height, _, _, hcandidate, _, _, rfl⟩
    exact .single (Chosen.txStep (.candidate henv hcandidate))
  cases h with
  | idle => exact .refl
  | abandoned => exact .single (txStep_revert _)
  | unproposed data m _ _ hannounced => exact (hannounce hannounced).tail (txStep_revert _)
  | unrequested data m m' err _ _ hannounced hrequest =>
    have hrequested : TxSteps conf admitted m.transactionSystem m'.transactionSystem :=
      hrequest.txSteps
    exact ((hannounce hannounced).trans hrequested).tail (txStep_revert _)
  | requested data m m' _ _ hannounced hrequest =>
    exact (hannounce hannounced).trans hrequest.txSteps

theorem VoteExit.txSteps {prop : BlockProposal} {uc : UnicityCertificate} (henv : admitted env)
    (h : VoteExit lib conf env prop uc n result) :
    TxSteps conf admitted n.transactionSystem (final result).transactionSystem := by
  cases h with
  | refused => exact .refl
  | unverified => exact .single (txStep_revert _)
  | unrequested height err cause m helectable hverified hrequest =>
    have hchosen : TxStep conf admitted n.transactionSystem
        (n.transactionSystem.setPending prop.proposedRoot height) :=
      Chosen.txStep (.verified henv hverified)
    exact .head hchosen hrequest.txSteps
  | requested height m helectable hverified hrequest =>
    have hchosen : TxStep conf admitted n.transactionSystem
        (n.transactionSystem.setPending prop.proposedRoot height) :=
      Chosen.txStep (.verified henv hverified)
    exact .head hchosen hrequest.txSteps

theorem startNewRound_txSteps (n : Node C) :
    TxSteps conf admitted n.transactionSystem (n.startNewRound env).transactionSystem := by
  rw [Node.startNewRound_transactionSystem]

theorem startRecovery_txSteps (n : Node C) (h : n.status ≠ .recovering) :
    TxSteps conf admitted n.transactionSystem
      (n.startRecovery lib conf env).transactionSystem := by
  rw [n.startRecovery_transactionSystem lib conf env h]
  exact .single (txStep_revert _)

theorem CertificateExit.txSteps {uc : UnicityCertificate} {prevLUC : Option UnicityCertificate}
    {wasInitializing : Bool} (hnormal : n.status = .normal)
    (h : CertificateExit lib conf env uc prevLUC wasInitializing n result) :
    TxSteps conf admitted n.transactionSystem (final result).transactionSystem := by
  have hrunning : n.status ≠ .recovering := by simp [hnormal]
  cases h with
  | ignored | unknown | unencodable => exact .refl
  | resumed | initial | current => exact startNewRound_txSteps n
  | repeated => exact .head (txStep_revert _) (startNewRound_txSteps n.revertState)
  | behind => exact startRecovery_txSteps n hrunning
  | unfinalized err cause proposal encoded m' hnew hsuccessor hmarshal hfinalize =>
    have hstatus : m'.status ≠ .recovering := hfinalize.status_eq ▸ hrunning
    have htx : m'.transactionSystem = n.transactionSystem := by cases hfinalize <;> rfl
    rw [← htx]
    exact startRecovery_txSteps m' hstatus
  | finalized proposal proposedIR encoded hnew hpending hsuccessor hrecord hequal hmarshal hwrite
      hcommit =>
    have hcommitted : TxStep conf admitted n.transactionSystem
        (n.transactionSystem.committed uc) := txStep_committed hcommit
    exact .head hcommitted (startNewRound_txSteps (n.finalized _ uc))

theorem LUCExit.transactionSystem_eq {m : Node C} {uc : UnicityCertificate}
    {tr : Option TechnicalRecord} (h : LUCExit lib conf n uc tr (.ok () m)) :
    m.transactionSystem = n.transactionSystem :=
  h.preserves lib conf (fun m ↦ m.transactionSystem) fun _ _ _ _ ↦ rfl

theorem Accepted.transactionSystem_eq {m : Node C} {uc : UnicityCertificate}
    {tr : Option TechnicalRecord} (h : Accepted lib conf n uc tr m) :
    m.transactionSystem = n.transactionSystem := by
  cases h <;> rfl

theorem BlockExit.txSteps {block : Option (Block C)} (henv : admitted env)
    (h : BlockExit lib conf env n block result) :
    TxSteps conf admitted n.transactionSystem (final result).transactionSystem := by
  cases h with
  | rejected => exact .refl
  | refused err uc m hluc | skipped uc m hluc => exact hluc.transactionSystem_eq ▸ .refl
  | reverted err uc m hluc => exact hluc.transactionSystem_eq ▸ .single (txStep_revert _)
  | applied b uc m height hblock huc hluc happlicable hwrite =>
    rw [← hluc.transactionSystem_eq]
    have hverified : TxStep conf admitted m.transactionSystem
        (m.transactionSystem.setPending (getStateHash (some uc)) height) :=
      Chosen.txStep (.verified henv happlicable.verified)
    exact .head hverified (.single (txStep_committed rfl))

/-- Outside an epoch change, nothing quiet happens to the transaction system. -/
theorem Quiet.transactionSystem_eq {n' : Node C} (h : Quiet conf n n') (hkept : KeepsEpoch n n') :
    n'.transactionSystem = n.transactionSystem := by
  have hconfiguration := hkept.configuration
  simp only [NodeState.configuration, Prod.mk.injEq] at hconfiguration
  obtain ⟨_, hshardConf, hdFG⟩ := hconfiguration
  rw [← h.transactionSystem, ← hshardConf, ← hdFG]

/-- The transaction system of a node changes by calls only. -/
theorem Move.txSteps {n' : Node C} (h : Move lib conf admitted n n') :
    TxSteps conf admitted n.transactionSystem n'.transactionSystem := by
  cases h with
  | epoch h =>
    cases h with
    | idle | missing | rejected => exact .refl
    | applied shardConf dFG hslot hload hparse =>
      exact .single (.of_returns (.updateConfig shardConf) ⟨_, hload⟩ (.configured hparse))
  | ordinary h =>
    obtain ⟨hsegment, hkept⟩ := h
    cases hsegment with
    | quiet hquiet => rw [hquiet.transactionSystem_eq hkept]
    | adopt hstatus htr hluc => rw [hluc.transactionSystem_eq]
    | certificate henv hstatus hguard htr haccepted hexit =>
      have htx := haccepted.transactionSystem_eq
      rw [← htx]
      exact CertificateExit.txSteps (n := Node.setStatus _ .normal) rfl hexit
    | timeout henv hguard hexit => exact hexit.txSteps henv
    | vote henv hstatus hguard hvote => exact hvote.txSteps henv
    | block henv hstatus hexit => exact hexit.txSteps henv
    | finish henv hstatus hcomplete => exact startNewRound_txSteps n.stopRecovery
    | stop hstatus hcomplete => exact .refl

end TransactionSystem

/-! ## The block store -/

/-- Why a node mutates its store, in the state before the move. -/
inductive Writes (lib : BaseLibrary C) (conf : NodeConf) (admitted : Env → Prop) (n : Node C) :
    StoreOp C → Prop where
  | finalize {proposal : Block C} {ir : InputRecord} {uc : UnicityCertificate} {encoded : C}
      (hpending : n.pendingBlockProposal = some proposal)
      (hrecord : lib.blockInputRecord proposal = .ok ir)
      (hequal : lib.assertEqualIR (some ir) uc.inputRecord = .ok ())
      (hmarshal : lib.marshal uc = .ok encoded)
      (hsuccessor : lib.isSuccessor uc n.committedUC = true)
      (hvalid : Validated lib conf n.shardConf uc) :
      Writes lib conf admitted n (.writeBlock (getRoundNumber (some uc))
        { proposal with unicityCertificate := some encoded })
  | undo {uc : UnicityCertificate} (hsuccessor : lib.isSuccessor uc n.committedUC = true) :
      Writes lib conf admitted n (.deleteBlock (getRoundNumber (some uc)))
  | replay {env : Env} {block : Block C} {uc : UnicityCertificate} {height : UInt64}
      (henv : admitted env) (huc : getUCv1 lib (some block) = .ok uc)
      (hsuccessor : lib.isSuccessor uc n.committedUC = true)
      (hverified : FGPTxSystem.Verified env.pow n.transactionSystem (getStateHash (some uc)) height)
      (hvalid : Validated lib conf n.shardConf uc) (hblock : lib.blockIsValid block none = .ok ()) :
      Writes lib conf admitted n (.writeBlock (getRoundNumber (some uc)) block)
  | propose {author : String} {root : Slice} {height : UInt64} {ir : InputRecord} {block : Block C}
      (hchosen : Chosen admitted n.transactionSystem root height)
      (hbuild : buildProposal lib n.toNodeState author (n.transactionSystem.summaryOf root) =
        .ok (ir, block)) : Writes lib conf admitted n (.writeProposal block)
  | forget : Writes lib conf admitted n .deleteProposal

/-- The store after a move and why it was mutated. -/
def Stores (lib : BaseLibrary C) (conf : NodeConf) (admitted : Env → Prop) (n n' : Node C) : Prop :=
  ∃ ops, Performs ops n n' ∧ ∀ op ∈ ops, Writes lib conf admitted n op

section Store

variable {lib : BaseLibrary C} {conf : NodeConf} {admitted : Env → Prop} {env : Env}
  {n n' : Node C} {result : EStateM.Result Err (Node C) Unit}

theorem stores_nothing (hlog : n'.storeLog = n.storeLog) (hstore : n'.blockStore = n.blockStore) :
    Stores lib conf admitted n n' :=
  ⟨[], ⟨by simp [hlog], hstore⟩, by simp⟩

/-- A later part of the move mutates the store for the reasons of the whole move. -/
theorem Stores.tail {m : Node C} (h : Stores lib conf admitted n m) (ops : List (StoreOp C))
    (hperforms : Performs ops m n') (hops : ∀ op ∈ ops, Writes lib conf admitted n op) :
    Stores lib conf admitted n n' := by
  obtain ⟨first, hfirst, hwrites⟩ := h
  refine ⟨first ++ ops, hfirst.trans hperforms, fun op hop ↦ ?_⟩
  rcases List.mem_append.mp hop with hop | hop
  · exact hwrites op hop
  · exact hops op hop

theorem Stores.startNewRound {m : Node C} (h : Stores lib conf admitted n m) (env : Env) :
    Stores lib conf admitted n (m.startNewRound env) := by
  obtain ⟨ops, hperforms, hops⟩ := startNewRound_performs m env
  apply h.tail ops hperforms
  intro op hop
  rw [hops op hop]
  exact .forget

/-- Nothing but the store and its history matters. -/
theorem Stores.congr {m : Node C} (h : Stores lib conf admitted n m)
    (hlog : n'.storeLog = m.storeLog) (hstore : n'.blockStore = m.blockStore) :
    Stores lib conf admitted n n' := by
  obtain ⟨ops, hops, hwrites⟩ := h
  exact ⟨ops, ⟨hlog.trans hops.storeLog, hstore.trans hops.blockStore⟩, hwrites⟩

theorem Stores.startRecovery {m : Node C} (h : Stores lib conf admitted n m) (env : Env) :
    Stores lib conf admitted n (m.startRecovery lib conf env) :=
  h.congr (m.startRecovery_storeLog lib conf env) (m.startRecovery_blockStore lib conf env)

/-- A request stores the proposal it is about. -/
theorem RequestExit.stores {author : String} {root : Slice} {height : UInt64} {m : Node C}
    (h : RequestExit lib conf env author (n.transactionSystem.summaryOf root) m result)
    (hchosen : Chosen admitted n.transactionSystem root height)
    (hstate : m.toNodeState = { n.toNodeState with
      transactionSystem := n.transactionSystem.setPending root height })
    (hlog : m.storeLog = n.storeLog) : Stores lib conf admitted n (final result) := by
  have hstore : m.blockStore = n.blockStore := by rw [hstate]
  have hrecorded : ∀ {ir block}, buildProposal lib m.toNodeState author
      (n.transactionSystem.summaryOf root) = .ok (ir, block) →
      Stores lib conf admitted n (m.recorded block) := by
    intro ir block hbuild
    rw [hstate] at hbuild
    refine ⟨[.writeProposal block], ⟨?_, ?_⟩, ?_⟩
    · exact congrArg (· ++ [StoreOp.writeProposal block]) hlog
    · exact congrArg (StoreOp.writeProposal block).apply hstore
    · intro op hop
      rw [List.mem_singleton.mp hop]
      exact .propose hchosen hbuild
  cases h with
  | unbuilt | unstored => exact stores_nothing hlog hstore
  | unsent err ir block hbuild => exact hrecorded hbuild
  | undelivered err ir block request rootIDs hbuild => exact (hrecorded hbuild).congr rfl rfl
  | sent ir block request rootIDs hbuild => exact (hrecorded hbuild).congr rfl rfl

theorem TimeoutExit.stores (henv : admitted env) (h : TimeoutExit lib conf env n result) :
    Stores lib conf admitted n (final result) := by
  cases h with
  | idle | abandoned => exact stores_nothing rfl rfl
  | unproposed data m _ _ hannounced =>
    obtain ⟨height, _, _, _, _, _, rfl⟩ := hannounced
    exact stores_nothing rfl rfl
  | unrequested data m m' err _ _ hannounced hrequest =>
    obtain ⟨height, _, _, hcandidate, _, _, rfl⟩ := hannounced
    exact (hrequest.stores (.candidate henv hcandidate) rfl rfl).congr rfl rfl
  | requested data m m' _ _ hannounced hrequest =>
    obtain ⟨height, _, _, hcandidate, _, _, rfl⟩ := hannounced
    exact hrequest.stores (.candidate henv hcandidate) rfl rfl

theorem VoteExit.stores {prop : BlockProposal} {uc : UnicityCertificate} (henv : admitted env)
    (h : VoteExit lib conf env prop uc n result) : Stores lib conf admitted n (final result) := by
  cases h with
  | refused | unverified => exact stores_nothing rfl rfl
  | unrequested height err cause m helectable hverified hrequest =>
    exact hrequest.stores (.verified henv hverified) rfl rfl
  | requested height m helectable hverified hrequest =>
    exact hrequest.stores (.verified henv hverified) rfl rfl

/-- The certificate has been accepted by a node that is otherwise as before. -/
theorem CertificateExit.stores {m : Node C} {uc : UnicityCertificate}
    {prevLUC : Option UnicityCertificate} {wasInitializing : Bool}
    (h : CertificateExit lib conf env uc prevLUC wasInitializing m result)
    (hvalid : Validated lib conf n.shardConf uc) (hlog : m.storeLog = n.storeLog)
    (hstore : m.blockStore = n.blockStore) (hcommitted : m.committedUC = n.committedUC)
    (hproposal : m.pendingBlockProposal = n.pendingBlockProposal) :
    Stores lib conf admitted n (final result) := by
  have hkept : Stores lib conf admitted n m := stores_nothing hlog hstore
  cases h with
  | ignored | unknown => exact hkept
  | resumed | initial | current => exact hkept.startNewRound env
  | repeated =>
    have hreverted : Stores lib conf admitted n m.revertState := stores_nothing hlog hstore
    exact hreverted.startNewRound env
  | behind => exact hkept.startRecovery env
  | unencodable => exact stores_nothing hlog hstore
  | unfinalized err cause proposal encoded m' hnew hsuccessor hmarshal hfinalize proposedIR
      hpending hrecord hequal =>
    rw [hproposal] at hpending
    rw [hcommitted] at hsuccessor
    have hwrite : Writes lib conf admitted n (.writeBlock (getRoundNumber (some uc))
        { proposal with unicityCertificate := some encoded }) :=
      .finalize hpending hrecord hequal hmarshal hsuccessor hvalid
    have hstores : Stores lib conf admitted n m' := by
      cases hfinalize with
      | unwritten => exact stores_nothing hlog hstore
      | mismatched =>
        refine hkept.tail [.writeBlock _ _, .deleteBlock _] ⟨?_, rfl⟩ ?_
        · exact List.append_assoc _ [_] [_]
        · simp only [List.mem_cons, List.not_mem_nil, or_false, forall_eq_or_imp, forall_eq]
          exact ⟨hwrite, .undo hsuccessor⟩
      | undeleted => exact hkept.tail [.writeBlock _ _] ⟨rfl, rfl⟩ (by simpa using hwrite)
    exact hstores.startRecovery env
  | finalized proposal proposedIR encoded hnew hpending hsuccessor hrecord hequal hmarshal hwrite
      hcommit =>
    rw [hproposal] at hpending
    rw [hcommitted] at hsuccessor
    have hwrite : Writes lib conf admitted n (.writeBlock (getRoundNumber (some uc))
        { proposal with unicityCertificate := some encoded }) :=
      .finalize hpending hrecord hequal hmarshal hsuccessor hvalid
    have hstores : Stores lib conf admitted n
        (m.finalized { proposal with unicityCertificate := some encoded } uc) :=
      hkept.tail [.writeBlock _ _] ⟨rfl, rfl⟩ (by simpa using hwrite)
    exact hstores.startNewRound env

theorem BlockExit.stores {block : Option (Block C)} (henv : admitted env)
    (hstatus : n.status = .recovering) (hchecked : Checked lib n (final result))
    (h : BlockExit lib conf env n block result) : Stores lib conf admitted n (final result) := by
  have hseen : ∀ {uc m}, LUCExit lib conf n uc none (.ok () m) →
      m.storeLog = n.storeLog ∧ m.blockStore = n.blockStore := by
    intro uc m hluc
    cases hluc <;> exact ⟨rfl, rfl⟩
  cases h with
  | rejected => exact stores_nothing rfl rfl
  | refused err uc m hluc | reverted err uc m hluc | skipped uc m hluc =>
    exact stores_nothing (hseen hluc).1 (hseen hluc).2
  | applied b uc m height hblock huc hluc happlicable hwrite =>
    subst hblock
    have htx := hluc.transactionSystem_eq
    have hcommitted := hluc.committedUC_eq lib conf
    have hkept : Stores lib conf admitted n m := stores_nothing (hseen hluc).1 (hseen hluc).2
    have hvalid : lib.blockIsValid b none = .ok () := by
      apply hchecked hstatus [.writeBlock (getRoundNumber (some uc)) b] _ _ _ List.mem_cons_self
      exact congrArg (· ++ [StoreOp.writeBlock (getRoundNumber (some uc)) b]) (hseen hluc).1
    apply hkept.tail [.writeBlock _ _] ⟨rfl, rfl⟩
    intro op hop
    rw [List.mem_singleton.mp hop]
    exact .replay henv huc (hcommitted ▸ happlicable.successor) (htx ▸ happlicable.verified)
      hluc.validated hvalid

/-- Every mutation of the store has a reason in the state before the move. -/
theorem Move.stores (h : Move lib conf admitted n n') : Stores lib conf admitted n n' := by
  cases h.segment with
  | quiet h => exact stores_nothing h.storeLog h.blockStore
  | adopt hstatus htr hluc => cases hluc <;> exact stores_nothing rfl rfl
  | certificate henv hstatus hguard htr haccepted hexit =>
    have hvalid := haccepted.validated
    cases haccepted <;> exact hexit.stores hvalid rfl rfl rfl rfl
  | timeout henv hguard hexit => exact hexit.stores henv
  | vote henv hstatus hguard hvote => exact hvote.stores henv
  | block henv hstatus hexit => exact hexit.stores henv hstatus h.checked
  | finish henv hstatus hcomplete =>
    have hstopped : Stores lib conf admitted n n.stopRecovery := stores_nothing rfl rfl
    exact hstopped.startNewRound _
  | stop hstatus hcomplete => exact stores_nothing rfl rfl

end Store

/-! ## The pending proposal -/

/-- What can be pending after a move. -/
inductive Held (lib : BaseLibrary C) (admitted : Env → Prop) (n : Node C) :
    Option (Block C) → Prop where
  | kept : Held lib admitted n n.pendingBlockProposal
  | dropped : Held lib admitted n none
  | stripped {proposal : Block C} (hpending : n.pendingBlockProposal = some proposal) :
      Held lib admitted n (some { proposal with unicityCertificate := none })
  | built {author : String} {root : Slice} {height : UInt64} {ir : InputRecord} {block : Block C}
      (hchosen : Chosen admitted n.transactionSystem root height)
      (hbuild : buildProposal lib n.toNodeState author (n.transactionSystem.summaryOf root) =
        .ok (ir, block)) : Held lib admitted n (some block)

section Proposal

variable {lib : BaseLibrary C} {conf : NodeConf} {admitted : Env → Prop} {env : Env}
  {n n' : Node C} {result : EStateM.Result Err (Node C) Unit}

theorem Proposing.held {root : Slice} {height : UInt64} (h : Proposing lib n root height n')
    (hchosen : Chosen admitted n.transactionSystem root height) :
    Held lib admitted n n'.pendingBlockProposal := by
  cases h with
  | kept hproposal => exact hproposal ▸ .kept
  | recorded ir block hbuild hproposal => exact hproposal ▸ .built hchosen hbuild
  | requested ir block request hbuild hproposal => exact hproposal ▸ .built hchosen hbuild

theorem CertificateExit.proposal_held {m : Node C} {uc : UnicityCertificate}
    {prevLUC : Option UnicityCertificate} {wasInitializing : Bool}
    (h : CertificateExit lib conf env uc prevLUC wasInitializing m result)
    (hnormal : m.status = .normal) (hproposal : m.pendingBlockProposal = n.pendingBlockProposal) :
    Held lib admitted n (final result).pendingBlockProposal := by
  have hrunning : m.status ≠ .recovering := by simp [hnormal]
  cases h with
  | ignored | unknown => exact hproposal ▸ .kept
  | resumed | initial | current | repeated | finalized =>
    rw [final_ok, Node.startNewRound_pendingBlockProposal]
    exact .dropped
  | behind =>
    rw [final_error, m.startRecovery_pendingBlockProposal lib conf env hrunning]
    exact .dropped
  | unencodable err proposal hnew hpending => exact .stripped (hproposal ▸ hpending)
  | unfinalized err cause proposal encoded m' hnew hsuccessor hmarshal hfinalize =>
    have hstatus : m'.status ≠ .recovering := hfinalize.status_eq ▸ hrunning
    rw [final_error, m'.startRecovery_pendingBlockProposal lib conf env hstatus]
    exact .dropped

/-- A pending proposal was pending before, or it was just built for a chosen root. -/
theorem Move.held (h : Move lib conf admitted n n') :
    Held lib admitted n n'.pendingBlockProposal := by
  cases h.segment with
  | quiet h => exact h.pendingBlockProposal ▸ .kept
  | adopt hstatus htr hluc => cases hluc <;> exact .kept
  | certificate henv hstatus hguard htr haccepted hexit =>
    cases haccepted <;> exact hexit.proposal_held rfl rfl
  | timeout henv hguard hexit =>
    rcases hexit.proposing with ⟨hproposal, _⟩ | ⟨_, _, _, data, height, hcandidate, hproposing⟩
    · exact hproposal ▸ .kept
    · exact hproposing.held (.candidate henv hcandidate)
  | vote henv hstatus hguard hvote =>
    rcases hvote.proposing with ⟨hproposal, _⟩ | ⟨_, height, hverified, hproposing⟩
    · exact hproposal ▸ .kept
    · exact hproposing.held (.verified henv hverified)
  | block henv hstatus hexit => exact hexit.pendingBlockProposal_eq ▸ .kept
  | finish henv hstatus hcomplete =>
    rw [Node.startNewRound_pendingBlockProposal]
    exact .dropped
  | stop hstatus hcomplete => exact .kept

end Proposal

end FinalityGadget
