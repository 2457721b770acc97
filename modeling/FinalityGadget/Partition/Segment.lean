import Mathlib.Logic.Relation
import FinalityGadget.Partition.EpochFrame

/-!
# Segments of a turn

A turn of the main loop is a sequence of segments: the part of a handler after which the node is
coherent again. An invariant of the node is an invariant of the segments, and every turn and every
run follow from that once.

Some invariants need conditions on the events. A guard collects them: what is required of the node
when its timer fires, when it votes and when it processes a certificate. The events of a run have to
meet the guard; what a handler does later in the same turn then meets it as well.
-/

namespace FinalityGadget

open Bytes Fallible Relation

variable {C : Type}

/-- Nothing but the configuration, the message log and the queues changes. -/
structure Quiet (conf : NodeConf) (n n' : Node C) : Prop where
  status : n'.status = n.status
  fuc : n'.fuc = n.fuc
  luc : n'.luc = n.luc
  ltr : n'.ltr = n.ltr
  leader : n'.leader = n.leader
  pendingBlockProposal : n'.pendingBlockProposal = n.pendingBlockProposal
  blockStore : n'.blockStore = n.blockStore
  storeLog : n'.storeLog = n.storeLog
  requests : n'.requests = n.requests
  transactionSystem :
    { n'.transactionSystem with
      shardConf := n.transactionSystem.shardConf
      dFG := n.transactionSystem.dFG } = n.transactionSystem
  shardConf : n'.shardConf = n.shardConf ∨ conf.Loads n'.shardConf

/-- The technical record delivered with a certificate is valid and the one the certificate names. -/
def Technical (lib : BaseLibrary C) (uc : UnicityCertificate) (tr : Option TechnicalRecord) :
    Prop :=
  ∀ record, tr = some record →
    record.isValid = .ok () ∧ record.hashMatches lib uc.trHash = .ok ()

/-- The node when it comes to vote: at once, or after the certificate of the proposal has started a
new round. -/
inductive ComesToVote (lib : BaseLibrary C) (conf : NodeConf) (env : Env) (n : Node C)
    (prop : BlockProposal) (uc : UnicityCertificate) : Node C → Prop where
  | current (hsame : getRootRoundNumber n.luc = getRootRoundNumber (some uc)) :
      ComesToVote lib conf env n prop uc n
  | renewed (m : Node C) (hnewer : getRootRoundNumber n.luc < getRootRoundNumber (some uc))
      (hrun : (handleUnicityCertificate lib conf env uc (some prop.technical)).run n = .ok () m) :
      ComesToVote lib conf env n prop uc m

/-- The node comes to vote for the proposal in a turn: when it receives the proposal, or at the end
of a recovery that has remembered it. -/
inductive TurnVotes (lib : BaseLibrary C) (conf : NodeConf) (n : Node C) (input : Input C) :
    Env → BlockProposal → Node C → Prop where
  | proposal {prop : BlockProposal} {m : Node C} (uc : UnicityCertificate)
      (hevent : input.event = .blockProposal (some prop))
      (huc : prop.unicityCertificate = some uc)
      (hvotes : ComesToVote lib conf (input.envs 0) n prop uc m) :
      TurnVotes lib conf n input (input.envs 0) prop m
  | recovered {prop : BlockProposal} {m : Node C} (response : LedgerReplicationResponse C)
      (last : Node C) (uc : UnicityCertificate)
      (hevent : input.event = .ledgerReplicationResponse (some response))
      (hblocks : (handleBlocks lib conf input.envs 0 (response.blocks.getD [])).run n = .ok () last)
      (hlast : last.recoveryLastProp = some prop) (huc : prop.unicityCertificate = some uc)
      (hvotes : ComesToVote lib conf (input.envs ((response.blocks.getD []).length + 1))
        (last.stopRecovery.startNewRound (input.envs (response.blocks.getD []).length)) prop uc m) :
      TurnVotes lib conf n input (input.envs ((response.blocks.getD []).length + 1)) prop m

/-- Conditions on the node at the places where the outside decides what it does next. -/
structure Guard (C : Type) where
  env : Env → Prop := fun _ ↦ True
  timeout : Node C → Env → Prop := fun _ _ ↦ True
  vote : Node C → BlockProposal → Prop := fun _ _ ↦ True
  /-- For every vote, also in a round that the turn itself has opened. -/
  everyVote : Env → Node C → BlockProposal → Prop := fun _ _ _ ↦ True
  certificate : Node C → UnicityCertificate → Prop := fun _ _ ↦ True

inductive Segment (lib : BaseLibrary C) (conf : NodeConf) (guard : Guard C) :
    Node C → Node C → Prop where
  | quiet {n n' : Node C} (h : Quiet conf n n') : Segment lib conf guard n n'
  | adopt {n m : Node C} {uc : UnicityCertificate} {tr : Option TechnicalRecord}
      (hstatus : n.status = .recovering) (htr : Technical lib uc tr)
      (hluc : LUCExit lib conf n uc tr (.ok () m)) : Segment lib conf guard n m
  | certificate {n m : Node C} {env : Env} {uc : UnicityCertificate} {tr : TechnicalRecord}
      {result : EStateM.Result Err (Node C) Unit} (henv : guard.env env)
      (hstatus : n.status ≠ .recovering) (hguard : guard.certificate n uc)
      (htr : Technical lib uc (some tr)) (haccepted : Accepted lib conf n uc (some tr) m)
      (hexit : CertificateExit lib conf env uc n.luc (decide (n.status = .initializing))
        (m.setStatus .normal) result) : Segment lib conf guard n (final result)
  | timeout {n : Node C} {env : Env} {result : EStateM.Result Err (Node C) Unit}
      (henv : guard.env env) (hguard : guard.timeout n env)
      (hexit : TimeoutExit lib conf env n result) :
      Segment lib conf guard n (final result)
  | vote {n : Node C} {env : Env} {prop : BlockProposal} {uc : UnicityCertificate}
      {result : EStateM.Result Err (Node C) Unit} (henv : guard.env env)
      (hstatus : n.status ≠ .recovering) (hguard : guard.vote n prop)
      (hvote : VoteExit lib conf env prop uc n result) (hvalid : ValidProposal lib conf n prop)
      (hevery : guard.everyVote env n prop) : Segment lib conf guard n (final result)
  | block {n : Node C} {env : Env} {block : Option (Block C)}
      {result : EStateM.Result Err (Node C) Unit} (henv : guard.env env)
      (hstatus : n.status = .recovering) (hexit : BlockExit lib conf env n block result) :
      Segment lib conf guard n (final result)
  | finish {n : Node C} {env : Env} (henv : guard.env env) (hstatus : n.status = .recovering)
      (hcomplete : n.isRecoveryComplete = true) :
      Segment lib conf guard n (n.stopRecovery.startNewRound env)
  | stop {n : Node C} (hstatus : n.status = .recovering)
      (hcomplete : n.isRecoveryComplete = true) : Segment lib conf guard n n.stopRecovery

/-- A sequence of segments. -/
abbrev Segments (lib : BaseLibrary C) (conf : NodeConf) (guard : Guard C) :
    Node C → Node C → Prop :=
  ReflTransGen (Segment lib conf guard)

/-- The result of a handler is reached through segments. -/
def Reaches (lib : BaseLibrary C) (conf : NodeConf) (guard : Guard C) (n : Node C)
    (result : EStateM.Result Err (Node C) Unit) : Prop :=
  Segments lib conf guard n (final result)

/-- A segment that is no epoch change. -/
def Ordinary (lib : BaseLibrary C) (conf : NodeConf) (guard : Guard C) (n n' : Node C) : Prop :=
  Segment lib conf guard n n' ∧ KeepsEpoch n n'

/-- The result of a handler is reached without an epoch change. -/
def Proceeds (lib : BaseLibrary C) (conf : NodeConf) (guard : Guard C) (n : Node C)
    (result : EStateM.Result Err (Node C) Unit) : Prop :=
  ReflTransGen (Ordinary lib conf guard) n (final result)

namespace Guard

/-- What the segments of one turn need beyond the event: a fresh round admits votes, a running node
admits certificates. -/
structure Sound (lib : BaseLibrary C) (guard : Guard C) : Prop where
  vote_of_fresh : ∀ {n : Node C} {prop : BlockProposal}, n.status = .normal →
    n.pendingBlockProposal = none → guard.vote n prop
  vote_of_duplicate : ∀ {n : Node C} {prop : BlockProposal} {uc : UnicityCertificate}
    {luc : Option UnicityCertificate}, getRootRoundNumber luc < getRootRoundNumber (some uc) →
    lib.isDuplicate uc luc = true → guard.vote n prop
  certificate_of_normal : ∀ {n : Node C} {uc : UnicityCertificate}, n.status = .normal →
    guard.certificate n uc

/-- The event meets the guard in the state before the turn. -/
def AdmitsEvent (lib : BaseLibrary C) (conf : NodeConf) (guard : Guard C) (n : Node C)
    (input : Input C) : Prop :=
  match input.event with
  | .t1Timeout => guard.timeout n (input.envs 0)
  | .certificationResponse (some cr) =>
    ∀ m, n.status ≠ .recovering → Accepted lib conf n cr.uc (some cr.technical) m →
      guard.certificate n cr.uc
  | .blockProposal (some prop) => ∀ uc, n.status ≠ .recovering → ValidProposal lib conf n prop →
    prop.unicityCertificate = some uc →
      (∀ m, getRootRoundNumber n.luc < getRootRoundNumber (some uc) →
        Accepted lib conf n uc (some prop.technical) m → guard.certificate n uc) ∧
      (getRootRoundNumber n.luc = getRootRoundNumber (some uc) → guard.vote n prop)
  | _ => True

structure Admits (lib : BaseLibrary C) (conf : NodeConf) (guard : Guard C) (n : Node C)
    (input : Input C) : Prop where
  env : ∀ i, guard.env (input.envs i)
  event : AdmitsEvent lib conf guard n input
  everyVote : ∀ env prop m, TurnVotes lib conf n input env prop m → guard.everyVote env m prop

/-- The guard that restricts nothing but the surroundings. -/
def ofEnv (env : Env → Prop) : Guard C := { env := env }

theorem ofEnv_sound (lib : BaseLibrary C) (env : Env → Prop) : Sound lib (ofEnv env : Guard C) :=
  ⟨fun _ _ ↦ trivial, fun _ _ ↦ trivial, fun _ ↦ trivial⟩

theorem ofEnv_admits (lib : BaseLibrary C) (conf : NodeConf) {env : Env → Prop} (n : Node C)
    {input : Input C} (henv : ∀ i, env (input.envs i)) : Admits lib conf (ofEnv env) n input := by
  refine ⟨henv, ?_, fun _ _ _ _ ↦ trivial⟩
  unfold AdmitsEvent
  split
  · trivial
  · exact fun _ _ _ ↦ trivial
  · exact fun _ _ _ _ ↦ ⟨fun _ _ _ ↦ trivial, fun _ ↦ trivial⟩
  · trivial

/-- The guard without conditions. -/
def none : Guard C := ofEnv fun _ ↦ True

theorem none_sound (lib : BaseLibrary C) : Sound lib (none : Guard C) := ofEnv_sound lib _

theorem none_admits (lib : BaseLibrary C) (conf : NodeConf) (n : Node C) (input : Input C) :
    Admits lib conf none n input :=
  ofEnv_admits lib conf n fun _ ↦ trivial

end Guard

/-! ## A turn is a sequence of segments -/

section Turns

variable {lib : BaseLibrary C} {conf : NodeConf} {guard : Guard C}

theorem Quiet.refl (conf : NodeConf) (n : Node C) : Quiet conf n n :=
  ⟨rfl, rfl, rfl, rfl, rfl, rfl, rfl, rfl, rfl, rfl, Or.inl rfl⟩

/-- Changes of the observation logs and queues alone are quiet. -/
theorem Quiet.of_state {n n' : Node C} (hstate : ∃ queue prop slot,
      n'.toNodeState = { n.toNodeState with
        replicationCh := queue
        recoveryLastProp := prop
        epochChangeEvent := slot })
    (hlog : n'.storeLog = n.storeLog) (hrequests : n'.requests = n.requests) : Quiet conf n n' := by
  obtain ⟨queue, prop, slot, hstate⟩ := hstate
  constructor
  case storeLog => exact hlog
  case requests => exact hrequests
  case shardConf => exact Or.inl (by rw [hstate])
  all_goals rw [hstate]

/-! ### Ordinary segments -/

/-- Changes of the observation logs and of the queues of requests and proposals. -/
theorem Ordinary.of_state {n n' : Node C} (hstate : ∃ queue prop,
      n'.toNodeState = { n.toNodeState with replicationCh := queue, recoveryLastProp := prop })
    (hlog : n'.storeLog = n.storeLog) (hrequests : n'.requests = n.requests) :
    Ordinary lib conf guard n n' := by
  obtain ⟨queue, prop, hstate⟩ := hstate
  constructor
  · exact .quiet (Quiet.of_state ⟨queue, prop, n.epochChangeEvent, hstate⟩ hlog hrequests)
  · apply KeepsEpoch.of_eq
    rw [hstate]
    rfl

theorem ordinary_sendLedgerReplicationRequest (n : Node C) (env : Env) :
    Ordinary lib conf guard n (n.sendLedgerReplicationRequest lib conf env) :=
  .of_state ⟨n.replicationCh, n.recoveryLastProp, by simp⟩ (by simp) (by simp)

theorem ordinary_sendHandshake (n : Node C) (env : Env) :
    Ordinary lib conf guard n (n.sendHandshake lib conf env) :=
  .of_state ⟨n.replicationCh, n.recoveryLastProp, by simp⟩ (by simp) (by simp)

theorem Ordinary.adopt {n m : Node C} {uc : UnicityCertificate} {tr : Option TechnicalRecord}
    (hstatus : n.status = .recovering) (htr : Technical lib uc tr)
    (hluc : LUCExit lib conf n uc tr (.ok () m)) : Ordinary lib conf guard n m :=
  ⟨.adopt hstatus htr hluc, hluc.keepsEpoch⟩

theorem Ordinary.certificate {n m : Node C} {env : Env} {uc : UnicityCertificate}
    {tr : TechnicalRecord} {result : EStateM.Result Err (Node C) Unit} (henv : guard.env env)
    (hstatus : n.status ≠ .recovering) (hguard : guard.certificate n uc)
    (htr : Technical lib uc (some tr)) (haccepted : Accepted lib conf n uc (some tr) m)
    (hexit : CertificateExit lib conf env uc n.luc (decide (n.status = .initializing))
      (m.setStatus .normal) result) : Ordinary lib conf guard n (final result) :=
  ⟨.certificate henv hstatus hguard htr haccepted hexit,
    haccepted.keepsEpoch.then_eq hexit.epochState_eq⟩

theorem Ordinary.vote {n : Node C} {env : Env} {prop : BlockProposal} {uc : UnicityCertificate}
    {result : EStateM.Result Err (Node C) Unit} (henv : guard.env env)
    (hstatus : n.status ≠ .recovering) (hguard : guard.vote n prop)
    (hvote : VoteExit lib conf env prop uc n result) (hvalid : ValidProposal lib conf n prop)
    (hevery : guard.everyVote env n prop) : Ordinary lib conf guard n (final result) :=
  ⟨.vote henv hstatus hguard hvote hvalid hevery, .of_eq hvote.epochState_eq⟩

theorem Ordinary.finish {n : Node C} {env : Env} (henv : guard.env env)
    (hstatus : n.status = .recovering) (hcomplete : n.isRecoveryComplete = true) :
    Ordinary lib conf guard n (n.stopRecovery.startNewRound env) :=
  ⟨.finish henv hstatus hcomplete, .of_eq (Node.startNewRound_epochState _ env)⟩

/-- A processed certificate is one segment. -/
theorem segments_certificate {env : Env} {n : Node C} {uc : UnicityCertificate}
    {tr : TechnicalRecord} {result : EStateM.Result Err (Node C) Unit} (henv : guard.env env)
    (htr : Technical lib uc (some tr))
    (hguard : ∀ m, n.status ≠ .recovering → Accepted lib conf n uc (some tr) m →
      guard.certificate n uc)
    (hexit : UCExit lib conf env n uc (some tr) result) :
    Proceeds lib conf guard n result := by
  cases hexit with
  | rejected err => exact .refl
  | recovering hstatus m hluc => exact .single (.adopt hstatus htr hluc)
  | processed hstatus m haccepted _ hexit =>
    exact .single (.certificate henv hstatus (hguard m hstatus haccepted) htr haccepted hexit)

/-- A certificate processed without an error leaves a running node, and a fresh round unless it was
a duplicate. -/
theorem UCExit.running {env : Env} {n m : Node C} {uc : UnicityCertificate}
    {tr : Option TechnicalRecord} (hstatus : n.status ≠ .recovering)
    (hexit : UCExit lib conf env n uc tr (.ok () m)) :
    m.status = .normal ∧ (lib.isDuplicate uc n.luc = true ∨ m.pendingBlockProposal = none) := by
  cases hexit with
  | recovering h _ _ => exact absurd h hstatus
  | processed _ m' _ _ hexit =>
    cases hexit with
    | ignored hduplicate _ => exact ⟨rfl, Or.inl hduplicate⟩
    | _ =>
      constructor
      · rw [Node.startNewRound_toNodeState]; rfl
      · right; rw [Node.startNewRound_toNodeState]

/-- Processing a certificate leaves the configuration alone. -/
theorem UCExit.shardConf_eq {env : Env} {n m : Node C} {uc : UnicityCertificate}
    {tr : Option TechnicalRecord} (hexit : UCExit lib conf env n uc tr (.ok () m)) :
    m.shardConf = n.shardConf := by
  cases hexit with
  | recovering _ _ hluc => cases hluc <;> rfl
  | processed _ m' haccepted _ hexit =>
    have hkept : m'.shardConf = n.shardConf := by cases haccepted <;> rfl
    cases hexit with
    | ignored => exact hkept
    | _ =>
      rw [Node.startNewRound_toNodeState]
      exact hkept

theorem ValidProposal.congr {n m : Node C} {prop : BlockProposal}
    (h : ValidProposal lib conf n prop) (hconf : m.shardConf = n.shardConf) :
    ValidProposal lib conf m prop := by
  unfold ValidProposal
  rw [hconf]
  exact h

theorem ValidProposal.technical {n : Node C} {prop : BlockProposal} {uc : UnicityCertificate}
    (h : ValidProposal lib conf n prop) (huc : prop.unicityCertificate = some uc) :
    Technical lib uc (some prop.technical) := by
  obtain ⟨trustBase, _, hvalid⟩ := h
  obtain ⟨_, _, _, _, _, _, _, _, htr, hhash, _⟩ := (BlockProposal.isValid_iff lib).mp hvalid
  rintro _ ⟨⟩
  exact ⟨htr, by simpa [huc] using hhash⟩

/-- Handling a block proposal processes its certificate when that one is newer, and then votes. -/
theorem segments_blockProposal (hsound : guard.Sound lib) {env : Env} {n : Node C}
    {proposal : Option BlockProposal} {result : EStateM.Result Err (Node C) Unit}
    (henv : guard.env env)
    (hguard : ∀ prop uc, n.status ≠ .recovering → proposal = some prop →
      ValidProposal lib conf n prop → prop.unicityCertificate = some uc →
      (∀ m, getRootRoundNumber n.luc < getRootRoundNumber (some uc) →
        Accepted lib conf n uc (some prop.technical) m → guard.certificate n uc) ∧
      (getRootRoundNumber n.luc = getRootRoundNumber (some uc) → guard.vote n prop))
    (hevery : ∀ prop uc m, proposal = some prop → prop.unicityCertificate = some uc →
      ComesToVote lib conf env n prop uc m → guard.everyVote env m prop)
    (hexit : ProposalExit lib conf env n proposal result) : Proceeds lib conf guard n result := by
  cases hexit with
  | remembered err hstatus => exact .single (.of_state ⟨_, proposal, rfl⟩ rfl rfl)
  | rejected err => exact .refl
  | uncertified err cause prop uc m hstatus hprop huc hvalid hnewer hexit =>
    have hcertificate := (hguard prop uc hstatus hprop hvalid huc).1
    have hfirst : ReflTransGen (Ordinary lib conf guard) n m :=
      segments_certificate henv (hvalid.technical huc)
        (fun m _ haccepted ↦ hcertificate m hnewer haccepted) hexit
    exact hfirst
  | certified prop uc m result hstatus hprop huc hvalid hnewer hexit hvote hrun =>
    have hcertificate := (hguard prop uc hstatus hprop hvalid huc).1
    have hfirst : ReflTransGen (Ordinary lib conf guard) n m :=
      segments_certificate henv (hvalid.technical huc)
        (fun m _ haccepted ↦ hcertificate m hnewer haccepted) hexit
    obtain ⟨hnormal, hround⟩ := hexit.running hstatus
    have hvotes : guard.vote m prop := hround.elim (hsound.vote_of_duplicate hnewer)
      (hsound.vote_of_fresh hnormal)
    have hvalid' : ValidProposal lib conf m prop := hvalid.congr hexit.shardConf_eq
    exact hfirst.tail (.vote henv (by simp [hnormal]) hvotes hvote hvalid'
      (hevery prop uc m hprop huc (.renewed m hnewer hrun)))
  | current prop uc result hstatus hprop huc hvalid hsame hvote =>
    have hvotes := (hguard prop uc hstatus hprop hvalid huc).2 hsame
    exact .single (.vote henv hstatus hvotes hvote hvalid
      (hevery prop uc n hprop huc (.current hsame)))

/-- A recovering node stays recovering while it applies blocks. -/
theorem BlockExit.status_eq {env : Env} {n : Node C} {block : Option (Block C)}
    {result : EStateM.Result Err (Node C) Unit} (hexit : BlockExit lib conf env n block result) :
    (final result).status = n.status :=
  hexit.preserves lib conf (fun n ↦ n.status) (fun _ _ _ _ ↦ rfl) (fun _ ↦ rfl) fun _ _ _ _ ↦ rfl

theorem segments_handleBlocks {envs : ℕ → Env} (henv : ∀ i, guard.env (envs i))
    (blocks : List (Option (Block C))) (i : ℕ) (n : Node C) (hstatus : n.status = .recovering) :
    Proceeds lib conf guard n ((handleBlocks lib conf envs i blocks).run n) ∧
      (final ((handleBlocks lib conf envs i blocks).run n)).status = .recovering := by
  induction blocks generalizing i n with
  | nil => exact ⟨.refl, hstatus⟩
  | cons block rest ih =>
    have hblock := handleBlock_spec lib conf (envs i) n block hstatus
    have hsegment : Ordinary lib conf guard n
        (final ((handleBlock lib conf (envs i) block).run n)) :=
      ⟨.block (henv i) hstatus hblock, hblock.keepsEpoch⟩
    have hkept := hblock.status_eq
    simp only [handleBlocks, EStateM.run_bind]
    cases hrun : (handleBlock lib conf (envs i) block).run n with
    | error err m =>
      rw [hrun] at hsegment hkept
      exact ⟨.single hsegment, hkept.trans hstatus⟩
    | ok _ m =>
      rw [hrun] at hsegment hkept
      obtain ⟨hrest, hfinal⟩ := ih (i + 1) m (hkept.trans hstatus)
      exact ⟨.head hsegment hrest, hfinal⟩

theorem ordinary_resetLastProp (n : Node C) :
    Ordinary lib conf guard n { n with recoveryLastProp := .none } :=
  .of_state ⟨_, _, rfl⟩ rfl rfl

/-- The end of a recovery opens a fresh round; the remembered proposal is handled in it. -/
theorem segments_finishRecovery (hsound : guard.Sound lib) {env nextEnv : Env} {n : Node C}
    (henv : guard.env env) (hnext : guard.env nextEnv) (hstatus : n.status = .recovering)
    (hcomplete : n.isRecoveryComplete = true)
    (hevery : ∀ prop uc m, n.recoveryLastProp = some prop → prop.unicityCertificate = some uc →
      ComesToVote lib conf nextEnv (n.stopRecovery.startNewRound env) prop uc m →
      guard.everyVote nextEnv m prop) :
    Proceeds lib conf guard n ((finishRecovery lib conf env nextEnv).run n) := by
  have hfirst : Ordinary lib conf guard n (n.stopRecovery.startNewRound env) :=
    .finish henv hstatus hcomplete
  have hnormal : (n.stopRecovery.startNewRound env).status = .normal := by
    rw [Node.startNewRound_toNodeState]; rfl
  have hfresh : (n.stopRecovery.startNewRound env).pendingBlockProposal = .none := by
    rw [Node.startNewRound_toNodeState]
  have hlast : (n.stopRecovery.startNewRound env).recoveryLastProp = n.recoveryLastProp := by
    rw [Node.startNewRound_toNodeState]; rfl
  refine exec_modify (exec_modify (exec_get ?_))
  rw [run_onlyIf]
  split
  · have hproposal := handleBlockProposal_spec lib conf nextEnv
      (n.stopRecovery.startNewRound env) (n.stopRecovery.startNewRound env).recoveryLastProp
    have hsegments := segments_blockProposal hsound hnext
      (fun prop uc _ _ _ _ ↦ ⟨fun _ _ _ ↦ hsound.certificate_of_normal hnormal,
        fun _ ↦ hsound.vote_of_fresh hnormal hfresh⟩)
      (fun prop uc m hprop ↦ hevery prop uc m (hlast.symm.trans hprop)) hproposal
    rw [EStateM.run_bind, run_tryCatch]
    cases hrun : (handleBlockProposal lib conf nextEnv
      (n.stopRecovery.startNewRound env).recoveryLastProp).run (n.stopRecovery.startNewRound env)
    with
    | ok _ m =>
      rw [hrun] at hsegments
      exact (ReflTransGen.head hfirst hsegments).tail (ordinary_resetLastProp m)
    | error err m =>
      rw [hrun] at hsegments
      exact (ReflTransGen.head hfirst hsegments).tail (ordinary_resetLastProp m)
  · exact .single hfirst

theorem segments_replicationResponse (hsound : guard.Sound lib) {envs : ℕ → Env} {n : Node C}
    (henv : ∀ i, guard.env (envs i)) (response : Option (LedgerReplicationResponse C))
    (hevery : ∀ env prop m,
      TurnVotes lib conf n ⟨.ledgerReplicationResponse response, envs⟩ env prop m →
      guard.everyVote env m prop) :
    Proceeds lib conf guard n ((handleLedgerReplicationResponse lib conf envs response).run n) := by
  refine exec_ofExcept (fun _ _ ↦ .refl) fun _ hvalid ↦ ?_
  obtain _ | response := response
  · simp [LedgerReplicationResponse.isValid] at hvalid
  dsimp only [Option.getD_some]
  refine exec_get (exec_ite (fun _ ↦ .refl) fun hstatus ↦ ?_)
  have hstatus : n.status = .recovering := not_not.mp hstatus
  refine exec_ite (fun _ ↦ exec_modify ?_) fun _ ↦ exec_ite (fun _ ↦ .refl) fun _ ↦ ?_
  · by_cases hcomplete : n.isRecoveryComplete = true
    · rw [if_pos hcomplete]
      exact .single ⟨.stop hstatus hcomplete, .of_eq rfl⟩
    · rw [if_neg hcomplete]
      exact .refl
  generalize hgiven : response.blocks.getD [] = blocks
  obtain ⟨hblocks, hrecovering⟩ :
      Proceeds lib conf guard n ((handleBlocks lib conf envs 0 blocks).run n) ∧
      (final ((handleBlocks lib conf envs 0 blocks).run n)).status = .recovering :=
    segments_handleBlocks henv blocks 0 n hstatus
  refine exec_bind (fun err m hrun ↦ ?_) fun _ m hrun ↦ exec_get ?_
  · rw [hrun] at hblocks
    exact hblocks
  rw [hrun] at hblocks hrecovering
  refine exec_ite (fun _ ↦ exec_modify ?_) fun hcomplete ↦ ?_
  · exact hblocks.tail (ordinary_sendLedgerReplicationRequest m _)
  · refine hblocks.trans (segments_finishRecovery hsound (henv _) (henv _) hrecovering
      (by simpa using hcomplete) fun prop uc voter hlast huc hvotes ↦ hevery _ prop voter ?_)
    subst hgiven
    exact .recovered response m uc rfl hrun hlast huc hvotes

/-! ## Handlers that only send and queue -/

theorem segments_sendResponse (env : Env) (msg : LedgerReplicationResponse C) (toId : String)
    (n : Node C) :
    Proceeds lib conf guard n ((sendLedgerReplicationResponse lib env msg toId).run n) := by
  unfold sendLedgerReplicationResponse
  cases lib.decodePeerID toId with
  | error err => exact .refl
  | ok id =>
    have hpost : Ordinary lib conf guard n (n.post (.replicationResponse msg) [id]) :=
      .of_state ⟨_, _, rfl⟩ rfl (by simp [Node.requests, Node.post])
    cases hsend : env.sendResponse with
    | ok _ => exact .single hpost
    | error err => exact .single hpost

theorem segments_replicationRequest (env : Env) (request : Option LedgerReplicationRequest)
    (n : Node C) :
    Proceeds lib conf guard n ((handleLedgerReplicationRequest lib conf env request).run n) := by
  unfold handleLedgerReplicationRequest
  cases LedgerReplicationRequest.isValid request with
  | error err => exact .refl
  | ok _ =>
    simp only [EStateM.run_bind, run_ofExcept, EStateM.run_get]
    split
    · exact segments_sendResponse env _ _ n
    split
    · exact segments_sendResponse env _ _ n
    split
    · exact segments_sendResponse env _ _ n
    split
    · exact .single (.of_state ⟨_, _, rfl⟩ rfl rfl)
    · exact segments_sendResponse env _ _ n

theorem segments_replicationWorker (env : Env) (n : Node C) :
    Proceeds lib conf guard n ((replicationWorker lib conf env).run n) := by
  have htake (rest : List LedgerReplicationRequest) :
      Ordinary lib conf guard n { n with replicationCh := rest } := .of_state ⟨rest, _, rfl⟩ rfl rfl
  have hexit := replicationWorker_spec lib conf env n
  unfold Proceeds
  generalize final ((replicationWorker lib conf env).run n) = after at hexit
  cases hexit with
  | idle => exact .refl
  | panicked _ rest => exact .single (htake rest)
  | answered lr rest msg =>
    exact ReflTransGen.head (htake rest) (segments_sendResponse env msg lr.nodeID _)

theorem segments_monitoring (env : Env) (ucOverdue replicationOverdue : Bool) (n : Node C) :
    Proceeds lib conf guard n
      ((handleMonitoring lib conf env ucOverdue replicationOverdue).run n) := by
  apply handleMonitoring_rel (R := ReflTransGen (Ordinary lib conf guard))
  · exact fun _ ↦ .refl
  · exact fun h h' ↦ h.trans h'
  · exact fun n ↦ .single (ordinary_sendHandshake n env)
  · exact fun n ↦ .single (ordinary_sendLedgerReplicationRequest n env)

/-! ## Turns -/

theorem EpochExit.quiet {n n' : Node C} (h : EpochExit conf n n') : Quiet conf n n' := by
  cases h with
  | idle => exact .refl conf n
  | missing => exact Quiet.of_state ⟨_, _, false, rfl⟩ rfl rfl
  | rejected shardConf _ hload | applied shardConf _ _ hload =>
    exact ⟨rfl, rfl, rfl, rfl, rfl, rfl, rfl, rfl, rfl, rfl, Or.inr ⟨_, hload⟩⟩

theorem segments_certificationResponse {env : Env} {n : Node C}
    (response : Option CertificationResponse) (henv : guard.env env)
    (hguard : ∀ cr m, response = some cr → n.status ≠ .recovering →
      Accepted lib conf n cr.uc (some cr.technical) m → guard.certificate n cr.uc) :
    Proceeds lib conf guard n ((handleCertificationResponse lib conf env response).run n) := by
  refine exec_get (exec_ofExcept (fun _ _ ↦ .refl) fun _ hvalid ↦ ?_)
  cases response with
  | none => simp [CertificationResponse.isValid] at hvalid
  | some cr =>
    have htr : Technical lib cr.uc (some cr.technical) := by
      rintro _ ⟨⟩
      exact CertificationResponse.technical_of_isValid lib hvalid
    dsimp only [Option.getD_some]
    refine exec_ensure (fun _ ↦ .refl) fun _ ↦ ?_
    exact segments_certificate henv htr (fun m ↦ hguard cr m rfl)
      (handleUnicityCertificate_spec lib conf env n cr.uc (some cr.technical))

/-- A turn with any other event than an epoch change is a sequence of ordinary segments. -/
theorem step_ordinary (hsound : guard.Sound lib) {n : Node C} {input : Input C}
    (hadmits : guard.Admits lib conf n input) (hother : input.event ≠ .epochChange) :
    ReflTransGen (Ordinary lib conf guard) n (step lib conf n input) := by
  obtain ⟨event, envs⟩ := input
  have henv := hadmits.env
  have hevent := hadmits.event
  cases event with
  | certificationResponse response =>
    refine segments_certificationResponse response (henv 0) ?_
    rintro cr m rfl hstatus haccepted
    exact hevent m hstatus haccepted
  | blockProposal proposal =>
    refine segments_blockProposal hsound (henv 0) ?_ ?_
      (handleBlockProposal_spec lib conf (envs 0) n proposal)
    · rintro prop uc hstatus rfl hvalid huc
      exact hevent uc hstatus hvalid huc
    · rintro prop uc m rfl huc hvotes
      exact hadmits.everyVote _ prop m (.proposal uc rfl huc hvotes)
  | ledgerReplicationRequest request => exact segments_replicationRequest (envs 0) request n
  | ledgerReplicationResponse response =>
    exact segments_replicationResponse hsound henv response hadmits.everyVote
  | t1Timeout =>
    have hexit := handleT1TimeoutEvent_spec lib conf (envs 0) n
    exact .single ⟨.timeout (henv 0) hevent hexit, .of_eq hexit.epochState_eq⟩
  | epochChange => exact absurd rfl hother
  | monitoring ucOverdue replicationOverdue =>
    exact segments_monitoring (envs 0) ucOverdue replicationOverdue n
  | replicationWorker => exact segments_replicationWorker (envs 0) n

/-- Every turn is a sequence of segments. -/
theorem step_segments (hsound : guard.Sound lib) {n : Node C} {input : Input C}
    (hadmits : guard.Admits lib conf n input) :
    Reaches lib conf guard n ((handleEvent lib conf input).run n) := by
  by_cases hepoch : input.event = .epochChange
  · unfold handleEvent
    rw [hepoch]
    exact .single (.quiet (takeEpochChange_spec conf n).quiet)
  · have hordinary := step_ordinary hsound hadmits hepoch
    exact ReflTransGen.mono (fun _ _ h ↦ h.1) _ _ hordinary

/-- A turn with any other event keeps the configuration and schedules an epoch change when one is
due. -/
theorem step_keepsEpoch (lib : BaseLibrary C) (conf : NodeConf) (n : Node C) {input : Input C}
    (hother : input.event ≠ .epochChange) : KeepsEpoch n (step lib conf n input) := by
  have hsegments := step_ordinary (Guard.none_sound lib) (Guard.none_admits lib conf n input) hother
  generalize step lib conf n input = n' at hsegments
  induction hsegments with
  | refl => exact .refl n
  | tail _ hlast ih => exact ih.trans hlast.2

/-! ## Invariants of runs -/

/-- An invariant of every segment is an invariant of every admitted run. -/
theorem invariant_runNode {invariant : Node C → Prop} (hsound : guard.Sound lib)
    (hsegment : ∀ {n n'}, invariant n → Segment lib conf guard n n' → invariant n')
    {n : Node C} {inputs : List (Input C)} (hinit : invariant n)
    (hadmits : Run.Guarded (step lib conf) (guard.Admits lib conf) n inputs) :
    invariant (runNode lib conf n inputs) := by
  refine Run.invariant_run (fun n input hinv hadmit ↦ ?_) hinit hadmits
  have hsegments : Segments lib conf guard n (step lib conf n input) := step_segments hsound hadmit
  generalize step lib conf n input = n' at hsegments
  induction hsegments with
  | refl => exact hinv
  | tail _ hlast ih => exact hsegment ih hlast

end Turns

end FinalityGadget
