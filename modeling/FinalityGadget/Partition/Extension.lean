import FinalityGadget.Partition.Restart
import FinalityGadget.Partition.Signing

/-!
# Requests extend the committed state

The latest certificate and the committed state move separately: a certificate is adopted before it
is checked against the state, and recovery adopts certificates far ahead of what it has committed.
Outside recovery the two are about the same state nevertheless, so every request to the root chain
extends the committed state. The committed certificate may be one that a restart took from an
unsealed proposal; then the latest certificate is only known to follow it.
-/

namespace FinalityGadget

open Bytes Fallible

variable {C : Type}

/-- What is assumed of the certificates of the shard that passed the validator: the root chain
issues one record per round and per root round, only the initial certificate is of round zero, none
is of root round zero, and such certificates can be encoded and compared. -/
structure VerifiedLaw (lib : BaseLibrary C) (confs : Set NodeConf) : Prop where
  sameRound : ∀ {uc other}, WasValidated lib confs uc → WasValidated lib confs other →
    getRoundNumber (some uc) = getRoundNumber (some other) → uc.SameIR other
  sameRootRound : ∀ {uc other}, WasValidated lib confs uc → WasValidated lib confs other →
    getRootRoundNumber (some uc) = getRootRoundNumber (some other) → uc.SameIR other
  rootRound_ne : ∀ {uc}, WasValidated lib confs uc → getRootRoundNumber (some uc) ≠ 0
  roundZero : ∀ {uc}, WasValidated lib confs uc → getRoundNumber (some uc) = 0 →
    lib.isInitial uc = true
  marshal : ∀ {uc}, WasValidated lib confs uc → ∃ encoded, lib.marshal uc = .ok encoded
  isRepeat : ∀ {uc}, WasValidated lib confs uc → ∀ prev, ∃ b, lib.isRepeat uc prev = .ok b

/-- What the state of a node rests on: how the library compares certificates, and what the root
chain issues. -/
structure ChainLaws (lib : BaseLibrary C) (confs : Set NodeConf) : Prop where
  successor : lib.SuccessorLaw
  duplicate : lib.DuplicateLaw
  round : lib.RoundLaw
  repeats : lib.RepeatLaw
  initials : lib.InitialLaw
  verified : VerifiedLaw lib confs

/-- A certificate that passed the validator. -/
def Trusted (lib : BaseLibrary C) (confs : Set NodeConf) (uc : Option UnicityCertificate) : Prop :=
  ∃ validated, uc = some validated ∧ WasValidated lib confs validated

/-- The newer certificate is not of a smaller round, and of the same round only with the same
state. -/
structure Follows (older newer : Option UnicityCertificate) : Prop where
  round_le : getRoundNumber older ≤ getRoundNumber newer
  stateHash_eq : getRoundNumber older = getRoundNumber newer →
    (getStateHash newer).bytes = (getStateHash older).bytes

theorem Follows.refl (uc : Option UnicityCertificate) : Follows uc uc := ⟨le_refl _, fun _ ↦ rfl⟩

theorem Follows.trans {first second third : Option UnicityCertificate} (h : Follows first second)
    (h' : Follows second third) : Follows first third := by
  refine ⟨h.round_le.trans h'.round_le, fun hround ↦ ?_⟩
  have hsecond : getRoundNumber second = getRoundNumber third :=
    le_antisymm h'.round_le (hround ▸ h.round_le)
  calc
    (getStateHash third).bytes = (getStateHash second).bytes := h'.stateHash_eq hsecond
    _ = (getStateHash first).bytes := h.stateHash_eq (hround.trans hsecond.symm)

/-- The latest certificate and the committed state of a node. -/
structure Aligned (lib : BaseLibrary C) (confs : Set NodeConf) (conf : NodeConf) (n : Node C) :
    Prop where
  loaded : conf.Loads n.shardConf
  committedHash : n.transactionSystem.committedStateHash.bytes =
    (getStateHash n.committedUC).bytes
  latest : Trusted lib confs n.luc ∨ n.luc = n.committedUC ∧ getRootRoundNumber n.luc = 0
  committed : Trusted lib confs n.committedUC ∨ Follows n.committedUC n.luc
  running : n.status ≠ .recovering →
    (getStateHash n.luc).bytes = n.transactionSystem.committedStateHash.bytes
  recovering : n.status = .recovering → Trusted lib confs n.luc

section Steps

variable {lib : BaseLibrary C} {confs : Set NodeConf} {conf : NodeConf} {n n' : Node C}

theorem Aligned.wasValidated (h : Aligned lib confs conf n) (hconf : conf ∈ confs)
    {uc : UnicityCertificate} (hvalid : Validated lib conf n.shardConf uc) :
    WasValidated lib confs uc :=
  ⟨conf, hconf, n.shardConf, h.loaded, hvalid⟩

/-- An adopted certificate follows the one it replaces. -/
theorem Adoptable.follows (hlaws : ChainLaws lib confs) {uc : UnicityCertificate}
    {tr : Option TechnicalRecord} {leader : PeerID}
    (h : Adoptable lib conf n uc tr leader) (hvalid : WasValidated lib confs uc) :
    Follows n.luc (some uc) := by
  have hcheck := h.nonEquivocating
  cases hluc : n.luc with
  | none =>
    refine ⟨UInt64.zero_le, fun hzero ↦ ?_⟩
    exact hlaws.initials.stateHash (hlaws.verified.roundZero hvalid hzero.symm)
  | some luc =>
    rw [hluc] at hcheck
    exact ⟨hlaws.round.round_le hcheck, fun hsame ↦ (hlaws.round.sameIR hcheck hsame).stateHash_eq⟩

/-- A duplicate of the latest certificate is about the same state. -/
theorem Aligned.stateHash_of_duplicate (hlaws : ChainLaws lib confs)
    (h : Aligned lib confs conf n) {uc : UnicityCertificate}
    (hvalid : WasValidated lib confs uc) (hsame : lib.isDuplicate uc n.luc = true) :
    (getStateHash (some uc)).bytes = (getStateHash n.luc).bytes := by
  have hroot := hlaws.duplicate.rootRound_eq hsame
  rcases h.latest with ⟨luc, hluc, htrusted⟩ | ⟨_, hzero⟩
  · rw [hluc] at hroot ⊢
    exact (hlaws.verified.sameRootRound hvalid htrusted hroot).stateHash_eq
  · exact absurd (hroot.trans hzero) (hlaws.verified.rootRound_ne hvalid)

/-- The latest certificate is kept, or replaced by a validated one that follows it. -/
theorem Aligned.luc_cases (hlaws : ChainLaws lib confs) (hconf : conf ∈ confs)
    (h : Aligned lib confs conf n) (hadoption : Adoption lib conf n n') :
    n'.luc = n.luc ∨ Trusted lib confs n'.luc ∧ Follows n.luc n'.luc := by
  rcases hadoption with hkept | ⟨uc, tr, leader, _, hadoptable, hlatest⟩
  · exact Or.inl (NodeState.luc_of_latest hkept)
  · have hluc : n'.luc = some uc := congrArg Prod.fst hlatest
    have hvalid := h.wasValidated hconf hadoptable.validated
    rw [hluc]
    exact Or.inr ⟨⟨uc, rfl, hvalid⟩, hadoptable.follows hlaws hvalid⟩

theorem Aligned.committedHash_segment {guard : Guard C} (h : Aligned lib confs conf n)
    (hsegment : Segment lib conf guard n n') :
    n'.transactionSystem.committedStateHash.bytes = (getStateHash n'.committedUC).bytes := by
  rcases hsegment.commit_cases with hkept | ⟨uc, hcommit⟩
  · have hhash : n'.transactionSystem.committedStateHash = n.transactionSystem.committedStateHash :=
      congrArg Prod.snd hkept
    rw [hhash, NodeState.committedUC_of_committed hkept]
    exact h.committedHash
  · rw [hcommit.hash_eq, hcommit.committedUC_eq]

theorem Aligned.latest_segment (hlaws : ChainLaws lib confs) (hconf : conf ∈ confs)
    {guard : Guard C} (h : Aligned lib confs conf n) (hsegment : Segment lib conf guard n n') :
    Trusted lib confs n'.luc ∨ n'.luc = n'.committedUC ∧ getRootRoundNumber n'.luc = 0 := by
  rcases h.luc_cases hlaws hconf hsegment.adoption with hluc | ⟨htrusted, _⟩
  · rcases hsegment.commit_cases with hkept | ⟨uc, hcommit⟩
    · rw [hluc, NodeState.committedUC_of_committed hkept]
      exact h.latest
    · have hvalid := h.wasValidated hconf hcommit.validated
      rcases h.latest with htrusted | ⟨_, hzero⟩
      · exact Or.inl (hluc ▸ htrusted)
      · -- nothing can be committed behind a certificate of root round zero
        rcases hcommit.latest with hnew | ⟨_, hlt | hsame⟩
        · exact Or.inl ⟨uc, hnew, hvalid⟩
        · rw [hzero] at hlt
          exact absurd hlt UInt64.not_lt_zero
        · have hroot := hlaws.duplicate.rootRound_eq hsame
          exact absurd (hroot.trans hzero) (hlaws.verified.rootRound_ne hvalid)
  · exact Or.inl htrusted

theorem Aligned.committed_segment (hlaws : ChainLaws lib confs) (hconf : conf ∈ confs)
    {guard : Guard C} (h : Aligned lib confs conf n)
    (hsegment : Segment lib conf guard n n') :
    Trusted lib confs n'.committedUC ∨ Follows n'.committedUC n'.luc := by
  rcases hsegment.commit_cases with hkept | ⟨uc, hcommit⟩
  · rw [NodeState.committedUC_of_committed hkept]
    rcases h.committed with htrusted | hfollows
    · exact Or.inl htrusted
    · rcases h.luc_cases hlaws hconf hsegment.adoption with hluc | ⟨_, hnext⟩
      · rw [hluc]
        exact Or.inr hfollows
      · exact Or.inr (hfollows.trans hnext)
  · exact Or.inl ⟨uc, hcommit.committedUC_eq, h.wasValidated hconf hcommit.validated⟩

/-- A complete recovery has committed the state of the latest certificate. -/
theorem Aligned.stateHash_of_complete (hlaws : ChainLaws lib confs)
    (h : Aligned lib confs conf n) (hstatus : n.status = .recovering)
    (hcomplete : n.isRecoveryComplete = true) :
    (getStateHash n.luc).bytes = n.transactionSystem.committedStateHash.bytes := by
  have hround : getRoundNumber n.committedUC = getRoundNumber n.luc := by
    simpa [NodeState.isRecoveryComplete] using hcomplete
  rw [h.committedHash]
  rcases h.committed with ⟨committed, hcommitted, hvalid⟩ | hfollows
  · obtain ⟨luc, hluc, htrusted⟩ := h.recovering hstatus
    rw [hluc, hcommitted] at hround ⊢
    exact (hlaws.verified.sameRound htrusted hvalid hround.symm).stateHash_eq
  · exact hfollows.stateHash_eq hround

section Certificate

variable {env : Env} {uc : UnicityCertificate} {tr : TechnicalRecord} {m : Node C}
  {result : EStateM.Result Err (Node C) Unit}

/-- A running node that has processed a certificate is running on its state, or recovering. -/
theorem Aligned.running_certificate (hlaws : ChainLaws lib confs) (hconf : conf ∈ confs)
    (h : Aligned lib confs conf n) (hrunning : n.status ≠ .recovering)
    (haccepted : Accepted lib conf n uc (some tr) m)
    (hexit : CertificateExit lib conf env uc n.luc (decide (n.status = .initializing))
      (m.setStatus .normal) result) (hstatus : (final result).status ≠ .recovering) :
    (getStateHash (final result).luc).bytes =
      (final result).transactionSystem.committedStateHash.bytes := by
  have hvalid := h.wasValidated hconf haccepted.validated
  have hstate := h.running hrunning
  have hluc : (final result).luc = m.luc := NodeState.luc_of_latest hexit.latest_eq
  have htx : m.transactionSystem = n.transactionSystem := by cases haccepted <;> rfl
  -- a certificate that is no duplicate is the latest one now
  have hadopted : lib.isDuplicate uc n.luc = false → m.luc = some uc := by
    intro hnew
    obtain ⟨leader, _, rfl⟩ := haccepted.adopted_of_new hnew
    rfl
  have hrepeated : lib.isDuplicate uc n.luc = true →
      (getStateHash m.luc).bytes = n.transactionSystem.committedStateHash.bytes := by
    intro hsame
    cases haccepted with
    | duplicate => exact hstate
    | adopted leader =>
      exact (h.stateHash_of_duplicate hlaws hvalid hsame).trans hstate
  rw [hluc]
  cases hexit with
  | ignored hsame => exact (hrepeated hsame).trans (by rw [← htx]; rfl)
  | resumed hsame =>
    rw [final_ok, Node.startNewRound_transactionSystem]
    exact (hrepeated hsame).trans (by rw [← htx]; rfl)
  | unknown err hnew hfails =>
    obtain ⟨b, hb⟩ := hlaws.verified.isRepeat hvalid n.luc
    exact absurd hb (hfails b)
  | repeated hnew hrepeat =>
    obtain ⟨prevUC, hprev, hsame, _⟩ := hlaws.repeats hrepeat
    rw [hprev] at hstate
    rw [final_ok, Node.startNewRound_transactionSystem, hadopted hnew, hsame.stateHash_eq, hstate,
      ← htx]
    rfl
  | behind => simp at hstatus
  | initial hnew hsuccessor hpending hinitial =>
    have hprevious := hlaws.successor.previousHash hsuccessor
    rw [hlaws.initials.previousHash hinitial] at hprevious
    have hcommitted : (m.setStatus .normal).committedUC = n.committedUC := by
      cases haccepted <;> rfl
    rw [final_ok, Node.startNewRound_transactionSystem, hadopted hnew,
      hlaws.initials.stateHash hinitial, hprevious, hcommitted, ← h.committedHash, ← htx]
    rfl
  | current hnew hsuccessor hpending hclean hhash =>
    rw [final_ok, Node.startNewRound_transactionSystem, hadopted hnew]
    exact hhash
  | unencodable err proposal hnew hpending hmarshal =>
    obtain ⟨encoded, hencoded⟩ := hlaws.verified.marshal hvalid
    exact absurd hencoded (hmarshal encoded)
  | unfinalized => simp at hstatus
  | finalized proposal proposedIR encoded hnew hpending hsuccessor hrecord hequal hmarshal hwrite
      hcommit =>
    rw [final_ok, Node.startNewRound_transactionSystem, hadopted hnew]
    exact hcommit.symm

/-- A certificate that starts recovery is the latest one. -/
theorem Aligned.recovering_certificate (hconf : conf ∈ confs) (h : Aligned lib confs conf n)
    (haccepted : Accepted lib conf n uc (some tr) m)
    (hexit : CertificateExit lib conf env uc n.luc (decide (n.status = .initializing))
      (m.setStatus .normal) result) (hstatus : (final result).status = .recovering) :
    Trusted lib confs (final result).luc := by
  have hvalid := h.wasValidated hconf haccepted.validated
  have hluc : (final result).luc = m.luc := NodeState.luc_of_latest hexit.latest_eq
  have hadopted : lib.isDuplicate uc n.luc = false → Trusted lib confs m.luc := by
    intro hnew
    obtain ⟨leader, _, rfl⟩ := haccepted.adopted_of_new hnew
    exact ⟨uc, rfl, hvalid⟩
  rw [hluc]
  cases hexit with
  | ignored | unknown | unencodable => cases hstatus
  | resumed | initial | current =>
    rw [final_ok, Node.startNewRound_status] at hstatus
    cases hstatus
  | repeated | finalized =>
    rw [final_ok, Node.startNewRound_status] at hstatus
    cases hstatus
  | behind err hnew => exact hadopted hnew
  | unfinalized err cause proposal encoded m' hnew => exact hadopted hnew

end Certificate

/-- The latest certificate stays about the committed state while neither moves. -/
theorem stateHash_of_kept (hlatest : n'.latest = n.latest) (hcommitted : n'.committed = n.committed)
    (h : (getStateHash n.luc).bytes = n.transactionSystem.committedStateHash.bytes) :
    (getStateHash n'.luc).bytes = n'.transactionSystem.committedStateHash.bytes := by
  have hhash : n'.transactionSystem.committedStateHash = n.transactionSystem.committedStateHash :=
    congrArg Prod.snd hcommitted
  rw [NodeState.luc_of_latest hlatest, hhash]
  exact h

theorem Aligned.running_segment (hlaws : ChainLaws lib confs) (hconf : conf ∈ confs)
    {guard : Guard C} (h : Aligned lib confs conf n) (hsegment : Segment lib conf guard n n')
    (hstatus' : n'.status ≠ .recovering) :
    (getStateHash n'.luc).bytes = n'.transactionSystem.committedStateHash.bytes := by
  cases hsegment with
  | quiet hquiet =>
    have hlatest : n'.latest = n.latest := by
      simp only [NodeState.latest, hquiet.luc, hquiet.ltr, hquiet.leader]
    have hcommitted : n'.committed = n.committed := by
      rw [NodeState.committed, NodeState.committed, ← hquiet.transactionSystem]
    exact stateHash_of_kept hlatest hcommitted (h.running (hquiet.status ▸ hstatus'))
  | adopt hstatus htr hluc => exact absurd ((hluc.status_eq lib conf).trans hstatus) hstatus'
  | certificate henv hstatus hguard htr haccepted hexit =>
    exact h.running_certificate hlaws hconf hstatus haccepted hexit hstatus'
  | timeout henv hguard hexit =>
    obtain ⟨hlatest, hcommitted, hstatus, _⟩ := hexit.frame
    exact stateHash_of_kept hlatest hcommitted (h.running (hstatus ▸ hstatus'))
  | vote henv hrunning hguard hvote =>
    obtain ⟨hlatest, hcommitted, _, _⟩ := hvote.frame
    exact stateHash_of_kept hlatest hcommitted (h.running hrunning)
  | block henv hstatus hexit => exact absurd (hexit.status_eq.trans hstatus) hstatus'
  | finish henv hstatus hcomplete =>
    have hstate := h.stateHash_of_complete hlaws hstatus hcomplete
    exact stateHash_of_kept (Node.startNewRound_latest _ _) (Node.startNewRound_committed _ _)
      hstate
  | stop hstatus hcomplete =>
    have hstate := h.stateHash_of_complete hlaws hstatus hcomplete
    exact hstate

theorem Aligned.recovering_segment (hlaws : ChainLaws lib confs) (hconf : conf ∈ confs)
    {guard : Guard C} (h : Aligned lib confs conf n) (hsegment : Segment lib conf guard n n')
    (hstatus' : n'.status = .recovering) : Trusted lib confs n'.luc := by
  have hstays : n.status = .recovering → Trusted lib confs n'.luc := by
    intro hstatus
    rcases h.luc_cases hlaws hconf hsegment.adoption with hluc | ⟨htrusted, _⟩
    · rw [hluc]
      exact h.recovering hstatus
    · exact htrusted
  cases hsegment with
  | quiet hquiet => exact hstays (hquiet.status.symm.trans hstatus')
  | adopt hstatus htr hluc => exact hstays hstatus
  | certificate henv hstatus hguard htr haccepted hexit =>
    exact h.recovering_certificate hconf haccepted hexit hstatus'
  | timeout henv hguard hexit => exact hstays (hexit.frame.2.2.1.symm.trans hstatus')
  | vote henv hrunning hguard hvote => exact hstays (hvote.frame.2.2.1.symm.trans hstatus')
  | block henv hstatus hexit => exact hstays hstatus
  | finish henv hstatus hcomplete => exact hstays hstatus
  | stop hstatus hcomplete => exact hstays hstatus

theorem Aligned.segment (hlaws : ChainLaws lib confs) (hconf : conf ∈ confs) {guard : Guard C}
    (h : Aligned lib confs conf n) (hsegment : Segment lib conf guard n n') :
    Aligned lib confs conf n' where
  loaded := hsegment.loads h.loaded
  committedHash := h.committedHash_segment hsegment
  latest := h.latest_segment hlaws hconf hsegment
  committed := h.committed_segment hlaws hconf hsegment
  running := h.running_segment hlaws hconf hsegment
  recovering := h.recovering_segment hlaws hconf hsegment

end Steps

/-! ## Starting -/

section Start

variable {lib : BaseLibrary C} {confs : Set NodeConf} {conf : NodeConf} {n : Node C}
  {store : BlockStore C}

/-- The certificate of a proposal is not sealed. -/
theorem IsProposal.rootRound_eq_zero (hcbor : lib.CborLaw) (hhash : lib.BlockHashLaw)
    (hrecord : lib.BlockRecordLaw) {block : Block C} (h : IsProposal lib block)
    {uc : UnicityCertificate} (huc : getUCv1 lib (some block) = .ok uc) :
    getRootRoundNumber (some uc) = 0 := by
  obtain ⟨state, author, summary, ir, hbuild⟩ := h
  have hbuilt := built_of_buildProposal lib hcbor hhash hrecord hbuild
  cases hbuilt.certificate.symm.trans huc
  rfl

/-- The last entry of a store left behind holds a validated certificate, or an unsealed one. -/
theorem WellKept.last_certificate (hcbor : lib.CborLaw) (hhash : lib.BlockHashLaw)
    (hrecord : lib.BlockRecordLaw) (h : WellKept lib confs store) {key : List UInt8}
    {block : Block C} {uc : UnicityCertificate} (hlast : store.last? = some (key, block))
    (huc : getUCv1 lib (some block) = .ok uc) :
    WasValidated lib confs uc ∨ getRootRoundNumber (some uc) = 0 := by
  by_cases hblocks : ∃ round, (storedBlock store round).isSome
  · obtain ⟨round, hround⟩ := hblocks
    obtain ⟨stored, hstored⟩ := Option.isSome_iff_exists.mp hround
    obtain ⟨top, _, htop, _⟩ := h.last_of_block hlast hstored
    obtain ⟨uc', huc', _, hvalid⟩ := h.certified htop
    cases huc.symm.trans huc'
    exact Or.inl hvalid
  · have hnone : ∀ round, storedBlock store round = none := by
      intro round
      simpa using fun hstored ↦ hblocks ⟨round, hstored⟩
    have hproposal := h.proposal (h.last_of_no_block hlast hnone)
    exact Or.inr (hproposal.rootRound_eq_zero hcbor hhash hrecord huc)

theorem Origin.stateHash_eq {uc : Option UnicityCertificate} {hash : Slice}
    (h : Origin lib store uc hash) : hash.bytes = (getStateHash uc).bytes := by
  cases h <;> rfl

theorem Origin.trusted_or (hcbor : lib.CborLaw) (hhash : lib.BlockHashLaw)
    (hrecord : lib.BlockRecordLaw) (hkept : WellKept lib confs store)
    {uc : Option UnicityCertificate} {hash : Slice} (h : Origin lib store uc hash) :
    Trusted lib confs uc ∨ getRootRoundNumber uc = 0 := by
  cases h with
  | genesis hlast => exact Or.inr rfl
  | block key block uc hlast huc =>
    have hcases := hkept.last_certificate hcbor hhash hrecord hlast huc
    exact hcases.imp_left fun hvalid ↦ ⟨uc, rfl, hvalid⟩

theorem Started.aligned (hcbor : lib.CborLaw) (hhash : lib.BlockHashLaw)
    (hrecord : lib.BlockRecordLaw) (hkept : WellKept lib confs store)
    (h : Started lib conf store n) : Aligned lib confs conf n := by
  have hluc := h.luc
  have hcommitted : n.transactionSystem.committedStateHash.bytes =
      (getStateHash n.committedUC).bytes := h.origin.stateHash_eq
  refine ⟨h.shardConf, hcommitted, ?_, Or.inr (hluc ▸ Follows.refl _), fun _ ↦ ?_, fun hstatus ↦ ?_⟩
  · rw [hluc]
    exact (h.origin.trusted_or hcbor hhash hrecord hkept).imp_right fun hzero ↦ ⟨rfl, hzero⟩
  · rw [hluc]
    exact hcommitted.symm
  · rw [h.status] at hstatus
    cases hstatus

end Start

/-! ## Requests -/

/-- The transaction system accepts the root in the turn that `n` makes: the node is the leader and
chooses it at the timeout, or it verifies what the leader has proposed and signed, in the state in
which it comes to vote. The client is the one of the turn, and the call leaves the transaction
system with which the request is sent. -/
inductive RootAccepted (lib : BaseLibrary C) (conf : NodeConf) (n : Node C) (input : Input C)
    (sent : NodeState C) (root : Slice) : Prop where
  | leader (summary : Summary) (hevent : input.event = .t1Timeout)
      (hself : sent.leader = conf.peerID)
      (hrun : (FGPTxSystem.leaderPropose (input.envs 0).pow n.currentRoundNumber).run
        n.transactionSystem = .ok summary sent.transactionSystem)
      (hroot : summary.rootHash = root)
  | follower (env : Env) (prop : BlockProposal) (voter : Node C) (summary : Summary)
      (hvotes : TurnVotes lib conf n input env prop voter)
      (hvalid : ValidProposal lib conf voter prop) (hsigner : prop.nodeID = sent.leader)
      (hrun : (FGPTxSystem.followerVerify env.pow voter.currentRoundNumber prop.proposedRoot).run
        voter.transactionSystem = .ok summary sent.transactionSystem)
      (hroot : summary.rootHash = root)

/-- The record and the block of a request extend the committed state of the node that sends it, the
root was accepted in the same turn, and the block is the leader's. -/
structure ExtendsCommitted (lib : BaseLibrary C) (conf : NodeConf) (n : Node C) (input : Input C)
    (sent : NodeState C) (ir : InputRecord) (block : Block C) : Prop where
  previousHash : ir.previousHash.bytes = sent.transactionSystem.committedStateHash.bytes
  root : RootAccepted lib conf n input sent ir.hash
  record : lib.blockInputRecord block = .ok ir
  header : ∃ header, block.header = some header ∧
    header.previousBlockHash = getBlockHash sent.committedUC ∧
    header.proposerID = lib.peerIDString sent.leader
  leader : ∃ tr, sent.ltr = some tr ∧ lib.decodePeerID tr.leader = .ok sent.leader

/-- The request that was sent from the given state extends the committed state, in the turn that `n`
makes. -/
def RequestExtends (lib : BaseLibrary C) (conf : NodeConf) (n : Node C) (input : Input C)
    (sent : NodeState C × BlockCertificationRequest) : Prop :=
  ∃ ir block, sent.2.inputRecord = some ir ∧ sent.1.pendingBlockProposal = some block ∧
    ExtendsCommitted lib conf n input sent.1 ir block

/-- Every request of the run was sent in one of its turns and extends the committed state of that
turn. -/
def RequestsExtend (lib : BaseLibrary C) (conf : NodeConf) (start : Node C)
    (inputs : List (Input C)) : Prop :=
  ∀ sent ∈ (runNode lib conf start inputs).requests, ∃ before input after,
    inputs = before ++ input :: after ∧
      RequestExtends lib conf (runNode lib conf start before) input sent

/-- The root that a leader chooses or a voter verifies in a segment, under the guard. -/
inductive Accepting (lib : BaseLibrary C) (conf : NodeConf) (guard : Guard C) (n : Node C) :
    Slice → UInt64 → Prop where
  | leader {height : UInt64} (env : Env) (data : List UInt8) (hguard : guard.timeout n env)
      (hself : n.leader = conf.peerID)
      (hcandidate : n.transactionSystem.Candidate env.pow data height) :
      Accepting lib conf guard n (some data) height
  | follower {height : UInt64} (env : Env) (prop : BlockProposal)
      (hevery : guard.everyVote env n prop) (hvalid : ValidProposal lib conf n prop)
      (hsigner : prop.nodeID = n.leader)
      (hverified : FGPTxSystem.Verified env.pow n.transactionSystem prop.proposedRoot height) :
      Accepting lib conf guard n prop.proposedRoot height

/-- The segments of the turn that `start` makes: timers fire in the state before it, and votes are
cast where the turn comes to vote. -/
def turnGuard (lib : BaseLibrary C) (conf : NodeConf) (start : Node C) (input : Input C) :
    Guard C where
  timeout n env := n = start ∧ env = input.envs 0 ∧ input.event = .t1Timeout
  everyVote env n prop := TurnVotes lib conf start input env prop n

section Requests

variable {lib : BaseLibrary C} {confs : Set NodeConf} {conf : NodeConf} {start n n' : Node C}
  {input : Input C}

theorem turnGuard_sound (lib : BaseLibrary C) (conf : NodeConf) (start : Node C)
    (input : Input C) : (turnGuard lib conf start input).Sound lib :=
  ⟨fun _ _ ↦ trivial, fun _ _ ↦ trivial, fun _ ↦ trivial⟩

theorem turnGuard_admits (lib : BaseLibrary C) (conf : NodeConf) (start : Node C)
    (input : Input C) : (turnGuard lib conf start input).Admits lib conf start input := by
  refine ⟨fun _ ↦ trivial, ?_, fun _ _ _ hvotes ↦ hvotes⟩
  unfold Guard.AdmitsEvent
  split
  next hevent => exact ⟨rfl, rfl, hevent⟩
  · exact fun _ _ _ ↦ trivial
  · exact fun _ _ _ _ ↦ ⟨fun _ _ _ ↦ trivial, fun _ ↦ trivial⟩
  · trivial

/-- A segment sends nothing, or what a running node that knows its leader proposes for a root it
accepts. -/
theorem Segment.request_cases {guard : Guard C} (h : Segment lib conf guard n n') :
    n'.requests = n.requests ∨
      n.status ≠ .recovering ∧ (n.ltr ≠ none ∨ n.leader ≠ "") ∧ ∃ root height,
        Proposing lib n root height n' ∧ Accepting lib conf guard n root height := by
  cases h with
  | quiet h => exact Or.inl h.requests
  | adopt hstatus htr hluc => cases hluc <;> exact Or.inl rfl
  | certificate henv hstatus hguard htr haccepted hexit =>
    have hrequests := hexit.requests_eq
    cases haccepted <;> exact Or.inl hrequests
  | timeout henv hguard hexit =>
    rcases hexit.proposing with ⟨_, hrequests⟩ |
      ⟨hrunning, hleader, hltr, data, height, hcandidate, hproposing⟩
    · exact Or.inl hrequests
    · exact Or.inr ⟨hrunning, Or.inl hltr, some data, height, hproposing,
        .leader _ data hguard hleader hcandidate⟩
  | vote henv hrunning hguard hvote hvalid hevery =>
    rcases hvote.proposing with ⟨_, hrequests⟩ | ⟨helectable, height, hverified, hproposing⟩
    · exact Or.inl hrequests
    · exact Or.inr ⟨hrunning, Or.inr helectable.leader_ne, _, height, hproposing,
        .follower _ _ hevery hvalid helectable.author_eq hverified⟩
  | block henv hstatus hexit => exact Or.inl hexit.requests_eq
  | finish henv hstatus hcomplete => exact Or.inl (Node.startNewRound_requests _ _)
  | stop hstatus hcomplete => exact Or.inl rfl

/-- What is accepted in a segment of the turn is accepted in the turn. -/
theorem Accepting.rootAccepted {root : Slice} {height : UInt64}
    (h : Accepting lib conf (turnGuard lib conf start input) n root height) (block : Block C) :
    RootAccepted lib conf start input (n.voting root height block) root := by
  cases h with
  | leader env data hguard hself hcandidate =>
    obtain ⟨rfl, rfl, hevent⟩ := hguard
    have hrun := FGPTxSystem.leaderPropose_of_candidate n.currentRoundNumber hcandidate
    exact .leader _ hevent hself hrun rfl
  | follower env prop hevery hvalid hsigner hverified =>
    have hrun := FGPTxSystem.followerVerify_of_verified n.currentRoundNumber hverified
    exact .follower env prop n _ hevery hvalid hsigner hrun rfl

/-- What an aligned node proposes extends its committed state. -/
theorem Aligned.extendsCommitted (hcbor : lib.CborLaw) (hhash : lib.BlockHashLaw)
    (hrecord : lib.BlockRecordLaw) (h : Aligned lib confs conf n)
    (hcoherent : LeaderCoherent lib n.toNodeState) (hrunning : n.status ≠ .recovering)
    (hleader : n.ltr ≠ none ∨ n.leader ≠ "") {root : Slice} {height : UInt64} {ir : InputRecord}
    {block : Block C}
    (haccepted : RootAccepted lib conf start input (n.voting root height block) root)
    (hbuild : buildProposal lib n.toNodeState (lib.peerIDString n.leader)
      (n.transactionSystem.summaryOf root) = .ok (ir, block)) :
    ExtendsCommitted lib conf start input (n.voting root height block) ir block := by
  have hbuilt := built_of_buildProposal lib hcbor hhash hrecord hbuild
  have hltr : n.ltr ≠ none := hleader.elim id hcoherent.ltr_ne
  constructor
  case previousHash =>
    rw [hbuilt.ir_eq]
    exact h.running hrunning
  case root =>
    rw [buildProposal_root hbuilt]
    exact haccepted
  case record => exact hbuilt.record
  case header => exact ⟨_, hbuilt.header, rfl, rfl⟩
  case leader =>
    rcases hcoherent with ⟨hnone, _⟩ | ⟨tr, _, _, htr, _, _, _, hdecode⟩
    · exact absurd hnone hltr
    · exact ⟨tr, htr, hdecode⟩

/-- An aligned node in the middle of a turn, whose new requests extend the states they were sent
from. -/
structure Extending (lib : BaseLibrary C) (confs : Set NodeConf) (conf : NodeConf) (start : Node C)
    (input : Input C) (n : Node C) : Prop where
  aligned : Aligned lib confs conf n
  leader : LeaderCoherent lib n.toNodeState
  requests : ∀ sent ∈ n.requests, sent ∈ start.requests ∨ RequestExtends lib conf start input sent

theorem Extending.segment (hlaws : ChainLaws lib confs) (hcbor : lib.CborLaw)
    (hhash : lib.BlockHashLaw) (hrecord : lib.BlockRecordLaw) (hconf : conf ∈ confs)
    (h : Extending lib confs conf start input n)
    (hsegment : Segment lib conf (turnGuard lib conf start input) n n') :
    Extending lib confs conf start input n' := by
  refine ⟨h.aligned.segment hlaws hconf hsegment, h.leader.segment hsegment, ?_⟩
  rcases hsegment.request_cases with hrequests | ⟨hrunning, hleader, root, height, hproposing,
    haccepted⟩
  · rw [hrequests]
    exact h.requests
  · cases hproposing with
    | kept _ hrequests =>
      rw [hrequests]
      exact h.requests
    | recorded ir block hbuild _ hrequests =>
      rw [hrequests]
      exact h.requests
    | requested ir block request hbuild _ hrequest hrequests =>
      rw [hrequests, List.forall_mem_append, List.forall_mem_singleton]
      refine ⟨h.requests, Or.inr ⟨ir, block, hrequest, rfl, ?_⟩⟩
      exact h.aligned.extendsCommitted hcbor hhash hrecord h.leader hrunning hleader
        (haccepted.rootAccepted block) hbuild

/-- The requests of a turn extend the committed state. -/
theorem step_extends (hlaws : ChainLaws lib confs) (hcbor : lib.CborLaw) (hhash : lib.BlockHashLaw)
    (hrecord : lib.BlockRecordLaw) (hconf : conf ∈ confs) (haligned : Aligned lib confs conf n)
    (hleader : LeaderCoherent lib n.toNodeState) (input : Input C) :
    Extending lib confs conf n input (step lib conf n input) := by
  have hadmits : Run.Guarded (step lib conf) ((turnGuard lib conf n input).Admits lib conf) n
      [input] := ⟨turnGuard_admits lib conf n input, trivial⟩
  exact invariant_runNode (turnGuard_sound lib conf n input)
    (fun hinv hsegment ↦ hinv.segment hlaws hcbor hhash hrecord hconf hsegment)
    ⟨haligned, hleader, fun _ ↦ Or.inl⟩ hadmits

/-- Whenever a process of the node is not recovering, its latest certificate is about the committed
state; every request it ever sends extends the committed state of that time by a root that was
accepted in the same turn, in a block of the leader. -/
theorem requests_extend_committed (hlaws : ChainLaws lib confs) (hcbor : lib.CborLaw)
    (hhash : lib.BlockHashLaw) (hrecord : lib.BlockRecordLaw) (hconf : conf ∈ confs)
    {store : BlockStore C} (hstore : LeftBehind lib confs store)
    (hstart : Starts lib conf store n) (inputs : List (Input C)) :
    ((runNode lib conf n inputs).status ≠ .recovering →
        (getStateHash (runNode lib conf n inputs).luc).bytes =
          (runNode lib conf n inputs).transactionSystem.committedStateHash.bytes) ∧
      RequestsExtend lib conf n inputs := by
  have hstarted := started_of_starts lib conf hstart
  let Ready (inputs : List (Input C)) : Prop := Aligned lib confs conf (runNode lib conf n inputs) ∧
    LeaderCoherent lib (runNode lib conf n inputs).toNodeState ∧ RequestsExtend lib conf n inputs
  suffices hready : Ready inputs from ⟨hready.1.running, hready.2.2⟩
  -- on the number of turns: an older request keeps its turn, a new one was sent in the last turn
  induction inputs using List.reverseRecOn with
  | nil =>
    refine ⟨hstarted.aligned hcbor hhash hrecord (hstore.wellKept hcbor),
      hstarted.coherent.leader, ?_⟩
    intro sent hsent
    simp [runNode, Run.run, Node.requests, hstarted.sent] at hsent
  | append_singleton inputs input ih =>
    obtain ⟨haligned, hleader, hrequests⟩ := ih
    have hturn := step_extends hlaws hcbor hhash hrecord hconf haligned hleader input
    have hrun : runNode lib conf n (inputs ++ [input]) =
        step lib conf (runNode lib conf n inputs) input := runNode_append lib conf n inputs [input]
    have hlast : Aligned lib confs conf (runNode lib conf n (inputs ++ [input])) ∧
        LeaderCoherent lib (runNode lib conf n (inputs ++ [input])).toNodeState := by
      rw [hrun]
      exact ⟨hturn.aligned, hturn.leader⟩
    refine ⟨hlast.1, hlast.2, fun sent hsent ↦ ?_⟩
    rw [hrun] at hsent
    rcases hturn.requests sent hsent with hold | hnew
    · obtain ⟨before, event, after, hsplit, hextends⟩ := hrequests sent hold
      exact ⟨before, event, after ++ [input], by simp [hsplit], hextends⟩
    · exact ⟨inputs, input, [], rfl, hnew⟩

end Requests

namespace Reference

theorem issued_of_verify {issued : UnicityCertificate → Bool} {uc : UnicityCertificate}
    {trustBase : RootTrustBase} {partition : PartitionID} {shard : ShardID} {hash : Slice}
    (h : (libraryOf issued).verify (some uc) trustBase partition shard hash = .ok ()) :
    issued uc = true := by
  simp only [libraryOf, verify] at h
  repeat' split at h
  all_goals simp_all

theorem issued_of_wasValidated {issued : UnicityCertificate → Bool} {confs : Set NodeConf}
    {uc : UnicityCertificate} (h : WasValidated (libraryOf issued) confs uc) :
    issued uc = true := by
  obtain ⟨conf, _, shardConf, _, trustBase, _, hvalid⟩ := h
  obtain ⟨hash, hverify⟩ := verify_of_validateCertificate (libraryOf issued) hvalid
  exact issued_of_verify hverify

/-- The certificates of the shard up to the second proposal of `A`, which is certified twice. -/
def issuedUCs : List UnicityCertificate :=
  [certify { roundNumber := 1 } 5 (technical 2 "A"), proposalUC, nextUC 7, nextUC 8]

/-- The library of a root chain that has issued these certificates only. -/
def shardLibrary : BaseLibrary UnicityCertificate := libraryOf fun uc ↦ decide (uc ∈ issuedUCs)

theorem shardLibrary_verifiedLaw (confs : Set NodeConf) : VerifiedLaw shardLibrary confs := by
  have hissued : ∀ {uc}, WasValidated shardLibrary confs uc → uc ∈ issuedUCs :=
    fun h ↦ of_decide_eq_true (issued_of_wasValidated h)
  constructor
  case sameRound =>
    intro uc other h h' hround
    have hsame : ∀ left ∈ issuedUCs, ∀ right ∈ issuedUCs,
        getRoundNumber (some left) = getRoundNumber (some right) →
        sameRecord left.inputRecord right.inputRecord = true := by decide
    exact sameIR_of_sameRecord (hsame uc (hissued h) other (hissued h') hround)
  case sameRootRound =>
    intro uc other h h' hround
    have hsame : ∀ left ∈ issuedUCs, ∀ right ∈ issuedUCs,
        getRootRoundNumber (some left) = getRootRoundNumber (some right) →
        sameRecord left.inputRecord right.inputRecord = true := by decide
    exact sameIR_of_sameRecord (hsame uc (hissued h) other (hissued h') hround)
  case rootRound_ne =>
    intro uc h
    have hroot : ∀ uc ∈ issuedUCs, getRootRoundNumber (some uc) ≠ 0 := by decide
    exact hroot uc (hissued h)
  case roundZero =>
    intro uc h hzero
    have hround : ∀ uc ∈ issuedUCs, getRoundNumber (some uc) ≠ 0 := by decide
    exact absurd hzero (hround uc (hissued h))
  case marshal => exact fun {uc} _ ↦ ⟨uc, rfl⟩
  case isRepeat => exact fun _ prev ↦ ⟨_, rfl⟩

theorem shardLibrary_chainLaws (confs : Set NodeConf) : ChainLaws shardLibrary confs :=
  ⟨successorLaw, duplicateLaw, roundLaw, repeatLaw, initialLaw, shardLibrary_verifiedLaw confs⟩

end Reference

section Reference

open Reference

/-- The leader `A` has sent one request in its first round, and none of the later certificates
moves it away from the committed state. -/
theorem requests_extend_committed_finalizing :
    (runNode shardLibrary (conf "A" [1]) node finalizing).requests.length = 1 ∧
      (runNode shardLibrary (conf "A" [1]) node finalizing).status = .normal ∧
      ((runNode shardLibrary (conf "A" [1]) node finalizing).status ≠ .recovering →
        (getStateHash (runNode shardLibrary (conf "A" [1]) node finalizing).luc).bytes =
          (runNode shardLibrary (conf "A" [1]) node
            finalizing).transactionSystem.committedStateHash.bytes) ∧
      RequestsExtend shardLibrary (conf "A" [1]) node finalizing := by
  refine ⟨by decide, by decide, ?_⟩
  exact requests_extend_committed (shardLibrary_chainLaws {conf "A" [1]}) cborLaw blockHashLaw
    blockRecordLaw (Set.mem_singleton _) .empty (starts_empty "A" [1]) finalizing

end Reference

end FinalityGadget
