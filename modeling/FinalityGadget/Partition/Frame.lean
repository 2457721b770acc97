import FinalityGadget.Partition.Segment

/-!
# What segments keep

The latest certificate with its technical record and leader changes only by adoption; the committed
state changes only when a block is finalized. Both facts hold segment by segment, so the invariants
of either side need not look at the other.
-/

namespace FinalityGadget

open Bytes Fallible

variable {C : Type}

namespace NodeState

/-- The latest certificate, its technical record and the leader. -/
def latest (n : NodeState C) : Option UnicityCertificate × Option TechnicalRecord × PeerID :=
  (n.luc, n.ltr, n.leader)

/-- The committed certificate and state hash. -/
def committed (n : NodeState C) : Option UnicityCertificate × Slice :=
  (n.transactionSystem.committedUC, n.transactionSystem.committedStateHash)

theorem luc_of_latest {n m : NodeState C} (h : n.latest = m.latest) : n.luc = m.luc :=
  congrArg Prod.fst h

theorem ltr_of_latest {n m : NodeState C} (h : n.latest = m.latest) : n.ltr = m.ltr :=
  congrArg (fun latest ↦ latest.2.1) h

theorem leader_of_latest {n m : NodeState C} (h : n.latest = m.latest) : n.leader = m.leader :=
  congrArg (fun latest ↦ latest.2.2) h

theorem committedUC_of_committed {n m : NodeState C} (h : n.committed = m.committed) :
    n.committedUC = m.committedUC :=
  congrArg Prod.fst h

end NodeState

namespace Node

variable (n : Node C) (lib : BaseLibrary C) (conf : NodeConf) (env : Env)

@[simp]
theorem startNewRound_latest : (n.startNewRound env).latest = n.latest := by
  rw [startNewRound_toNodeState]; rfl

@[simp]
theorem startNewRound_committed : (n.startNewRound env).committed = n.committed := by
  rw [startNewRound_toNodeState]; rfl

@[simp]
theorem startNewRound_shardConf : (n.startNewRound env).shardConf = n.shardConf := by
  rw [startNewRound_toNodeState]

@[simp]
theorem startNewRound_status : (n.startNewRound env).status = n.status := by
  rw [startNewRound_toNodeState]

@[simp]
theorem startNewRound_pendingBlockProposal :
    (n.startNewRound env).pendingBlockProposal = none := by
  rw [startNewRound_toNodeState]

@[simp]
theorem startNewRound_transactionSystem :
    (n.startNewRound env).transactionSystem = n.transactionSystem := by
  rw [startNewRound_toNodeState]

@[simp]
theorem startRecovery_latest : (n.startRecovery lib conf env).latest = n.latest := by
  by_cases h : n.status = .recovering
  · rw [startRecovery_of_recovering n lib conf env h]
  · rw [startRecovery_toNodeState n lib conf env h]; rfl

@[simp]
theorem startRecovery_committed : (n.startRecovery lib conf env).committed = n.committed := by
  by_cases h : n.status = .recovering
  · rw [startRecovery_of_recovering n lib conf env h]
  · rw [startRecovery_toNodeState n lib conf env h]; rfl

@[simp]
theorem startRecovery_shardConf : (n.startRecovery lib conf env).shardConf = n.shardConf := by
  by_cases h : n.status = .recovering
  · rw [startRecovery_of_recovering n lib conf env h]
  · rw [startRecovery_toNodeState n lib conf env h]

@[simp]
theorem startRecovery_status : (n.startRecovery lib conf env).status = .recovering := by
  by_cases h : n.status = .recovering
  · rw [startRecovery_of_recovering n lib conf env h, h]
  · rw [startRecovery_toNodeState n lib conf env h]

@[simp]
theorem startRecovery_blockStore :
    (n.startRecovery lib conf env).blockStore = n.blockStore := by
  by_cases h : n.status = .recovering
  · rw [startRecovery_of_recovering n lib conf env h]
  · rw [startRecovery_toNodeState n lib conf env h]

theorem startRecovery_pendingBlockProposal (h : n.status ≠ .recovering) :
    (n.startRecovery lib conf env).pendingBlockProposal = none := by
  rw [startRecovery_toNodeState n lib conf env h]

theorem startRecovery_transactionSystem (h : n.status ≠ .recovering) :
    (n.startRecovery lib conf env).transactionSystem = n.transactionSystem.revert := by
  rw [startRecovery_toNodeState n lib conf env h]

end Node

section Exits

variable {lib : BaseLibrary C} {conf : NodeConf} {env : Env}

theorem Finalized.shardConf_eq {block : Block C} {uc : UnicityCertificate} {n : Node C}
    {result : EStateM.Result Err (Node C) Unit} (h : Finalized env block uc n result) :
    (final result).shardConf = n.shardConf := by
  cases h <;> rfl

theorem Finalized.latest_eq {block : Block C} {uc : UnicityCertificate} {n : Node C}
    {result : EStateM.Result Err (Node C) Unit} (h : Finalized env block uc n result) :
    (final result).latest = n.latest := by
  cases h <;> rfl

/-- Only a successful commit moves the committed state. -/
theorem Finalized.committed_eq {block : Block C} {uc : UnicityCertificate} {n m : Node C}
    {err : Err} (h : Finalized env block uc n (.error err m)) : m.committed = n.committed := by
  cases h <;> rfl

theorem Finalized.status_eq {block : Block C} {uc : UnicityCertificate} {n m : Node C}
    {err : Err} (h : Finalized env block uc n (.error err m)) : m.status = n.status := by
  cases h <;> rfl

theorem TimeoutExit.frame {n : Node C} {result : EStateM.Result Err (Node C) Unit}
    (h : TimeoutExit lib conf env n result) :
    (final result).latest = n.latest ∧ (final result).committed = n.committed ∧
      (final result).status = n.status ∧ (final result).shardConf = n.shardConf := by
  have hframe := h.preserves (fun m ↦ (m.latest, m.committed, m.status, m.shardConf))
    (fun _ _ _ ↦ rfl) (fun _ _ ↦ rfl) (fun _ _ _ ↦ rfl)
  simpa only [Prod.mk.injEq] using hframe

theorem VoteExit.frame {prop : BlockProposal} {uc : UnicityCertificate} {n : Node C}
    {result : EStateM.Result Err (Node C) Unit} (h : VoteExit lib conf env prop uc n result) :
    (final result).latest = n.latest ∧ (final result).committed = n.committed ∧
      (final result).status = n.status ∧ (final result).shardConf = n.shardConf := by
  have hframe := h.preserves (fun m ↦ (m.latest, m.committed, m.status, m.shardConf))
    (fun _ _ _ ↦ rfl) (fun _ _ ↦ rfl) (fun _ _ _ ↦ rfl)
  simpa only [Prod.mk.injEq] using hframe

theorem CertificateExit.latest_eq {uc : UnicityCertificate} {prevLUC : Option UnicityCertificate}
    {wasInitializing : Bool} {m : Node C} {result : EStateM.Result Err (Node C) Unit}
    (h : CertificateExit lib conf env uc prevLUC wasInitializing m result) :
    (final result).latest = m.latest :=
  h.preserves (fun m ↦ m.latest) (fun m ↦ m.startNewRound_latest env)
    (fun m ↦ m.startRecovery_latest lib conf env) (fun _ ↦ rfl) (fun _ _ ↦ rfl)
    Finalized.latest_eq

theorem CertificateExit.shardConf_eq {uc : UnicityCertificate} {prevLUC : Option UnicityCertificate}
    {wasInitializing : Bool} {m : Node C} {result : EStateM.Result Err (Node C) Unit}
    (h : CertificateExit lib conf env uc prevLUC wasInitializing m result) :
    (final result).shardConf = m.shardConf :=
  h.preserves (fun m ↦ m.shardConf) (fun m ↦ m.startNewRound_shardConf env)
    (fun m ↦ m.startRecovery_shardConf lib conf env) (fun _ ↦ rfl) (fun _ _ ↦ rfl)
    Finalized.shardConf_eq

/-- A certificate that is not a duplicate has been adopted. -/
theorem Accepted.adopted_of_new {n m : Node C} {uc : UnicityCertificate}
    {tr : Option TechnicalRecord} (h : Accepted lib conf n uc tr m)
    (hnew : lib.isDuplicate uc n.luc = false) :
    ∃ leader, Adoptable lib conf n uc tr leader ∧ m = n.adopt uc tr leader := by
  cases h with
  | duplicate _ _ hduplicate _ => simp [hnew] at hduplicate
  | adopted leader h => exact ⟨leader, h, rfl⟩

theorem Accepted.validated {n m : Node C} {uc : UnicityCertificate} {tr : Option TechnicalRecord}
    (h : Accepted lib conf n uc tr m) : Validated lib conf n.shardConf uc := by
  cases h with
  | duplicate hvalid _ _ _ => exact hvalid
  | adopted leader h => exact h.validated

theorem Accepted.committed_eq {n m : Node C} {uc : UnicityCertificate}
    {tr : Option TechnicalRecord} (h : Accepted lib conf n uc tr m) :
    m.committed = n.committed := by
  cases h <;> rfl

theorem LUCExit.validated {n m : Node C} {uc : UnicityCertificate} {tr : Option TechnicalRecord}
    (h : LUCExit lib conf n uc tr (.ok () m)) : Validated lib conf n.shardConf uc := by
  cases h with
  | stale hvalid _ _ => exact hvalid
  | duplicate hvalid _ _ _ => exact hvalid
  | adopted leader h => exact h.validated

theorem LUCExit.latest_cases {n m : Node C} {uc : UnicityCertificate}
    {tr : Option TechnicalRecord} (h : LUCExit lib conf n uc tr (.ok () m)) :
    (m.latest = n.latest ∧ (getRootRoundNumber (some uc) < getRootRoundNumber n.luc ∨
        lib.isDuplicate uc n.luc = true)) ∨
      ∃ leader, Adoptable lib conf n uc tr leader ∧ m.latest = (some uc, tr, leader) := by
  cases h with
  | stale _ _ hlt => exact Or.inl ⟨rfl, Or.inl hlt⟩
  | duplicate _ _ hduplicate _ => exact Or.inl ⟨rfl, Or.inr hduplicate⟩
  | adopted leader h => exact Or.inr ⟨leader, h, rfl⟩

theorem LUCExit.committed_eq {n m : Node C} {uc : UnicityCertificate}
    {tr : Option TechnicalRecord} (h : LUCExit lib conf n uc tr (.ok () m)) :
    m.committed = n.committed := by
  cases h <;> rfl

end Exits

/-! ## Per segment -/

section Segments

variable {lib : BaseLibrary C} {conf : NodeConf} {guard : Guard C} {n n' : Node C}

/-- The latest certificate is kept or replaced by one that passed all checks. -/
def Adoption (lib : BaseLibrary C) (conf : NodeConf) (n n' : Node C) : Prop :=
  n'.latest = n.latest ∨ ∃ uc tr leader, Technical lib uc tr ∧
    Adoptable lib conf n uc tr leader ∧ n'.latest = (some uc, tr, leader)

theorem technical_none (lib : BaseLibrary C) (uc : UnicityCertificate) :
    Technical lib uc none := by
  rintro _ ⟨⟩

theorem LUCExit.adoption {uc : UnicityCertificate} {tr : Option TechnicalRecord}
    (htr : Technical lib uc tr) (h : LUCExit lib conf n uc tr (.ok () n')) :
    Adoption lib conf n n' := by
  rcases h.latest_cases with ⟨hkept, _⟩ | ⟨leader, hadoptable, hlatest⟩
  · exact Or.inl hkept
  · exact Or.inr ⟨uc, tr, leader, htr, hadoptable, hlatest⟩

theorem BlockExit.adoption {env : Env} {block : Option (Block C)}
    {result : EStateM.Result Err (Node C) Unit} (h : BlockExit lib conf env n block result) :
    Adoption lib conf n (final result) := by
  cases h with
  | rejected err => exact Or.inl rfl
  | refused err uc m hluc => exact hluc.adoption (technical_none lib uc)
  | reverted err uc m hluc =>
    have hadoption : Adoption lib conf n m := hluc.adoption (technical_none lib uc)
    exact hadoption
  | skipped uc m hluc => exact hluc.adoption (technical_none lib uc)
  | applied b uc m height hblock huc hluc happlicable hwrite =>
    have hadoption : Adoption lib conf n m := hluc.adoption (technical_none lib uc)
    exact hadoption

theorem Segment.adoption (h : Segment lib conf guard n n') : Adoption lib conf n n' := by
  cases h with
  | quiet h => exact Or.inl (by simp only [NodeState.latest, h.luc, h.ltr, h.leader])
  | adopt hstatus htr hluc => exact hluc.adoption htr
  | certificate henv hstatus hguard htr haccepted hexit =>
    have hlatest := hexit.latest_eq
    cases haccepted with
    | duplicate => exact Or.inl hlatest
    | adopted leader hadoptable => exact Or.inr ⟨_, _, leader, htr, hadoptable, hlatest⟩
  | timeout henv hguard hexit => exact Or.inl hexit.frame.1
  | vote henv hstatus hguard hvote => exact Or.inl hvote.frame.1
  | block henv hstatus hexit => exact hexit.adoption
  | finish henv hstatus hcomplete => exact Or.inl (Node.startNewRound_latest _ _)
  | stop hstatus hcomplete => exact Or.inl rfl

/-- The committed state moves to a validated successor, which is the latest certificate or an older
one that recovery has caught up with. -/
structure Commit (lib : BaseLibrary C) (conf : NodeConf) (n n' : Node C)
    (uc : UnicityCertificate) : Prop where
  validated : Validated lib conf n.shardConf uc
  successor : lib.isSuccessor uc n.committedUC = true
  committedUC_eq : n'.committedUC = some uc
  hash_eq : n'.transactionSystem.committedStateHash.bytes = (getStateHash (some uc)).bytes
  latest : n'.luc = some uc ∨ n'.luc = n.luc ∧
    (getRootRoundNumber (some uc) < getRootRoundNumber n.luc ∨ lib.isDuplicate uc n.luc = true)

theorem Segment.commit_cases (h : Segment lib conf guard n n') :
    n'.committed = n.committed ∨ ∃ uc, Commit lib conf n n' uc := by
  cases h with
  | quiet h =>
    have htx := h.transactionSystem
    left
    rw [NodeState.committed, NodeState.committed, ← htx]
  | adopt hstatus htr hluc => exact Or.inl hluc.committed_eq
  | @certificate m env uc tr result henv hstatus hguard htr haccepted hexit =>
    have hkept := haccepted.committed_eq
    have hvalid := haccepted.validated
    cases hexit with
    | ignored => exact Or.inl hkept
    | resumed => exact Or.inl ((Node.startNewRound_committed _ env).trans hkept)
    | unknown => exact Or.inl hkept
    | repeated => exact Or.inl ((Node.startNewRound_committed _ env).trans hkept)
    | behind => exact Or.inl ((Node.startRecovery_committed _ lib conf env).trans hkept)
    | initial => exact Or.inl ((Node.startNewRound_committed _ env).trans hkept)
    | current => exact Or.inl ((Node.startNewRound_committed _ env).trans hkept)
    | unencodable => exact Or.inl hkept
    | unfinalized err cause proposal encoded m' hnew hsuccessor hmarshal hfinalize =>
      exact Or.inl (((Node.startRecovery_committed m' lib conf env).trans
        hfinalize.committed_eq).trans hkept)
    | finalized proposal proposedIR encoded hnew hpending hsuccessor hrecord hequal hmarshal hwrite
        hcommit =>
      obtain ⟨leader, hadoptable, rfl⟩ := haccepted.adopted_of_new hnew
      refine Or.inr ⟨uc, hvalid, hsuccessor, ?_, ?_, Or.inl ?_⟩
      · exact NodeState.committedUC_of_committed (Node.startNewRound_committed _ env)
      · rw [final_ok, Node.startNewRound_transactionSystem]
        exact hcommit
      · exact NodeState.luc_of_latest (Node.startNewRound_latest _ env)
  | timeout henv hguard hexit => exact Or.inl hexit.frame.2.1
  | vote henv hstatus hguard hvote => exact Or.inl hvote.frame.2.1
  | block henv hstatus hexit =>
    cases hexit with
    | rejected err => exact Or.inl rfl
    | refused err uc m hluc => exact Or.inl hluc.committed_eq
    | reverted err uc m hluc => exact Or.inl hluc.committed_eq
    | skipped uc m hluc => exact Or.inl hluc.committed_eq
    | applied b uc m height hblock huc hluc happlicable hwrite =>
      have hcommitted := NodeState.committedUC_of_committed hluc.committed_eq
      refine Or.inr ⟨uc, hluc.validated, hcommitted ▸ happlicable.successor, rfl, rfl, ?_⟩
      rcases hluc.latest_cases with ⟨hkept, hold⟩ | ⟨leader, _, hlatest⟩
      · exact Or.inr ⟨NodeState.luc_of_latest hkept, hold⟩
      · exact Or.inl (congrArg Prod.fst hlatest)
  | finish henv hstatus hcomplete => exact Or.inl (Node.startNewRound_committed _ _)
  | stop hstatus hcomplete => exact Or.inl rfl

/-- The configuration is kept or loaded from the store of configurations. -/
theorem Segment.shardConf_cases (h : Segment lib conf guard n n') :
    n'.shardConf = n.shardConf ∨ conf.Loads n'.shardConf := by
  cases h with
  | quiet h => exact h.shardConf
  | adopt hstatus htr hluc => cases hluc <;> exact Or.inl rfl
  | certificate henv hstatus hguard htr haccepted hexit =>
    cases haccepted <;> exact Or.inl hexit.shardConf_eq
  | timeout henv hguard hexit => exact Or.inl hexit.frame.2.2.2
  | vote henv hstatus hguard hvote => exact Or.inl hvote.frame.2.2.2
  | block henv hstatus hexit =>
    cases hexit with
    | rejected err => exact Or.inl rfl
    | refused err uc m hluc => cases hluc <;> exact Or.inl rfl
    | reverted err uc m hluc => cases hluc <;> exact Or.inl rfl
    | skipped uc m hluc => cases hluc <;> exact Or.inl rfl
    | applied b uc m height hblock huc hluc happlicable hwrite => cases hluc <;> exact Or.inl rfl
  | finish henv hstatus hcomplete => exact Or.inl (Node.startNewRound_shardConf _ _)
  | stop hstatus hcomplete => exact Or.inl rfl

/-- A node only ever has configurations from its store. -/
theorem Segment.loads (h : Segment lib conf guard n n') (hloaded : conf.Loads n.shardConf) :
    conf.Loads n'.shardConf := by
  rcases h.shardConf_cases with hkept | hloads
  · rw [hkept]
    exact hloaded
  · exact hloads

theorem CertificateExit.status_ne {env : Env} {uc : UnicityCertificate}
    {prevLUC : Option UnicityCertificate} {wasInitializing : Bool} {m : Node C}
    {result : EStateM.Result Err (Node C) Unit} (hnormal : m.status = .normal)
    (h : CertificateExit lib conf env uc prevLUC wasInitializing m result) :
    (final result).status ≠ .initializing := by
  cases h with
  | ignored | unknown => simp [hnormal]
  | resumed | initial | current => simp [hnormal]
  | repeated | unencodable | finalized =>
    simp [hnormal, Node.revertState, Node.setProposal, Node.finalized, Node.setTx, Node.store]
  | behind | unfinalized => simp

/-- Only a quiet node stays at its start. -/
theorem Segment.of_initializing (h : Segment lib conf guard n n')
    (hstatus' : n'.status = .initializing) :
    n.status = .initializing ∧ n'.latest = n.latest := by
  cases h with
  | quiet h =>
    exact ⟨h.status.symm.trans hstatus', by simp only [NodeState.latest, h.luc, h.ltr, h.leader]⟩
  | adopt hstatus htr hluc =>
    have hkept := hluc.status_eq lib conf
    simp_all
  | certificate henv hstatus hguard htr haccepted hexit =>
    exact absurd hstatus' (hexit.status_ne rfl)
  | timeout henv hguard hexit =>
    obtain ⟨hlatest, _, hstatus, _⟩ := hexit.frame
    exact ⟨hstatus.symm.trans hstatus', hlatest⟩
  | vote henv hrunning hguard hvote =>
    obtain ⟨hlatest, _, hstatus, _⟩ := hvote.frame
    exact ⟨hstatus.symm.trans hstatus', hlatest⟩
  | block henv hstatus hexit =>
    have hkept := hexit.status_eq
    simp_all
  | finish henv hstatus hcomplete => simp [Node.stopRecovery, Node.setStatus] at hstatus'
  | stop hstatus hcomplete => simp [Node.stopRecovery, Node.setStatus] at hstatus'

/-- A property of recovering nodes is kept by every segment if it is kept by what a recovering node
does and holds where a certificate starts a recovery: the timer and a vote act on running nodes
only, and the end of a recovery leaves the node running. -/
theorem Segment.of_recovering {P : Node C → Prop} (hinv : n.status = .recovering → P n)
    (hquiet : ∀ {n n' : Node C}, Quiet conf n n' → P n → P n')
    (hadopt : ∀ {n m : Node C} {uc : UnicityCertificate} {tr : Option TechnicalRecord},
      LUCExit lib conf n uc tr (.ok () m) → P n → P m)
    (hcertificate : ∀ {env : Env} {uc : UnicityCertificate} {prevLUC : Option UnicityCertificate}
      {wasInitializing : Bool} {m : Node C} {result : EStateM.Result Err (Node C) Unit},
      m.status = .normal → CertificateExit lib conf env uc prevLUC wasInitializing m result →
      (final result).status = .recovering → P (final result))
    (hblock : ∀ {env : Env} {n : Node C} {block : Option (Block C)}
      {result : EStateM.Result Err (Node C) Unit}, BlockExit lib conf env n block result →
      P n → P (final result))
    (h : Segment lib conf guard n n') (hstatus' : n'.status = .recovering) : P n' := by
  cases h with
  | quiet h => exact hquiet h (hinv (h.status.symm.trans hstatus'))
  | adopt hstatus htr hluc => exact hadopt hluc (hinv hstatus)
  | certificate henv hstatus hguard htr haccepted hexit => exact hcertificate rfl hexit hstatus'
  | timeout henv hguard hexit =>
    obtain ⟨_, _, hkept, _⟩ := hexit.frame
    rw [hkept] at hstatus'
    cases hexit with
    | idle => exact hinv hstatus'
    | abandoned hrunning | unproposed _ _ hrunning | unrequested _ _ _ _ hrunning
    | requested _ _ _ hrunning => exact absurd hstatus' hrunning
  | vote henv hrunning hguard hvote =>
    obtain ⟨_, _, hkept, _⟩ := hvote.frame
    exact absurd (hkept.symm.trans hstatus') hrunning
  | block henv hstatus hexit => exact hblock hexit (hinv hstatus)
  | finish henv hstatus hcomplete =>
    rw [Node.startNewRound_status] at hstatus'
    cases hstatus'
  | stop hstatus hcomplete => cases hstatus'

/-- A recovering node has no pending proposal. -/
def Idle (n : Node C) : Prop := n.status = .recovering → n.pendingBlockProposal = none

theorem CertificateExit.idle {env : Env} {uc : UnicityCertificate}
    {prevLUC : Option UnicityCertificate} {wasInitializing : Bool} {m : Node C}
    {result : EStateM.Result Err (Node C) Unit} (hnormal : m.status = .normal)
    (h : CertificateExit lib conf env uc prevLUC wasInitializing m result) :
    Idle (final result) := by
  have hrunning : m.status ≠ .recovering := by simp [hnormal]
  cases h with
  | ignored | unknown => exact fun hstatus ↦ absurd hstatus hrunning
  | resumed | repeated | initial | current | finalized => exact fun _ ↦ by simp
  | behind => exact fun _ ↦ m.startRecovery_pendingBlockProposal lib conf env hrunning
  | unencodable => exact fun hstatus ↦ absurd hstatus hrunning
  | unfinalized err cause proposal encoded m' hnew hsuccessor hmarshal hfinalize =>
    have hstatus' : m'.status = m.status := hfinalize.status_eq
    exact fun _ ↦ m'.startRecovery_pendingBlockProposal lib conf env (hstatus' ▸ hrunning)

theorem BlockExit.pendingBlockProposal_eq {env : Env} {block : Option (Block C)}
    {result : EStateM.Result Err (Node C) Unit} (h : BlockExit lib conf env n block result) :
    (final result).pendingBlockProposal = n.pendingBlockProposal :=
  h.preserves lib conf (fun n ↦ n.pendingBlockProposal) (fun _ _ _ _ ↦ rfl) (fun _ ↦ rfl)
    fun _ _ _ _ ↦ rfl

theorem Idle.segment (hidle : Idle n) (h : Segment lib conf guard n n') : Idle n' := by
  apply h.of_recovering (P := fun n ↦ n.pendingBlockProposal = none) hidle
  · exact fun hquiet hnone ↦ hquiet.pendingBlockProposal.trans hnone
  · intro n m uc tr hluc hnone
    cases hluc <;> exact hnone
  · exact fun hnormal hexit ↦ hexit.idle hnormal
  · exact fun hexit hnone ↦ hexit.pendingBlockProposal_eq.trans hnone

end Segments

end FinalityGadget
