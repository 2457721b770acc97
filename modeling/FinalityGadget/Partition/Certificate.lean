import FinalityGadget.Partition.Node

/-!
# Certificate handling

A verified certificate first replaces the latest one, whatever the node makes of it afterwards;
then it is a duplicate, a repeat, the certificate of the pending proposal, or a sign that blocks
are missing. The exits of both functions are listed once, with the checks that lead to them.
-/

namespace FinalityGadget

open Bytes Fallible

variable {C : Type}

/-- The new latest certificate with its technical record and leader. An epoch change is scheduled
when the epoch moved, or when the configuration of the current epoch is still missing. -/
def Node.adopt (n : Node C) (uc : UnicityCertificate) (tr : Option TechnicalRecord)
    (leader : PeerID) : Node C :=
  let n' : Node C := { n with luc := some uc, ltr := tr, leader := leader }
  { n' with
    epochChangeEvent := n.epochChangeEvent ||
      decide (n.currentEpoch ≠ n'.currentEpoch ∨ n.shardConf.epoch ≠ n'.currentEpoch) }

/-- The first certificate after the handshake ends the initialization. -/
def Node.endInitialization (n : Node C) : Node C :=
  if n.status = .initializing then n.setStatus .normal else n

section Handlers

variable (lib : BaseLibrary C) (conf : NodeConf)

/-- A certificate that comes with a block has no technical record and names no leader. -/
def decodeLeader (tr : Option TechnicalRecord) : Except Err PeerID :=
  match tr with
  | none => .ok ""
  | some tr =>
    (lib.decodePeerID tr.leader).mapError fun err ↦
      s!"decoding leader peerID from {tr.leader.quote}: {err}"

/-- The check is skipped while there is no latest certificate. -/
def checkEquivocation (luc : Option UnicityCertificate) (uc : UnicityCertificate) :
    Except Err Unit :=
  match luc with
  | none => .ok ()
  | some luc => lib.checkNonEquivocatingCertificates luc uc

def updateLUC (uc : UnicityCertificate) (tr : Option TechnicalRecord) : NodeM C Unit := do
  let n ← get
  let trustBase ← ofExcept (fun err ↦ s!"failed to load trust base for UC validation: {err}")
    (conf.trustBaseByEpoch (getRootEpoch (some uc)))
  ofExcept (fun err ↦ s!"certificate invalid, {err}")
    (validateCertificate lib uc n.shardConf trustBase)
  if n.status = .recovering ∧ getRootRoundNumber (some uc) < getRootRoundNumber n.luc then
    return ()
  ofExcept (fun err ↦ s!"equivocating certificate: {err}") (checkEquivocation lib n.luc uc)
  if lib.isDuplicate uc n.luc = true ∧ n.ltr.isSome then
    return ()
  let leader ← ofExcept id (decodeLeader lib tr)
  set (n.adopt uc tr leader)

def errNodeDoesNotHaveLatestBlock : Err :=
  "recovery needed, node does not have the latest block"

/-- Start recovery and report why. -/
def recoverWith (env : Env) (err : Err) : NodeM C Unit := do
  modify fun n ↦ n.startRecovery lib conf env
  throw err

/-- A successor arrived and nothing is pending: start the next round when the state is already the
certified one. -/
def catchUp (env : Env) (uc : UnicityCertificate) : NodeM C Unit := do
  if lib.isInitial uc = true then
    modify fun n ↦ n.startNewRound env
  else
    let n ← get
    match n.transactionSystem.stateSummary with
    | .error err =>
      recoverWith lib conf env
        s!"recovery needed, failed to get transaction system state: {err}"
    | .ok state =>
      if (getStateHash (some uc)).equal state.rootHash = false then
        recoverWith lib conf env errNodeDoesNotHaveLatestBlock
      else if (getETHash (some uc)).equal state.etHash = false then
        recoverWith lib conf env errNodeDoesNotHaveLatestBlock
      else
        modify fun n ↦ n.startNewRound env

/-- A successor arrived while a proposal is pending: finalize the proposal when it is the certified
one. -/
def certifyProposal (env : Env) (uc : UnicityCertificate) (proposal : Block C) : NodeM C Unit :=
  match lib.blockInputRecord proposal with
  | .error _ => recoverWith lib conf env errNodeDoesNotHaveLatestBlock
  | .ok proposedIR =>
    match lib.assertEqualIR (some proposedIR) uc.inputRecord with
    | .error _ => recoverWith lib conf env errNodeDoesNotHaveLatestBlock
    | .ok _ =>
      match lib.marshal uc with
      | .error err => do
        modify fun n ↦ n.setProposal { proposal with unicityCertificate := none }
        throw s!"failed to marshal unicity certificate: {err}"
      | .ok encoded => do
        let block := { proposal with unicityCertificate := some encoded }
        modify fun n ↦ n.setProposal block
        tryCatch (finalizeBlock env block uc) fun err ↦
          recoverWith lib conf env s!"block {getRoundNumber (some uc)} finalize failed: {err}"
        modify fun n ↦ n.startNewRound env

/-- What a running node does with a certificate it has just adopted. -/
def processCertificate (env : Env) (uc : UnicityCertificate)
    (prevLUC : Option UnicityCertificate) (wasInitializing : Bool) : NodeM C Unit := do
  if lib.isDuplicate uc prevLUC = true then
    modify fun n ↦ if wasInitializing = true then n.startNewRound env else n
    return ()
  let isRepeat ← ofExcept (fun err ↦ s!"failed to check for repeat UC: {err}")
    (lib.isRepeat uc prevLUC)
  if isRepeat = true then
    modify fun n ↦ n.revertState.startNewRound env
    return ()
  let n ← get
  if lib.isSuccessor uc n.committedUC = false then
    -- gaps between blocks are not allowed, even if the state hash does not change
    recoverWith lib conf env errNodeDoesNotHaveLatestBlock
  else
    match n.pendingBlockProposal with
    | none => catchUp lib conf env uc
    | some proposal => certifyProposal lib conf env uc proposal

def handleUnicityCertificate (env : Env) (uc : UnicityCertificate) (tr : Option TechnicalRecord) :
    NodeM C Unit := do
  let prevLUC := (← get).luc
  EStateM.adaptExcept (fun err ↦ s!"failed to update LUC: {err}") (updateLUC lib conf uc tr)
  let n ← get
  if n.status = .recovering then
    return ()
  let wasInitializing := decide (n.status = .initializing)
  modify Node.endInitialization
  processCertificate lib conf env uc prevLUC wasInitializing

def handleCertificationResponse (env : Env) (response : Option CertificationResponse) :
    NodeM C Unit := do
  let n ← get
  ofExcept (fun err ↦ s!"invalid CertificationResponse: {err}")
    (CertificationResponse.isValid lib response)
  let cr := response.getD default
  ensure (cr.partition = n.shardConf.partitionID ∧ cr.shard = n.shardConf.shardID)
    (s!"got CertificationResponse for a wrong shard {partitionText cr.partition} - " ++
      s!"{cr.shard}")
  handleUnicityCertificate lib conf env cr.uc (some cr.technical)

end Handlers

/-! ## Exits -/

section Exits

variable (lib : BaseLibrary C) (conf : NodeConf)

/-- The certificate passes the validator under the node's configuration. -/
def Validated (shardConf : PartitionDescriptionRecord) (uc : UnicityCertificate) : Prop :=
  ∃ trustBase, conf.trustBaseByEpoch (getRootEpoch (some uc)) = .ok trustBase ∧
    validateCertificate lib uc shardConf trustBase = .ok ()

/-- The checks a certificate passes before it becomes the latest one. -/
structure Adoptable (n : Node C) (uc : UnicityCertificate) (tr : Option TechnicalRecord)
    (leader : PeerID) : Prop where
  validated : Validated lib conf n.shardConf uc
  nonEquivocating : checkEquivocation lib n.luc uc = .ok ()
  isNew : ¬(lib.isDuplicate uc n.luc = true ∧ n.ltr.isSome)
  leader_eq : decodeLeader lib tr = .ok leader

/-- How `updateLUC` ends. -/
inductive LUCExit (n : Node C) (uc : UnicityCertificate) (tr : Option TechnicalRecord) :
    EStateM.Result Err (Node C) Unit → Prop where
  | rejected (err : Err) : LUCExit n uc tr (.error err n)
  | stale (hvalid : Validated lib conf n.shardConf uc) (hstatus : n.status = .recovering)
      (hlt : getRootRoundNumber (some uc) < getRootRoundNumber n.luc) : LUCExit n uc tr (.ok () n)
  | duplicate (hvalid : Validated lib conf n.shardConf uc)
      (hequivocation : checkEquivocation lib n.luc uc = .ok ())
      (hduplicate : lib.isDuplicate uc n.luc = true) (hltr : n.ltr.isSome) :
      LUCExit n uc tr (.ok () n)
  | adopted (leader : PeerID) (h : Adoptable lib conf n uc tr leader) :
      LUCExit n uc tr (.ok () (n.adopt uc tr leader))

theorem updateLUC_spec (n : Node C) (uc : UnicityCertificate) (tr : Option TechnicalRecord) :
    LUCExit lib conf n uc tr ((updateLUC lib conf uc tr).run n) := by
  refine exec_get (exec_ofExcept (fun _ _ ↦ .rejected _) fun trustBase htrust ↦ ?_)
  refine exec_ofExcept (fun _ _ ↦ .rejected _) fun _ hvalidate ↦ ?_
  have hvalid : Validated lib conf n.shardConf uc := ⟨trustBase, htrust, hvalidate⟩
  refine exec_ite (fun hstale ↦ .stale hvalid hstale.1 hstale.2) fun _ ↦ ?_
  refine exec_ofExcept (fun _ _ ↦ .rejected _) fun _ hequivocation ↦ ?_
  refine exec_ite (fun hdup ↦ .duplicate hvalid hequivocation hdup.1 hdup.2) fun hnew ↦ ?_
  refine exec_ofExcept (fun _ _ ↦ .rejected _) fun leader hleader ↦ ?_
  exact .adopted leader ⟨hvalid, hequivocation, hnew, hleader⟩

/-- The node after `updateLUC` accepted a certificate outside recovery. -/
inductive Accepted (n : Node C) (uc : UnicityCertificate) (tr : Option TechnicalRecord) :
    Node C → Prop where
  | duplicate (hvalid : Validated lib conf n.shardConf uc)
      (hequivocation : checkEquivocation lib n.luc uc = .ok ())
      (hduplicate : lib.isDuplicate uc n.luc = true) (hltr : n.ltr.isSome) :
      Accepted n uc tr n
  | adopted (leader : PeerID) (h : Adoptable lib conf n uc tr leader) :
      Accepted n uc tr (n.adopt uc tr leader)

/-- The certificate is not about the state the node would reach with its pending proposal. -/
inductive Behind (uc : UnicityCertificate) (m : Node C) : Prop where
  | gap (h : lib.isSuccessor uc m.committedUC = false)
  | unproposed (h : m.pendingBlockProposal = none)
  | differs (proposal : Block C) (hpending : m.pendingBlockProposal = some proposal)
      (h : ∀ ir, lib.blockInputRecord proposal = .ok ir →
        lib.assertEqualIR (some ir) uc.inputRecord ≠ .ok ())

/-- How the rest of `handleUnicityCertificate` ends outside recovery, from the node `m` that has
the certificate already. -/
inductive CertificateExit (env : Env) (uc : UnicityCertificate)
    (prevLUC : Option UnicityCertificate) (wasInitializing : Bool) (m : Node C) :
    EStateM.Result Err (Node C) Unit → Prop where
  | ignored (hduplicate : lib.isDuplicate uc prevLUC = true) (hrunning : wasInitializing = false) :
      CertificateExit env uc prevLUC wasInitializing m (.ok () m)
  | resumed (hduplicate : lib.isDuplicate uc prevLUC = true) (hfirst : wasInitializing = true) :
      CertificateExit env uc prevLUC wasInitializing m (.ok () (m.startNewRound env))
  | unknown (err : Err) (hnew : lib.isDuplicate uc prevLUC = false)
      (hrepeat : ∀ b, lib.isRepeat uc prevLUC ≠ .ok b) :
      CertificateExit env uc prevLUC wasInitializing m (.error err m)
  | repeated (hnew : lib.isDuplicate uc prevLUC = false)
      (hrepeat : lib.isRepeat uc prevLUC = .ok true) :
      CertificateExit env uc prevLUC wasInitializing m (.ok () (m.revertState.startNewRound env))
  | behind (err : Err) (hnew : lib.isDuplicate uc prevLUC = false)
      (hbehind : Behind lib uc m) :
      CertificateExit env uc prevLUC wasInitializing m (.error err (m.startRecovery lib conf env))
  | initial (hnew : lib.isDuplicate uc prevLUC = false)
      (hsuccessor : lib.isSuccessor uc m.committedUC = true)
      (hpending : m.pendingBlockProposal = none) (hinitial : lib.isInitial uc = true) :
      CertificateExit env uc prevLUC wasInitializing m (.ok () (m.startNewRound env))
  | current (hnew : lib.isDuplicate uc prevLUC = false)
      (hsuccessor : lib.isSuccessor uc m.committedUC = true)
      (hpending : m.pendingBlockProposal = none)
      (hclean : m.transactionSystem.pendingStateHash = none)
      (hhash : (getStateHash (some uc)).bytes = m.transactionSystem.committedStateHash.bytes) :
      CertificateExit env uc prevLUC wasInitializing m (.ok () (m.startNewRound env))
  | unencodable (err : Err) (proposal : Block C) (hnew : lib.isDuplicate uc prevLUC = false)
      (hpending : m.pendingBlockProposal = some proposal)
      (hmarshal : ∀ c, lib.marshal uc ≠ .ok c) :
      CertificateExit env uc prevLUC wasInitializing m
        (.error err (m.setProposal { proposal with unicityCertificate := none }))
  | unfinalized (err cause : Err) (proposal : Block C) (encoded : C) (m' : Node C)
      (hnew : lib.isDuplicate uc prevLUC = false)
      (hsuccessor : lib.isSuccessor uc m.committedUC = true)
      (hmarshal : lib.marshal uc = .ok encoded)
      (h : Finalized env { proposal with unicityCertificate := some encoded } uc
        (m.setProposal { proposal with unicityCertificate := some encoded }) (.error cause m'))
      (proposedIR : InputRecord) (hpending : m.pendingBlockProposal = some proposal)
      (hrecord : lib.blockInputRecord proposal = .ok proposedIR)
      (hequal : lib.assertEqualIR (some proposedIR) uc.inputRecord = .ok ()) :
      CertificateExit env uc prevLUC wasInitializing m (.error err (m'.startRecovery lib conf env))
  | finalized (proposal : Block C) (proposedIR : InputRecord) (encoded : C)
      (hnew : lib.isDuplicate uc prevLUC = false)
      (hpending : m.pendingBlockProposal = some proposal)
      (hsuccessor : lib.isSuccessor uc m.committedUC = true)
      (hrecord : lib.blockInputRecord proposal = .ok proposedIR)
      (hequal : lib.assertEqualIR (some proposedIR) uc.inputRecord = .ok ())
      (hmarshal : lib.marshal uc = .ok encoded)
      (hwrite : env.writeBlock = .ok ())
      (hcommit : m.transactionSystem.pendingStateHash.bytes = (getStateHash (some uc)).bytes) :
      CertificateExit env uc prevLUC wasInitializing m (.ok ()
        ((m.finalized { proposal with unicityCertificate := some encoded } uc).startNewRound env))

theorem catchUp_spec (env : Env) (uc : UnicityCertificate) (prevLUC : Option UnicityCertificate)
    (wasInitializing : Bool) (m : Node C) (hnew : lib.isDuplicate uc prevLUC = false)
    (hsuccessor : lib.isSuccessor uc m.committedUC = true)
    (hpending : m.pendingBlockProposal = none) :
    CertificateExit lib conf env uc prevLUC wasInitializing m
      ((catchUp lib conf env uc).run m) := by
  refine exec_ite (fun hinitial ↦ .initial hnew hsuccessor hpending hinitial) fun _ ↦ exec_get ?_
  cases hsummary : m.transactionSystem.stateSummary with
  | error err => exact .behind _ hnew (.unproposed hpending)
  | ok state =>
    obtain ⟨hclean, rfl⟩ := FGPTxSystem.stateSummary_ok_iff.mp hsummary
    refine exec_ite (fun _ ↦ .behind _ hnew (.unproposed hpending)) fun hhash ↦ ?_
    refine exec_ite (fun _ ↦ .behind _ hnew (.unproposed hpending)) fun _ ↦ ?_
    exact .current hnew hsuccessor hpending hclean
      (Slice.equal_iff.mp (Bool.not_eq_false _ ▸ hhash))

theorem certifyProposal_spec (env : Env) (uc : UnicityCertificate)
    (prevLUC : Option UnicityCertificate) (wasInitializing : Bool) (m : Node C)
    (proposal : Block C) (hnew : lib.isDuplicate uc prevLUC = false)
    (hsuccessor : lib.isSuccessor uc m.committedUC = true)
    (hpending : m.pendingBlockProposal = some proposal) (hstatus : m.status = .normal) :
    CertificateExit lib conf env uc prevLUC wasInitializing m
      ((certifyProposal lib conf env uc proposal).run m) := by
  unfold certifyProposal
  cases hrecord : lib.blockInputRecord proposal with
  | error err =>
    refine .behind _ hnew (.differs proposal hpending fun ir hir ↦ ?_)
    rw [hrecord] at hir
    cases hir
  | ok proposedIR =>
    dsimp only
    cases hequal : lib.assertEqualIR (some proposedIR) uc.inputRecord with
    | error err =>
      refine .behind _ hnew (.differs proposal hpending fun ir hir ↦ ?_)
      rw [hrecord] at hir
      cases hir
      simp [hequal]
    | ok _ =>
      dsimp only
      cases hmarshal : lib.marshal uc with
      | error err => exact .unencodable _ proposal hnew hpending fun c h ↦ by simp [hmarshal] at h
      | ok encoded =>
        dsimp only
        refine exec_modify ?_
        have hfinalize := finalizeBlock_spec env
          { proposal with unicityCertificate := some encoded } uc
          (m.setProposal { proposal with unicityCertificate := some encoded })
          (by simp [Node.setProposal, hstatus])
        refine exec_tryCatch (fun err after hrun ↦ ?_) fun _ after hrun ↦ ?_
        · rw [hrun] at hfinalize
          exact .unfinalized _ err proposal encoded after hnew hsuccessor hmarshal hfinalize
            proposedIR hpending hrecord hequal
        · rw [hrun] at hfinalize
          cases hfinalize with
          | committed hwrite hcommit =>
            exact .finalized proposal proposedIR encoded hnew hpending hsuccessor hrecord
              hequal hmarshal hwrite hcommit

theorem Node.endInitialization_eq (n : Node C) (h : n.status ≠ .recovering) :
    n.endInitialization = n.setStatus .normal := by
  unfold endInitialization
  split
  · rfl
  · have hnormal : n.status = .normal := by
      cases hstatus : n.status with
      | initializing => contradiction
      | normal => rfl
      | recovering => contradiction
    unfold Node.setStatus
    rw [← hnormal]

/-- How `handleUnicityCertificate` ends. -/
inductive UCExit (env : Env) (n : Node C) (uc : UnicityCertificate) (tr : Option TechnicalRecord) :
    EStateM.Result Err (Node C) Unit → Prop where
  | rejected (err : Err) : UCExit env n uc tr (.error err n)
  | recovering (hstatus : n.status = .recovering) (m : Node C)
      (h : LUCExit lib conf n uc tr (.ok () m)) : UCExit env n uc tr (.ok () m)
  | processed (hstatus : n.status ≠ .recovering) (m : Node C)
      (haccepted : Accepted lib conf n uc tr m) (result : EStateM.Result Err (Node C) Unit)
      (hexit : CertificateExit lib conf env uc n.luc (decide (n.status = .initializing))
        (m.setStatus .normal) result) : UCExit env n uc tr result

theorem processCertificate_spec (env : Env) (uc : UnicityCertificate)
    (prevLUC : Option UnicityCertificate) (wasInitializing : Bool) (m : Node C)
    (hnormal : m.status = .normal) :
    CertificateExit lib conf env uc prevLUC wasInitializing m
      ((processCertificate lib conf env uc prevLUC wasInitializing).run m) := by
  refine exec_ite (fun hduplicate ↦ exec_modify ?_) fun hnew ↦ ?_
  · cases wasInitializing with
    | true => exact .resumed hduplicate rfl
    | false => exact .ignored hduplicate rfl
  have hnew : lib.isDuplicate uc prevLUC = false := by simpa using hnew
  refine exec_ofExcept (fun err herr ↦ .unknown _ hnew fun b h ↦ by simp [herr] at h) fun b hb ↦ ?_
  refine exec_ite (fun hrepeat ↦ .repeated hnew (by rw [hb, hrepeat])) fun _ ↦ exec_get ?_
  refine exec_ite (fun hgap ↦ .behind _ hnew (.gap hgap)) fun hsuccessor ↦ ?_
  have hsuccessor : lib.isSuccessor uc m.committedUC = true := by simpa using hsuccessor
  cases hpending : m.pendingBlockProposal with
  | none => exact catchUp_spec lib conf env uc prevLUC _ m hnew hsuccessor hpending
  | some proposal =>
    exact certifyProposal_spec lib conf env uc prevLUC _ m proposal hnew hsuccessor hpending hnormal

theorem handleUnicityCertificate_spec (env : Env) (n : Node C) (uc : UnicityCertificate)
    (tr : Option TechnicalRecord) :
    UCExit lib conf env n uc tr ((handleUnicityCertificate lib conf env uc tr).run n) := by
  have hluc := updateLUC_spec lib conf n uc tr
  refine exec_get (exec_adaptExcept (fun err after hrun ↦ ?_) fun _ after hrun ↦ ?_)
  · rw [hrun] at hluc
    cases hluc
    exact .rejected _
  rw [hrun] at hluc
  refine exec_get (exec_ite (fun hrecovering ↦ ?_) fun hrunning ↦ ?_)
  · have hstatus : n.status = .recovering := by cases hluc <;> exact hrecovering
    exact .recovering hstatus after hluc
  have hstatus : n.status ≠ .recovering ∧ after.status = n.status := by
    cases hluc <;> exact ⟨hrunning, rfl⟩
  have haccepted : Accepted lib conf n uc tr after := by
    cases hluc with
    | stale _ h _ => exact absurd h hrunning
    | duplicate hvalid hequivocation hduplicate hltr =>
      exact .duplicate hvalid hequivocation hduplicate hltr
    | adopted leader h => exact .adopted leader h
  refine exec_modify ?_
  rw [Node.endInitialization_eq after hrunning]
  refine .processed hstatus.1 after haccepted _ ?_
  rw [← hstatus.2]
  exact processCertificate_spec lib conf env uc n.luc _ (after.setStatus .normal) rfl

end Exits

section Preservation

variable {lib : BaseLibrary C} {conf : NodeConf} {env : Env}

/-- What rounds, recovery, reverting and finalizing leave alone is kept, however the processing of a
certificate ends. -/
theorem CertificateExit.preserves {α : Type*} (f : Node C → α)
    (hround : ∀ m : Node C, f (m.startNewRound env) = f m)
    (hrecovery : ∀ m : Node C, f (m.startRecovery lib conf env) = f m)
    (hrevert : ∀ m : Node C, f m.revertState = f m)
    (hproposal : ∀ (m : Node C) block, f (m.setProposal block) = f m)
    (hfinalize : ∀ {block uc} {m : Node C} {result}, Finalized env block uc m result →
      f (final result) = f m)
    {uc : UnicityCertificate} {prevLUC : Option UnicityCertificate} {wasInitializing : Bool}
    {m : Node C} {result : EStateM.Result Err (Node C) Unit}
    (h : CertificateExit lib conf env uc prevLUC wasInitializing m result) :
    f (final result) = f m := by
  cases h with
  | ignored | unknown => rfl
  | resumed | initial | current => exact hround m
  | repeated => exact (hround m.revertState).trans (hrevert m)
  | behind => exact hrecovery m
  | unencodable => exact hproposal m _
  | unfinalized err cause proposal encoded m' hnew hsuccessor hmarshal hfinalized =>
    exact (hrecovery m').trans ((hfinalize hfinalized).trans (hproposal m _))
  | finalized proposal proposedIR encoded hnew hpending hsuccessor hrecord hequal hmarshal hwrite
      hcommit =>
    exact (hround _).trans (hfinalize (.committed hwrite hcommit))

end Preservation

end FinalityGadget
