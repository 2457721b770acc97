import FinalityGadget.Partition.Coherence

/-!
# Re-delivered certificates

A certificate arrives from several root nodes, and again after handshakes. Once a node has processed
a response, its latest certificate is from a later root round, or from the same one and with a
technical record. Both stay true in every run, and in both cases the response is stale, equivocating
or a duplicate that is ignored.
-/

namespace FinalityGadget

open Bytes Fallible

variable {C : Type}

/-- The response reaches the node's certificate handling, which accepts its certificate. -/
structure Processes (lib : BaseLibrary C) (conf : NodeConf) (n : Node C)
    (cr : CertificationResponse) : Prop where
  valid : CertificationResponse.isValid lib (some cr) = .ok ()
  own : cr.partition = n.shardConf.partitionID ∧ cr.shard = n.shardConf.shardID
  seen : ∃ m, (updateLUC lib conf cr.uc (some cr.technical)).run n = .ok () m

/-- The latest certificate makes one of the given root round old: it is later, or from the same root
round and with a technical record. -/
structure Outdates (rootRound : UInt64) (n : Node C) : Prop where
  status : n.status ≠ .initializing
  latest : ∃ luc, n.luc = some luc ∧ (rootRound < getRootRoundNumber (some luc) ∨
    rootRound = getRootRoundNumber (some luc) ∧ n.ltr.isSome)

section Outdates

variable {lib : BaseLibrary C} {conf : NodeConf} {env : Env} {rootRound : UInt64} {n n' : Node C}

theorem Outdates.congr (h : Outdates rootRound n) (hlatest : n'.latest = n.latest)
    (hstatus : n'.status ≠ .initializing) : Outdates rootRound n' := by
  obtain ⟨luc, hluc, hround⟩ := h.latest
  refine ⟨hstatus, luc, (NodeState.luc_of_latest hlatest).trans hluc, ?_⟩
  rw [NodeState.ltr_of_latest hlatest]
  exact hround

/-- A certificate that replaces the latest one outdates the same rounds. -/
theorem Outdates.segment (hequivocation : lib.EquivocationLaw) (hduplicate : lib.DuplicateLaw)
    {guard : Guard C} (h : Outdates rootRound n) (hsegment : Segment lib conf guard n n') :
    Outdates rootRound n' := by
  have hstatus : n'.status ≠ .initializing := fun hinitial ↦
    h.status (hsegment.of_initializing hinitial).1
  obtain hkept | ⟨uc, tr, leader, _, hadoptable, hlatest⟩ := hsegment.adoption
  · exact h.congr hkept hstatus
  obtain ⟨luc, hluc, hround⟩ := h.latest
  have hle : getRootRoundNumber (some luc) ≤ getRootRoundNumber (some uc) :=
    hluc ▸ rootRound_le_of_adoptable hequivocation hadoptable
  refine ⟨hstatus, uc, congrArg Prod.fst hlatest, Or.inl ?_⟩
  rcases hround with hlt | ⟨heq, hltr⟩
  · exact hlt.trans_le hle
  · -- with a technical record at hand, a certificate of the same root round is a duplicate
    refine heq.trans_lt (lt_of_le_of_ne hle fun hsame ↦ hadoptable.isNew ⟨?_, hltr⟩)
    rw [hluc]
    exact hduplicate.of_rootRound_eq hsame.symm

theorem Outdates.run (hequivocation : lib.EquivocationLaw) (hduplicate : lib.DuplicateLaw)
    (h : Outdates rootRound n) (inputs : List (Input C)) :
    Outdates rootRound (runNode lib conf n inputs) :=
  invariant_runNode (Guard.none_sound lib)
    (fun hinv hsegment ↦ hinv.segment hequivocation hduplicate hsegment) h
    (Run.guarded_of_forall (fun n input ↦ Guard.none_admits lib conf n input) n inputs)

/-- Accepting a certificate with a technical record outdates its root round. -/
theorem LUCExit.outdates (hduplicate : lib.DuplicateLaw)
    (hcoherent : LeaderCoherent lib n.toNodeState)
    {uc : UnicityCertificate} {tr : TechnicalRecord} {m : Node C}
    (h : LUCExit lib conf n uc (some tr) (.ok () m)) (hlatest : n'.latest = m.latest)
    (hstatus : n'.status ≠ .initializing) :
    Outdates (getRootRoundNumber (some uc)) n' := by
  have hluc := NodeState.luc_of_latest hlatest
  have hltr := NodeState.ltr_of_latest hlatest
  refine ⟨hstatus, ?_⟩
  rw [hluc, hltr]
  cases h with
  | stale hvalid hrecovering hlt =>
    cases hlast : n.luc with
    | none =>
      rw [hlast] at hlt
      exact absurd hlt (UInt64.not_lt.mpr UInt64.zero_le)
    | some luc => exact ⟨luc, rfl, Or.inl (hlast ▸ hlt)⟩
  | duplicate hvalid hcheck hsame hpresent =>
    rcases hcoherent with ⟨hnone, _⟩ | ⟨_, luc, _, _, hlast, _⟩
    · rw [hnone] at hpresent
      cases hpresent
    · have hround := hduplicate.rootRound_eq hsame
      rw [hlast] at hround
      exact ⟨luc, hlast, Or.inr ⟨hround, hpresent⟩⟩
  | adopted leader hadoptable => exact ⟨uc, rfl, Or.inr ⟨rfl, rfl⟩⟩

theorem handleUnicityCertificate_of_seen {uc : UnicityCertificate} {tr : Option TechnicalRecord}
    {m : Node C} (hseen : (updateLUC lib conf uc tr).run n = .ok () m) :
    (handleUnicityCertificate lib conf env uc tr).run n =
      if m.status = .recovering then .ok () m
      else (processCertificate lib conf env uc n.luc (decide (m.status = .initializing))).run
        m.endInitialization := by
  simp only [handleUnicityCertificate, EStateM.run_bind, EStateM.run_get, EStateM.run_adaptExcept,
    hseen, run_ite, EStateM.run_modify]
  rfl

theorem handleCertificationResponse_of_valid {cr : CertificationResponse}
    (hvalid : CertificationResponse.isValid lib (some cr) = .ok ())
    (hown : cr.partition = n.shardConf.partitionID ∧ cr.shard = n.shardConf.shardID) :
    (handleCertificationResponse lib conf env (some cr)).run n =
      (handleUnicityCertificate lib conf env cr.uc (some cr.technical)).run n := by
  simp only [handleCertificationResponse, EStateM.run_bind, EStateM.run_get, run_ofExcept, hvalid,
    Option.getD_some, run_ensure, hown, and_self, if_true]

/-- A processed response outdates its own certificate. -/
theorem Processes.outdates (hduplicate : lib.DuplicateLaw)
    (hcoherent : LeaderCoherent lib n.toNodeState) {cr : CertificationResponse}
    (h : Processes lib conf n cr) :
    Outdates (getRootRoundNumber (some cr.uc))
      (final ((handleCertificationResponse lib conf env (some cr)).run n)) := by
  obtain ⟨m, hseen⟩ := h.seen
  have hluc := updateLUC_spec lib conf n cr.uc (some cr.technical)
  rw [hseen] at hluc
  rw [handleCertificationResponse_of_valid h.valid h.own, handleUnicityCertificate_of_seen hseen]
  by_cases hrecovering : m.status = .recovering
  · rw [if_pos hrecovering]
    exact hluc.outdates hduplicate hcoherent rfl (by simp [hrecovering])
  · rw [if_neg hrecovering, Node.endInitialization_eq m hrecovering]
    have hexit := processCertificate_spec lib conf env cr.uc n.luc
      (decide (m.status = .initializing)) (m.setStatus .normal) rfl
    exact hluc.outdates hduplicate hcoherent hexit.latest_eq (hexit.status_ne rfl)

/-! ## Handling it again -/

theorem Node.setStatus_of_eq {status : Status} (h : n.status = status) :
    n.setStatus status = n := by
  subst h
  rfl

/-- A running node ignores a duplicate. -/
theorem CertificateExit.eq_of_duplicate {uc : UnicityCertificate}
    {prevLUC : Option UnicityCertificate} {m : Node C}
    {result : EStateM.Result Err (Node C) Unit}
    (h : CertificateExit lib conf env uc prevLUC false m result)
    (hduplicate : lib.isDuplicate uc prevLUC = true) : final result = m := by
  cases h with
  | ignored => rfl
  | resumed _ hfirst => cases hfirst
  | _ => simp_all

/-- A certificate of an outdated root round changes nothing. -/
theorem Outdates.handleUnicityCertificate (hequivocation : lib.EquivocationLaw)
    (hduplicate : lib.DuplicateLaw) {uc : UnicityCertificate}
    (h : Outdates (getRootRoundNumber (some uc)) n) (tr : Option TechnicalRecord) :
    final ((handleUnicityCertificate lib conf env uc tr).run n) = n := by
  obtain ⟨luc, hlast, hround⟩ := h.latest
  -- it is not new enough to replace the latest one
  have hold : ∀ leader, ¬Adoptable lib conf n uc tr leader := by
    intro leader hadoptable
    have hle := rootRound_le_of_adoptable hequivocation hadoptable
    rw [hlast] at hle
    rcases hround with hlt | ⟨heq, hltr⟩
    · exact absurd hlt (not_lt.mpr hle)
    · refine hadoptable.isNew ⟨?_, hltr⟩
      rw [hlast]
      exact hduplicate.of_rootRound_eq heq
  have hexit := handleUnicityCertificate_spec lib conf env n uc tr
  generalize (FinalityGadget.handleUnicityCertificate lib conf env uc tr).run n = result at hexit
  cases hexit with
  | rejected err => rfl
  | recovering hstatus m hluc =>
    cases hluc with
    | stale | duplicate => rfl
    | adopted leader hadoptable => exact absurd hadoptable (hold leader)
  | processed hstatus m haccepted result hexit =>
    cases haccepted with
    | adopted leader hadoptable => exact absurd hadoptable (hold leader)
    | duplicate hvalid hcheck hsame hltr =>
      have hnormal : n.status = .normal := by
        cases hcase : n.status with
        | initializing => exact absurd hcase h.status
        | normal => rfl
        | recovering => exact absurd hcase hstatus
      rw [decide_eq_false h.status] at hexit
      exact (hexit.eq_of_duplicate hsame).trans (Node.setStatus_of_eq hnormal)

theorem Outdates.handleCertificationResponse (hequivocation : lib.EquivocationLaw)
    (hduplicate : lib.DuplicateLaw) {cr : CertificationResponse}
    (hvalid : CertificationResponse.isValid lib (some cr) = .ok ())
    (h : Outdates (getRootRoundNumber (some cr.uc)) n) :
    final ((handleCertificationResponse lib conf env (some cr)).run n) = n := by
  by_cases hown : cr.partition = n.shardConf.partitionID ∧ cr.shard = n.shardConf.shardID
  · rw [handleCertificationResponse_of_valid hvalid hown]
    exact h.handleUnicityCertificate hequivocation hduplicate (some cr.technical)
  · simp only [FinalityGadget.handleCertificationResponse, EStateM.run_bind, EStateM.run_get,
      run_ofExcept, hvalid, Option.getD_some, run_ensure, if_neg hown]
    rfl

end Outdates

/-- After a run in which a node has processed a response, handling the same response again leaves
the whole node unchanged. -/
theorem redelivered_response_ignored {lib : BaseLibrary C} {conf : NodeConf}
    (hequivocation : lib.EquivocationLaw) (hduplicate : lib.DuplicateLaw) {store : BlockStore C}
    {start : Node C} (hstart : Starts lib conf store start) (before after : List (Input C))
    {cr : CertificationResponse} (envs : ℕ → Env)
    (hprocesses : Processes lib conf (runNode lib conf start before) cr) (env : Env) :
    final ((handleCertificationResponse lib conf env (some cr)).run
        (runNode lib conf start (before ++ ⟨.certificationResponse (some cr), envs⟩ :: after))) =
      runNode lib conf start (before ++ ⟨.certificationResponse (some cr), envs⟩ :: after) := by
  have hcoherent : LeaderCoherent lib (runNode lib conf start before).toNodeState :=
    ((started_of_starts lib conf hstart).coherent.run hequivocation hduplicate before).leader
  have hfirst : Outdates (getRootRoundNumber (some cr.uc)) (step lib conf
      (runNode lib conf start before) ⟨.certificationResponse (some cr), envs⟩) :=
    hprocesses.outdates hduplicate hcoherent
  have hlater : Outdates (getRootRoundNumber (some cr.uc)) (runNode lib conf (step lib conf
      (runNode lib conf start before) ⟨.certificationResponse (some cr), envs⟩) after) :=
    hfirst.run hequivocation hduplicate after
  rw [runNode_append]
  exact hlater.handleCertificationResponse hequivocation hduplicate hprocesses.valid

section Reference

open Reference

/-- The leader has proposed in the round that a response has opened. The response arrives again, and
the proposal stays. -/
theorem redelivered_response_keeps_proposal :
    (final ((handleCertificationResponse referenceLibrary (conf "A" [1]) (env 10)
        (some (response (certify { roundNumber := 1 } 5 (technical 2 "A")) (technical 2 "A")))).run
      (runNode referenceLibrary (conf "A" [1]) node proposing))).pendingBlockProposal =
        some proposedBlock := by
  have hprocesses : Processes referenceLibrary (conf "A" [1])
      (runNode referenceLibrary (conf "A" [1]) node [])
      (response (certify { roundNumber := 1 } 5 (technical 2 "A")) (technical 2 "A")) :=
    ⟨rfl, ⟨rfl, rfl⟩, _, rfl⟩
  have hpending : (runNode referenceLibrary (conf "A" [1]) node proposing).pendingBlockProposal =
      some proposedBlock := rfl
  have hkept := redelivered_response_ignored equivocationLaw duplicateLaw (starts_empty "A" [1]) []
    [input 10 .t1Timeout] (fun _ ↦ env 10) hprocesses (env 10)
  exact (congrArg (fun n ↦ n.pendingBlockProposal) hkept).trans hpending

end Reference

end FinalityGadget
