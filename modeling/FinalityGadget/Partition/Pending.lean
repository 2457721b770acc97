import FinalityGadget.Partition.Frame
import FinalityGadget.Partition.Reference

/-!
# The pending proposal in two places

The node keeps the proposed block and the transaction system keeps its state hash. A certificate
finalizes the block only if the hash is the certified one, and a follower votes only if no hash is
pending, so the two copies have to change together. The handlers change them separately: an error
after a timeout takes the hash back but not the block, and a new round drops the block but not the
hash.
-/

namespace FinalityGadget

open Bytes Fallible

variable {C : Type}

/-- The proposed block and the pending state hash. -/
def Node.held (n : Node C) : Option (Block C) × Slice :=
  (n.pendingBlockProposal, n.transactionSystem.pendingStateHash)

/-! ## What the handlers do to the two copies -/

section Handlers

variable (lib : BaseLibrary C) (conf : NodeConf) (env : Env)

/-- The timer of a leader gets as far as recording the proposal of a candidate. -/
structure Records (n : Node C) (data : List UInt8) (ir : InputRecord) (block : Block C) : Prop where
  announced : ∃ m, Announced lib conf env n data m
  delivered : env.sendProposal = .ok ()
  built : buildProposal lib n.toNodeState (lib.peerIDString conf.peerID)
    (n.transactionSystem.summaryOf (some data)) = .ok (ir, block)
  stored : env.writeProposal = .ok ()

/-- The request for a recorded proposal is signed and reaches the root nodes. -/
structure Dispatches (n : Node C) (ir : InputRecord) (block : Block C) : Prop where
  prepared : ∃ prepared, prepareRequest lib conf n.toNodeState ir block = .ok prepared
  delivered : env.sendRequest = .ok ()

/-- The two copies after a timeout. -/
inductive TimeoutHeld (n : Node C) : Option (Block C) × Slice → Prop where
  | kept : TimeoutHeld n n.held
  | reverted (hstatus : n.status ≠ .recovering) (hleader : n.leader = conf.peerID)
      (hnone : ∀ data ir block, ¬Records lib conf env n data ir block) :
      TimeoutHeld n (n.pendingBlockProposal, none)
  | stranded (hstatus : n.status ≠ .recovering) (hleader : n.leader = conf.peerID)
      (data : List UInt8) (ir : InputRecord) (block : Block C)
      (hrecords : Records lib conf env n data ir block)
      (hdispatch : ¬Dispatches lib conf env n ir block) : TimeoutHeld n (some block, none)
  | recorded (data : List UInt8) (ir : InputRecord) (block : Block C)
      (hrecords : Records lib conf env n data ir block) : TimeoutHeld n (some block, some data)

/-- The two copies after a vote. -/
inductive VoteHeld (prop : BlockProposal) (n : Node C) : Option (Block C) × Slice → Prop where
  | kept : VoteHeld prop n n.held
  | unbuilt (hclean : n.transactionSystem.pendingStateHash = none)
      (hbuild : ∀ built, buildProposal lib n.toNodeState (lib.peerIDString prop.nodeID)
        (n.transactionSystem.summaryOf prop.proposedRoot) ≠ .ok built) :
      VoteHeld prop n (n.pendingBlockProposal, prop.proposedRoot)
  | recorded (ir : InputRecord) (block : Block C)
      (hbuild : buildProposal lib n.toNodeState (lib.peerIDString prop.nodeID)
        (n.transactionSystem.summaryOf prop.proposedRoot) = .ok (ir, block)) :
      VoteHeld prop n (some block, prop.proposedRoot)

/-- The two copies after a certificate. -/
inductive CertificateHeld (uc : UnicityCertificate) (prevLUC : Option UnicityCertificate)
    (wasInitializing : Bool) (m : Node C) : Option (Block C) × Slice → Prop where
  | kept : CertificateHeld uc prevLUC wasInitializing m m.held
  | dropped : CertificateHeld uc prevLUC wasInitializing m (none, none)
  | reopened (hduplicate : lib.isDuplicate uc prevLUC = true) (hfirst : wasInitializing = true) :
      CertificateHeld uc prevLUC wasInitializing m (none, m.transactionSystem.pendingStateHash)
  | stripped (proposal : Block C) (hpending : m.pendingBlockProposal = some proposal) :
      CertificateHeld uc prevLUC wasInitializing m
        (some { proposal with unicityCertificate := none }, m.transactionSystem.pendingStateHash)

end Handlers

section Exits

variable {lib : BaseLibrary C} {conf : NodeConf} {env : Env}

theorem startNewRound_held (n : Node C) (env : Env) :
    (n.startNewRound env).held = (none, n.transactionSystem.pendingStateHash) := by
  rw [Node.held, Node.startNewRound_pendingBlockProposal, Node.startNewRound_transactionSystem]

theorem startRecovery_held (n : Node C) (env : Env) (h : n.status ≠ .recovering) :
    (n.startRecovery lib conf env).held = (none, none) := by
  rw [Node.held, n.startRecovery_pendingBlockProposal lib conf env h,
    n.startRecovery_transactionSystem lib conf env h]
  rfl

/-- A candidate that was announced is the only one that can be recorded. -/
theorem Records.data_eq {n m : Node C} {data data' : List UInt8} {ir : InputRecord}
    {block : Block C} (h : Records lib conf env n data' ir block)
    (hannounced : Announced lib conf env n data m) : data' = data := by
  obtain ⟨m', hannounced'⟩ := h.announced
  obtain ⟨height, _, _, hcandidate, _⟩ := hannounced
  exact hannounced'.data_unique lib conf hcandidate

theorem TimeoutExit.held {n : Node C} {result : EStateM.Result Err (Node C) Unit}
    (h : TimeoutExit lib conf env n result) :
    TimeoutHeld lib conf env n (final result).held := by
  cases h with
  | idle => exact .kept
  | abandoned hstatus hleader hnone =>
    refine .reverted hstatus hleader fun data ir block hrecords ↦ ?_
    obtain ⟨m, hannounced⟩ := hrecords.announced
    exact hnone data m hannounced
  | unproposed data m hstatus hleader hannounced hsend =>
    obtain ⟨height, _, _, _, _, _, rfl⟩ := hannounced
    exact .reverted hstatus hleader fun data ir block hrecords ↦ hsend hrecords.delivered
  | unrequested data m m' err hstatus hleader hannounced hrequest hsend =>
    have hdata : ∀ data' ir block, Records lib conf env n data' ir block → data' = data :=
      fun data' ir block hrecords ↦ hrecords.data_eq hannounced
    have hexists : ∃ m, Announced lib conf env n data m := ⟨m, hannounced⟩
    obtain ⟨height, _, _, _, _, _, rfl⟩ := hannounced
    cases hrequest with
    | unbuilt _ hbuild =>
      refine .reverted hstatus hleader fun data' ir block hrecords ↦ ?_
      have hbuilt := hrecords.built
      rw [hdata data' ir block hrecords] at hbuilt
      exact hbuild _ hbuilt
    | unstored _ hwrite =>
      exact .reverted hstatus hleader fun data' ir block hrecords ↦ hwrite hrecords.stored
    | unsent _ ir block hbuild hprepare hwrite =>
      refine .stranded hstatus hleader data ir block ⟨hexists, hsend, hbuild, hwrite⟩ ?_
      rintro ⟨⟨prepared, hprepared⟩, _⟩
      exact hprepare prepared hprepared
    | undelivered _ ir block request rootIDs hbuild hprepare hundelivered hwrite =>
      refine .stranded hstatus hleader data ir block ⟨hexists, hsend, hbuild, hwrite⟩ ?_
      exact fun hdispatch ↦ hundelivered hdispatch.delivered
  | requested data m m' hstatus hleader hannounced hrequest hsend =>
    have hexists : ∃ m, Announced lib conf env n data m := ⟨m, hannounced⟩
    obtain ⟨height, _, _, _, _, _, rfl⟩ := hannounced
    cases hrequest with
    | sent ir block request rootIDs hbuild hprepare hwrite =>
      exact .recorded data ir block ⟨hexists, hsend, hbuild, hwrite⟩

theorem VoteExit.held {prop : BlockProposal} {uc : UnicityCertificate} {n : Node C}
    {result : EStateM.Result Err (Node C) Unit} (h : VoteExit lib conf env prop uc n result) :
    VoteHeld lib prop n (final result).held := by
  have hreverted : n.transactionSystem.pendingStateHash = none →
      VoteHeld lib prop n (n.pendingBlockProposal, none) := by
    intro hclean
    have hheld : n.held = (n.pendingBlockProposal, none) := by rw [Node.held, hclean]
    rw [← hheld]
    exact .kept
  cases h with
  | refused err => exact .kept
  | unverified err helectable => exact hreverted helectable.clean
  | unrequested height err cause m helectable hverified hrequest =>
    cases hrequest with
    | unbuilt _ hbuild => exact .unbuilt helectable.clean hbuild
    | unstored _ hwrite => exact hreverted helectable.clean
    | unsent _ ir block hbuild => exact .recorded ir block hbuild
    | undelivered _ ir block request rootIDs hbuild => exact .recorded ir block hbuild
  | requested height m helectable hverified hrequest =>
    cases hrequest with
    | sent ir block request rootIDs hbuild => exact .recorded ir block hbuild

theorem CertificateExit.held {uc : UnicityCertificate} {prevLUC : Option UnicityCertificate}
    {wasInitializing : Bool} {m : Node C} {result : EStateM.Result Err (Node C) Unit}
    (hnormal : m.status = .normal)
    (h : CertificateExit lib conf env uc prevLUC wasInitializing m result) :
    CertificateHeld lib uc prevLUC wasInitializing m (final result).held := by
  have hrunning : m.status ≠ .recovering := by simp [hnormal]
  cases h with
  | ignored | unknown => exact .kept
  | resumed hduplicate hfirst =>
    rw [final_ok, startNewRound_held]
    exact .reopened hduplicate hfirst
  | repeated =>
    rw [final_ok, startNewRound_held]
    exact .dropped
  | behind =>
    rw [final_error, startRecovery_held m env hrunning]
    exact .dropped
  | initial hnew hsuccessor hpending hinitial =>
    rw [final_ok, startNewRound_held, ← hpending]
    exact .kept
  | current hnew hsuccessor hpending hclean hhash =>
    rw [final_ok, startNewRound_held, hclean]
    exact .dropped
  | unencodable err proposal hnew hpending hmarshal => exact .stripped proposal hpending
  | unfinalized err cause proposal encoded m' hnew hsuccessor hmarshal hfinalize =>
    have hstatus : m'.status = m.status := hfinalize.status_eq
    rw [final_error, startRecovery_held m' env (hstatus ▸ hrunning)]
    exact .dropped
  | finalized =>
    rw [final_ok, startNewRound_held]
    exact .dropped

/-- A replicated block leaves the pending hash alone or clears it. -/
theorem BlockExit.pendingStateHash_cases {n : Node C} {block : Option (Block C)}
    {result : EStateM.Result Err (Node C) Unit} (h : BlockExit lib conf env n block result) :
    (final result).transactionSystem.pendingStateHash = n.transactionSystem.pendingStateHash ∨
      (final result).transactionSystem.pendingStateHash = none := by
  cases h with
  | rejected err => exact Or.inl rfl
  | refused err uc m hluc => cases hluc <;> exact Or.inl rfl
  | reverted err uc m hluc => exact Or.inr rfl
  | skipped uc m hluc => cases hluc <;> exact Or.inl rfl
  | applied b uc m height hblock huc hluc happlicable hwrite => exact Or.inr rfl

theorem Quiet.held_eq {n n' : Node C} (h : Quiet conf n n') : n'.held = n.held := by
  rw [Node.held, Node.held, h.pendingBlockProposal, ← h.transactionSystem]

theorem Accepted.held_eq {n m : Node C} {uc : UnicityCertificate} {tr : Option TechnicalRecord}
    (h : Accepted lib conf n uc tr m) : (m.setStatus .normal).held = n.held := by
  cases h <;> rfl

theorem adopt_held_eq {n m : Node C} {uc : UnicityCertificate} {tr : Option TechnicalRecord}
    (h : LUCExit lib conf n uc tr (.ok () m)) : m.held = n.held := by
  cases h <;> rfl

end Exits

/-! ## The copies agree -/

/-- The pending hash is the state hash of the proposal. -/
def Matches (lib : BaseLibrary C) (held : Option (Block C) × Slice) : Prop :=
  ∀ proposal, held.1 = some proposal → ∀ ir, lib.blockInputRecord proposal = .ok ir →
    held.2.bytes = ir.hash.bytes

/-- A timeout of an active leader that records a proposal also dispatches the request, and while a
proposal is pending it does record one. A vote of a node with a proposal but without a pending hash
builds its block. -/
def finalizeGuard (lib : BaseLibrary C) (conf : NodeConf) : Guard C where
  timeout n env := n.status ≠ .recovering → n.leader = conf.peerID →
    (n.pendingBlockProposal ≠ none → ∃ data ir block, Records lib conf env n data ir block) ∧
      ∀ data ir block, Records lib conf env n data ir block → Dispatches lib conf env n ir block
  vote n prop := n.pendingBlockProposal ≠ none →
    n.transactionSystem.pendingStateHash = none →
    ∃ built, buildProposal lib n.toNodeState (lib.peerIDString prop.nodeID)
      (n.transactionSystem.summaryOf prop.proposedRoot) = .ok built

theorem finalizeGuard_sound {lib : BaseLibrary C} (hduplicate : lib.DuplicateLaw)
    (conf : NodeConf) : (finalizeGuard lib conf).Sound lib where
  vote_of_fresh := fun _ hfresh hpending ↦ absurd hfresh hpending
  vote_of_duplicate := by
    intro n prop uc luc hlt hsame
    rw [hduplicate.rootRound_eq hsame] at hlt
    exact absurd hlt (lt_irrefl _)
  certificate_of_normal := fun _ ↦ trivial

section Agreement

variable {lib : BaseLibrary C} {conf : NodeConf} {n n' : Node C}

theorem matches_none (lib : BaseLibrary C) (hash : Slice) : Matches lib (none, hash) := by
  intro proposal hproposal
  cases hproposal

variable (hcbor : lib.CborLaw) (hhash : lib.BlockHashLaw) (hrecord : lib.BlockRecordLaw)

include hcbor hhash hrecord in
/-- A block built for a root matches the root. -/
theorem matches_built {author : String} {root : Slice} {ir : InputRecord} {block : Block C}
    (hbuild : buildProposal lib n.toNodeState author (n.transactionSystem.summaryOf root) =
      .ok (ir, block)) : Matches lib (some block, root) := by
  have hbuilt := built_of_buildProposal lib hcbor hhash hrecord hbuild
  rintro _ ⟨⟩ record hblock
  rw [hbuilt.record] at hblock
  cases hblock
  rw [hbuilt.ir_eq]
  rfl

include hrecord in
theorem Matches.certificate {uc : UnicityCertificate} {prevLUC : Option UnicityCertificate}
    {wasInitializing : Bool} {m : Node C} {held : Option (Block C) × Slice}
    (h : Matches lib m.held) (hheld : CertificateHeld lib uc prevLUC wasInitializing m held) :
    Matches lib held := by
  cases hheld with
  | kept => exact h
  | dropped => exact matches_none lib none
  | reopened => exact matches_none lib _
  | stripped proposal hpending =>
    -- a block without a certificate has no record to compare with
    rintro _ ⟨⟩ ir hir
    obtain ⟨encoded, _, hencoded, _⟩ := hrecord.certificate hir
    cases hencoded

include hcbor hhash hrecord in
theorem Matches.timeout {env : Env} {held : Option (Block C) × Slice} (h : Matches lib n.held)
    (hguard : (finalizeGuard lib conf).timeout n env)
    (hheld : TimeoutHeld lib conf env n held) : Matches lib held := by
  cases hheld with
  | kept => exact h
  | reverted hstatus hleader hnone =>
    have hfresh : n.pendingBlockProposal = none := by
      by_contra hpending
      obtain ⟨data, ir, block, hrecords⟩ := (hguard hstatus hleader).1 hpending
      exact hnone data ir block hrecords
    rw [hfresh]
    exact matches_none lib none
  | stranded hstatus hleader data ir block hrecords hdispatch =>
    exact absurd ((hguard hstatus hleader).2 data ir block hrecords) hdispatch
  | recorded data ir block hrecords => exact matches_built hcbor hhash hrecord hrecords.built

include hcbor hhash hrecord in
theorem Matches.vote {prop : BlockProposal} {held : Option (Block C) × Slice}
    (h : Matches lib n.held) (hguard : (finalizeGuard lib conf).vote n prop)
    (hheld : VoteHeld lib prop n held) : Matches lib held := by
  cases hheld with
  | kept => exact h
  | unbuilt hclean hbuild =>
    have hfresh : n.pendingBlockProposal = none := by
      by_contra hpending
      obtain ⟨built, hbuilt⟩ := hguard hpending hclean
      exact hbuild built hbuilt
    rw [hfresh]
    exact matches_none lib _
  | recorded ir block hbuild => exact matches_built hcbor hhash hrecord hbuild

include hcbor hhash hrecord in
theorem Matches.segment (h : Matches lib n.held) (hidle : Idle n)
    (hsegment : Segment lib conf (finalizeGuard lib conf) n n') : Matches lib n'.held := by
  cases hsegment with
  | quiet hquiet =>
    rw [hquiet.held_eq]
    exact h
  | adopt hstatus htr hluc =>
    rw [adopt_held_eq hluc]
    exact h
  | certificate henv hstatus hguard htr haccepted hexit =>
    rw [← haccepted.held_eq] at h
    exact h.certificate hrecord (hexit.held rfl)
  | timeout henv hguard hexit => exact h.timeout hcbor hhash hrecord hguard hexit.held
  | vote henv hstatus hguard hvote => exact h.vote hcbor hhash hrecord hguard hvote.held
  | block henv hstatus hexit =>
    rw [Node.held, hexit.pendingBlockProposal_eq, hidle hstatus]
    exact matches_none lib _
  | finish henv hstatus hcomplete =>
    rw [startNewRound_held]
    exact matches_none lib _
  | stop hstatus hcomplete => exact h

theorem Started.idle {store : BlockStore C} (h : Started lib conf store n) : Idle n := by
  intro hstatus
  rw [h.status] at hstatus
  cases hstatus

include hrecord in
theorem Started.matches {store : BlockStore C} (h : Started lib conf store n) :
    Matches lib n.held := by
  cases h.replay with
  | nothing hproposal hstate =>
    rw [Node.held, hproposal]
    exact matches_none lib _
  | proposal proposal uc hstored huc hextends hproposal hstate =>
    rw [Node.held, hproposal, hstate]
    rintro _ ⟨⟩ ir hir
    obtain ⟨encoded, uc', hencoded, hdecoded, hinput⟩ := hrecord.certificate hir
    simp only [getUCv1, hencoded, hdecoded] at huc
    cases huc
    rw [getStateHash_of_record hinput]

/-- The copies agree, and there are none during a recovery. -/
structure InStep (lib : BaseLibrary C) (n : Node C) : Prop where
  agrees : Matches lib n.held
  idle : Idle n

/-- A certificate of the pending proposal is committed: the commit cannot fail, and the node does
not start a recovery unless the certificate does not follow the committed one or the block cannot be
written. -/
structure Finalizable (lib : BaseLibrary C) (conf : NodeConf) (n : Node C) : Prop where
  matches_record : Matches lib n.held
  commits : ∀ {proposal ir uc}, n.pendingBlockProposal = some proposal →
    lib.blockInputRecord proposal = .ok ir →
    lib.assertEqualIR (some ir) uc.inputRecord = .ok () →
    (FGPTxSystem.commit uc).run n.transactionSystem = .ok () (n.transactionSystem.committed uc)
  stays : ∀ {proposal ir uc env tr}, n.pendingBlockProposal = some proposal →
    lib.blockInputRecord proposal = .ok ir →
    lib.assertEqualIR (some ir) uc.inputRecord = .ok () → n.status ≠ .recovering →
    lib.isSuccessor uc n.committedUC = true → env.writeBlock = .ok () →
    (final ((handleUnicityCertificate lib conf env uc tr).run n)).status ≠ .recovering

/-- The hash of a certified proposal is the pending one. -/
theorem Matches.of_equalIR (hequalIR : lib.EqualIRLaw) (h : Matches lib n.held)
    {proposal : Block C} {ir : InputRecord} {uc : UnicityCertificate}
    (hproposal : n.pendingBlockProposal = some proposal)
    (hir : lib.blockInputRecord proposal = .ok ir)
    (hequal : lib.assertEqualIR (some ir) uc.inputRecord = .ok ()) :
    n.transactionSystem.pendingStateHash.bytes = (getStateHash (some uc)).bytes := by
  obtain ⟨record, hinput, hsame⟩ := hequalIR hequal
  rw [getStateHash_of_record hinput, ← hsame.hash]
  exact h proposal hproposal ir hir

theorem CertificateExit.stays (hequalIR : lib.EqualIRLaw) {env : Env} {uc : UnicityCertificate}
    {prevLUC : Option UnicityCertificate} {wasInitializing : Bool} {m : Node C}
    {result : EStateM.Result Err (Node C) Unit} (h : Matches lib m.held)
    (hexit : CertificateExit lib conf env uc prevLUC wasInitializing m result)
    {proposal : Block C} {ir : InputRecord} (hproposal : m.pendingBlockProposal = some proposal)
    (hir : lib.blockInputRecord proposal = .ok ir)
    (hequal : lib.assertEqualIR (some ir) uc.inputRecord = .ok ()) (hnormal : m.status = .normal)
    (hsuccessor : lib.isSuccessor uc m.committedUC = true) (hwrite : env.writeBlock = .ok ()) :
    (final result).status ≠ .recovering := by
  cases hexit with
  | ignored | unknown => simp [hnormal]
  | resumed | initial | current => simp [hnormal]
  | repeated | unencodable | finalized =>
    simp [hnormal, Node.revertState, Node.setProposal, Node.finalized, Node.setTx, Node.store]
  | behind err hnew hbehind =>
    cases hbehind with
    | gap hgap => simp [hsuccessor] at hgap
    | unproposed hnone => simp [hproposal] at hnone
    | differs other hother hdiffers =>
      rw [hproposal] at hother
      cases hother
      exact absurd hequal (hdiffers ir hir)
  | unfinalized err cause _ encoded m' hnew _ hmarshal hfinalize =>
    have hhash := h.of_equalIR hequalIR hproposal hir hequal
    cases hfinalize with
    | unwritten _ hunwritten => exact absurd hwrite hunwritten
    | mismatched _ hne => exact absurd hhash hne
    | undeleted _ hne => exact absurd hhash hne

theorem Matches.finalizable (hequalIR : lib.EqualIRLaw) (h : Matches lib n.held) :
    Finalizable lib conf n where
  matches_record := h
  commits hproposal hir hequal :=
    FGPTxSystem.commit_of_equal (h.of_equalIR hequalIR hproposal hir hequal)
  stays {proposal ir uc env tr} hproposal hir hequal hrunning hsuccessor hwrite := by
    have hexit := handleUnicityCertificate_spec lib conf env n uc tr
    generalize (handleUnicityCertificate lib conf env uc tr).run n = result at hexit
    cases hexit with
    | rejected => exact hrunning
    | recovering hstatus => exact absurd hstatus hrunning
    | processed _ m haccepted _ hexit =>
      rw [← haccepted.held_eq] at h
      cases haccepted <;>
        exact hexit.stays hequalIR h hproposal hir hequal rfl hsuccessor hwrite

include hcbor hhash hrecord

/-- In every state that is reached without a timeout or vote that loses one of the two copies, a
pending proposal can be finalized. -/
theorem pending_finalizable (hduplicate : lib.DuplicateLaw) (hequalIR : lib.EqualIRLaw)
    {store : BlockStore C} (hstart : Starts lib conf store n) (inputs : List (Input C))
    (hadmits : Run.Guarded (step lib conf) ((finalizeGuard lib conf).Admits lib conf) n inputs) :
    Finalizable lib conf (runNode lib conf n inputs) := by
  have hstarted := started_of_starts lib conf hstart
  have hinvariant : InStep lib (runNode lib conf n inputs) :=
    invariant_runNode (finalizeGuard_sound hduplicate conf)
      (fun hinv hsegment ↦ ⟨hinv.agrees.segment hcbor hhash hrecord hinv.idle hsegment,
        hinv.idle.segment hsegment⟩) ⟨hstarted.matches hrecord, hstarted.idle⟩ hadmits
  exact hinvariant.agrees.finalizable hequalIR

end Agreement

section Reference

open Reference

theorem pending_finalizable_proposing :
    (runNode referenceLibrary (conf "A" [1]) node proposing).held =
        (some proposedBlock, some [10]) ∧
      Finalizable referenceLibrary (conf "A" [1])
        (runNode referenceLibrary (conf "A" [1]) node proposing) := by
  refine ⟨rfl, pending_finalizable cborLaw blockHashLaw blockRecordLaw duplicateLaw equalIRLaw
    (starts_empty "A" [1]) proposing ?_⟩
  refine ⟨⟨fun _ ↦ trivial, fun _ _ _ ↦ trivial, fun _ _ _ _ ↦ trivial⟩,
    ⟨fun _ ↦ trivial, ?_, fun _ _ _ _ ↦ trivial⟩, trivial⟩
  intro _ _
  refine ⟨fun hpending ↦ absurd rfl hpending, fun data ir block _ ↦ ?_⟩
  exact ⟨⟨_, rfl⟩, rfl⟩

/-- The timer of the leader `A` fires while the root nodes cannot be reached. -/
def stranding : List (Input UnicityCertificate) :=
  [deliver { roundNumber := 1 } 5 (technical 2 "A"),
    { event := .t1Timeout, envs := fun _ ↦ { env 10 with sendRequest := .error "no route" } }]

/-- The proposal stays pending without its hash, and its certificate starts a recovery. -/
theorem stranded_proposal_unfinalizable :
    Starts referenceLibrary (conf "A" [1]) OrderedStore.empty node ∧
      (runNode referenceLibrary (conf "A" [1]) node stranding).held = (some proposedBlock, none) ∧
      ¬Matches referenceLibrary (runNode referenceLibrary (conf "A" [1]) node stranding).held ∧
      (runNode referenceLibrary (conf "A" [1]) node
        (stranding ++ [deliver proposedRecord 6 (technical 3 "A")])).status = .recovering := by
  refine ⟨starts_empty "A" [1], rfl, fun hmatches ↦ ?_, rfl⟩
  have hbytes : Slice.bytes none = proposedRecord.hash.bytes :=
    hmatches proposedBlock rfl proposedRecord rfl
  exact absurd hbytes (by decide)

end Reference

/-! ## The pending hash has a proposal -/

/-- A pending hash belongs to a proposal. -/
def Owned (held : Option (Block C) × Slice) : Prop := held.2 ≠ none → held.1 ≠ none

/-- With nothing pending, the block of the proposal can be built. -/
def Buildable (lib : BaseLibrary C) (n : Node C) (prop : BlockProposal) : Prop :=
  n.held = (none, none) → ∃ built, buildProposal lib n.toNodeState (lib.peerIDString prop.nodeID)
    (n.transactionSystem.summaryOf prop.proposedRoot) = .ok built

/-- The first certificate after a restart with a pending hash is not a duplicate of the restored
one, and building the block that a proposal asks for does not fail, whether the node is in the round
already or opens it in the same turn. -/
def resumeGuard (lib : BaseLibrary C) : Guard C where
  everyVote _ := Buildable lib
  certificate n uc := n.status = .initializing → n.transactionSystem.pendingStateHash ≠ none →
    lib.isDuplicate uc n.luc = false

theorem resumeGuard_sound (lib : BaseLibrary C) : (resumeGuard lib).Sound lib where
  vote_of_fresh := fun _ _ ↦ trivial
  vote_of_duplicate := fun _ _ ↦ trivial
  certificate_of_normal := by
    intro n uc hnormal hinitializing
    rw [hnormal] at hinitializing
    cases hinitializing

section Ownership

variable {lib : BaseLibrary C} {conf : NodeConf} {n n' : Node C}

theorem owned_none (proposal : Option (Block C)) : Owned (proposal, none) :=
  fun hhash ↦ absurd rfl hhash

theorem owned_some (proposal : Block C) (hash : Slice) : Owned (some proposal, hash) := by
  intro _ hproposal
  cases hproposal

theorem Owned.timeout {env : Env} {held : Option (Block C) × Slice} (h : Owned n.held)
    (hheld : TimeoutHeld lib conf env n held) : Owned held := by
  cases hheld with
  | kept => exact h
  | reverted | stranded => exact owned_none _
  | recorded data ir block => exact owned_some block (some data)

theorem Owned.vote {prop : BlockProposal} {held : Option (Block C) × Slice} (h : Owned n.held)
    (hguard : Buildable lib n prop) (hheld : VoteHeld lib prop n held) : Owned held := by
  cases hheld with
  | kept => exact h
  | unbuilt hclean hbuild =>
    -- a proposal that is pending already stays, so only a node with none loses by a failed build
    intro _ hnone
    obtain ⟨built, hbuilt⟩ := hguard (Prod.ext hnone hclean)
    exact hbuild built hbuilt
  | recorded ir block hbuild => exact owned_some block prop.proposedRoot

theorem Owned.certificate {uc : UnicityCertificate} {prevLUC : Option UnicityCertificate}
    {wasInitializing : Bool} {m : Node C} {held : Option (Block C) × Slice} (h : Owned m.held)
    (hguard : wasInitializing = true → m.transactionSystem.pendingStateHash ≠ none →
      lib.isDuplicate uc prevLUC = false)
    (hheld : CertificateHeld lib uc prevLUC wasInitializing m held) : Owned held := by
  cases hheld with
  | kept => exact h
  | dropped => exact owned_none none
  | reopened hduplicate hfirst =>
    intro hhash
    have hnew := hguard hfirst hhash
    rw [hduplicate] at hnew
    cases hnew
  | stripped proposal hpending => exact owned_some _ _

theorem Owned.segment (h : Owned n.held) (hidle : Idle n)
    (hsegment : Segment lib conf (resumeGuard lib) n n') : Owned n'.held := by
  cases hsegment with
  | quiet hquiet =>
    rw [hquiet.held_eq]
    exact h
  | adopt hstatus htr hluc =>
    rw [adopt_held_eq hluc]
    exact h
  | certificate henv hstatus hguard htr haccepted hexit =>
    have hhash := congrArg Prod.snd haccepted.held_eq
    rw [← haccepted.held_eq] at h
    refine h.certificate (fun hfirst hpending ↦ ?_) (hexit.held rfl)
    exact hguard (of_decide_eq_true hfirst) fun hnone ↦ hpending (hhash.trans hnone)
  | timeout henv hguard hexit => exact h.timeout hexit.held
  | vote henv hstatus hguard hvote hvalid hevery => exact h.vote hevery hvote.held
  | block henv hstatus hexit =>
    rw [Node.held, hexit.pendingBlockProposal_eq]
    rcases hexit.pendingStateHash_cases with hkept | hnone
    · rw [hkept]
      exact h
    · rw [hnone]
      exact owned_none _
  | finish henv hstatus hcomplete =>
    have hnone : n.transactionSystem.pendingStateHash = none := by
      by_contra hhash
      exact h hhash (hidle hstatus)
    rw [startNewRound_held]
    exact fun hhash ↦ absurd hnone hhash
  | stop hstatus hcomplete => exact h

theorem Started.owned {store : BlockStore C} (h : Started lib conf store n) : Owned n.held := by
  cases h.replay with
  | nothing hproposal hstate =>
    rw [Node.held, hstate]
    exact owned_none _
  | proposal proposal uc hstored huc hextends hproposal hstate =>
    rw [Node.held, hproposal]
    exact owned_some proposal _

/-- Every pending hash has its proposal, and no recovery is entered with one. -/
structure OwnedState (n : Node C) : Prop where
  owned : Owned n.held
  idle : Idle n

/-- In every state that is reached without a duplicate resuming a restored proposal and without a
block that cannot be built, a pending hash belongs to a pending proposal, and without one the
transaction system reports its state. -/
theorem pending_hash_owned {store : BlockStore C}
    (hstart : Starts lib conf store n) (inputs : List (Input C))
    (hadmits : Run.Guarded (step lib conf) ((resumeGuard lib).Admits lib conf) n inputs) :
    Owned (runNode lib conf n inputs).held ∧
      ((runNode lib conf n inputs).pendingBlockProposal = none →
        ∃ summary, (runNode lib conf n inputs).transactionSystem.stateSummary = .ok summary) := by
  have hstarted := started_of_starts lib conf hstart
  have hinvariant : OwnedState (runNode lib conf n inputs) :=
    invariant_runNode (resumeGuard_sound lib)
      (fun hinv hsegment ↦ ⟨hinv.owned.segment hinv.idle hsegment,
        hinv.idle.segment hsegment⟩) ⟨hstarted.owned, hstarted.idle⟩ hadmits
  refine ⟨hinvariant.owned, fun hproposal ↦ ?_⟩
  have hclean : (runNode lib conf n inputs).transactionSystem.pendingStateHash = none := by
    by_contra hhash
    exact hinvariant.owned hhash hproposal
  exact ⟨_, FGPTxSystem.stateSummary_ok_iff.mpr ⟨hclean, rfl⟩⟩

end Ownership

section Reference

open Reference

/-- The node restarted on the store with a finalized block and the next proposal. -/
def resuming : Node UnicityCertificate :=
  { restarted with
    pendingBlockProposal := some nextBlock
    transactionSystem := restarted.transactionSystem.setPending (some [11]) 11
    blockStore := (StoreOp.writeProposal nextBlock).apply restarted.blockStore }

theorem starts_resuming (id : PeerID) (key : List UInt8) :
    Starts referenceLibrary (conf id key) resuming.blockStore resuming :=
  ⟨shardConf, _, env 11, env 11, rfl, rfl⟩

/-- The restarted node receives the certificate of its proposal. -/
theorem pending_hash_owned_certified :
    resuming.held = (some nextBlock, some [11]) ∧
      Owned (runNode referenceLibrary (conf "A" [1]) resuming
        [deliver nextRecord 7 (technical 4 "A")]).held := by
  refine ⟨rfl, (pending_hash_owned (starts_resuming "A" [1]) _ ?_).1⟩
  refine ⟨⟨fun _ ↦ trivial, fun _ _ _ _ _ ↦ rfl, ?_⟩, trivial⟩
  rintro _ _ _ (⟨_, ⟨⟩, _⟩ | ⟨_, _, _, ⟨⟩, _⟩)

/-- The restarted node receives its latest certificate again: the new round drops the proposal and
leaves its hash pending, so that no proposal of the leader can be verified. -/
theorem duplicate_orphans_hash :
    Starts referenceLibrary (conf "A" [1])
        (runNode referenceLibrary (conf "A" [1]) node
          (finalizing ++ [input 11 .t1Timeout])).blockStore resuming ∧
      (runNode referenceLibrary (conf "A" [1]) resuming
        [deliver proposedRecord 6 (technical 3 "A")]).held = (none, some [11]) ∧
      ¬Owned (runNode referenceLibrary (conf "A" [1]) resuming
        [deliver proposedRecord 6 (technical 3 "A")]).held ∧
      (runNode referenceLibrary (conf "A" [1]) resuming
        [deliver proposedRecord 6 (technical 3 "A")]).transactionSystem.stateSummary =
          .error errStateContainsUncommittedChanges := by
  have hheld : (runNode referenceLibrary (conf "A" [1]) resuming
      [deliver proposedRecord 6 (technical 3 "A")]).held = (none, some [11]) := rfl
  refine ⟨starts_resuming "A" [1], hheld, fun howned ↦ ?_, rfl⟩
  rw [hheld] at howned
  exact howned (by simp) rfl

end Reference

end FinalityGadget
