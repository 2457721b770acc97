import FinalityGadget.Foundation.LinkedChain
import FinalityGadget.Partition.Restart
import FinalityGadget.Partition.Signing

/-!
# The committed ledger

Two paths append to the block store: a certificate finalizes the pending proposal, and recovery
applies replicated blocks. Both write a successor of the committed certificate on top of it, so the
stored blocks stay one chain whose head is the committed certificate. A proposal is built on the
committed block and does not outlive a commit of another block.
-/

namespace FinalityGadget

open Bytes Fallible LinkedChain

variable {C : Type}

/-- The block extends the certified state and the certified block of its predecessor. -/
def BlockLink (lib : BaseLibrary C) (previous block : Block C) : Prop :=
  ∀ prevUC uc, getUCv1 lib (some previous) = .ok prevUC → getUCv1 lib (some block) = .ok uc →
    (getPreviousStateHash (some uc)).bytes = (getStateHash (some prevUC)).bytes ∧
      block.previousBlockHash.bytes = (getBlockHash (some prevUC)).bytes

/-- The certificate is the one of the stored block of the highest round; there is none if and only
if no block is stored. -/
def Heads (lib : BaseLibrary C) (blocks : UInt64 → Option (Block C)) :
    Option UnicityCertificate → Prop
  | none => ∀ round, blocks round = none
  | some uc => ∃ block, blocks (getRoundNumber (some uc)) = some block ∧
      getUCv1 lib (some block) = .ok uc ∧ Bounds blocks (getRoundNumber (some uc))

/-- The ledger of a node: blocks under the rounds of their validated certificates, linked to each
other, with the committed certificate on top. -/
structure CertifiedChain (lib : BaseLibrary C) (confs : Set NodeConf) (store : BlockStore C)
    (committedUC : Option UnicityCertificate) : Prop where
  certified : ∀ {round block}, storedBlock store round = some block →
    ∃ uc, getUCv1 lib (some block) = .ok uc ∧ getRoundNumber (some uc) = round ∧
      WasValidated lib confs uc
  linked : Linked (BlockLink lib) (storedBlock store)
  head : Heads lib (storedBlock store) committedUC

/-- What the segments keep of the ledger. -/
structure LedgerState (lib : BaseLibrary C) (n : Node C) : Prop where
  linked : Linked (BlockLink lib) (storedBlock n.blockStore)
  head : Heads lib (storedBlock n.blockStore) n.committedUC
  proposal : ∀ block, n.pendingBlockProposal = some block →
    block.previousBlockHash.bytes = (getBlockHash n.committedUC).bytes
  idle : Idle n

/-! ## Appending a block -/

section Append

variable {lib : BaseLibrary C} {blocks : UInt64 → Option (Block C)}
  {committedUC : Option UnicityCertificate}

/-- A successor of the head is above all stored rounds. -/
theorem Heads.lt_of_successor (hlaw : lib.SuccessorLaw) (h : Heads lib blocks committedUC)
    {uc : UnicityCertificate} (hsuccessor : lib.isSuccessor uc committedUC = true) (round : UInt64)
    (hround : (blocks round).isSome) : round < getRoundNumber (some uc) := by
  cases committedUC with
  | none =>
    rw [h round] at hround
    cases hround
  | some prevUC =>
    obtain ⟨_, _, _, hbounds⟩ := h
    calc
      round ≤ getRoundNumber (some prevUC) := hbounds round hround
      _ < getRoundNumber (some uc) := hlaw.round_lt hsuccessor

/-- A block on top of the head is linked to the stored block of the highest round. -/
theorem Heads.blockLink (hlaw : lib.SuccessorLaw) (h : Heads lib blocks committedUC)
    {uc : UnicityCertificate} {block : Block C} (huc : getUCv1 lib (some block) = .ok uc)
    (hsuccessor : lib.isSuccessor uc committedUC = true)
    (hlinked : block.previousBlockHash.bytes = (getBlockHash committedUC).bytes) (top : UInt64)
    (previous : Block C) (htop : blocks top = some previous) (hbounds : Bounds blocks top) :
    BlockLink lib previous block := by
  cases committedUC with
  | none =>
    rw [h top] at htop
    cases htop
  | some committed =>
    obtain ⟨head, hhead, hheadUC, hheadBounds⟩ := h
    have hround : top = getRoundNumber (some committed) := by
      apply le_antisymm
      · exact hheadBounds top (by rw [htop]; rfl)
      · exact hbounds _ (by rw [hhead]; rfl)
    rw [hround, hhead] at htop
    cases htop
    intro prevUC uc' hprev huc'
    rw [hheadUC] at hprev
    rw [huc] at huc'
    cases hprev
    cases huc'
    exact ⟨hlaw.previousHash hsuccessor, hlinked⟩

/-- The appended block is the new head. -/
theorem Heads.append (hlaw : lib.SuccessorLaw) (h : Heads lib blocks committedUC)
    {uc : UnicityCertificate} {block : Block C} (huc : getUCv1 lib (some block) = .ok uc)
    (hsuccessor : lib.isSuccessor uc committedUC = true) :
    Heads lib (Function.update blocks (getRoundNumber (some uc)) (some block)) (some uc) :=
  ⟨block, Function.update_self _ _ _, huc,
    bounds_append (h.lt_of_successor hlaw hsuccessor)⟩

end Append

/-- How a segment changes the ledger: not at all, or by one block on top of the head. -/
inductive LedgerStep (lib : BaseLibrary C) (n n' : Node C) : Prop where
  | kept (hblocks : storedBlock n'.blockStore = storedBlock n.blockStore)
      (hcommitted : n'.committedUC = n.committedUC)
      (hproposal : ∀ block, n'.pendingBlockProposal = some block →
        block.previousBlockHash.bytes = (getBlockHash n.committedUC).bytes)
  | appended (block : Block C) (uc : UnicityCertificate)
      (hblocks : storedBlock n'.blockStore =
        Function.update (storedBlock n.blockStore) (getRoundNumber (some uc)) (some block))
      (huc : getUCv1 lib (some block) = .ok uc)
      (hsuccessor : lib.isSuccessor uc n.committedUC = true)
      (hlinked : block.previousBlockHash.bytes = (getBlockHash n.committedUC).bytes)
      (hcommitted : n'.committedUC = some uc) (hproposal : n'.pendingBlockProposal = none)

theorem LedgerState.step {lib : BaseLibrary C} (hlaw : lib.SuccessorLaw) {n n' : Node C}
    (h : LedgerState lib n) (hstep : LedgerStep lib n n') (hidle : Idle n') :
    LedgerState lib n' := by
  cases hstep with
  | kept hblocks hcommitted hproposal =>
    refine ⟨?_, ?_, ?_, hidle⟩
    · rw [hblocks]
      exact h.linked
    · rw [hblocks, hcommitted]
      exact h.head
    · rw [hcommitted]
      exact hproposal
  | appended block uc hblocks huc hsuccessor hlinked hcommitted hproposal =>
    refine ⟨?_, ?_, ?_, hidle⟩
    · rw [hblocks]
      exact h.linked.append (h.head.lt_of_successor hlaw hsuccessor)
        (h.head.blockLink hlaw huc hsuccessor hlinked)
    · rw [hblocks, hcommitted]
      exact h.head.append hlaw huc hsuccessor
    · intro pending hpending
      rw [hproposal] at hpending
      cases hpending

/-! ## Stored blocks of a segment -/

section Stored

variable {lib : BaseLibrary C} {conf : NodeConf} {env : Env} {n : Node C}

theorem storedBlock_writeProposal (block : Block C) (store : BlockStore C) :
    storedBlock ((StoreOp.writeProposal block).apply store) = storedBlock store := by
  funext round
  exact storedBlock_apply _ store round

theorem storedBlock_writeBlock (round : UInt64) (block : Block C) (store : BlockStore C) :
    storedBlock ((StoreOp.writeBlock round block).apply store) =
      Function.update (storedBlock store) round (some block) := by
  funext other
  rw [storedBlock_apply, Function.update_apply]

/-- Deleting the block just written leaves nothing under its round. -/
theorem storedBlock_deleteBlock {round : UInt64} (block : Block C) {store : BlockStore C}
    (hfree : storedBlock store round = none) :
    storedBlock ((StoreOp.deleteBlock round).apply ((StoreOp.writeBlock round block).apply store)) =
      storedBlock store := by
  funext other
  simp only [storedBlock_apply]
  split
  · rename_i heq
    rw [heq, hfree]
  · rfl

theorem storedBlock_startNewRound (n : Node C) (env : Env) :
    storedBlock (n.startNewRound env).blockStore = storedBlock n.blockStore := by
  unfold Node.startNewRound Node.deletePendingProposal
  split
  · funext round
    exact storedBlock_apply .deleteProposal n.blockStore round
  · rfl

theorem TimeoutExit.storedBlock_eq {result : EStateM.Result Err (Node C) Unit}
    (h : TimeoutExit lib conf env n result) :
    storedBlock (final result).blockStore = storedBlock n.blockStore :=
  h.preserves (fun m ↦ storedBlock m.blockStore) (fun _ _ _ ↦ rfl)
    (fun m block ↦ storedBlock_writeProposal block m.blockStore) (fun _ _ _ ↦ rfl)

theorem VoteExit.storedBlock_eq {prop : BlockProposal} {uc : UnicityCertificate}
    {result : EStateM.Result Err (Node C) Unit} (h : VoteExit lib conf env prop uc n result) :
    storedBlock (final result).blockStore = storedBlock n.blockStore :=
  h.preserves (fun m ↦ storedBlock m.blockStore) (fun _ _ _ ↦ rfl)
    (fun m block ↦ storedBlock_writeProposal block m.blockStore) (fun _ _ _ ↦ rfl)

end Stored

/-! ## Segments -/

/-- Block-store deletes succeed; writes may fail. -/
def deletesGuard : Guard C := Guard.ofEnv fun env ↦ env.deleteBlock = .ok ()

section Steps

variable {lib : BaseLibrary C} {conf : NodeConf}

theorem LedgerStep.congr {n m n' : Node C} (h : LedgerStep lib m n')
    (hstore : m.blockStore = n.blockStore) (hcommitted : m.committedUC = n.committedUC) :
    LedgerStep lib n n' := by
  cases h with
  | kept hblocks hkept hproposal =>
    rw [hstore] at hblocks
    rw [hcommitted] at hkept hproposal
    exact .kept hblocks hkept hproposal
  | appended block uc hblocks huc hsuccessor hlinked hnew hproposal =>
    rw [hstore] at hblocks
    rw [hcommitted] at hsuccessor hlinked
    exact .appended block uc hblocks huc hsuccessor hlinked hnew hproposal

/-- A new round keeps the ledger and drops the proposal. -/
theorem LedgerStep.of_startNewRound {n m : Node C} (env : Env)
    (hblocks : storedBlock m.blockStore = storedBlock n.blockStore)
    (hcommitted : m.committedUC = n.committedUC) : LedgerStep lib n (m.startNewRound env) := by
  refine .kept ?_ ?_ (by simp)
  · rw [storedBlock_startNewRound, hblocks]
  · rw [← hcommitted]
    exact NodeState.committedUC_of_committed (m.startNewRound_committed env)

/-- So does the start of a recovery. -/
theorem LedgerStep.of_startRecovery {n m : Node C} (env : Env) (hrunning : m.status ≠ .recovering)
    (hblocks : storedBlock m.blockStore = storedBlock n.blockStore)
    (hcommitted : m.committedUC = n.committedUC) :
    LedgerStep lib n (m.startRecovery lib conf env) := by
  have hnone := m.startRecovery_pendingBlockProposal lib conf env hrunning
  refine .kept ?_ ?_ (by simp [hnone])
  · rw [Node.startRecovery_blockStore, hblocks]
  · rw [← hcommitted]
    exact NodeState.committedUC_of_committed (m.startRecovery_committed lib conf env)

theorem CertificateExit.ledgerStep (hlaw : lib.SuccessorLaw) (hcbor : lib.CborLaw) {env : Env}
    {uc : UnicityCertificate} {prevLUC : Option UnicityCertificate} {wasInitializing : Bool}
    {m : Node C} {result : EStateM.Result Err (Node C) Unit}
    (hexit : CertificateExit lib conf env uc prevLUC wasInitializing m result)
    (hdelete : env.deleteBlock = .ok ()) (hnormal : m.status = .normal) (h : LedgerState lib m) :
    LedgerStep lib m (final result) := by
  have hrunning : m.status ≠ .recovering := by simp [hnormal]
  have hkept : LedgerStep lib m m := .kept rfl rfl h.proposal
  cases hexit with
  | ignored | unknown => exact hkept
  | resumed | repeated | initial | current => exact .of_startNewRound env rfl rfl
  | behind => exact .of_startRecovery env hrunning rfl rfl
  | unencodable err proposal hnew hpending hmarshal =>
    refine .kept rfl rfl ?_
    rintro _ ⟨⟩
    exact h.proposal proposal hpending
  | unfinalized err cause proposal encoded m' hnew hsuccessor hmarshal hfinalize =>
    cases hfinalize with
    | unwritten => exact .of_startRecovery env hrunning rfl rfl
    | mismatched err hne hdeleted =>
      have hfree : storedBlock m.blockStore (getRoundNumber (some uc)) = none := by
        by_contra hused
        have hlt := h.head.lt_of_successor hlaw hsuccessor _ (Option.isSome_iff_ne_none.mpr hused)
        exact lt_irrefl _ hlt
      exact .of_startRecovery env hrunning (storedBlock_deleteBlock _ hfree) rfl
    | undeleted err hne hdeleted => exact absurd hdelete hdeleted
  | finalized proposal proposedIR encoded hnew hpending hsuccessor hrecord hequal hmarshal hwrite
      hcommit =>
    refine .appended { proposal with unicityCertificate := some encoded } uc ?_
      (hcbor hmarshal) hsuccessor (h.proposal proposal hpending) ?_
      (Node.startNewRound_pendingBlockProposal _ env)
    · rw [final_ok, storedBlock_startNewRound]
      exact storedBlock_writeBlock _ _ m.blockStore
    · exact NodeState.committedUC_of_committed (Node.startNewRound_committed _ env)

/-- The pending proposal stays, or the new one is built on the committed block. -/
theorem Proposing.previousBlockHash (hhash : lib.BlockHashLaw) {n n' : Node C} {root : Slice}
    {height : UInt64} (h : Proposing lib n root height n')
    (hproposal : ∀ block, n.pendingBlockProposal = some block →
      block.previousBlockHash.bytes = (getBlockHash n.committedUC).bytes) (block : Block C)
    (hblock : n'.pendingBlockProposal = some block) :
    block.previousBlockHash.bytes = (getBlockHash n.committedUC).bytes := by
  have hbuilt : ∀ ir built, buildProposal lib n.toNodeState (lib.peerIDString n.leader)
      (n.transactionSystem.summaryOf root) = .ok (ir, built) →
      built.previousBlockHash.bytes = (getBlockHash n.committedUC).bytes := by
    intro ir built hbuild
    rw [Block.previousBlockHash, buildProposal_header lib hhash hbuild]
    rfl
  cases h with
  | kept hkept _ => exact hproposal block (hkept ▸ hblock)
  | recorded ir built hbuild hnew _ =>
    rw [hnew] at hblock
    cases hblock
    exact hbuilt ir _ hbuild
  | requested ir built request hbuild hnew _ _ =>
    rw [hnew] at hblock
    cases hblock
    exact hbuilt ir _ hbuild

theorem LedgerState.proposed (hhash : lib.BlockHashLaw) {n n' : Node C} (h : LedgerState lib n)
    (hblocks : storedBlock n'.blockStore = storedBlock n.blockStore)
    (hcommitted : n'.committed = n.committed)
    (hproposal : n'.pendingBlockProposal = n.pendingBlockProposal ∨
      ∃ root height, Proposing lib n root height n') : LedgerStep lib n n' := by
  have hcommittedUC := NodeState.committedUC_of_committed hcommitted
  rcases hproposal with hkept | ⟨root, height, hproposing⟩
  · refine .kept hblocks hcommittedUC ?_
    rw [hkept]
    exact h.proposal
  · exact .kept hblocks hcommittedUC (hproposing.previousBlockHash hhash h.proposal)

theorem LedgerState.accepted {n m : Node C} {uc : UnicityCertificate}
    {tr : Option TechnicalRecord} (h : LedgerState lib n)
    (haccepted : Accepted lib conf n uc tr m) :
    LedgerState lib (m.setStatus .normal) := by
  cases haccepted <;> exact ⟨h.linked, h.head, h.proposal, fun hstatus ↦ by cases hstatus⟩

theorem Segment.ledgerStep (hlaw : lib.SuccessorLaw) (hcbor : lib.CborLaw)
    (hhash : lib.BlockHashLaw) {n n' : Node C} (h : LedgerState lib n)
    (hsegment : Segment lib conf deletesGuard n n') : LedgerStep lib n n' := by
  cases hsegment with
  | quiet hquiet =>
    have hcommitted : n'.committedUC = n.committedUC := by
      rw [NodeState.committedUC, NodeState.committedUC, ← hquiet.transactionSystem]
    refine .kept (by rw [hquiet.blockStore]) hcommitted ?_
    rw [hquiet.pendingBlockProposal]
    exact h.proposal
  | adopt hstatus htr hluc => cases hluc <;> exact .kept rfl rfl h.proposal
  | certificate hdelete hstatus hguard htr haccepted hexit =>
    have hstep := hexit.ledgerStep hlaw hcbor hdelete rfl (h.accepted haccepted)
    cases haccepted <;> exact hstep.congr rfl rfl
  | timeout henv hguard hexit =>
    refine h.proposed hhash hexit.storedBlock_eq hexit.frame.2.1 ?_
    rcases hexit.proposing with ⟨hproposal, _⟩ | ⟨_, _, _, _, _, _, hproposing⟩
    · exact Or.inl hproposal
    · exact Or.inr ⟨_, _, hproposing⟩
  | vote henv hrunning hguard hvote =>
    refine h.proposed hhash hvote.storedBlock_eq hvote.frame.2.1 ?_
    rcases hvote.proposing with ⟨hproposal, _⟩ | ⟨_, _, _, hproposing⟩
    · exact Or.inl hproposal
    · exact Or.inr ⟨_, _, hproposing⟩
  | block henv hstatus hexit =>
    have hkept : LedgerStep lib n n := .kept rfl rfl h.proposal
    cases hexit with
    | rejected => exact hkept
    | refused err uc m hluc => cases hluc <;> exact .kept rfl rfl h.proposal
    | reverted err uc m hluc => cases hluc <;> exact .kept rfl rfl h.proposal
    | skipped uc m hluc => cases hluc <;> exact .kept rfl rfl h.proposal
    | applied b uc m height hblock huc hluc happlicable hwrite =>
      subst hblock
      have hstore : m.blockStore = n.blockStore := by cases hluc <;> rfl
      have hproposal : m.pendingBlockProposal = none := by
        cases hluc <;> exact h.idle hstatus
      have hcommitted := hluc.committedUC_eq lib conf
      refine .appended b uc ?_ huc (hcommitted ▸ happlicable.successor)
        (hcommitted ▸ happlicable.linked) rfl hproposal
      rw [← hstore]
      exact storedBlock_writeBlock _ _ m.blockStore
  | finish henv hstatus hcomplete => exact .of_startNewRound _ rfl rfl
  | stop hstatus hcomplete => exact .kept rfl rfl h.proposal

/-! ## Runs -/

theorem RestoresCertified.heads {confs : Set NodeConf} {store : BlockStore C} {n : Node C}
    (h : RestoresCertified lib confs store n) : Heads lib (storedBlock store) n.committedUC := by
  rcases h with ⟨hnone, hempty⟩ | ⟨round, block, uc, hblock, hgreatest, huc, rfl, _, hcommitted⟩
  · rw [hnone]
    exact hempty
  · rw [hcommitted]
    exact ⟨block, hblock, huc, hgreatest⟩

/-- A store on which a process may start: well kept, linked and without a pending proposal. -/
structure ChainStore (lib : BaseLibrary C) (confs : Set NodeConf) (store : BlockStore C) : Prop
    extends WellKept lib confs store where
  linked : Linked (BlockLink lib) (storedBlock store)
  noProposal : storedProposal store = none

theorem chainStore_empty {confs : Set NodeConf} :
    ChainStore lib confs (OrderedStore.empty : BlockStore C) :=
  ⟨wellKept_empty, linked_of_empty fun _ ↦ rfl, rfl⟩

theorem ChainStore.ledgerState {confs : Set NodeConf} {store : BlockStore C}
    (h : ChainStore lib confs store) {n : Node C} (hstarted : Started lib conf store n) :
    LedgerState lib n := by
  have hrestores := (h.restoresCertified_iff hstarted).mpr (Or.inr h.noProposal)
  have hproposal : n.pendingBlockProposal = none := by
    cases hstarted.replay with
    | nothing hproposal _ => exact hproposal
    | proposal proposal uc hstored =>
      have hmissing : store.find? proposalKey = none := h.noProposal
      rw [hmissing] at hstored
      cases hstored
  refine ⟨?_, ?_, ?_, fun _ ↦ hproposal⟩
  · rw [hstarted.blockStore]
    exact h.linked
  · rw [hstarted.blockStore]
    exact hrestores.heads
  · simp [hproposal]

/-- A process that starts on an empty store, or on a linked one without a pending proposal, keeps
one certified chain under its committed certificate along every run in which deletes succeed. -/
theorem ledger_certified_chain (hlaw : lib.SuccessorLaw) (hcbor : lib.CborLaw)
    (hhash : lib.BlockHashLaw) {confs : Set NodeConf} (hconf : conf ∈ confs)
    {store : BlockStore C} (hstore : ChainStore lib confs store) {n : Node C}
    (hstart : Starts lib conf store n) (inputs : List (Input C))
    (hdeletes : ∀ input ∈ inputs, ∀ i, (input.envs i).deleteBlock = .ok ()) :
    CertifiedChain lib confs (runNode lib conf n inputs).blockStore
      (runNode lib conf n inputs).committedUC := by
  have hstarted := started_of_starts lib conf hstart
  have hadmits : Run.Guarded (step lib conf) (deletesGuard.Admits lib conf) n inputs :=
    Run.guarded_of_mem
      (fun input hinput n ↦ Guard.ofEnv_admits lib conf n (hdeletes input hinput)) n
  have hstate : LedgerState lib (runNode lib conf n inputs) :=
    invariant_runNode (Guard.ofEnv_sound lib _)
      (fun hinv hsegment ↦ hinv.step hlaw (hsegment.ledgerStep hlaw hcbor hhash hinv)
        (hinv.idle.segment hsegment))
      (hstore.ledgerState hstarted) hadmits
  have htraced : Traced lib conf store (runNode lib conf n inputs) :=
    invariant_runNode (Guard.ofEnv_sound lib _) (fun hinv hsegment ↦ hinv.segment hcbor hsegment)
      hstarted.traced hadmits
  have hkept : WellKept lib confs (runNode lib conf n inputs).blockStore := by
    rw [htraced.blockStore]
    exact hstore.toWellKept.applyOps hconf htraced.certified
  exact ⟨hkept.certified, hstate.linked, hstate.head⟩

end Steps

section Reference

open Reference

/-- A leader whose first two proposals are certified. -/
def Reference.finalizingTwo : List (Input UnicityCertificate) :=
  finalizing ++ [input 11 .t1Timeout, deliver nextRecord 7 (technical 4 "A")]

/-- The ledger of that leader: its second block is linked to the first one. -/
theorem ledger_certified_chain_two_blocks :
    storedBlock (runNode referenceLibrary (conf "A" [1]) node finalizingTwo).blockStore 2 =
        some finalizedBlock ∧
      storedBlock (runNode referenceLibrary (conf "A" [1]) node finalizingTwo).blockStore 3 =
        some { nextBlock with unicityCertificate := some (nextUC 7) } ∧
      CertifiedChain referenceLibrary {conf "A" [1]}
        (runNode referenceLibrary (conf "A" [1]) node finalizingTwo).blockStore
        (runNode referenceLibrary (conf "A" [1]) node finalizingTwo).committedUC := by
  refine ⟨rfl, rfl, ?_⟩
  apply ledger_certified_chain successorLaw cborLaw blockHashLaw (Set.mem_singleton _)
    chainStore_empty (starts_empty "A" [1])
  simp [finalizingTwo, finalizing, proposing, deliver, input, env]

end Reference

end FinalityGadget
