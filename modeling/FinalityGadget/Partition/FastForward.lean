import FinalityGadget.Partition.Restart

/-!
# Fast-forward and replay

A recovering node applies the blocks of a chain one at a time; a starting node reads the last entry
of the store and trusts it. On the store that a replay has produced the second is as good as the
first: the last entry is the last applied block, because rounds increase and the keys of blocks are
ordered as their rounds, and the height of its state is the one the replay saw.
-/

namespace FinalityGadget

open Bytes Fallible Text

variable {C : Type}

/-- The answers about a hash agree on its height. The empty text is the hash of no block: a client
refuses it, or knows no height for it. -/
structure HeightLaw (heightOf : String → UInt64) (pow : PowClient) : Prop where
  height_eq : ∀ {hash block}, hash ≠ "" → pow.getBlockHeaderByHash hash = .ok block →
    block.height = heightOf hash
  height_empty : ∀ {block}, pow.getBlockHeaderByHash "" = .ok block → block.height = 0

/-- The height of a state; the state before the first block has the empty hash and is at height
zero. -/
def stateHeight (heightOf : String → UInt64) (hash : Slice) : UInt64 :=
  if hexEncode hash.bytes = "" then 0 else heightOf (hexEncode hash.bytes)

theorem HeightLaw.height_eq_stateHeight {heightOf : String → UInt64} {pow : PowClient}
    (h : HeightLaw heightOf pow) {hash : Slice} {block : BlockHeader}
    (hblock : pow.getBlockHeaderByHash (hexEncode hash.bytes) = .ok block) :
    block.height = stateHeight heightOf hash := by
  unfold stateHeight
  split
  next hempty => exact h.height_empty (hempty ▸ hblock)
  next hne => exact h.height_eq hne hblock

/-! ## What a replay leaves -/

/-- The last entry of the store is the block of the committed certificate; there is none before the
first commit. -/
def Tops (lib : BaseLibrary C) (store : BlockStore C) : Option UnicityCertificate → Prop
  | none => store.last? = none
  | some uc => ∃ block, store.last? = some (blockKey (getRoundNumber (some uc)), block) ∧
      getUCv1 lib (some block) = .ok uc

/-- A node that has done nothing but replay blocks from genesis. -/
structure Replaying (lib : BaseLibrary C) (heightOf : String → UInt64) (n : Node C) : Prop where
  status : n.status = .recovering
  clean : n.transactionSystem.pendingStateHash = none
  hash : n.transactionSystem.committedStateHash = getStateHash n.committedUC
  height : n.transactionSystem.committedStateHeight =
    stateHeight heightOf (getStateHash n.committedUC)
  tops : Tops lib n.blockStore n.committedUC
  unproposed : storedProposal n.blockStore = none

section Replay

variable {lib : BaseLibrary C} {conf : NodeConf} {heightOf : String → UInt64}

/-- A block of a higher round becomes the last entry. -/
theorem Tops.write {store : BlockStore C} {committedUC : Option UnicityCertificate}
    (h : Tops lib store committedUC) {block : Block C} {uc : UnicityCertificate}
    (hround : getRoundNumber committedUC < getRoundNumber (some uc))
    (huc : getUCv1 lib (some block) = .ok uc) :
    Tops lib ((StoreOp.writeBlock (getRoundNumber (some uc)) block).apply store) (some uc) := by
  refine ⟨block, OrderedStore.last?_eq_some_iff.mpr ⟨OrderedStore.find?_insert_self _ _ _, ?_⟩, huc⟩
  intro other hother
  by_cases heq : other = blockKey (getRoundNumber (some uc))
  · exact heq.le
  have hkept : (store.find? other).isSome := by
    rwa [StoreOp.apply, OrderedStore.find?_insert_of_ne _ _ heq] at hother
  cases committedUC with
  | none =>
    rw [OrderedStore.last?_eq_none_iff.mp h other] at hkept
    cases hkept
  | some previous =>
    obtain ⟨_, hlast, _⟩ := h
    have hle := (OrderedStore.last?_eq_some_iff.mp hlast).2 other hkept
    exact hle.trans (blockKey_lt_iff.mpr hround).le

/-- An accepted root has the height every client reports for it. -/
theorem FGPTxSystem.Verified.height_eq {pow : PowClient} {s : FGPTxSystem} {root : Slice}
    {height : UInt64} (h : s.Verified pow root height) (hlaw : HeightLaw heightOf pow)
    (hcommitted : s.committedStateHeight = stateHeight heightOf s.committedStateHash) :
    height = stateHeight heightOf root := by
  cases h with
  | noop heq => rw [hcommitted, stateHeight, stateHeight, heq]
  | block block tip hne hblock hactive htip hle hdepth => exact hlaw.height_eq_stateHeight hblock

theorem Replaying.applied {n : Node C} (h : Replaying lib heightOf n) {env : Env} {block : Block C}
    {uc : UnicityCertificate} {height : UInt64} (hlaw : HeightLaw heightOf env.pow)
    (happlicable : Applicable lib env n block uc height)
    (huc : getUCv1 lib (some block) = .ok uc) :
    Replaying lib heightOf
      ((n.setTx (n.transactionSystem.setPending (getStateHash (some uc)) height)).finalized
        block uc) where
  status := h.status
  clean := rfl
  hash := rfl
  height := happlicable.verified.height_eq hlaw (by rw [h.hash]; exact h.height)
  tops := h.tops.write happlicable.round_lt huc
  unproposed := (storedProposal_apply (.writeBlock (getRoundNumber (some uc)) block)
    n.blockStore).trans h.unproposed

/-- Seeing a certificate changes nothing that a replay is about. -/
theorem Replaying.seen {n m : Node C} (h : Replaying lib heightOf n) {uc : UnicityCertificate}
    {tr : Option TechnicalRecord} (hluc : LUCExit lib conf n uc tr (.ok () m)) :
    Replaying lib heightOf m := by
  cases hluc with
  | stale => exact h
  | duplicate => exact h
  | adopted leader _ => exact ⟨h.status, h.clean, h.hash, h.height, h.tops, h.unproposed⟩

theorem Replaying.handleBlock {n m : Node C} (h : Replaying lib heightOf n) {env : Env}
    {block : Option (Block C)} (hlaw : HeightLaw heightOf env.pow)
    (hrun : (handleBlock lib conf env block).run n = .ok () m) : Replaying lib heightOf m := by
  have hexit := handleBlock_spec lib conf env n block h.status
  rw [hrun] at hexit
  cases hexit with
  | skipped uc m hluc => exact h.seen hluc
  | applied b uc seen height hblock huc hluc happlicable hwrite =>
    exact (h.seen hluc).applied hlaw happlicable (hblock ▸ huc)

theorem Replaying.handleBlocks {envs : ℕ → Env} (hlaw : ∀ i, HeightLaw heightOf (envs i).pow)
    {blocks : List (Option (Block C))} {i : ℕ} {n m : Node C} (h : Replaying lib heightOf n)
    (hrun : (handleBlocks lib conf envs i blocks).run n = .ok () m) :
    Replaying lib heightOf m := by
  induction blocks generalizing i n with
  | nil =>
    cases hrun
    exact h
  | cons block rest ih =>
    rw [FinalityGadget.handleBlocks, EStateM.run_bind] at hrun
    split at hrun
    next _ next hblock => exact ih (h.handleBlock (hlaw i) hblock) hrun
    next => cases hrun

/-- A recovering node on an empty store with a fresh transaction system. -/
structure Genesis (n : Node C) : Prop where
  status : n.status = .recovering
  blockStore : n.blockStore = OrderedStore.empty
  fresh : ∃ txConf, newFGPTxSystem txConf = .ok n.transactionSystem

theorem Genesis.replaying {n : Node C} (h : Genesis n) : Replaying lib heightOf n := by
  obtain ⟨txConf, hfresh⟩ := h.fresh
  have hsystem := newFGPTxSystem_eq hfresh
  have hcommitted : n.committedUC = none := by
    rw [NodeState.committedUC, hsystem, FGPTxSystem.fresh]
  constructor
  case status => exact h.status
  case clean => rw [hsystem, FGPTxSystem.fresh]
  case hash => rw [hcommitted, hsystem, getStateHash_none, FGPTxSystem.fresh]
  case height =>
    rw [hcommitted, hsystem]
    rfl
  case tops =>
    rw [hcommitted, h.blockStore]
    rfl
  case unproposed =>
    rw [h.blockStore]
    rfl

end Replay

/-! ## What a start reads -/

/-- The system that `RestoreState` leaves, with the given height. -/
def FGPTxSystem.restored (s : FGPTxSystem) (uc : UnicityCertificate) (height : UInt64) :
    FGPTxSystem :=
  { s with
    committedStateHash := getStateHash (some uc)
    committedStateHeight := height
    committedUC := some uc
    pendingStateHash := none
    pendingStateHeight := 0 }

/-- The proof-of-work node answers about the state hash of the certificate, unless that is empty. -/
def Answers (pow : PowClient) (uc : UnicityCertificate) : Prop :=
  (getStateHash (some uc)).bytes ≠ [] →
    ∃ block, pow.getBlockHeaderByHash (hexEncode (getStateHash (some uc)).bytes) = .ok block

/-- The shard configuration of the certificate's epoch is present and valid. -/
def Configures (conf : NodeConf) (uc : UnicityCertificate) : Prop :=
  ∃ shardConf dFG, conf.shardConfByEpoch (getShardEpoch (some uc)) = .ok shardConf ∧
    parseDFG shardConf = .ok dFG

section Start

variable {lib : BaseLibrary C} {conf : NodeConf} {heightOf : String → UInt64}

theorem restoreState_of_answers {pow : PowClient} {uc : UnicityCertificate} {s : FGPTxSystem}
    (hlaw : HeightLaw heightOf pow) (hfresh : s.committedStateHeight = 0)
    (hanswers : Answers pow uc) :
    (FGPTxSystem.restoreState pow uc).run s =
      .ok () (s.restored uc (stateHeight heightOf (getStateHash (some uc)))) := by
  by_cases hempty : (getStateHash (some uc)).bytes = []
  · have hheight : stateHeight heightOf (getStateHash (some uc)) = s.committedStateHeight := by
      rw [stateHeight, hempty, hfresh]
      rfl
    rw [hheight]
    simp only [FGPTxSystem.restoreState, EStateM.run_bind, run_onlyIf, hempty]
    rfl
  · obtain ⟨block, hblock⟩ := hanswers hempty
    rw [← hlaw.height_eq_stateHeight hblock]
    simp only [FGPTxSystem.restoreState, EStateM.run_bind, run_onlyIf, ne_eq, hempty,
      not_false_eq_true, if_true, run_ofExcept, hblock]
    rfl

theorem updateConfig_of_parses {shardConf : PartitionDescriptionRecord} {dFG : UInt64}
    (hparse : parseDFG shardConf = .ok dFG) (s : FGPTxSystem) :
    (FGPTxSystem.updateConfig shardConf).run s =
      .ok () { s with shardConf := shardConf, dFG := dFG } := by
  simp only [FGPTxSystem.updateConfig, EStateM.run_bind, run_ofExcept, hparse]
  rfl

/-- A start on a store whose last entry is a block restores the certificate of that block. -/
theorem restoreLatestBlock_of_last {env : Env} {n : Node C} {key : List UInt8} {block : Block C}
    {uc : UnicityCertificate} (hlast : n.blockStore.last? = some (key, block))
    (hread : env.readBlock key = .ok ()) (huc : getUCv1 lib (some block) = .ok uc)
    (hconf : Configures conf uc) (hlaw : HeightLaw heightOf env.pow)
    (hfresh : n.transactionSystem.committedStateHeight = 0) (hanswers : Answers env.pow uc) :
    ∃ shardConf dFG, (restoreLatestBlock lib conf env).run n = .ok ()
      { n with
        shardConf := shardConf
        transactionSystem := { n.transactionSystem with
          shardConf := shardConf, dFG := dFG }.restored uc
            (stateHeight heightOf (getStateHash (some uc))) } := by
  obtain ⟨shardConf, dFG, hload, hparse⟩ := hconf
  refine ⟨shardConf, dFG, ?_⟩
  simp only [restoreLatestBlock, EStateM.run_bind, EStateM.run_get, hlast, run_ofExcept, hread, huc,
    hload, EStateM.run_modify, EStateM.run_adaptExcept]
  rw [onTx_of_ok (updateConfig_of_parses hparse _)]
  dsimp only
  have hrestore := restoreState_of_answers
    (s := { n.transactionSystem with shardConf := shardConf, dFG := dFG }) hlaw hfresh hanswers
  rw [onTx_of_ok hrestore]
  rfl

theorem restoreBlockProposal_of_unproposed {env : Env} {n : Node C}
    (h : storedProposal n.blockStore = none) :
    (restoreBlockProposal lib env).run n = .ok () n := by
  have hfind : n.blockStore.find? proposalKey = none := h
  simp only [restoreBlockProposal, EStateM.run_bind, EStateM.run_get, hfind]
  cases env.readProposal <;> rfl

/-- A start on the store of a replay restores what the replay has committed. -/
theorem Replaying.initState {env nextEnv : Env} {replayed fresh : Node C}
    (h : Replaying lib heightOf replayed) (hstore : fresh.blockStore = replayed.blockStore)
    (hsystem : ∃ txConf, newFGPTxSystem txConf = .ok fresh.transactionSystem)
    (hlaw : HeightLaw heightOf env.pow) (hread : ∀ key, env.readBlock key = .ok ())
    (hanswers : ∀ uc, replayed.committedUC = some uc → Answers env.pow uc)
    (hconf : ∀ uc, replayed.committedUC = some uc → Configures conf uc) :
    ∃ n, (initState lib conf env nextEnv).run fresh = .ok () n ∧
      n.committedUC = replayed.committedUC ∧
      n.transactionSystem.committedStateHash = replayed.transactionSystem.committedStateHash ∧
      n.transactionSystem.committedStateHeight =
        replayed.transactionSystem.committedStateHeight ∧
      n.transactionSystem.pendingStateHash = none ∧
      n.pendingBlockProposal = fresh.pendingBlockProposal := by
  obtain ⟨txConf, hfresh⟩ := hsystem
  have hsystem := newFGPTxSystem_eq hfresh
  have hunproposed : storedProposal fresh.blockStore = none := hstore ▸ h.unproposed
  have htops := h.tops
  rw [h.hash, h.height]
  generalize replayed.committedUC = committedUC at htops hanswers hconf ⊢
  cases committedUC with
  | none =>
    have hlast : fresh.blockStore.last? = none := hstore ▸ htops
    refine ⟨fresh.initCertificates, ?_, ?_, ?_, ?_, ?_, rfl⟩
    · simp only [FinalityGadget.initState, EStateM.run_bind, restoreLatestBlock, EStateM.run_get,
        hlast]
      exact restoreBlockProposal_of_unproposed hunproposed
    · change fresh.transactionSystem.committedUC = none
      rw [hsystem, FGPTxSystem.fresh]
    · change fresh.transactionSystem.committedStateHash = none
      rw [hsystem, FGPTxSystem.fresh]
    · change fresh.transactionSystem.committedStateHeight = 0
      rw [hsystem, FGPTxSystem.fresh]
    · change fresh.transactionSystem.pendingStateHash = none
      rw [hsystem, FGPTxSystem.fresh]
  | some uc =>
    obtain ⟨block, hlast, huc⟩ := htops
    have hzero : fresh.transactionSystem.committedStateHeight = 0 := by
      rw [hsystem, FGPTxSystem.fresh]
    obtain ⟨shardConf, dFG, hrestore⟩ := restoreLatestBlock_of_last (hstore ▸ hlast) (hread _) huc
      (hconf uc rfl) hlaw hzero (hanswers uc rfl)
    refine ⟨Node.initCertificates { fresh with
      shardConf := shardConf
      transactionSystem := { fresh.transactionSystem with
        shardConf := shardConf, dFG := dFG }.restored uc _ }, ?_, rfl, rfl, rfl, rfl, rfl⟩
    simp only [FinalityGadget.initState, EStateM.run_bind, hrestore]
    exact restoreBlockProposal_of_unproposed hunproposed

end Start

/-- Starting on the store that a replay from genesis has produced restores the certificate, the
state hash and the height that the replay has committed, and leaves nothing pending. -/
theorem startup_eq_replay {lib : BaseLibrary C} {replayConf conf : NodeConf}
    {heightOf : String → UInt64} {envs : ℕ → Env} {env nextEnv : Env} {genesis replayed : Node C}
    {blocks : List (Block C)} (hgenesis : Genesis genesis)
    (hreplay : (handleBlocks lib replayConf envs 0 (blocks.map some)).run genesis = .ok () replayed)
    (hlaws : ∀ i, HeightLaw heightOf (envs i).pow) (hlaw : HeightLaw heightOf env.pow)
    (hread : ∀ key, env.readBlock key = .ok ())
    (hanswers : ∀ uc, replayed.committedUC = some uc → Answers env.pow uc)
    (hconf : ∀ uc, replayed.committedUC = some uc → Configures conf uc)
    {txConf : PartitionDescriptionRecord} {txSystem : FGPTxSystem}
    (hfresh : newFGPTxSystem txConf = .ok txSystem) (shardConf : PartitionDescriptionRecord) :
    ∃ n, (initState lib conf env nextEnv).run
        { shardConf := shardConf, transactionSystem := txSystem,
          blockStore := replayed.blockStore } = .ok () n ∧
      n.committedUC = replayed.committedUC ∧
      n.transactionSystem.committedStateHash = replayed.transactionSystem.committedStateHash ∧
      n.transactionSystem.committedStateHeight =
        replayed.transactionSystem.committedStateHeight ∧
      n.transactionSystem.pendingStateHash = none ∧ n.pendingBlockProposal = none ∧
      replayed.transactionSystem.pendingStateHash = none := by
  have hreplaying : Replaying lib heightOf replayed := hgenesis.replaying.handleBlocks hlaws hreplay
  let fresh : Node C :=
    { shardConf := shardConf, transactionSystem := txSystem, blockStore := replayed.blockStore }
  have hstore : fresh.blockStore = replayed.blockStore := rfl
  obtain ⟨n, hrun, hcommitted, hhash, hheight, hclean, hproposal⟩ :=
    hreplaying.initState hstore ⟨txConf, hfresh⟩ hlaw hread hanswers hconf
  exact ⟨n, hrun, hcommitted, hhash, hheight, hclean, hproposal, hreplaying.clean⟩

namespace Reference

/-- The chain of the shard up to its second block. -/
def history : List (Block UnicityCertificate) :=
  [finalizedBlock, { nextBlock with unicityCertificate := some (nextUC 7) }]

/-- The node that has replayed this chain. -/
def replayer : Node UnicityCertificate :=
  final ((handleBlocks referenceLibrary (conf "B" [2]) (fun _ ↦ env 11) 0 (history.map some)).run
    (node.setStatus .recovering))

/-- The height of a block of the reference chain by its hash text. -/
def heightOf (text : String) : UInt64 :=
  match hexDecode text with
  | .ok data => powHeight data
  | .error _ => 0

theorem env_heightLaw (tip : UInt8) : HeightLaw heightOf (env tip).pow := by
  have hheight : ∀ {text block}, (env tip).pow.getBlockHeaderByHash text = .ok block →
      block.height = heightOf text := by
    intro text block h
    simp only [env, pow] at h
    unfold heightOf
    split at h
    next height hdecode =>
      rw [hdecode]
      cases h
      rfl
    next => cases h
  exact ⟨fun _ h ↦ hheight h, fun h ↦ hheight h⟩

/-- A node started on the store of that replay has committed the second block. -/
theorem startup_eq_replay_history :
    ∃ n, (initState referenceLibrary (conf "A" [1]) (env 11) (env 11)).run
        { shardConf := shardConf, transactionSystem := .fresh shardConf 1,
          blockStore := replayer.blockStore } = .ok () n ∧
      n.committedUC = some (nextUC 7) ∧ n.transactionSystem.committedStateHeight = 11 := by
  have hgenesis : Genesis (node.setStatus .recovering) := ⟨rfl, rfl, shardConf, rfl⟩
  have hreplay : (handleBlocks referenceLibrary (conf "B" [2]) (fun _ ↦ env 11) 0
      (history.map some)).run (node.setStatus .recovering) = .ok () replayer := rfl
  have hcommitted : replayer.committedUC = some (nextUC 7) ∧
      replayer.transactionSystem.committedStateHeight = 11 := ⟨rfl, rfl⟩
  have hread : ∀ key, (env 11).readBlock key = .ok () := fun _ ↦ rfl
  have hanswers : ∀ uc, replayer.committedUC = some uc → Answers (env 11).pow uc := by
    intro uc huc
    cases hcommitted.1.symm.trans huc
    exact fun _ ↦ ⟨_, rfl⟩
  have hconf : ∀ uc, replayer.committedUC = some uc → Configures (conf "A" [1]) uc :=
    fun uc _ ↦ ⟨shardConf, 1, rfl, rfl⟩
  have hfresh : newFGPTxSystem shardConf = .ok (.fresh shardConf 1) := rfl
  obtain ⟨n, hrun, huc, _, hheight, _⟩ := startup_eq_replay hgenesis hreplay
    (fun _ ↦ env_heightLaw 11) (env_heightLaw 11) hread hanswers hconf hfresh shardConf
  exact ⟨n, hrun, huc.trans hcommitted.1, hheight.trans hcommitted.2⟩

end Reference

end FinalityGadget
