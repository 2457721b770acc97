import FinalityGadget.Partition.Coherence

/-!
# Restarting on a store left behind

A process leaves a prefix of its store mutations behind, whenever it stops. A restart reads the last
entry of the store and takes the certificate inside as the committed one. The mutations write
validated certificates under the keys of blocks, which are all above the key of the pending
proposal; but on a store without blocks the last entry is the proposal itself.
-/

namespace FinalityGadget

open Bytes Fallible

variable {C : Type}

/-! ## Store mutations of a segment -/

/-- The block is a proposal that a node has built. -/
def IsProposal (lib : BaseLibrary C) (block : Block C) : Prop :=
  ∃ (n : NodeState C) (author : String) (state : Summary) (ir : InputRecord),
    buildProposal lib n author state = .ok (ir, block)

/-- A block is written under the round of the certificate inside, after this was validated. -/
def StoreOp.Certified (lib : BaseLibrary C) (conf : NodeConf)
    (shardConf : PartitionDescriptionRecord) : StoreOp C → Prop
  | .writeBlock round block => ∃ uc, getUCv1 lib (some block) = .ok uc ∧
      getRoundNumber (some uc) = round ∧ Validated lib conf shardConf uc
  | .deleteBlock _ => True
  | .writeProposal block => IsProposal lib block
  | .deleteProposal => True

/-- The later node has performed the given mutations. -/
structure Performs (ops : List (StoreOp C)) (n n' : Node C) : Prop where
  storeLog : n'.storeLog = n.storeLog ++ ops
  blockStore : n'.blockStore = applyOps n.blockStore ops

theorem applyOps_append (store : BlockStore C) (first second : List (StoreOp C)) :
    applyOps store (first ++ second) = applyOps (applyOps store first) second :=
  List.foldl_append

theorem Performs.trans {first second : List (StoreOp C)} {n n' n'' : Node C}
    (h : Performs first n n') (h' : Performs second n' n'') : Performs (first ++ second) n n'' where
  storeLog := by rw [h'.storeLog, h.storeLog, List.append_assoc]
  blockStore := by rw [h'.blockStore, h.blockStore, applyOps_append]

theorem Performs.store (n : Node C) (op : StoreOp C) : Performs [op] n (n.store op) := ⟨rfl, rfl⟩

/-- The store of a node, its history and the configuration that certificates are validated with. -/
def Node.disk (n : Node C) : List (StoreOp C) × BlockStore C × PartitionDescriptionRecord :=
  (n.storeLog, n.blockStore, n.shardConf)

/-- The mutations of a segment are certified ones. -/
def Mutates (lib : BaseLibrary C) (conf : NodeConf) (n n' : Node C) : Prop :=
  ∃ ops, Performs ops n n' ∧ ∀ op ∈ ops, op.Certified lib conf n.shardConf

section Mutations

variable {lib : BaseLibrary C} {conf : NodeConf} {env : Env}

theorem mutates_of_store_eq {n n' : Node C} (hlog : n'.storeLog = n.storeLog)
    (hstore : n'.blockStore = n.blockStore) : Mutates lib conf n n' :=
  ⟨[], ⟨by simp [hlog], hstore⟩, by simp⟩

theorem Mutates.trans {n m n' : Node C} (h : Mutates lib conf n m) (h' : Mutates lib conf m n')
    (hconf : m.shardConf = n.shardConf) : Mutates lib conf n n' := by
  obtain ⟨first, hfirst, hcertified⟩ := h
  obtain ⟨second, hsecond, hcertified'⟩ := h'
  refine ⟨first ++ second, hfirst.trans hsecond, fun op hop ↦ ?_⟩
  rcases List.mem_append.mp hop with hop | hop
  · exact hcertified op hop
  · exact hconf ▸ hcertified' op hop

/-- Mutations are about the store alone. -/
theorem Mutates.congr {n m n' m' : Node C} (h : Mutates lib conf m m') (hsource : n.disk = m.disk)
    (htarget : n'.disk = m'.disk) : Mutates lib conf n n' := by
  obtain ⟨ops, hops, hcertified⟩ := h
  injection hsource with hlog hsource
  injection hsource with hstore hconf
  injection htarget with hlog' htarget
  injection htarget with hstore' _
  refine ⟨ops, ⟨?_, ?_⟩, hconf ▸ hcertified⟩
  · rw [hlog', hlog, hops.storeLog]
  · rw [hstore', hstore, hops.blockStore]

theorem mutates_store {n : Node C} {op : StoreOp C} (h : op.Certified lib conf n.shardConf) :
    Mutates lib conf n (n.store op) :=
  ⟨[op], Performs.store n op, by simpa using h⟩

/-- A new round deletes the proposal, if anything. -/
theorem startNewRound_performs (n : Node C) (env : Env) :
    ∃ ops, Performs ops n (n.startNewRound env) ∧ ∀ op ∈ ops, op = .deleteProposal := by
  unfold Node.startNewRound Node.deletePendingProposal
  split
  · exact ⟨[.deleteProposal], ⟨rfl, rfl⟩, by simp⟩
  · exact ⟨[], ⟨by simp [Node.resetProposal], rfl⟩, by simp⟩

theorem mutates_startNewRound (n : Node C) : Mutates lib conf n (n.startNewRound env) := by
  obtain ⟨ops, hperforms, hforget⟩ := startNewRound_performs n env
  refine ⟨ops, hperforms, fun op hop ↦ ?_⟩
  rw [hforget op hop]
  trivial

theorem mutates_startRecovery (n : Node C) :
    Mutates lib conf n (n.startRecovery lib conf env) :=
  mutates_of_store_eq (n.startRecovery_storeLog lib conf env)
    (n.startRecovery_blockStore lib conf env)

theorem Finalized.mutates {block : Block C} {uc : UnicityCertificate} {n : Node C}
    {result : EStateM.Result Err (Node C) Unit} (h : Finalized env block uc n result)
    (huc : getUCv1 lib (some block) = .ok uc) (hvalid : Validated lib conf n.shardConf uc) :
    Mutates lib conf n (final result) := by
  have hcertified : (StoreOp.writeBlock (getRoundNumber (some uc)) block).Certified lib conf
      n.shardConf := ⟨uc, huc, rfl, hvalid⟩
  have hwrite : Mutates lib conf n (n.store (.writeBlock (getRoundNumber (some uc)) block)) :=
    mutates_store hcertified
  cases h with
  | unwritten => exact mutates_of_store_eq rfl rfl
  | mismatched =>
    have hdelete : Mutates lib conf (n.store (.writeBlock (getRoundNumber (some uc)) block))
        ((n.store (.writeBlock (getRoundNumber (some uc)) block)).store
          (.deleteBlock (getRoundNumber (some uc)))) :=
      mutates_store trivial
    exact hwrite.trans hdelete rfl
  | undeleted => exact hwrite
  | committed => exact ⟨[.writeBlock (getRoundNumber (some uc)) block], ⟨rfl, rfl⟩, by
      simpa using hcertified⟩

/-- A recorded proposal is one the node has built. -/
theorem mutates_recorded {author : String} {state : Summary} {n : Node C} {ir : InputRecord}
    {block : Block C} (hbuild : buildProposal lib n.toNodeState author state = .ok (ir, block)) :
    Mutates lib conf n (n.recorded block) := by
  have hproposal : (StoreOp.writeProposal block).Certified lib conf n.shardConf :=
    ⟨_, _, _, _, hbuild⟩
  exact (mutates_store hproposal).congr rfl rfl

theorem RequestExit.mutates {author : String} {state : Summary} {n : Node C}
    {result : EStateM.Result Err (Node C) Unit}
    (h : RequestExit lib conf env author state n result) : Mutates lib conf n (final result) := by
  cases h with
  | unbuilt => exact mutates_of_store_eq rfl rfl
  | unstored => exact mutates_of_store_eq rfl rfl
  | unsent err ir block hbuild => exact mutates_recorded hbuild
  | undelivered err ir block request rootIDs hbuild =>
    exact (mutates_recorded hbuild).congr rfl rfl
  | sent ir block request rootIDs hbuild => exact (mutates_recorded hbuild).congr rfl rfl

theorem TimeoutExit.mutates {n : Node C} {result : EStateM.Result Err (Node C) Unit}
    (h : TimeoutExit lib conf env n result) : Mutates lib conf n (final result) := by
  cases h with
  | idle hidle => exact mutates_of_store_eq rfl rfl
  | abandoned hstatus hleader hnone => exact mutates_of_store_eq rfl rfl
  | unproposed data m hstatus hleader hannounced hsend =>
    obtain ⟨height, _, _, _, _, _, rfl⟩ := hannounced
    exact mutates_of_store_eq rfl rfl
  | unrequested data m m' err hstatus hleader hannounced hrequest =>
    obtain ⟨height, _, _, _, _, _, rfl⟩ := hannounced
    exact hrequest.mutates.congr rfl rfl
  | requested data m m' hstatus hleader hannounced hrequest =>
    obtain ⟨height, _, _, _, _, _, rfl⟩ := hannounced
    exact hrequest.mutates.congr rfl rfl

theorem VoteExit.mutates {prop : BlockProposal} {uc : UnicityCertificate} {n : Node C}
    {result : EStateM.Result Err (Node C) Unit} (h : VoteExit lib conf env prop uc n result) :
    Mutates lib conf n (final result) := by
  cases h with
  | refused err => exact mutates_of_store_eq rfl rfl
  | unverified err => exact mutates_of_store_eq rfl rfl
  | unrequested height err cause m helectable hverified hrequest =>
    exact hrequest.mutates.congr rfl rfl
  | requested height m helectable hverified hrequest => exact hrequest.mutates.congr rfl rfl

theorem CertificateExit.mutates (hcbor : lib.CborLaw) {uc : UnicityCertificate}
    {prevLUC : Option UnicityCertificate} {wasInitializing : Bool} {m : Node C}
    {result : EStateM.Result Err (Node C) Unit}
    (h : CertificateExit lib conf env uc prevLUC wasInitializing m result)
    (hvalid : Validated lib conf m.shardConf uc) :
    Mutates lib conf m (final result) := by
  cases h with
  | ignored => exact mutates_of_store_eq rfl rfl
  | resumed => exact mutates_startNewRound m
  | unknown => exact mutates_of_store_eq rfl rfl
  | repeated => exact (mutates_startNewRound m.revertState).congr rfl rfl
  | behind => exact mutates_startRecovery m
  | initial => exact mutates_startNewRound m
  | current => exact mutates_startNewRound m
  | unencodable => exact mutates_of_store_eq rfl rfl
  | unfinalized err cause proposal encoded m' hnew hsuccessor hmarshal hfinalize =>
    have hfirst : Mutates lib conf m m' :=
      (hfinalize.mutates (hcbor hmarshal) hvalid).congr rfl rfl
    exact hfirst.trans (mutates_startRecovery m') hfinalize.shardConf_eq
  | finalized proposal proposedIR encoded hnew hpending hsuccessor hrecord hequal hmarshal hwrite
      hcommit =>
    have hfinalize : Finalized env { proposal with unicityCertificate := some encoded } uc m
        (.ok () (m.finalized { proposal with unicityCertificate := some encoded } uc)) :=
      .committed hwrite hcommit
    exact (hfinalize.mutates (hcbor hmarshal) hvalid).trans (mutates_startNewRound _) rfl

theorem Segment.mutates (hcbor : lib.CborLaw) {guard : Guard C} {n n' : Node C}
    (h : Segment lib conf guard n n') : Mutates lib conf n n' := by
  cases h with
  | quiet h => exact mutates_of_store_eq h.storeLog h.blockStore
  | adopt hstatus htr hluc => cases hluc <;> exact mutates_of_store_eq rfl rfl
  | certificate henv hstatus hguard htr haccepted hexit =>
    have hvalid := haccepted.validated
    cases haccepted with
    | duplicate => exact (hexit.mutates hcbor hvalid).congr rfl rfl
    | adopted leader h => exact (hexit.mutates hcbor hvalid).congr rfl rfl
  | timeout henv hguard hexit => exact hexit.mutates
  | vote henv hstatus hguard hvote => exact hvote.mutates
  | block henv hstatus hexit =>
    cases hexit with
    | rejected err => exact mutates_of_store_eq rfl rfl
    | refused err uc m hluc => cases hluc <;> exact mutates_of_store_eq rfl rfl
    | reverted err uc m hluc => cases hluc <;> exact mutates_of_store_eq rfl rfl
    | skipped uc m hluc => cases hluc <;> exact mutates_of_store_eq rfl rfl
    | applied b uc m height hblock huc hluc happlicable hwrite =>
      have hcertified : (StoreOp.writeBlock (getRoundNumber (some uc)) b).Certified lib conf
          n.shardConf := ⟨uc, hblock ▸ huc, rfl, hluc.validated⟩
      have hwritten : Mutates lib conf n (n.store (.writeBlock (getRoundNumber (some uc)) b)) :=
        mutates_store hcertified
      cases hluc <;> exact hwritten.congr rfl rfl
  | finish henv hstatus hcomplete =>
    exact (mutates_startNewRound (Node.stopRecovery _)).congr rfl rfl
  | stop hstatus hcomplete => exact mutates_of_store_eq rfl rfl

end Mutations

/-! ## Stores a process can leave behind -/

/-- The mutation was certified under a configuration that the process had loaded. -/
def StoreOp.Traced (lib : BaseLibrary C) (conf : NodeConf) (op : StoreOp C) : Prop :=
  ∃ shardConf, conf.Loads shardConf ∧ op.Certified lib conf shardConf

/-- The mutations of a process so far, applied to the store it started on. -/
structure Traced (lib : BaseLibrary C) (conf : NodeConf) (store : BlockStore C) (n : Node C) :
    Prop where
  blockStore : n.blockStore = applyOps store n.storeLog
  loaded : conf.Loads n.shardConf
  certified : ∀ op ∈ n.storeLog, op.Traced lib conf

theorem Traced.segment {lib : BaseLibrary C} {conf : NodeConf} {guard : Guard C}
    {store : BlockStore C} {n n' : Node C} (hcbor : lib.CborLaw) (h : Traced lib conf store n)
    (hsegment : Segment lib conf guard n n') : Traced lib conf store n' := by
  obtain ⟨ops, hops, hcertified⟩ := hsegment.mutates hcbor
  constructor
  · rw [hops.blockStore, hops.storeLog, applyOps_append, h.blockStore]
  · exact hsegment.loads h.loaded
  · intro op hop
    rw [hops.storeLog] at hop
    rcases List.mem_append.mp hop with hop | hop
    · exact h.certified op hop
    · exact ⟨n.shardConf, h.loaded, hcertified op hop⟩

theorem Started.traced {lib : BaseLibrary C} {conf : NodeConf} {store : BlockStore C} {n : Node C}
    (h : Started lib conf store n) : Traced lib conf store n := by
  refine ⟨?_, h.shardConf, ?_⟩
  · rw [h.blockStore, h.storeLog]
    rfl
  · rw [h.storeLog]
    simp

/-- A store left behind by a node that has run with the given configurations: empty, or what a
crash after any number of mutations leaves of a process started on such a store. -/
inductive LeftBehind (lib : BaseLibrary C) (confs : Set NodeConf) : BlockStore C → Prop where
  | empty : LeftBehind lib confs OrderedStore.empty
  | crash {conf : NodeConf} {store : BlockStore C} {n : Node C} (h : LeftBehind lib confs store)
      (hconf : conf ∈ confs) (hstart : Starts lib conf store n) (inputs : List (Input C))
      (count : ℕ) :
      LeftBehind lib confs (applyOps store ((runNode lib conf n inputs).storeLog.take count))

/-- The certificate passed the validator of a process of the node. -/
def WasValidated (lib : BaseLibrary C) (confs : Set NodeConf) (uc : UnicityCertificate) : Prop :=
  ∃ conf ∈ confs, ∃ shardConf, conf.Loads shardConf ∧ Validated lib conf shardConf uc

/-- Every entry is the proposal or a block under the round of its validated certificate. -/
structure WellKept (lib : BaseLibrary C) (confs : Set NodeConf) (store : BlockStore C) :
    Prop where
  key_cases : ∀ key, (store.find? key).isSome → key = proposalKey ∨ ∃ round, key = blockKey round
  certified : ∀ {round block}, storedBlock store round = some block →
    ∃ uc, getUCv1 lib (some block) = .ok uc ∧ getRoundNumber (some uc) = round ∧
      WasValidated lib confs uc
  proposal : ∀ {block}, storedProposal store = some block → IsProposal lib block

section Stores

variable {lib : BaseLibrary C} {confs : Set NodeConf}

theorem wellKept_empty : WellKept lib confs (OrderedStore.empty : BlockStore C) :=
  ⟨by simp, by simp [storedBlock], by simp [storedProposal]⟩

theorem WellKept.apply {conf : NodeConf} (hconf : conf ∈ confs) {store : BlockStore C}
    (h : WellKept lib confs store) {op : StoreOp C} (hop : op.Traced lib conf) :
    WellKept lib confs (op.apply store) := by
  constructor
  · intro key hkey
    by_contra hother
    -- any other key was there before the mutation
    have hne : key ≠ proposalKey ∧ ∀ round, key ≠ blockKey round :=
      ⟨fun heq ↦ hother (Or.inl heq), fun round heq ↦ hother (Or.inr ⟨round, heq⟩)⟩
    have hkept : (op.apply store).find? key = store.find? key := by
      cases op with
      | writeBlock round block => exact OrderedStore.find?_insert_of_ne _ _ (hne.2 round)
      | deleteBlock round => exact OrderedStore.find?_erase_of_ne _ (hne.2 round)
      | writeProposal block => exact OrderedStore.find?_insert_of_ne _ _ hne.1
      | deleteProposal => exact OrderedStore.find?_erase_of_ne _ hne.1
    exact hother (h.key_cases key (hkept ▸ hkey))
  · intro round block hblock
    rw [storedBlock_apply] at hblock
    cases op with
    | writeBlock written stored =>
      dsimp only at hblock
      split at hblock
      next heq =>
        cases hblock
        obtain ⟨shardConf, hloaded, uc, huc, hround, hvalid⟩ := hop
        exact ⟨uc, huc, hround.trans heq.symm, conf, hconf, shardConf, hloaded, hvalid⟩
      next => exact h.certified hblock
    | deleteBlock deleted =>
      dsimp only at hblock
      split at hblock
      next => cases hblock
      next => exact h.certified hblock
    | writeProposal _ => exact h.certified hblock
    | deleteProposal => exact h.certified hblock
  · intro block hblock
    rw [storedProposal_apply] at hblock
    cases op with
    | writeBlock _ _ => exact h.proposal hblock
    | deleteBlock _ => exact h.proposal hblock
    | writeProposal _ =>
      cases hblock
      obtain ⟨_, _, hproposal⟩ := hop
      exact hproposal
    | deleteProposal => cases hblock

theorem WellKept.applyOps {conf : NodeConf} (hconf : conf ∈ confs) {store : BlockStore C}
    (h : WellKept lib confs store) {ops : List (StoreOp C)}
    (hops : ∀ op ∈ ops, op.Traced lib conf) :
    WellKept lib confs (FinalityGadget.applyOps store ops) := by
  induction ops generalizing store with
  | nil => exact h
  | cons op rest ih =>
    exact ih (h.apply hconf (hops op List.mem_cons_self))
      fun op hrest ↦ hops op (List.mem_cons_of_mem _ hrest)

theorem LeftBehind.wellKept (hcbor : lib.CborLaw) {store : BlockStore C}
    (h : LeftBehind lib confs store) : WellKept lib confs store := by
  induction h with
  | empty => exact wellKept_empty
  | @crash conf store n _ hconf hstart inputs count ih =>
    have htraced : Traced lib conf store (runNode lib conf n inputs) :=
      invariant_runNode (Guard.none_sound lib) (fun hinv hsegment ↦ hinv.segment hcbor hsegment)
        (started_of_starts lib conf hstart).traced
        (Run.guarded_of_forall (fun n input ↦ Guard.none_admits lib conf n input) n inputs)
    exact ih.applyOps hconf fun op hop ↦ htraced.certified op (List.mem_of_mem_take hop)

/-! ## What a restart restores -/

/-- Nothing is committed and no block is stored, or the committed certificate is the validated one
of the stored block of the highest round. -/
def RestoresCertified (lib : BaseLibrary C) (confs : Set NodeConf) (store : BlockStore C)
    (n : Node C) : Prop :=
  (n.committedUC = none ∧ ∀ round, storedBlock store round = none) ∨
    ∃ round block uc, storedBlock store round = some block ∧
      (∀ other, (storedBlock store other).isSome → other ≤ round) ∧
      getUCv1 lib (some block) = .ok uc ∧ getRoundNumber (some uc) = round ∧
      WasValidated lib confs uc ∧ n.committedUC = some uc

theorem proposalKey_lt_blockKey (round : UInt64) : proposalKey < blockKey round :=
  uint32ToBytes_zero_lt round

theorem blockKey_lt_iff {first second : UInt64} :
    blockKey first < blockKey second ↔ first < second := uint64ToBytes_lt

theorem blockKey_le_iff {first second : UInt64} :
    blockKey first ≤ blockKey second ↔ first ≤ second := by
  rw [← not_lt, blockKey, blockKey, uint64ToBytes_lt, UInt64.not_lt]

/-- The last entry of a store with blocks is the block of the highest round. -/
theorem WellKept.last_of_block {store : BlockStore C} (h : WellKept lib confs store)
    {key : List UInt8}
    {block stored : Block C} {round : UInt64} (hlast : store.last? = some (key, block))
    (hstored : storedBlock store round = some stored) :
    ∃ top, key = blockKey top ∧ storedBlock store top = some block ∧
      ∀ other, (storedBlock store other).isSome → other ≤ top := by
  obtain ⟨hfind, hgreatest⟩ := OrderedStore.last?_eq_some_iff.mp hlast
  have hround : blockKey round ≤ key := hgreatest _ (by
    rw [storedBlock] at hstored
    simp [hstored])
  rcases h.key_cases key (by simp [hfind]) with rfl | ⟨top, rfl⟩
  · exact absurd hround (not_le.mpr (proposalKey_lt_blockKey round))
  · exact ⟨top, rfl, hfind, fun other hother ↦ blockKey_le_iff.mp (hgreatest _ hother)⟩

/-- The last entry of a store without blocks is the pending proposal. -/
theorem WellKept.last_of_no_block {store : BlockStore C} (h : WellKept lib confs store)
    {key : List UInt8} {block : Block C} (hlast : store.last? = some (key, block))
    (hnone : ∀ round, storedBlock store round = none) :
    storedProposal store = some block := by
  obtain ⟨hfind, _⟩ := OrderedStore.last?_eq_some_iff.mp hlast
  rcases h.key_cases key (by simp [hfind]) with rfl | ⟨top, rfl⟩
  · exact hfind
  · have hblock := hnone top
    rw [storedBlock, hfind] at hblock
    cases hblock

theorem WellKept.restoresCertified_iff {store : BlockStore C} (h : WellKept lib confs store)
    {conf : NodeConf} {n : Node C} (hstarted : Started lib conf store n) :
    RestoresCertified lib confs store n ↔
      (∃ round, (storedBlock store round).isSome) ∨ storedProposal store = none := by
  have horigin := hstarted.origin
  generalize hcommitted : n.transactionSystem.committedUC = committedUC at horigin
  generalize n.transactionSystem.committedStateHash = hash at horigin
  have hnode : n.committedUC = committedUC := hcommitted
  unfold RestoresCertified
  rw [hnode]
  cases horigin with
  | genesis hlast =>
    have hempty := OrderedStore.last?_eq_none_iff.mp hlast
    exact iff_of_true (Or.inl ⟨rfl, fun round ↦ hempty _⟩) (Or.inr (hempty _))
  | block key block uc hlast huc =>
    by_cases hblocks : ∃ round, (storedBlock store round).isSome
    · obtain ⟨round, hround⟩ := hblocks
      obtain ⟨stored, hstored⟩ := Option.isSome_iff_exists.mp hround
      obtain ⟨top, _, htop, hgreatest⟩ := h.last_of_block hlast hstored
      obtain ⟨uc', huc', hrounds, hvalid⟩ := h.certified htop
      rw [huc] at huc'
      cases huc'
      exact iff_of_true (Or.inr ⟨top, block, uc, htop, hgreatest, huc, hrounds, hvalid, rfl⟩)
        (Or.inl ⟨round, hround⟩)
    · have hnone : ∀ round, storedBlock store round = none := by
        intro round
        simpa using not_exists.mp hblocks round
      have hproposal := h.last_of_no_block hlast hnone
      refine iff_of_false ?_ ?_
      · rintro (⟨hnil, _⟩ | ⟨round, _, _, hstored, _⟩)
        · cases hnil
        · simp [hnone] at hstored
      · rintro (hsome | hmissing)
        · exact hblocks hsome
        · simp [hproposal] at hmissing

/-- A restart on a store left behind restores certified state exactly when the store holds a block
or no pending proposal: on a store with a proposal and no block it takes the unsealed certificate of
the proposal. -/
theorem restart_certified_iff (hcbor : lib.CborLaw) {store : BlockStore C}
    (hleft : LeftBehind lib confs store) {conf : NodeConf} {n : Node C}
    (hstart : Starts lib conf store n) :
    RestoresCertified lib confs store n ↔
      (∃ round, (storedBlock store round).isSome) ∨ storedProposal store = none := by
  have hkept := hleft.wellKept hcbor
  have hstarted := started_of_starts lib conf hstart
  exact hkept.restoresCertified_iff hstarted

end Stores

section Reference

open Reference

/-- The store of a leader whose first proposal was certified before it stopped. -/
theorem restart_certified_iff_finalized :
    LeftBehind referenceLibrary {conf "A" [1]} restarted.blockStore ∧
      RestoresCertified referenceLibrary {conf "A" [1]} restarted.blockStore restarted := by
  have hleft : LeftBehind referenceLibrary {conf "A" [1]} restarted.blockStore := by
    have hstart : Starts referenceLibrary (conf "A" [1]) OrderedStore.empty node :=
      starts_empty "A" [1]
    have hcrash := LeftBehind.crash (.empty) (Set.mem_singleton (conf "A" [1])) hstart finalizing 4
    rw [finalizing_storeLog] at hcrash
    exact hcrash
  have hblock : (storedBlock restarted.blockStore 2).isSome := by decide
  exact ⟨hleft, (restart_certified_iff cborLaw hleft (starts_finalized "A" [1])).mpr
    (Or.inl ⟨2, hblock⟩)⟩

/-- The store of a leader that stopped right after storing its first proposal: the restarted node
has the unsealed certificate of the proposal as its committed one. -/
theorem restart_unsealed_proposal :
    ∃ (store : BlockStore UnicityCertificate) (n : Node UnicityCertificate),
      LeftBehind referenceLibrary {conf "A" [1]} store ∧
      Starts referenceLibrary (conf "A" [1]) store n ∧
      ¬RestoresCertified referenceLibrary {conf "A" [1]} store n ∧
      n.committedUC = some { inputRecord := some proposedRecord } := by
  have hleft : LeftBehind referenceLibrary {conf "A" [1]} (applyOps OrderedStore.empty
      [.deleteProposal, .writeProposal proposedBlock]) := by
    have hstart : Starts referenceLibrary (conf "A" [1]) OrderedStore.empty node :=
      starts_empty "A" [1]
    have hcrash := LeftBehind.crash (.empty) (Set.mem_singleton (conf "A" [1])) hstart proposing 2
    rw [proposing_storeLog] at hcrash
    exact hcrash
  have hnone : ∀ round, storedBlock (applyOps OrderedStore.empty
      [.deleteProposal, .writeProposal proposedBlock]) round = none := by
    simp [applyOps, storedBlock_apply]
  refine ⟨_, { node with
    fuc := some { inputRecord := some proposedRecord }
    luc := some { inputRecord := some proposedRecord }
    blockStore := applyOps OrderedStore.empty [.deleteProposal, .writeProposal proposedBlock]
    transactionSystem :=
      { node.transactionSystem with
        committedStateHash := some [10]
        committedStateHeight := 10
        committedUC := some { inputRecord := some proposedRecord } } },
    hleft, ⟨shardConf, _, env 10, env 10, rfl, rfl⟩, ?_, rfl⟩
  rintro (⟨hnil, _⟩ | ⟨round, block, uc, hstored, _⟩)
  · cases hnil
  · rw [hnone] at hstored
    cases hstored

end Reference

end FinalityGadget
