import FinalityGadget.Partition.Lifetimes

/-!
# Finalized blocks survive

A node overwrites and deletes blocks: it writes a block before it commits it, and takes it back when
the commit fails. Both concern rounds above the committed one only. A restart commits the block of
the highest round on the disk, so the committed round never falls below a stored block, and what was
finalized once stays on the disk through every later crash.
-/

namespace FinalityGadget

open Bytes Fallible Relation

variable {C : Type}

/-- The mutation concerns no block up to the given round. -/
def StoreOp.Above (bound : UInt64) : StoreOp C → Prop
  | .writeBlock round _ | .deleteBlock round => bound < round
  | .writeProposal _ | .deleteProposal => True

theorem StoreOp.Above.mono {bound bound' : UInt64} {op : StoreOp C} (h : op.Above bound')
    (hle : bound ≤ bound') : op.Above bound := by
  cases op with
  | writeBlock | deleteBlock => exact hle.trans_lt h
  | writeProposal | deleteProposal => trivial

theorem storedBlock_applyOps_of_above {bound round : UInt64} (hle : round ≤ bound)
    {ops : List (StoreOp C)} (hops : ∀ op ∈ ops, op.Above bound) (store : BlockStore C) :
    storedBlock (applyOps store ops) round = storedBlock store round := by
  induction ops generalizing store with
  | nil => rfl
  | cons op rest ih =>
    have hop := hops op List.mem_cons_self
    have hkept : storedBlock (op.apply store) round = storedBlock store round := by
      rw [storedBlock_apply]
      cases op with
      | writeBlock written | deleteBlock written => exact if_neg (hle.trans_lt hop).ne
      | writeProposal | deleteProposal => rfl
    rw [← hkept]
    exact ih (fun later hlater ↦ hops later (List.mem_cons_of_mem op hlater)) (op.apply store)

section Process

variable {lib : BaseLibrary C} {conf : NodeConf} {admitted : Env → Prop} {n n' : Node C}

theorem Writes.above (hlaw : lib.SuccessorLaw) {op : StoreOp C}
    (h : Writes lib conf admitted n op) : op.Above (getRoundNumber n.committedUC) := by
  cases h with
  | finalize _ _ _ _ hsuccessor | undo hsuccessor | replay _ _ hsuccessor =>
    exact hlaw.round_lt hsuccessor
  | propose | forget => trivial

theorem Move.committedRound_le (hlaw : lib.SuccessorLaw) (h : Move lib conf admitted n n') :
    getRoundNumber n.committedUC ≤ getRoundNumber n'.committedUC := by
  rcases h.segment.commit_cases with hkept | ⟨uc, hcommit⟩
  · rw [NodeState.committedUC_of_committed hkept]
  · rw [hcommit.committedUC_eq]
    exact (hlaw.round_lt hcommit.successor).le

/-- What a node mutates from now on is above the round it has committed by now. -/
theorem moves_above (hlaw : lib.SuccessorLaw)
    (h : ReflTransGen (Move lib conf admitted) n n') :
    getRoundNumber n.committedUC ≤ getRoundNumber n'.committedUC ∧
      ∃ ops, Performs ops n n' ∧ ∀ op ∈ ops, op.Above (getRoundNumber n.committedUC) := by
  induction h with
  | refl => exact ⟨le_refl _, [], ⟨by simp, rfl⟩, by simp⟩
  | tail _ hlast ih =>
    obtain ⟨hle, ops, hperforms, habove⟩ := ih
    obtain ⟨last, hperforms', hwrites⟩ := hlast.stores
    refine ⟨hle.trans (hlast.committedRound_le hlaw), ops ++ last, hperforms.trans hperforms', ?_⟩
    intro op hop
    rcases List.mem_append.mp hop with hop | hop
    · exact habove op hop
    · exact ((hwrites op hop).above hlaw).mono hle

/-- A block that was stored when its round was committed is there wherever the process stops
later. -/
theorem storedBlock_of_stop (hlaw : lib.SuccessorLaw) {store : BlockStore C}
    (hboots : Boots lib conf admitted store n) {inputs later : List (Input C)}
    (henvs : ∀ input ∈ inputs ++ later, ∀ i, admitted (input.envs i)) {round : UInt64}
    (hround : round ≤ getRoundNumber (runNode lib conf n inputs).committedUC) {count : ℕ}
    (hcount : (runNode lib conf n inputs).storeLog.length ≤ count) :
    storedBlock (applyOps store ((runNode lib conf n (inputs ++ later)).storeLog.take count))
      round = storedBlock (runNode lib conf n inputs).blockStore round := by
  have hstarted := hboots.started
  have hfirst : ReflTransGen (Move lib conf admitted) n (runNode lib conf n inputs) :=
    runNode_moves fun input hinput ↦ henvs input (List.mem_append_left later hinput)
  have hrest : ReflTransGen (Move lib conf admitted) (runNode lib conf n inputs)
      (runNode lib conf (runNode lib conf n inputs) later) :=
    runNode_moves fun input hinput ↦ henvs input (List.mem_append_right inputs hinput)
  obtain ⟨_, before, hbefore, _⟩ := moves_above hlaw hfirst
  obtain ⟨_, after, hafter, habove⟩ := moves_above hlaw hrest
  have hlog : (runNode lib conf n inputs).storeLog = before := by
    rw [hbefore.storeLog, hstarted.storeLog, List.nil_append]
  have hdisk : (runNode lib conf n inputs).blockStore = applyOps store before := by
    rw [hbefore.blockStore, hstarted.blockStore]
  rw [hlog] at hcount
  rw [runNode_append, hafter.storeLog, hlog, List.take_append, List.take_of_length_le hcount,
    applyOps_append, hdisk]
  apply storedBlock_applyOps_of_above hround
  exact fun op hop ↦ habove op (List.mem_of_mem_take hop)

end Process

/-! ## Later processes -/

section Restarts

variable {lib : BaseLibrary C} {confs : Set NodeConf} {admitted : Env → Prop}
  {store : BlockStore C}

/-- A restart commits no round below a stored block. -/
theorem WellKept.le_committedRound {conf : NodeConf} {n : Node C} {round : UInt64}
    {block : Block C} (h : WellKept lib confs store) (hstarted : Started lib conf store n)
    (hstored : storedBlock store round = some block) : round ≤ getRoundNumber n.committedUC := by
  have hsome : (storedBlock store round).isSome := by rw [hstored]; rfl
  rcases (h.restoresCertified_iff hstarted).mpr (Or.inl ⟨round, hsome⟩) with
    ⟨_, hnone⟩ | ⟨top, _, uc, _, hgreatest, _, htop, _, hcommitted⟩
  · rw [hnone round] at hstored
    cases hstored
  · rw [hcommitted, htop]
    exact hgreatest round hsome

/-- A block on the disk when a process starts is on the disk whenever a later one starts. -/
theorem Outlives.storedBlock_eq (hlaw : lib.SuccessorLaw) (hcbor : lib.CborLaw)
    (hleft : LeftBehind lib confs store) {store' : BlockStore C}
    (h : Outlives lib confs admitted store store') {round : UInt64} {block : Block C}
    (hstored : storedBlock store round = some block) :
    LeftBehind lib confs store' ∧ storedBlock store' round = some block := by
  refine h.invariant
    (P := fun store ↦ LeftBehind lib confs store ∧ storedBlock store round = some block) ?_
    ⟨hleft, hstored⟩
  rintro conf store n inputs ⟨hleft, hstored⟩ hconf hboots henvs count
  refine ⟨.crash hleft hconf hboots.starts inputs count, ?_⟩
  have hstarted := hboots.started
  have hround := (hleft.wellKept hcbor).le_committedRound hstarted hstored
  have hcount : (runNode lib conf n []).storeLog.length ≤ count := by
    have hempty : (runNode lib conf n []).storeLog = [] := hstarted.storeLog
    rw [hempty]
    exact count.zero_le
  have hkept : storedBlock (applyOps store ((runNode lib conf n ([] ++ inputs)).storeLog.take
      count)) round = storedBlock (runNode lib conf n []).blockStore round :=
    storedBlock_of_stop hlaw hboots henvs hround hcount
  have hdisk : (runNode lib conf n []).blockStore = store := hstarted.blockStore
  rw [hdisk] at hkept
  exact hkept.trans hstored

/-- A block stored by a process that has committed its round is never overwritten or deleted: not
by the rest of the process, wherever that stops, and not by any number of later processes, whatever
fails in them. All of these commit rounds from that block on only. -/
theorem finalized_blocks_survive (hlaw : lib.SuccessorLaw) (hcbor : lib.CborLaw)
    (hstore : Outlives lib confs admitted OrderedStore.empty store) {conf : NodeConf}
    (hconf : conf ∈ confs) {n : Node C} (hboots : Boots lib conf admitted store n)
    {inputs later : List (Input C)}
    (henvs : ∀ input ∈ inputs ++ later, ∀ i, admitted (input.envs i)) {round : UInt64}
    {block : Block C}
    (hstored : storedBlock (runNode lib conf n inputs).blockStore round = some block)
    (hround : round ≤ getRoundNumber (runNode lib conf n inputs).committedUC) {count : ℕ}
    (hcount : (runNode lib conf n inputs).storeLog.length ≤ count) {store' : BlockStore C}
    (hlater : Outlives lib confs admitted
      (applyOps store ((runNode lib conf n (inputs ++ later)).storeLog.take count)) store') :
    storedBlock store' round = some block ∧
      ∀ conf' ∈ confs, ∀ n', Boots lib conf' admitted store' n' →
        round ≤ getRoundNumber n'.committedUC := by
  have hleft : LeftBehind lib confs
      (applyOps store ((runNode lib conf n (inputs ++ later)).storeLog.take count)) :=
    .crash hstore.leftBehind hconf hboots.starts (inputs ++ later) count
  have hkept := storedBlock_of_stop hlaw hboots henvs hround hcount
  obtain ⟨hleft', hstored'⟩ := hlater.storedBlock_eq hlaw hcbor hleft (hkept.trans hstored)
  refine ⟨hstored', fun conf' _ n' hboots' ↦ ?_⟩
  exact (hleft'.wellKept hcbor).le_committedRound hboots'.started hstored'

end Restarts

section Reference

open Reference

/-- The leader `A` has stored its first block, crashes while it proposes the second one and starts
again; the first block is still there. -/
theorem finalized_block_survives_restart :
    storedBlock (runNode referenceLibrary (conf "A" [1]) restarted
        [input 11 .t1Timeout]).blockStore 2 = some finalizedBlock ∧
      ∀ conf' ∈ ({conf "A" [1]} : Set NodeConf), ∀ n',
        Boots referenceLibrary conf' (fun _ ↦ True) (runNode referenceLibrary (conf "A" [1])
          restarted [input 11 .t1Timeout]).blockStore n' →
        2 ≤ getRoundNumber n'.committedUC := by
  have hboots : Boots referenceLibrary (conf "A" [1]) (fun _ ↦ True) OrderedStore.empty node :=
    ⟨shardConf, _, env 0, env 0, rfl, rfl, trivial, trivial, rfl⟩
  have hboots' : Boots referenceLibrary (conf "A" [1]) (fun _ ↦ True) restarted.blockStore
      restarted :=
    ⟨shardConf, _, env 10, env 10, rfl, rfl, trivial, trivial, rfl⟩
  have hlater : Outlives referenceLibrary {conf "A" [1]} (fun _ ↦ True) restarted.blockStore
      (runNode referenceLibrary (conf "A" [1]) restarted [input 11 .t1Timeout]).blockStore :=
    .single ⟨_, Set.mem_singleton _, restarted, hboots', [input 11 .t1Timeout],
      fun _ _ _ ↦ trivial, 4, rfl⟩
  have hstored : storedBlock (runNode referenceLibrary (conf "A" [1]) node
      finalizing).blockStore 2 = some finalizedBlock := rfl
  have hround : 2 ≤ getRoundNumber (runNode referenceLibrary (conf "A" [1]) node
      finalizing).committedUC := by decide
  have hcount : (runNode referenceLibrary (conf "A" [1]) node finalizing).storeLog.length ≤ 4 := by
    rw [finalizing_storeLog]
    rfl
  have hlog : applyOps OrderedStore.empty ((runNode referenceLibrary (conf "A" [1]) node
      (finalizing ++ [])).storeLog.take 4) = restarted.blockStore := by
    rw [List.append_nil, finalizing_storeLog]
    rfl
  exact finalized_blocks_survive successorLaw cborLaw .refl (Set.mem_singleton (conf "A" [1]))
    hboots (fun _ _ _ ↦ trivial) hstored hround hcount (hlog ▸ hlater)

end Reference

end FinalityGadget
