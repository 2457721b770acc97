import FinalityGadget.Partition.Moves

/-!
# One process after another

The store of a validator outlives its processes. The command starts a process on a transaction
system with the first stored configuration; the process runs, and whenever it stops, a prefix of its
mutations is on the disk for the next one.
-/

namespace FinalityGadget

open Bytes Fallible Text Relation

variable {C : Type}

section Definitions

variable (lib : BaseLibrary C) (conf : NodeConf) (confs : Set NodeConf) (admitted : Env → Prop)

/-- A process started the way the command does it, in admitted surroundings. -/
def Boots (store : BlockStore C) (n : Node C) : Prop :=
  ∃ txConf txSystem env nextEnv, conf.firstShardConf = .ok txConf ∧
    newFGPTxSystem txConf = .ok txSystem ∧ admitted env ∧ admitted nextEnv ∧
    newNode lib conf env nextEnv txSystem store = .ok n

/-- The transaction system of a process that has read its store: new, or restored from the
certificate in the last entry. -/
inductive Restores (store : BlockStore C) : FGPTxSystem → Prop where
  | genesis {shardConf : PartitionDescriptionRecord} {dFG : UInt64} (hlast : store.last? = none)
      (hload : conf.Loads shardConf) (hparse : parseDFG shardConf = .ok dFG) :
      Restores store { shardConf := shardConf, dFG := dFG }
  | block {key : List UInt8} {block : Block C} {uc : UnicityCertificate} {env : Env}
      {shardConf : PartitionDescriptionRecord} {dFG height : UInt64}
      (hlast : store.last? = some (key, block)) (huc : getUCv1 lib (some block) = .ok uc)
      (hload : conf.Loads shardConf) (hparse : parseDFG shardConf = .ok dFG) (henv : admitted env)
      (hheight : (getStateHash (some uc)).bytes ≠ [] → ∃ header,
        env.pow.getBlockHeaderByHash (hexEncode (getStateHash (some uc)).bytes) = .ok header ∧
          height = header.height) :
      Restores store (FGPTxSystem.settle { shardConf := shardConf, dFG := dFG } (some uc)
        (getStateHash (some uc)) height)

/-- A process of the validator starts on the store, runs, and stops after some of its mutations. -/
def Crash (store store' : BlockStore C) : Prop :=
  ∃ conf ∈ confs, ∃ n, Boots lib conf admitted store n ∧
    ∃ inputs, (∀ input ∈ inputs, ∀ i, admitted (input.envs i)) ∧
      ∃ count, store' = applyOps store ((runNode lib conf n inputs).storeLog.take count)

/-- What any number of processes, one after another, make of a store. -/
abbrev Outlives : BlockStore C → BlockStore C → Prop := ReflTransGen (Crash lib confs admitted)

end Definitions

section Boot

variable {lib : BaseLibrary C} {conf : NodeConf} {admitted : Env → Prop} {store : BlockStore C}
  {n : Node C}

theorem Boots.starts (h : Boots lib conf admitted store n) : Starts lib conf store n := by
  obtain ⟨txConf, txSystem, env, nextEnv, _, hnew, _, _, hnode⟩ := h
  exact ⟨txConf, txSystem, env, nextEnv, hnew, hnode⟩

theorem Boots.started (h : Boots lib conf admitted store n) : Started lib conf store n :=
  started_of_starts lib conf h.starts

/-- Replaying the stored proposal makes calls like any other move. -/
theorem ReplayExit.txSteps {nextEnv : Env} {m : Node C} (henv : admitted nextEnv)
    (h : ReplayExit lib nextEnv m (.ok () n)) :
    TxSteps conf admitted m.transactionSystem n.transactionSystem := by
  cases h with
  | skipped => exact .refl
  | reverted => exact .single (txStep_revert _)
  | replayed proposal uc height hstored huc hextends hverified hequal =>
    exact .single (Chosen.txStep (.verified henv hverified))

theorem Boots.txSteps (h : Boots lib conf admitted store n) :
    ∃ s, Restores lib conf admitted store s ∧ TxSteps conf admitted s n.transactionSystem := by
  obtain ⟨txConf, txSystem, env, nextEnv, hfirst, hnew, henv, hnext, hnode⟩ := h
  obtain ⟨dFG, hparse, hs⟩ := bind_eq_ok.mp hnew
  cases hs
  obtain ⟨shardConf, restored, _, hrestore, hreplay⟩ := newNode_spec lib conf hnode
  have hreplayed : TxSteps conf admitted restored.initCertificates.transactionSystem
      n.transactionSystem := hreplay.txSteps hnext
  refine ⟨restored.transactionSystem, ?_, hreplayed⟩
  cases hrestore with
  | empty hlast => exact .genesis hlast (firstShardConf_loaded conf hfirst) hparse
  | restored key block uc shardConf' dFG' s hlast huc hloaded hrestored hparsed =>
    obtain ⟨height, hheight, rfl⟩ := hrestored
    refine .block hlast huc ⟨_, hloaded⟩ hparsed henv fun hne ↦ ?_
    rcases hheight with ⟨hempty, _⟩ | hfound
    · exact absurd hempty hne
    · exact hfound

end Boot

/-! ## Stores of later processes -/

section Stores

variable {lib : BaseLibrary C} {confs : Set NodeConf} {admitted : Env → Prop}
  {store store' : BlockStore C}

/-- What every process keeps of a store, wherever it stops, is kept for good. -/
theorem Outlives.invariant {P : BlockStore C → Prop}
    (hcrash : ∀ {conf store n inputs}, P store → conf ∈ confs → Boots lib conf admitted store n →
      (∀ input ∈ inputs, ∀ i, admitted (input.envs i)) →
      ∀ count, P (applyOps store ((runNode lib conf n inputs).storeLog.take count)))
    (h : Outlives lib confs admitted store store') (hinit : P store) : P store' := by
  induction h with
  | refl => exact hinit
  | tail _ hlast ih =>
    obtain ⟨conf, hconf, n, hboots, inputs, henvs, count, rfl⟩ := hlast
    exact hcrash ih hconf hboots henvs count

theorem Outlives.leftBehind (h : Outlives lib confs admitted OrderedStore.empty store) :
    LeftBehind lib confs store := by
  induction h with
  | refl => exact .empty
  | tail _ hlast ih =>
    obtain ⟨conf, hconf, n, hboots, inputs, _, count, rfl⟩ := hlast
    exact .crash ih hconf hboots.starts inputs count

end Stores

/-! ## Properties of entries -/

/-- Whatever the mutation writes has the property. -/
def StoreOp.Carries (P : Block C → Prop) : StoreOp C → Prop
  | .writeBlock _ block | .writeProposal block => P block
  | .deleteBlock _ | .deleteProposal => True

/-- Every entry of the store has the property. -/
def Entries (P : Block C → Prop) (store : BlockStore C) : Prop :=
  ∀ key block, store.find? key = some block → P block

section Entries

variable {P : Block C → Prop} {store : BlockStore C}

theorem entries_empty : Entries P (OrderedStore.empty : BlockStore C) := by
  intro key block h
  cases h

theorem Entries.insert (h : Entries P store) (key : List UInt8) {block : Block C}
    (hblock : P block) : Entries P (store.insert key block) := by
  intro other entry hentry
  by_cases heq : other = key
  · rw [heq, OrderedStore.find?_insert_self] at hentry
    cases hentry
    exact hblock
  · rw [OrderedStore.find?_insert_of_ne _ _ heq] at hentry
    exact h other entry hentry

theorem Entries.erase (h : Entries P store) (key : List UInt8) : Entries P (store.erase key) := by
  intro other entry hentry
  by_cases heq : other = key
  · rw [heq, OrderedStore.find?_erase_self] at hentry
    cases hentry
  · rw [OrderedStore.find?_erase_of_ne _ heq] at hentry
    exact h other entry hentry

theorem Entries.applyOps (h : Entries P store) {ops : List (StoreOp C)}
    (hops : ∀ op ∈ ops, op.Carries P) : Entries P (FinalityGadget.applyOps store ops) := by
  induction ops generalizing store with
  | nil => exact h
  | cons op rest ih =>
    have hop : op.Carries P := hops op List.mem_cons_self
    refine ih ?_ fun later hlater ↦ hops later (List.mem_cons_of_mem op hlater)
    cases op with
    | writeBlock round block => exact h.insert _ hop
    | deleteBlock round => exact h.erase _
    | writeProposal block => exact h.insert _ hop
    | deleteProposal => exact h.erase _

end Entries

end FinalityGadget
