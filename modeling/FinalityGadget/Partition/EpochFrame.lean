import FinalityGadget.Partition.Loop

/-!
# What handlers leave of the epoch

Only the handler of an epoch change replaces the configuration and frees the slot that schedules it.
Everything else keeps both, and whatever replaces the latest certificate schedules an epoch change
when the node then is in an epoch whose configuration it does not hold.
-/

namespace FinalityGadget

open Bytes Fallible

variable {C : Type}

namespace NodeState

/-- The configuration of the node and the one in force in its transaction system. -/
def configuration (n : NodeState C) :
    PartitionDescriptionRecord × PartitionDescriptionRecord × UInt64 :=
  (n.shardConf, n.transactionSystem.shardConf, n.transactionSystem.dFG)

/-- The configuration, what the current epoch is read from, and the scheduled epoch change. -/
def epochState (n : NodeState C) :
    (PartitionDescriptionRecord × PartitionDescriptionRecord × UInt64) ×
      Option UnicityCertificate × Option TechnicalRecord × Bool :=
  (n.configuration, n.luc, n.ltr, n.epochChangeEvent)

end NodeState

/-- The configuration and a scheduled epoch change are kept. The latest certificate and technical
record are kept too, or an epoch change is scheduled where it is due. -/
structure KeepsEpoch (n n' : Node C) : Prop where
  configuration : n'.configuration = n.configuration
  scheduled : n.epochChangeEvent = true → n'.epochChangeEvent = true
  latest : (n'.luc = n.luc ∧ n'.ltr = n.ltr) ∨
    (n'.shardConf.epoch ≠ n'.currentEpoch → n'.epochChangeEvent = true)

namespace KeepsEpoch

variable {n n' n'' : Node C}

theorem shardConf (h : KeepsEpoch n n') : n'.shardConf = n.shardConf :=
  congrArg Prod.fst h.configuration

theorem of_eq (h : n'.epochState = n.epochState) : KeepsEpoch n n' := by
  simp only [NodeState.epochState, Prod.mk.injEq] at h
  obtain ⟨hconfiguration, hluc, hltr, hslot⟩ := h
  exact ⟨hconfiguration, fun hscheduled ↦ hslot.trans hscheduled, Or.inl ⟨hluc, hltr⟩⟩

theorem refl (n : Node C) : KeepsEpoch n n := of_eq rfl

theorem trans (h : KeepsEpoch n n') (h' : KeepsEpoch n' n'') : KeepsEpoch n n'' := by
  refine ⟨h'.configuration.trans h.configuration, fun hslot ↦ h'.scheduled (h.scheduled hslot), ?_⟩
  rcases h'.latest with ⟨hluc', hltr'⟩ | hdue
  · rcases h.latest with ⟨hluc, hltr⟩ | hdue
    · exact Or.inl ⟨hluc'.trans hluc, hltr'.trans hltr⟩
    · right
      rw [h'.shardConf, NodeState.currentEpoch, hluc', hltr']
      exact fun hne ↦ h'.scheduled (hdue hne)
  · exact Or.inr hdue

/-- A change that does not touch the epoch may follow. -/
theorem then_eq (h : KeepsEpoch n n') (heq : n''.epochState = n'.epochState) : KeepsEpoch n n'' :=
  h.trans (of_eq heq)

end KeepsEpoch

namespace Node

variable (n : Node C) (lib : BaseLibrary C) (conf : NodeConf) (env : Env)

theorem startNewRound_epochState : (n.startNewRound env).epochState = n.epochState := by
  rw [startNewRound_toNodeState]; rfl

theorem startRecovery_epochState :
    (n.startRecovery lib conf env).epochState = n.epochState := by
  by_cases h : n.status = .recovering
  · rw [startRecovery_of_recovering n lib conf env h]
  · rw [startRecovery_toNodeState n lib conf env h]; rfl

end Node

section Exits

variable {lib : BaseLibrary C} {conf : NodeConf} {env : Env} {n : Node C}
  {result : EStateM.Result Err (Node C) Unit}

theorem Finalized.epochState_eq {block : Block C} {uc : UnicityCertificate}
    (h : Finalized env block uc n result) : (final result).epochState = n.epochState := by
  cases h <;> rfl

theorem CertificateExit.epochState_eq {uc : UnicityCertificate}
    {prevLUC : Option UnicityCertificate} {wasInitializing : Bool}
    (h : CertificateExit lib conf env uc prevLUC wasInitializing n result) :
    (final result).epochState = n.epochState :=
  h.preserves (fun m ↦ m.epochState) (fun m ↦ m.startNewRound_epochState env)
    (fun m ↦ m.startRecovery_epochState lib conf env) (fun _ ↦ rfl) (fun _ _ ↦ rfl)
    Finalized.epochState_eq

theorem TimeoutExit.epochState_eq (h : TimeoutExit lib conf env n result) :
    (final result).epochState = n.epochState :=
  h.preserves (fun m ↦ m.epochState) (fun _ _ _ ↦ rfl) (fun _ _ ↦ rfl) (fun _ _ _ ↦ rfl)

theorem VoteExit.epochState_eq {prop : BlockProposal} {uc : UnicityCertificate}
    (h : VoteExit lib conf env prop uc n result) : (final result).epochState = n.epochState :=
  h.preserves (fun m ↦ m.epochState) (fun _ _ _ ↦ rfl) (fun _ _ ↦ rfl) (fun _ _ _ ↦ rfl)

theorem Node.adopt_keepsEpoch (n : Node C) (uc : UnicityCertificate)
    (tr : Option TechnicalRecord) (leader : PeerID) : KeepsEpoch n (n.adopt uc tr leader) where
  configuration := rfl
  scheduled hslot := by simp [adopt, hslot]
  latest := by
    right
    intro hdue
    have hcondition : n.currentEpoch ≠ (n.adopt uc tr leader).currentEpoch ∨
        n.shardConf.epoch ≠ (n.adopt uc tr leader).currentEpoch := Or.inr hdue
    change (n.epochChangeEvent || decide (n.currentEpoch ≠ (n.adopt uc tr leader).currentEpoch ∨
      n.shardConf.epoch ≠ (n.adopt uc tr leader).currentEpoch)) = true
    rw [decide_eq_true hcondition, Bool.or_true]

theorem LUCExit.keepsEpoch {m : Node C} {uc : UnicityCertificate} {tr : Option TechnicalRecord}
    (h : LUCExit lib conf n uc tr (.ok () m)) : KeepsEpoch n m := by
  cases h with
  | stale | duplicate => exact .refl n
  | adopted leader => exact n.adopt_keepsEpoch uc tr leader

theorem Accepted.keepsEpoch {m : Node C} {uc : UnicityCertificate} {tr : Option TechnicalRecord}
    (h : Accepted lib conf n uc tr m) : KeepsEpoch n m := by
  cases h with
  | duplicate => exact .refl n
  | adopted leader => exact n.adopt_keepsEpoch uc tr leader

theorem BlockExit.keepsEpoch {block : Option (Block C)}
    (h : BlockExit lib conf env n block result) : KeepsEpoch n (final result) := by
  cases h with
  | rejected => exact .refl n
  | refused err uc m hluc => exact hluc.keepsEpoch
  | reverted err uc m hluc => exact hluc.keepsEpoch.then_eq rfl
  | skipped uc m hluc => exact hluc.keepsEpoch
  | applied b uc m height hblock huc hluc => exact hluc.keepsEpoch.then_eq rfl

end Exits

/-! ## The epoch change -/

/-- How a turn for an epoch change ends: without a scheduled one nothing happens, a missing
configuration keeps the old one, and a configuration without a usable depth is the node's but not
the one of its transaction system. -/
inductive EpochExit (conf : NodeConf) (n : Node C) : Node C → Prop where
  | idle (hslot : n.epochChangeEvent = false) : EpochExit conf n n
  | missing (err : Err) (hslot : n.epochChangeEvent = true)
      (hload : conf.shardConfByEpoch n.currentEpoch = .error err) :
      EpochExit conf n { n with epochChangeEvent := false }
  | rejected (shardConf : PartitionDescriptionRecord) (hslot : n.epochChangeEvent = true)
      (hload : conf.shardConfByEpoch n.currentEpoch = .ok shardConf)
      (hparse : ∀ dFG, parseDFG shardConf ≠ .ok dFG) :
      EpochExit conf n { n with epochChangeEvent := false, shardConf := shardConf }
  | applied (shardConf : PartitionDescriptionRecord) (dFG : UInt64)
      (hslot : n.epochChangeEvent = true)
      (hload : conf.shardConfByEpoch n.currentEpoch = .ok shardConf)
      (hparse : parseDFG shardConf = .ok dFG) :
      EpochExit conf n
        { n with
          epochChangeEvent := false
          shardConf := shardConf
          transactionSystem := { n.transactionSystem with shardConf := shardConf, dFG := dFG } }

theorem takeEpochChange_spec (conf : NodeConf) (n : Node C) :
    EpochExit conf n (final ((takeEpochChange conf).run n)) := by
  unfold takeEpochChange
  simp only [EStateM.run_bind, EStateM.run_get, run_onlyIf]
  by_cases hslot : n.epochChangeEvent = true
  · rw [if_pos hslot]
    change EpochExit conf n
      (final ((handleEpochChangeEvent conf).run { n with epochChangeEvent := false }))
    unfold handleEpochChangeEvent
    simp only [EStateM.run_bind, EStateM.run_get]
    -- taking the event does not move the current epoch
    have hepoch : NodeState.currentEpoch { n.toNodeState with epochChangeEvent := false } =
        n.currentEpoch := rfl
    rw [hepoch]
    cases hload : conf.shardConfByEpoch n.currentEpoch with
    | error err => exact .missing err hslot hload
    | ok shardConf =>
      simp only [EStateM.run_bind, EStateM.run_modify, run_tryCatch, onTx, run_zoom,
        FGPTxSystem.updateConfig, run_ofExcept]
      cases hparse : parseDFG shardConf with
      | error err => exact .rejected shardConf hslot hload (by simp [hparse])
      | ok dFG => exact .applied shardConf dFG hslot hload hparse
  · rw [if_neg hslot]
    exact .idle (Bool.not_eq_true _ ▸ hslot)

end FinalityGadget
