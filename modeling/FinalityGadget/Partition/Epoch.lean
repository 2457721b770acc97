import FinalityGadget.Partition.Frame
import FinalityGadget.Partition.Reference

/-!
# Epoch changes

The configuration of an epoch is held twice, by the node and by its transaction system, and the
handler of an epoch change replaces the node's first. The two agree in every run in which the
configurations that the handler loads name a usable depth, and in no other. An epoch change that is
due is scheduled, or was tried without success and nothing has changed since.
-/

namespace FinalityGadget

open Bytes Fallible

variable {C : Type}

/-! ## One configuration -/

/-- The transaction system runs with the configuration of the node. -/
def Unified (n : Node C) : Prop :=
  n.transactionSystem.shardConf = n.shardConf ∧
    parseDFG n.shardConf = .ok n.transactionSystem.dFG

/-- The node and its transaction system keep their configuration, or both have the one that is
stored for the current epoch. -/
def AppliesWhole (conf : NodeConf) (n n' : Node C) : Prop :=
  n'.configuration = n.configuration ∨
    ∃ shardConf dFG, conf.shardConfByEpoch n.currentEpoch = .ok shardConf ∧
      parseDFG shardConf = .ok dFG ∧ n'.configuration = (shardConf, shardConf, dFG)

/-- If the event is a scheduled epoch change, then the configuration stored for the current epoch
names a depth, if there is one. -/
def Usable (conf : NodeConf) (n : Node C) (input : Input C) : Prop :=
  input.event = .epochChange → n.epochChangeEvent = true →
    ∀ shardConf, conf.shardConfByEpoch n.currentEpoch = .ok shardConf →
      ∃ dFG, parseDFG shardConf = .ok dFG

section Steps

variable {lib : BaseLibrary C} {conf : NodeConf} {n n' : Node C}

theorem Unified.congr (h : Unified n) (hkept : n'.configuration = n.configuration) :
    Unified n' := by
  simp only [NodeState.configuration, Prod.mk.injEq] at hkept
  obtain ⟨hshardConf, htx, hdFG⟩ := hkept
  rw [Unified, hshardConf, htx, hdFG]
  exact h

theorem step_epochChange {input : Input C} (hevent : input.event = .epochChange) (n : Node C) :
    EpochExit conf n (step lib conf n input) := by
  have hstep : step lib conf n input = final ((takeEpochChange conf).run n) := by
    rw [step, handleEvent, hevent]
  rw [hstep]
  exact takeEpochChange_spec conf n

/-- A turn of a unified node applies an epoch change as a whole exactly when the loaded
configuration is usable. -/
theorem Unified.step_iff (h : Unified n) (input : Input C) :
    (AppliesWhole conf n (step lib conf n input) ∧
      Unified (step lib conf n input)) ↔ Usable conf n input := by
  by_cases hevent : input.event = .epochChange
  · have hexit : EpochExit conf n (step lib conf n input) := step_epochChange hevent n
    generalize step lib conf n input = n' at hexit ⊢
    cases hexit with
    | idle hslot =>
      refine iff_of_true ⟨Or.inl rfl, h⟩ fun _ hscheduled ↦ ?_
      rw [hslot] at hscheduled
      cases hscheduled
    | missing err hslot hload =>
      refine iff_of_true ⟨Or.inl rfl, h⟩ fun _ _ shardConf hfound ↦ ?_
      rw [hload] at hfound
      cases hfound
    | rejected shardConf hslot hload hparse =>
      apply iff_of_false
      · rintro ⟨_, _, hunified⟩
        exact hparse _ hunified
      · intro husable
        obtain ⟨dFG, hdFG⟩ := husable hevent hslot shardConf hload
        exact hparse dFG hdFG
    | applied shardConf dFG hslot hload hparse =>
      refine iff_of_true ⟨Or.inr ⟨shardConf, dFG, hload, hparse, rfl⟩, rfl, hparse⟩ ?_
      intro _ _ found hfound
      rw [hload] at hfound
      cases hfound
      exact ⟨dFG, hparse⟩
  · have hkept := (step_keepsEpoch lib conf n hevent).configuration
    exact iff_of_true ⟨Or.inl hkept, h.congr hkept⟩ fun hepoch ↦ absurd hepoch hevent

end Steps

section Start

variable {lib : BaseLibrary C} {conf : NodeConf} {env nextEnv : Env} {store : BlockStore C}
  {n n' : Node C}

theorem ReplayExit.epochState_eq (h : ReplayExit lib env n (.ok () n')) :
    n'.epochState = n.epochState := by
  cases h <;> rfl

/-- A process that starts with the first configuration in its transaction system is unified. -/
theorem unified_of_newNode {first : PartitionDescriptionRecord} {txSystem : FGPTxSystem}
    (hfirst : conf.firstShardConf = .ok first) (hfresh : newFGPTxSystem first = .ok txSystem)
    (hnew : newNode lib conf env nextEnv txSystem store = .ok n) : Unified n := by
  obtain ⟨shardConf, restored, hconf, hrestore, hreplay⟩ := newNode_spec lib conf hnew
  have hkept := congrArg Prod.fst hreplay.epochState_eq
  rw [hconf] at hfirst
  cases hfirst
  suffices hrestored : Unified restored from hrestored.congr hkept
  cases hrestore with
  | empty =>
    unfold newFGPTxSystem at hfresh
    obtain ⟨dFG, hparse, hsystem⟩ := bind_eq_ok.mp hfresh
    cases hsystem
    exact ⟨rfl, hparse⟩
  | restored key block uc shardConf' dFG s hlast huc hload hrestored hparse =>
    obtain ⟨height, _, rfl⟩ := hrestored
    exact ⟨rfl, hparse⟩

end Start

/-- In a run of a started node every epoch change is applied as a whole, and the configurations of
the node and its transaction system agree after every turn, if and only if each configuration that
the handler of a scheduled epoch change loads names a usable depth. -/
theorem epoch_change_whole_iff {lib : BaseLibrary C} {conf : NodeConf} {env nextEnv : Env}
    {store : BlockStore C} {first : PartitionDescriptionRecord} {txSystem : FGPTxSystem}
    {n : Node C} (hfirst : conf.firstShardConf = .ok first)
    (hfresh : newFGPTxSystem first = .ok txSystem)
    (hnew : newNode lib conf env nextEnv txSystem store = .ok n) (inputs : List (Input C)) :
    (Unified n ∧ Run.Guarded (step lib conf)
      (fun n input ↦ AppliesWhole conf n (step lib conf n input) ∧
        Unified (step lib conf n input)) n inputs) ↔
      Run.Guarded (step lib conf) (Usable conf) n inputs := by
  have hunified := unified_of_newNode hfirst hfresh hnew
  rw [and_iff_right hunified]
  have hiff (n : Node C) (input : Input C) (h : Unified n) :
      (AppliesWhole conf n (step lib conf n input) ∧ Unified (step lib conf n input)) ↔
        Usable conf n input := h.step_iff input
  apply Run.guarded_congr hiff _ inputs hunified
  intro n input _ hstep
  exact hstep.2

section Reference

open Reference

/-- The configurations of two epochs of the reference shard; the second has the given
parameters. -/
def storedEpochs (params : List (String × String)) (epoch : UInt64) :
    Except Err PartitionDescriptionRecord :=
  if epoch = 0 then .ok shardConf
  else if epoch = 1 then .ok { shardConf with epoch := 1, partitionParams := params }
  else .error "shard conf not found"

theorem of_storedEpochs {params : List (String × String)} {epoch : UInt64}
    {found : PartitionDescriptionRecord} (h : storedEpochs params epoch = .ok found) :
    found.partitionID = shardConf.partitionID ∧ found.shardID = shardConf.shardID ∧
      found.epoch = epoch := by
  unfold storedEpochs at h
  split at h
  next hzero =>
    cases h
    exact ⟨rfl, rfl, hzero.symm⟩
  next =>
    split at h
    next hone =>
      cases h
      exact ⟨rfl, rfl, hone.symm⟩
    next => cases h

def twoEpochs (params : List (String × String)) : NodeConf where
  __ := conf "A" [1]
  shardConfByEpoch := storedEpochs params

/-- A certificate opens a round of the second epoch, and the epoch change is handled. -/
def enteringEpoch : List (Input UnicityCertificate) :=
  [deliver { roundNumber := 1 } 5 { technical 2 "A" with epoch := 1 }, input 10 .epochChange]

theorem epoch_change_whole_iff_enteringEpoch :
    Unified (runNode referenceLibrary (twoEpochs [("dFG", "2")]) node enteringEpoch) ∧
      (runNode referenceLibrary (twoEpochs [("dFG", "2")]) node
        enteringEpoch).transactionSystem.dFG = 2 := by
  have hnew : newNode referenceLibrary (twoEpochs [("dFG", "2")]) (env 0) (env 0)
      (.fresh shardConf 1) OrderedStore.empty = .ok node := rfl
  have husable : Run.Guarded (step referenceLibrary (twoEpochs [("dFG", "2")]))
      (Usable (twoEpochs [("dFG", "2")])) node enteringEpoch := by
    refine ⟨?_, ?_, trivial⟩
    · rintro ⟨⟩
    · rintro _ _ _ ⟨⟩
      exact ⟨2, rfl⟩
  have hwhole := (epoch_change_whole_iff rfl rfl hnew enteringEpoch).mpr husable
  exact ⟨hwhole.2.2.1.2, rfl⟩

/-- The second epoch has no depth: the node changes to it, its transaction system does not. -/
theorem epoch_change_half_applied :
    newFGPTxSystem shardConf = .ok (.fresh shardConf 1) ∧
      newNode referenceLibrary (twoEpochs []) (env 0) (env 0) (.fresh shardConf 1)
        OrderedStore.empty = .ok node ∧
      (runNode referenceLibrary (twoEpochs []) node enteringEpoch).shardConf.epoch = 1 ∧
      (runNode referenceLibrary (twoEpochs []) node
        enteringEpoch).transactionSystem.shardConf.epoch = 0 :=
  ⟨rfl, rfl, rfl, rfl⟩

end Reference

/-! ## No epoch change is lost -/

/-- The turn takes a scheduled epoch change. -/
def HandlesEpoch (n : Node C) (input : Input C) : Prop :=
  input.event = .epochChange ∧ n.epochChangeEvent = true

/-- The last epoch change that was handled found no configuration for the epoch that was then
current, and the latest certificate and technical record have not changed since. -/
inductive EpochMissing (lib : BaseLibrary C) (conf : NodeConf) (n : Node C) :
    List (Input C) → Prop where
  | handled {inputs : List (Input C)} {input : Input C} (err : Err)
      (hhandles : HandlesEpoch (runNode lib conf n inputs) input)
      (hload : conf.shardConfByEpoch (runNode lib conf n inputs).currentEpoch = .error err) :
      EpochMissing lib conf n (inputs ++ [input])
  | since {inputs : List (Input C)} {input : Input C} (h : EpochMissing lib conf n inputs)
      (hother : ¬HandlesEpoch (runNode lib conf n inputs) input)
      (hluc : (runNode lib conf n (inputs ++ [input])).luc = (runNode lib conf n inputs).luc)
      (hltr : (runNode lib conf n (inputs ++ [input])).ltr = (runNode lib conf n inputs).ltr) :
      EpochMissing lib conf n (inputs ++ [input])

/-- The configuration of the node is the one of its current epoch, or an epoch change is scheduled,
or it was tried in vain. -/
def EpochCurrent (lib : BaseLibrary C) (conf : NodeConf) (n : Node C)
    (inputs : List (Input C)) : Prop :=
  (runNode lib conf n inputs).shardConf.epoch ≠ (runNode lib conf n inputs).currentEpoch →
    (runNode lib conf n inputs).epochChangeEvent = true ∨ EpochMissing lib conf n inputs

section Lost

variable {lib : BaseLibrary C} {conf : NodeConf} {n : Node C}

theorem runNode_concat (inputs : List (Input C)) (input : Input C) :
    runNode lib conf n (inputs ++ [input]) = step lib conf (runNode lib conf n inputs) input :=
  runNode_append lib conf n inputs [input]

/-- A turn without an epoch change schedules one or changes nothing that matters. -/
theorem EpochCurrent.other {inputs : List (Input C)} {input : Input C}
    (h : EpochCurrent lib conf n inputs) (hevent : input.event ≠ .epochChange) :
    EpochCurrent lib conf n (inputs ++ [input]) := by
  have hkeeps : KeepsEpoch (runNode lib conf n inputs)
      (runNode lib conf n (inputs ++ [input])) := by
    rw [runNode_concat]
    exact step_keepsEpoch lib conf _ hevent
  intro hne
  rcases hkeeps.latest with ⟨hluc, hltr⟩ | hdue
  · rw [hkeeps.shardConf, NodeState.currentEpoch, hluc, hltr] at hne
    rcases h hne with hslot | hmissing
    · exact Or.inl (hkeeps.scheduled hslot)
    · exact Or.inr (.since hmissing (fun hhandles ↦ hevent hhandles.1) hluc hltr)
  · exact Or.inl (hdue hne)

/-- Handling an epoch change loads the configuration of the current epoch, if there is one. -/
theorem EpochCurrent.epochChange {inputs : List (Input C)} {input : Input C}
    (hown : ∀ epoch shardConf, conf.shardConfByEpoch epoch = .ok shardConf →
      shardConf.epoch = epoch)
    (h : EpochCurrent lib conf n inputs) (hevent : input.event = .epochChange) :
    EpochCurrent lib conf n (inputs ++ [input]) := by
  have hexit : EpochExit conf (runNode lib conf n inputs)
      (runNode lib conf n (inputs ++ [input])) := by
    rw [runNode_concat]
    exact step_epochChange hevent _
  intro hne
  generalize hnext : runNode lib conf n (inputs ++ [input]) = n' at hexit hne ⊢
  cases hexit with
  | idle hslot =>
    have hidle : ¬HandlesEpoch (runNode lib conf n inputs) input := by
      rintro ⟨_, hscheduled⟩
      rw [hslot] at hscheduled
      cases hscheduled
    rcases h hne with hscheduled | hmissing
    · exact Or.inl hscheduled
    · exact Or.inr (.since hmissing hidle (by rw [hnext]) (by rw [hnext]))
  | missing err hslot hload => exact Or.inr (.handled err ⟨hevent, hslot⟩ hload)
  | rejected shardConf _ hload | applied shardConf _ _ hload =>
    exact absurd (hown _ shardConf hload) hne

/-- A started process holds the configuration of its current epoch. -/
theorem epoch_eq_of_starts {store : BlockStore C}
    (hown : ∀ epoch shardConf, conf.shardConfByEpoch epoch = .ok shardConf →
      shardConf.epoch = epoch)
    (hgenesis : store.last? = none → ∀ shardConf, conf.firstShardConf = .ok shardConf →
      shardConf.epoch = 0)
    (hstart : Starts lib conf store n) : n.shardConf.epoch = n.currentEpoch := by
  obtain ⟨txConf, txSystem, env, nextEnv, hfresh, hnew⟩ := hstart
  rw [newFGPTxSystem_eq hfresh] at hnew
  obtain ⟨shardConf, restored, hconf, hrestore, hreplay⟩ := newNode_spec lib conf hnew
  have hstate := hreplay.epochState_eq
  simp only [NodeState.epochState, NodeState.configuration, Prod.mk.injEq] at hstate
  obtain ⟨⟨hshardConf, _⟩, hluc, hltr, _⟩ := hstate
  rw [hshardConf, NodeState.currentEpoch, hluc, hltr]
  cases hrestore with
  | empty hlast => exact hgenesis hlast shardConf hconf
  | restored key block uc shardConf' dFG s hlast huc hload hrestored hparse =>
    obtain ⟨height, _, rfl⟩ := hrestored
    exact hown _ shardConf' hload

theorem epochCurrent_of_starts {store : BlockStore C}
    (hown : ∀ epoch shardConf, conf.shardConfByEpoch epoch = .ok shardConf →
      shardConf.epoch = epoch)
    (hgenesis : store.last? = none → ∀ shardConf, conf.firstShardConf = .ok shardConf →
      shardConf.epoch = 0)
    (hstart : Starts lib conf store n) (inputs : List (Input C)) :
    EpochCurrent lib conf n inputs := by
  induction inputs using List.reverseRecOn with
  | nil => exact fun hne ↦ absurd (epoch_eq_of_starts hown hgenesis hstart) hne
  | append_singleton inputs input ih =>
    by_cases hevent : input.event = .epochChange
    · exact ih.epochChange hown hevent
    · exact ih.other hevent

end Lost

/-- At every boundary of every run, a node whose configuration is not the one of its current epoch
has an epoch change scheduled, unless the last one it handled found no configuration and nothing has
changed since. Configurations are stored under their own epoch, and a start without blocks finds
epoch 0 first. -/
theorem no_epoch_change_lost {lib : BaseLibrary C} {conf : NodeConf} {store : BlockStore C}
    {n : Node C}
    (hown : ∀ epoch shardConf, conf.shardConfByEpoch epoch = .ok shardConf →
      shardConf.epoch = epoch)
    (hgenesis : store.last? = none → ∀ shardConf, conf.firstShardConf = .ok shardConf →
      shardConf.epoch = 0)
    (hstart : Starts lib conf store n) (inputs : List (Input C))
    (hne : (runNode lib conf n inputs).shardConf.epoch ≠
      (runNode lib conf n inputs).currentEpoch) :
    (runNode lib conf n inputs).epochChangeEvent = true ∨ EpochMissing lib conf n inputs :=
  epochCurrent_of_starts hown hgenesis hstart inputs hne

section Reference

open Reference

/-- A certificate opens a round of a third epoch, for which there is no configuration. -/
def enteringMissing : List (Input UnicityCertificate) :=
  [deliver { roundNumber := 1 } 5 { technical 2 "A" with epoch := 2 }, input 10 .epochChange,
    input 10 .t1Timeout]

theorem no_epoch_change_lost_enteringMissing :
    (runNode referenceLibrary (twoEpochs []) node enteringMissing).currentEpoch = 2 ∧
      (runNode referenceLibrary (twoEpochs []) node enteringMissing).epochChangeEvent = false ∧
      EpochMissing referenceLibrary (twoEpochs []) node enteringMissing := by
  have hstart : Starts referenceLibrary (twoEpochs []) OrderedStore.empty node :=
    ⟨shardConf, _, env 0, env 0, rfl, rfl⟩
  have hown : ∀ epoch shardConf, (twoEpochs []).shardConfByEpoch epoch = .ok shardConf →
      shardConf.epoch = epoch := fun _ _ hload ↦ (of_storedEpochs hload).2.2
  have hgenesis : (OrderedStore.empty : BlockStore UnicityCertificate).last? = none →
      ∀ shardConf, (twoEpochs []).firstShardConf = .ok shardConf → shardConf.epoch = 0 := by
    rintro _ _ ⟨⟩
    rfl
  refine ⟨rfl, rfl, ?_⟩
  have hlost := no_epoch_change_lost hown hgenesis hstart enteringMissing (by decide)
  exact hlost.resolve_left (by decide)

end Reference

end FinalityGadget
