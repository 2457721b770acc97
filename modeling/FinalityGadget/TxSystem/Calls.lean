import FinalityGadget.TxSystem.Finality

/-!
# Calls on the transaction system

Every operation of the transaction system under one type, each with arbitrary arguments. A
certificate is passed by pointer and may be missing, in which case its state hash is nil. A call
that returns an error leaves the system as it was, and the certified hash, its height and its
certificate fit together after every sequence of calls.
-/

namespace FinalityGadget

open Bytes Fallible Text

namespace FGPTxSystem

/-- The system with the given certified block and nothing pending. -/
def settle (s : FGPTxSystem) (uc : Option UnicityCertificate) (hash : Slice) (height : UInt64) :
    FGPTxSystem :=
  { s with
    committedStateHash := hash
    committedStateHeight := height
    committedUC := uc
    pendingStateHash := none
    pendingStateHeight := 0 }

/-- `RestoreState` of a missing certificate: there is no block to look up. -/
def restoreNil : TxM Unit := modify fun s ↦ s.settle none (getStateHash none) s.committedStateHeight

/-- `Commit` of a missing certificate. -/
def commitNil : TxM Unit := do
  let s ← get
  ensure (s.pendingStateHash.equal (getStateHash none) = true)
    (s!"state mismatch: pending {hexUpper s.pendingStateHash}, " ++
      s!"certified {hexUpper (getStateHash none)}")
  set (s.settle none s.pendingStateHash s.pendingStateHeight)

end FGPTxSystem

/-- A call with its arguments and the answers the proof-of-work client gives during it. -/
inductive TxCall where
  | stateSummary
  | leaderPropose (pow : PowClient) (round : UInt64)
  | followerVerify (pow : PowClient) (round : UInt64) (proposedRoot : Slice)
  | restoreState (pow : PowClient) (uc : Option UnicityCertificate)
  | revert
  | commit (uc : Option UnicityCertificate)
  | updateConfig (shardConf : PartitionDescriptionRecord)

namespace TxCall

open FGPTxSystem

/-- The called operation; some operations return a summary. -/
def exec : TxCall → TxM (Option Summary)
  | .stateSummary => do
    let s ← get
    let summary ← ofExcept id s.stateSummary
    return some summary
  | .leaderPropose pow round => do
    let summary ← FGPTxSystem.leaderPropose pow round
    return some summary
  | .followerVerify pow round proposedRoot => do
    let summary ← FGPTxSystem.followerVerify pow round proposedRoot
    return some summary
  | .restoreState _ none => do
    restoreNil
    return none
  | .restoreState pow (some uc) => do
    FGPTxSystem.restoreState pow uc
    return none
  | .revert => do
    modify FGPTxSystem.revert
    return none
  | .commit none => do
    commitNil
    return none
  | .commit (some uc) => do
    FGPTxSystem.commit uc
    return none
  | .updateConfig shardConf => do
    FGPTxSystem.updateConfig shardConf
    return none

/-- The system after a call, whether it succeeds or not. -/
def apply (s : FGPTxSystem) (call : TxCall) : FGPTxSystem := final (call.exec.run s)

/-- The height `RestoreState` keeps or looks up. -/
inductive RestoredHeight (pow : PowClient) (s : FGPTxSystem) (uc : Option UnicityCertificate) :
    UInt64 → Prop where
  | kept (h : (getStateHash uc).bytes = []) : RestoredHeight pow s uc s.committedStateHeight
  | found (block : BlockHeader) (hne : (getStateHash uc).bytes ≠ [])
      (h : pow.getBlockHeaderByHash (hexEncode (getStateHash uc).bytes) = .ok block) :
      RestoredHeight pow s uc block.height

/-- What a successful call returns and does. -/
inductive Returns (s : FGPTxSystem) : TxCall → Option Summary → FGPTxSystem → Prop where
  | summarized (h : s.pendingStateHash = none) :
      Returns s .stateSummary (some (s.summaryOf s.committedStateHash)) s
  | proposed {pow : PowClient} (round : UInt64) {data : List UInt8} {height : UInt64}
      (h : s.Candidate pow data height) :
      Returns s (.leaderPropose pow round) (some (s.summaryOf (some data)))
        (s.setPending (some data) height)
  | verified {pow : PowClient} (round : UInt64) {root : Slice} {height : UInt64}
      (h : Verified pow s root height) :
      Returns s (.followerVerify pow round root) (some (s.summaryOf root))
        (s.setPending root height)
  | restored {pow : PowClient} {uc : Option UnicityCertificate} {height : UInt64}
      (h : RestoredHeight pow s uc height) :
      Returns s (.restoreState pow uc) none (s.settle uc (getStateHash uc) height)
  | reverted : Returns s .revert none s.revert
  | committed {uc : Option UnicityCertificate}
      (h : s.pendingStateHash.bytes = (getStateHash uc).bytes) :
      Returns s (.commit uc) none (s.settle uc s.pendingStateHash s.pendingStateHeight)
  | configured {shardConf : PartitionDescriptionRecord} {dFG : UInt64}
      (h : parseDFG shardConf = .ok dFG) :
      Returns s (.updateConfig shardConf) none { s with shardConf := shardConf, dFG := dFG }

/-- How a call ends: a failing one leaves the system alone. -/
inductive Called (s : FGPTxSystem) (call : TxCall) :
    EStateM.Result Err FGPTxSystem (Option Summary) → Prop where
  | returned {value : Option Summary} {s' : FGPTxSystem} (h : call.Returns s value s') :
      Called s call (.ok value s')
  | failed (err : Err) : Called s call (.error err s)

theorem exec_spec (call : TxCall) (s : FGPTxSystem) : Called s call (call.exec.run s) := by
  cases call with
  | stateSummary =>
    refine exec_get (exec_ofExcept (fun _ _ ↦ .failed _) fun summary hsummary ↦ ?_)
    obtain ⟨hpending, rfl⟩ := stateSummary_ok_iff.mp hsummary
    exact .returned (.summarized hpending)
  | leaderPropose pow round =>
    have hspec := leaderPropose_spec pow round s
    refine exec_bind (fun err after hrun ↦ ?_) fun summary after hrun ↦ ?_
    all_goals
      rw [hrun] at hspec
      cases hspec
    · exact .failed _
    · exact .returned (.proposed round ‹_›)
  | followerVerify pow round root =>
    have hspec := followerVerify_spec pow round root s
    refine exec_bind (fun err after hrun ↦ ?_) fun summary after hrun ↦ ?_
    all_goals
      rw [hrun] at hspec
      cases hspec
    · exact .failed _
    · exact .returned (.verified round ‹_›)
  | restoreState pow uc =>
    cases uc with
    | none => exact .returned (.restored (.kept rfl))
    | some uc =>
      rw [exec, FGPTxSystem.restoreState, bind_assoc]
      refine exec_onlyIf (fun hne ↦ ?_) fun hempty ↦ ?_
      · rw [bind_assoc]
        refine exec_ofExcept (fun _ _ ↦ .failed _) fun block hblock ↦ ?_
        exact .returned (.restored (.found block hne hblock))
      · exact .returned (.restored (.kept (not_not.mp hempty)))
  | revert => exact .returned .reverted
  | commit uc =>
    cases uc with
    | none =>
      rw [exec, commitNil, bind_assoc]
      refine exec_get ?_
      rw [bind_assoc]
      refine exec_ensure (fun _ ↦ .failed _) fun hequal ↦ ?_
      exact .returned (.committed (Slice.equal_iff.mp hequal))
    | some uc =>
      rw [exec, FGPTxSystem.commit, bind_assoc]
      refine exec_get ?_
      rw [bind_assoc]
      refine exec_ensure (fun _ ↦ .failed _) fun hequal ↦ ?_
      exact .returned (.committed (Slice.equal_iff.mp hequal))
  | updateConfig shardConf =>
    rw [exec, FGPTxSystem.updateConfig, bind_assoc]
    exact exec_ofExcept (fun _ _ ↦ .failed _) fun dFG hparse ↦ .returned (.configured hparse)

/-- Nothing else than its checks can make a call fail. -/
theorem exec_of_returns {call : TxCall} {s s' : FGPTxSystem} {value : Option Summary}
    (h : call.Returns s value s') : call.exec.run s = .ok value s' := by
  cases h with
  | summarized h =>
    have hsummary := stateSummary_ok_iff.mpr ⟨h, rfl⟩
    simp only [exec, EStateM.run_bind, EStateM.run_get, run_ofExcept, hsummary]
    rfl
  | proposed round h =>
    simp only [exec, EStateM.run_bind, leaderPropose_of_candidate round h]
    rfl
  | verified round h =>
    simp only [exec, EStateM.run_bind, followerVerify_of_verified round h]
    rfl
  | @restored pow uc height h =>
    cases uc with
    | none =>
      cases h with
      | kept => rfl
      | found block hne => exact absurd rfl hne
    | some uc =>
      cases h with
      | kept hempty =>
        simp only [exec, FGPTxSystem.restoreState, EStateM.run_bind, run_onlyIf, hempty]
        rfl
      | found block hne hblock =>
        simp only [exec, FGPTxSystem.restoreState, EStateM.run_bind, run_onlyIf, ne_eq, hne,
          not_false_eq_true, if_true, run_ofExcept, hblock]
        rfl
  | reverted => rfl
  | @committed uc h =>
    cases uc with
    | none =>
      simp only [exec, commitNil, EStateM.run_bind, EStateM.run_get, run_ensure,
        Slice.equal_iff.mpr h, if_true]
      rfl
    | some uc =>
      simp only [exec, EStateM.run_bind, commit_of_equal h]
      rfl
  | configured h =>
    simp only [exec, FGPTxSystem.updateConfig, EStateM.run_bind, run_ofExcept, h]
    rfl

theorem returns_of_exec {call : TxCall} {s s' : FGPTxSystem} {value : Option Summary}
    (h : call.exec.run s = .ok value s') : call.Returns s value s' := by
  have hspec := call.exec_spec s
  rw [h] at hspec
  cases hspec with
  | returned hreturns => exact hreturns

theorem unchanged_of_error {call : TxCall} {s s' : FGPTxSystem} {err : Err}
    (h : call.exec.run s = .error err s') : s' = s := by
  have hspec := call.exec_spec s
  rw [h] at hspec
  cases hspec with
  | failed => rfl

end TxCall

/-! ## The certified block, its height and its certificate -/

def TxCall.Consistent (height : List UInt8 → UInt64) : TxCall → Prop
  | .leaderPropose pow _ | .followerVerify pow _ _ | .restoreState pow _ => pow.Consistent height
  | .stateSummary | .revert | .commit _ | .updateConfig _ => True

/-- The certified hash is the one of the certificate, and each hash is kept with its height. -/
structure CoherentTriple (height : List UInt8 → UInt64) (s : FGPTxSystem) : Prop where
  certified : s.committedStateHash.bytes = (getStateHash s.committedUC).bytes
  committed : s.committedStateHash.bytes ≠ [] →
    s.committedStateHeight = height s.committedStateHash.bytes
  pending : s.pendingStateHash.bytes ≠ [] →
    s.pendingStateHeight = height s.pendingStateHash.bytes

section Steps

variable {height : List UInt8 → UInt64} {s : FGPTxSystem}

theorem CoherentTriple.setPending (h : CoherentTriple height s) {root : Slice} {rootHeight : UInt64}
    (hheight : root.bytes ≠ [] → rootHeight = height root.bytes) :
    CoherentTriple height (s.setPending root rootHeight) :=
  ⟨h.certified, h.committed, hheight⟩

theorem CoherentTriple.settle {uc : Option UnicityCertificate} {hash : Slice} {hashHeight : UInt64}
    (hhash : hash.bytes = (getStateHash uc).bytes)
    (hheight : hash.bytes ≠ [] → hashHeight = height hash.bytes) :
    CoherentTriple height (s.settle uc hash hashHeight) :=
  ⟨hhash, hheight, fun hne ↦ absurd rfl hne⟩

theorem CoherentTriple.of_returns (h : CoherentTriple height s) {call : TxCall}
    {value : Option Summary} {s' : FGPTxSystem} (hconsistent : call.Consistent height)
    (hreturns : call.Returns s value s') : CoherentTriple height s' := by
  cases hreturns with
  | summarized => exact h
  | proposed round hcandidate =>
    obtain ⟨_, _, block, _, _, _, _, _, _, hblock, _, _, hdata, rfl⟩ := hcandidate
    exact h.setPending fun _ ↦ hconsistent.byHeight hblock hdata
  | verified round hverified =>
    apply h.setPending
    intro hne
    cases hverified with
    | noop hsame =>
      rw [hsame] at hne ⊢
      exact h.committed hne
    | block block tip _ hblock => exact hconsistent.byHash hblock
  | restored hheight =>
    apply CoherentTriple.settle rfl
    intro hne
    cases hheight with
    | kept hempty => exact absurd hempty hne
    | found block _ hblock => exact hconsistent.byHash hblock
  | reverted => exact h.setPending fun hne ↦ absurd rfl hne
  | committed hequal => exact CoherentTriple.settle hequal h.pending
  | configured => exact ⟨h.certified, h.committed, h.pending⟩

theorem CoherentTriple.apply (h : CoherentTriple height s) {call : TxCall}
    (hconsistent : call.Consistent height) : CoherentTriple height (call.apply s) := by
  have hspec := call.exec_spec s
  rw [TxCall.apply]
  generalize call.exec.run s = result at hspec ⊢
  cases hspec with
  | returned hreturns => exact h.of_returns hconsistent hreturns
  | failed => exact h

end Steps

/-- After any calls on a new system, the certified hash, height and certificate belong together, and
whatever is called next changes nothing if it returns an error. -/
theorem committed_triple_coherent {height : List UInt8 → UInt64}
    {shardConf : PartitionDescriptionRecord} {s s' : FGPTxSystem}
    (hnew : newFGPTxSystem shardConf = .ok s) {calls : List TxCall}
    (hconsistent : ∀ call ∈ calls, call.Consistent height)
    (hrun : Run.run TxCall.apply s calls = s') :
    s'.committedStateHash.bytes = (getStateHash s'.committedUC).bytes ∧
      (s'.committedUC = none → s'.committedStateHash.bytes = []) ∧
      (s'.committedStateHash.bytes ≠ [] →
        s'.committedStateHeight = height s'.committedStateHash.bytes) ∧
      ∀ (call : TxCall) (err : Err) (after : FGPTxSystem),
        call.exec.run s' = .error err after → after = s' := by
  have hcoherent : CoherentTriple height s' := by
    rw [← hrun]
    apply Run.invariant_run (fun _ _ h hconsistent ↦ h.apply hconsistent)
    · rw [newFGPTxSystem_eq hnew]
      exact ⟨rfl, fun hne ↦ absurd rfl hne, fun hne ↦ absurd rfl hne⟩
    · exact Run.guarded_of_mem (fun call hcall _ ↦ hconsistent call hcall) s
  refine ⟨hcoherent.certified, fun hnone ↦ ?_, hcoherent.committed, ?_⟩
  · rw [hcoherent.certified, hnone]
    rfl
  · intro call err after herror
    exact TxCall.unchanged_of_error herror

section Reference

open Reference

/-- A leader finalizes the block at height 10, a second commit fails, and the block is restored. -/
def restoring : List TxCall :=
  [.leaderPropose (pow 10) 1, .commit (some (certifiedBlock 10)),
    .commit (some (certifiedBlock 10)), .restoreState (pow 20) (some (certifiedBlock 10))]

theorem committed_triple_coherent_restoring :
    (Run.run TxCall.apply (.fresh shardConf 1) restoring).committedStateHash =
        some [10] ∧
      (Run.run TxCall.apply (.fresh shardConf 1) restoring).committedStateHeight =
        powHeight [10] := by
  have hnew : newFGPTxSystem shardConf = .ok (.fresh shardConf 1) := rfl
  have hconsistent : ∀ call ∈ restoring, call.Consistent powHeight := by
    simp [restoring, TxCall.Consistent, pow_consistent]
  obtain ⟨_, _, hheight, _⟩ := committed_triple_coherent hnew hconsistent rfl
  exact ⟨rfl, hheight (by decide)⟩

end Reference

end FinalityGadget
