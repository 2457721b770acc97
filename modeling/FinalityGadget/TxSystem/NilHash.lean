import FinalityGadget.TxSystem.Calls

/-!
# Nil and empty state hashes

Two runs of the transaction system with the same calls, where one passes a nil byte slice and the
other an empty one. Comparisons of hashes do not see the difference, but `StateSummary` tests the
pending hash and `LeaderPropose` the certified hash against nil. The states of both runs stay the
same up to this difference, and as long as the two tests agree every call ends alike in both.
-/

namespace FinalityGadget

open Bytes Fallible Text

theorem Slice.eq_of_bytes_eq {left right : Slice} (h : left.bytes = right.bytes)
    (hnil : left = none ↔ right = none) : left = right := by
  cases left with
  | none => exact (hnil.mp rfl).symm
  | some data =>
    cases right with
    | none => exact hnil.mpr rfl
    | some data' => exact congrArg some h

/-! ## Equal up to nil -/

/-- Certificates that differ at most in a nil state hash against an empty one. -/
inductive SameUC : Option UnicityCertificate → Option UnicityCertificate → Prop where
  | refl (uc : Option UnicityCertificate) : SameUC uc uc
  | stateHash (uc : UnicityCertificate) (record : InputRecord) {hash hash' : Slice}
      (h : hash.bytes = hash'.bytes) :
      SameUC (some { uc with inputRecord := some { record with hash := hash } })
        (some { uc with inputRecord := some { record with hash := hash' } })

theorem SameUC.getStateHash_bytes {uc uc' : Option UnicityCertificate} (h : SameUC uc uc') :
    (getStateHash uc).bytes = (getStateHash uc').bytes := by
  cases h with
  | refl => rfl
  | stateHash uc record h => exact h

theorem SameUC.symm {uc uc' : Option UnicityCertificate} (h : SameUC uc uc') : SameUC uc' uc := by
  cases h with
  | refl => exact .refl _
  | stateHash uc record h => exact .stateHash uc record h.symm

/-- The same call, with arguments that differ at most in nil against empty. -/
inductive SameCall : TxCall → TxCall → Prop where
  | stateSummary : SameCall .stateSummary .stateSummary
  | leaderPropose (pow : PowClient) (round : UInt64) :
      SameCall (.leaderPropose pow round) (.leaderPropose pow round)
  | followerVerify (pow : PowClient) (round : UInt64) {root root' : Slice}
      (h : root.bytes = root'.bytes) :
      SameCall (.followerVerify pow round root) (.followerVerify pow round root')
  | restoreState (pow : PowClient) {uc uc' : Option UnicityCertificate} (h : SameUC uc uc') :
      SameCall (.restoreState pow uc) (.restoreState pow uc')
  | revert : SameCall .revert .revert
  | commit {uc uc' : Option UnicityCertificate} (h : SameUC uc uc') :
      SameCall (.commit uc) (.commit uc')
  | updateConfig (shardConf : PartitionDescriptionRecord) :
      SameCall (.updateConfig shardConf) (.updateConfig shardConf)

theorem SameCall.symm {call call' : TxCall} (h : SameCall call call') : SameCall call' call := by
  cases h with
  | stateSummary => exact .stateSummary
  | leaderPropose pow round => exact .leaderPropose pow round
  | followerVerify pow round h => exact .followerVerify pow round h.symm
  | restoreState pow h => exact .restoreState pow h.symm
  | revert => exact .revert
  | commit h => exact .commit h.symm
  | updateConfig shardConf => exact .updateConfig shardConf

/-- Summaries of the same bytes. -/
structure SameSummary (summary summary' : Summary) : Prop where
  rootHash : summary.rootHash.bytes = summary'.rootHash.bytes
  summaryValue : summary.summaryValue.bytes = summary'.summaryValue.bytes
  sumOfEarnedFees : summary.sumOfEarnedFees = summary'.sumOfEarnedFees
  etHash : summary.etHash.bytes = summary'.etHash.bytes

/-- What a call answered: an error, or a success with a summary if it returns one. -/
inductive SameAnswer : Except Err (Option Summary) → Except Err (Option Summary) → Prop where
  | failed (err err' : Err) : SameAnswer (.error err) (.error err')
  | done : SameAnswer (.ok none) (.ok none)
  | summary {summary summary' : Summary} (h : SameSummary summary summary') :
      SameAnswer (.ok (some summary)) (.ok (some summary'))

/-- The systems of both runs: their hashes have the same bytes, and the rest is equal. -/
structure SameSystem (s t : FGPTxSystem) : Prop where
  committedStateHash : s.committedStateHash.bytes = t.committedStateHash.bytes
  pendingStateHash : s.pendingStateHash.bytes = t.pendingStateHash.bytes
  committedUC : SameUC s.committedUC t.committedUC
  shardConf : s.shardConf = t.shardConf
  dFG : s.dFG = t.dFG
  committedStateHeight : s.committedStateHeight = t.committedStateHeight
  pendingStateHeight : s.pendingStateHeight = t.pendingStateHeight
  summaryValue : s.summaryValue = t.summaryValue
  sumOfEarnedFees : s.sumOfEarnedFees = t.sumOfEarnedFees
  etHash : s.etHash = t.etHash

/-- The tests against nil that a call makes come out alike in both runs. -/
def NilTestsAgree (s t : FGPTxSystem) : TxCall → Prop
  | .stateSummary => s.pendingStateHash = none ↔ t.pendingStateHash = none
  | .leaderPropose _ _ => s.committedStateHash = none ↔ t.committedStateHash = none
  | _ => True

/-! ## One call in both runs -/

section Calls

variable {s t : FGPTxSystem}

theorem SameSystem.refl (s : FGPTxSystem) : SameSystem s s :=
  ⟨rfl, rfl, .refl _, rfl, rfl, rfl, rfl, rfl, rfl, rfl⟩

theorem SameSystem.symm (h : SameSystem s t) : SameSystem t s :=
  ⟨h.committedStateHash.symm, h.pendingStateHash.symm, h.committedUC.symm, h.shardConf.symm,
    h.dFG.symm, h.committedStateHeight.symm, h.pendingStateHeight.symm, h.summaryValue.symm,
    h.sumOfEarnedFees.symm, h.etHash.symm⟩

theorem SameSystem.setPending (h : SameSystem s t) {root root' : Slice}
    (hroot : root.bytes = root'.bytes) (height : UInt64) :
    SameSystem (s.setPending root height) (t.setPending root' height) :=
  { h with pendingStateHash := hroot, pendingStateHeight := rfl }

theorem SameSystem.settle (h : SameSystem s t) {uc uc' : Option UnicityCertificate}
    (huc : SameUC uc uc') {hash hash' : Slice} (hhash : hash.bytes = hash'.bytes)
    (height : UInt64) : SameSystem (s.settle uc hash height) (t.settle uc' hash' height) :=
  { h with
    committedStateHash := hhash
    pendingStateHash := rfl
    committedUC := huc
    committedStateHeight := rfl
    pendingStateHeight := rfl }

theorem SameSystem.summaryOf (h : SameSystem s t) {root root' : Slice}
    (hroot : root.bytes = root'.bytes) : SameSummary (s.summaryOf root) (t.summaryOf root') :=
  ⟨hroot, congrArg Slice.bytes h.summaryValue, h.sumOfEarnedFees, congrArg Slice.bytes h.etHash⟩

theorem SameSystem.candidate (h : SameSystem s t) {pow : PowClient}
    (hnil : s.committedStateHash = none ↔ t.committedStateHash = none) {data : List UInt8}
    {height : UInt64} (hcandidate : s.Candidate pow data height) : t.Candidate pow data height := by
  have hcertified : s.certifiedHeight pow = t.certifiedHeight pow := by
    rw [FGPTxSystem.certifiedHeight, FGPTxSystem.certifiedHeight,
      Slice.eq_of_bytes_eq h.committedStateHash hnil]
  obtain ⟨hchecks⟩ := hcandidate
  rw [hcertified, h.dFG] at hchecks
  exact ⟨hchecks⟩

theorem SameSystem.verified (h : SameSystem s t) {pow : PowClient} {root root' : Slice}
    (hroot : root.bytes = root'.bytes) {height : UInt64}
    (hverified : FGPTxSystem.Verified pow s root height) :
    FGPTxSystem.Verified pow t root' height := by
  cases hverified with
  | noop hsame =>
    rw [h.committedStateHeight]
    apply FGPTxSystem.Verified.noop
    rw [← hroot, hsame, h.committedStateHash]
  | block block tip hne hblock hactive htip hle hdepth =>
    rw [hroot] at hne hblock
    rw [h.committedStateHash] at hne
    rw [h.dFG] at hdepth
    exact .block block tip hne hblock hactive htip hle hdepth

theorem SameSystem.restoredHeight (h : SameSystem s t) {pow : PowClient}
    {uc uc' : Option UnicityCertificate} (huc : SameUC uc uc') {height : UInt64}
    (hheight : TxCall.RestoredHeight pow s uc height) :
    TxCall.RestoredHeight pow t uc' height := by
  cases hheight with
  | kept hempty =>
    rw [h.committedStateHeight]
    rw [huc.getStateHash_bytes] at hempty
    exact .kept hempty
  | found block hne hblock =>
    rw [huc.getStateHash_bytes] at hne hblock
    exact .found block hne hblock

/-- A call that succeeds in the one run succeeds in the other, with the same answer. -/
theorem SameSystem.returns (h : SameSystem s t) {call call' : TxCall} (hcall : SameCall call call')
    (hnil : NilTestsAgree s t call) {value : Option Summary} {s' : FGPTxSystem}
    (hreturns : call.Returns s value s') :
    ∃ value' t', call'.Returns t value' t' ∧ SameAnswer (.ok value) (.ok value') ∧
      SameSystem s' t' := by
  cases hreturns with
  | summarized hpending =>
    cases hcall
    exact ⟨_, _, .summarized (hnil.mp hpending), .summary (h.summaryOf h.committedStateHash), h⟩
  | proposed round hcandidate =>
    cases hcall
    exact ⟨_, _, .proposed round (h.candidate hnil hcandidate), .summary (h.summaryOf rfl),
      h.setPending rfl _⟩
  | verified round hverified =>
    cases hcall with
    | followerVerify _ _ hroot =>
      exact ⟨_, _, .verified round (h.verified hroot hverified), .summary (h.summaryOf hroot),
        h.setPending hroot _⟩
  | restored hheight =>
    cases hcall with
    | restoreState _ huc =>
      exact ⟨_, _, .restored (h.restoredHeight huc hheight), .done,
        h.settle huc huc.getStateHash_bytes _⟩
  | reverted =>
    cases hcall
    exact ⟨_, _, .reverted, .done, h.setPending rfl _⟩
  | committed hequal =>
    cases hcall with
    | commit huc =>
      rw [h.pendingStateHash, huc.getStateHash_bytes] at hequal
      rw [h.pendingStateHeight]
      exact ⟨_, _, .committed hequal, .done, h.settle huc h.pendingStateHash _⟩
  | configured hparse =>
    cases hcall
    exact ⟨_, _, .configured hparse, .done, { h with shardConf := rfl, dFG := rfl }⟩

theorem NilTestsAgree.symm {call call' : TxCall} (hcall : SameCall call call')
    (h : NilTestsAgree s t call) : NilTestsAgree t s call' := by
  cases hcall with
  | stateSummary => exact Iff.symm h
  | leaderPropose => exact Iff.symm h
  | followerVerify | restoreState | revert | commit | updateConfig => trivial

def TxCall.answer (s : FGPTxSystem) (call : TxCall) : Except Err (Option Summary) :=
  Fallible.answer (call.exec.run s)

/-- A call has the same answer in both runs, and the systems stay the same up to nil. -/
theorem SameSystem.apply (h : SameSystem s t) {call call' : TxCall} (hcall : SameCall call call')
    (hnil : NilTestsAgree s t call) :
    SameAnswer (call.answer s) (call'.answer t) ∧ SameSystem (call.apply s) (call'.apply t) := by
  unfold TxCall.answer TxCall.apply
  cases hs : call.exec.run s with
  | ok value s' =>
    obtain ⟨value', t', hreturns, hanswer, hsame⟩ :=
      h.returns hcall hnil (TxCall.returns_of_exec hs)
    rw [TxCall.exec_of_returns hreturns]
    exact ⟨hanswer, hsame⟩
  | error err s' =>
    cases ht : call'.exec.run t with
    | ok value' t' =>
      -- the other run cannot succeed alone, since the relation is symmetric
      obtain ⟨_, _, hreturns, _, _⟩ :=
        h.symm.returns hcall.symm (hnil.symm hcall) (TxCall.returns_of_exec ht)
      rw [TxCall.exec_of_returns hreturns] at hs
      cases hs
    | error err' t' =>
      rw [TxCall.unchanged_of_error hs, TxCall.unchanged_of_error ht]
      exact ⟨.failed err err', h⟩

end Calls

/-! ## Two runs -/

/-- The answers of a sequence of calls. -/
def answers (s : FGPTxSystem) : List TxCall → List (Except Err (Option Summary))
  | [] => []
  | call :: calls => call.answer s :: answers (call.apply s) calls

/-- One call in each of the two runs. -/
def applyBoth (systems : FGPTxSystem × FGPTxSystem) (calls : TxCall × TxCall) :
    FGPTxSystem × FGPTxSystem :=
  (calls.1.apply systems.1, calls.2.apply systems.2)

theorem SameSystem.answers {s t : FGPTxSystem} (h : SameSystem s t)
    {calls : List (TxCall × TxCall)} (hcalls : ∀ pair ∈ calls, SameCall pair.1 pair.2)
    (hnil : Run.Guarded applyBoth
      (fun systems pair ↦ NilTestsAgree systems.1 systems.2 pair.1) (s, t) calls) :
    List.Forall₂ SameAnswer (answers s (calls.map Prod.fst)) (answers t (calls.map Prod.snd)) := by
  induction calls generalizing s t with
  | nil => exact .nil
  | cons pair calls ih =>
    obtain ⟨hanswer, hnext⟩ := h.apply (hcalls pair List.mem_cons_self) hnil.1
    apply List.Forall₂.cons hanswer
    apply ih hnext _ hnil.2
    intro later hlater
    exact hcalls later (List.mem_cons_of_mem pair hlater)

/-- In two runs with the same calls up to nil against empty, in which the tests against nil agree,
every call has the same answer. -/
theorem nil_and_empty_interchangeable (s : FGPTxSystem) {calls : List (TxCall × TxCall)}
    (hcalls : ∀ pair ∈ calls, SameCall pair.1 pair.2)
    (hnil : Run.Guarded applyBoth
      (fun systems pair ↦ NilTestsAgree systems.1 systems.2 pair.1) (s, s) calls) :
    List.Forall₂ SameAnswer (answers s (calls.map Prod.fst)) (answers s (calls.map Prod.snd)) :=
  (SameSystem.refl s).answers hcalls hnil

section Reference

open Reference

/-- Both runs verify the genesis root and revert, then lead and finalize a round. -/
def revertedGenesis : List (TxCall × TxCall) :=
  [(.followerVerify (pow 10) 1 none, .followerVerify (pow 10) 1 (some [])), (.revert, .revert),
    (.leaderPropose (pow 10) 2, .leaderPropose (pow 10) 2),
    (.commit (some (certifiedBlock 10)), .commit (some (certifiedBlock 10))),
    (.stateSummary, .stateSummary)]

theorem nil_and_empty_interchangeable_revertedGenesis :
    List.Forall₂ SameAnswer
      (answers (.fresh shardConf 1) (revertedGenesis.map Prod.fst))
      (answers (.fresh shardConf 1) (revertedGenesis.map Prod.snd)) := by
  apply nil_and_empty_interchangeable
  · simp only [revertedGenesis, List.forall_mem_cons]
    refine ⟨.followerVerify _ _ rfl, .revert, .leaderPropose _ _, .commit (.refl _),
      .stateSummary, fun pair hpair ↦ ?_⟩
    cases hpair
  · exact ⟨trivial, trivial, Iff.rfl, trivial, Iff.rfl, trivial⟩

/-- The genesis root is verified and certified, and the node then leads the next round. -/
def genesisRound (root : Slice) : List TxCall :=
  [.followerVerify (pow 10) 1 root, .commit (some { inputRecord := some { } }),
    .leaderPropose (pow 10) 2]

/-- After an empty genesis root the leader looks up a block without a hash and cannot propose. -/
theorem empty_root_stops_leader :
    List.Forall₂ SameCall (genesisRound none) (genesisRound (some [])) ∧
      ¬List.Forall₂ SameAnswer
        (answers (.fresh shardConf 1) (genesisRound none))
        (answers (.fresh shardConf 1) (genesisRound (some []))) := by
  constructor
  · exact .cons (.followerVerify _ _ rfl) (.cons (.commit (.refl _))
      (.cons (.leaderPropose _ _) .nil))
  · rintro (_ | ⟨_, _ | ⟨_, _ | ⟨hleader, _⟩⟩⟩)
    cases hleader

end Reference

end FinalityGadget
