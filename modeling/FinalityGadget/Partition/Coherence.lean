import FinalityGadget.Partition.Frame
import FinalityGadget.Partition.Reference

/-!
# Coherence of the latest certificate

The latest certificate, its technical record and the leader are replaced together, by certificates
of root rounds that never decrease. The committed certificate may be behind the latest one, as
recovery commits blocks that are older than what the node has already heard of, but never ahead.
-/

namespace FinalityGadget

open Bytes Fallible

variable {C : Type}

/-- Either there is no technical record and no leader, or the record is the one whose hash the
latest certificate carries and the leader is the decoded one of the record. -/
def LeaderCoherent (lib : BaseLibrary C) (n : NodeState C) : Prop :=
  (n.ltr = none ∧ n.leader = "") ∨
    ∃ tr uc hash, n.ltr = some tr ∧ n.luc = some uc ∧ lib.technicalRecordHash tr = .ok hash ∧
      uc.trHash.bytes = hash ∧ lib.decodePeerID tr.leader = .ok n.leader

/-- The coherence of the latest certificate, at or above a given root round. -/
structure Coherent (lib : BaseLibrary C) (bound : UInt64) (n : Node C) : Prop where
  leader : LeaderCoherent lib n.toNodeState
  bound_le : bound ≤ getRootRoundNumber n.luc
  committed_le : getRootRoundNumber n.committedUC ≤ getRootRoundNumber n.luc

/-- A known leader comes from a technical record. -/
theorem LeaderCoherent.ltr_ne {lib : BaseLibrary C} {n : NodeState C} (h : LeaderCoherent lib n)
    (hleader : n.leader ≠ "") : n.ltr ≠ none := by
  rcases h with ⟨_, hempty⟩ | ⟨tr, _, _, hltr, _⟩
  · exact absurd hempty hleader
  · simp [hltr]

section Adoption

variable {lib : BaseLibrary C} {conf : NodeConf}

theorem TechnicalRecord.hash_of_hashMatches {tr : TechnicalRecord} {trHash : Slice}
    (h : tr.hashMatches lib trHash = .ok ()) :
    ∃ hash, lib.technicalRecordHash tr = .ok hash ∧ trHash.bytes = hash := by
  obtain ⟨hash, hhash, hequal⟩ := bind_eq_ok.mp h
  exact ⟨hash, mapError_eq_ok.mp hhash, Slice.equal_iff.mp (require_eq_ok.mp hequal)⟩

/-- A record that was checked against its certificate is coherent with it. -/
theorem leaderCoherent_of_adoptable {n m : Node C} {uc : UnicityCertificate}
    {tr : Option TechnicalRecord} {leader : PeerID} (htr : Technical lib uc tr)
    (h : Adoptable lib conf n uc tr leader) (hlatest : m.latest = (some uc, tr, leader)) :
    LeaderCoherent lib m.toNodeState := by
  have hluc : m.luc = some uc := congrArg Prod.fst hlatest
  have hltr : m.ltr = tr := congrArg (fun latest ↦ latest.2.1) hlatest
  have hleader : m.leader = leader := congrArg (fun latest ↦ latest.2.2) hlatest
  have hdecode := h.leader_eq
  cases tr with
  | none =>
    cases hdecode
    exact Or.inl ⟨hltr, hleader⟩
  | some record =>
    obtain ⟨hash, hhash, hequal⟩ := TechnicalRecord.hash_of_hashMatches (htr record rfl).2
    refine Or.inr ⟨record, uc, hash, hltr, hluc, hhash, hequal, ?_⟩
    rw [hleader]
    exact mapError_eq_ok.mp hdecode

/-- The latest certificate is never replaced by one of a smaller root round. -/
theorem rootRound_le_of_adoptable (hequivocation : lib.EquivocationLaw) {n : Node C}
    {uc : UnicityCertificate} {tr : Option TechnicalRecord} {leader : PeerID}
    (h : Adoptable lib conf n uc tr leader) :
    getRootRoundNumber n.luc ≤ getRootRoundNumber (some uc) := by
  have hcheck := h.nonEquivocating
  cases hluc : n.luc with
  | none => simp
  | some luc =>
    rw [hluc] at hcheck
    exact hequivocation hcheck

theorem Adoption.rootRound_le (hequivocation : lib.EquivocationLaw) {n n' : Node C}
    (h : Adoption lib conf n n') : getRootRoundNumber n.luc ≤ getRootRoundNumber n'.luc := by
  rcases h with hkept | ⟨uc, tr, leader, _, hadoptable, hlatest⟩
  · rw [NodeState.luc_of_latest hkept]
  · have hluc : n'.luc = some uc := congrArg Prod.fst hlatest
    rw [hluc]
    exact rootRound_le_of_adoptable hequivocation hadoptable

end Adoption

section Runs

variable {lib : BaseLibrary C} {conf : NodeConf} {guard : Guard C}

theorem leaderCoherent_of_latest {n m : NodeState C} (hlatest : m.latest = n.latest)
    (h : LeaderCoherent lib n) : LeaderCoherent lib m := by
  unfold LeaderCoherent
  rw [NodeState.luc_of_latest hlatest, NodeState.ltr_of_latest hlatest,
    NodeState.leader_of_latest hlatest]
  exact h

theorem LeaderCoherent.segment {n n' : Node C} (h : LeaderCoherent lib n.toNodeState)
    (hsegment : Segment lib conf guard n n') : LeaderCoherent lib n'.toNodeState := by
  rcases hsegment.adoption with hkept | ⟨uc, tr, leader, htr, hadoptable, hlatest⟩
  · exact leaderCoherent_of_latest hkept h
  · exact leaderCoherent_of_adoptable htr hadoptable hlatest

theorem Coherent.segment (hequivocation : lib.EquivocationLaw) (hduplicate : lib.DuplicateLaw)
    {bound : UInt64} {n n' : Node C} (h : Coherent lib bound n)
    (hsegment : Segment lib conf guard n n') : Coherent lib bound n' := by
  have hmono := hsegment.adoption.rootRound_le hequivocation
  refine ⟨h.leader.segment hsegment, UInt64.le_trans h.bound_le hmono, ?_⟩
  rcases hsegment.commit_cases with hkept | ⟨uc, hcommit⟩
  · rw [NodeState.committedUC_of_committed hkept]
    exact UInt64.le_trans h.committed_le hmono
  · rw [hcommit.committedUC_eq]
    rcases hcommit.latest with hluc | ⟨hluc, hlt | hsame⟩
    · rw [hluc]
    · rw [hluc]
      exact UInt64.le_of_lt hlt
    · rw [hluc, hduplicate.rootRound_eq hsame]

theorem Started.coherent {store : BlockStore C} {n : Node C} (h : Started lib conf store n) :
    Coherent lib (getRootRoundNumber n.luc) n := by
  refine ⟨Or.inl ⟨h.ltr, h.leader⟩, UInt64.le_refl _, ?_⟩
  rw [h.luc]

theorem Coherent.run (hequivocation : lib.EquivocationLaw) (hduplicate : lib.DuplicateLaw)
    {bound : UInt64} {n : Node C} (h : Coherent lib bound n) (inputs : List (Input C)) :
    Coherent lib bound (runNode lib conf n inputs) := by
  have hadmits : Run.Guarded (step lib conf) (Guard.none.Admits lib conf) n inputs :=
    Run.guarded_of_forall (fun n input ↦ Guard.none_admits lib conf n input) n inputs
  exact invariant_runNode (Guard.none_sound lib)
    (fun hinv hsegment ↦ hinv.segment hequivocation hduplicate hsegment) h hadmits

/-- Along every run of a started process the root round of the latest certificate never decreases,
the record and the leader belong to the latest certificate, the committed certificate is never
ahead of it, and a rejected certificate changes none of the three. -/
theorem latest_coherent (hequivocation : lib.EquivocationLaw) (hduplicate : lib.DuplicateLaw)
    {store : BlockStore C} {n : Node C} (hstart : Starts lib conf store n) :
    (∀ inputs later, getRootRoundNumber (runNode lib conf n inputs).luc ≤
        getRootRoundNumber (runNode lib conf n (inputs ++ later)).luc) ∧
      (∀ inputs, LeaderCoherent lib (runNode lib conf n inputs).toNodeState) ∧
      (∀ inputs, getRootRoundNumber (runNode lib conf n inputs).committedUC ≤
        getRootRoundNumber (runNode lib conf n inputs).luc) ∧
      (∀ (m : Node C) uc tr err m', (updateLUC lib conf uc tr).run m = .error err m' →
        m'.luc = m.luc ∧ m'.ltr = m.ltr ∧ m'.leader = m.leader) := by
  have hcoherent := (started_of_starts lib conf hstart).coherent
  have hrun : ∀ inputs, Coherent lib (getRootRoundNumber n.luc) (runNode lib conf n inputs) :=
    fun inputs ↦ hcoherent.run hequivocation hduplicate inputs
  refine ⟨fun inputs later ↦ ?_, fun inputs ↦ (hrun inputs).leader,
    fun inputs ↦ (hrun inputs).committed_le, fun m uc tr err m' herr ↦ ?_⟩
  · have hfrom : Coherent lib (getRootRoundNumber (runNode lib conf n inputs).luc)
        (runNode lib conf n inputs) :=
      ⟨(hrun inputs).leader, UInt64.le_refl _, (hrun inputs).committed_le⟩
    rw [runNode_append]
    exact (hfrom.run hequivocation hduplicate later).bound_le
  · have hexit := updateLUC_spec lib conf m uc tr
    rw [herr] at hexit
    cases hexit
    exact ⟨rfl, rfl, rfl⟩

end Runs

section Reference

open Reference

/-- A node that adopts two certificates in a row. -/
theorem latest_coherent_two_certificates :
    getRootRoundNumber (runNode referenceLibrary (conf "A" [1]) node
        [deliver { roundNumber := 1 } 5 (technical 2 "A")]).luc = 5 ∧
      getRootRoundNumber (runNode referenceLibrary (conf "A" [1]) node
          [deliver { roundNumber := 1 } 5 (technical 2 "A")]).luc ≤
        getRootRoundNumber (runNode referenceLibrary (conf "A" [1]) node
          ([deliver { roundNumber := 1 } 5 (technical 2 "A")] ++
            [deliver { roundNumber := 1 } 6 (technical 2 "B")])).luc := by
  refine ⟨rfl, ?_⟩
  exact (latest_coherent equivocationLaw duplicateLaw (starts_empty "A" [1])).1 _ _

end Reference

end FinalityGadget
