import FinalityGadget.Partition.Lifetimes
import FinalityGadget.TxSystem.Views

/-!
# Finalized proof-of-work blocks never conflict

The purpose of the gadget: the proof-of-work blocks that the validators of a shard finalize are on
one path of the block tree. A validator only takes part in certifying blocks that are deep enough in
a view of its proof-of-work node, so nothing else gets into its store, whether it led, followed or
recovered, and whatever was on the disk when a process stopped. Validators need not agree on
anything but the prefix that all views of the block tree share.
-/

namespace FinalityGadget

open Bytes Fallible Text Relation BlockTree

variable {C : Type} {ι β : Type*}

/-- The proof-of-work node of the validator answers every call of a handler from some view. -/
def InView (views : ι → BlockTree β) (hash : β → List UInt8) (env : Env) : Prop :=
  env.pow.Truthful views hash

/-- Every configuration of the validator asks for at least `k` confirmations. -/
def NodeConf.Deep (conf : NodeConf) (k : ℕ) : Prop :=
  ∀ {shardConf dFG}, conf.Loads shardConf → parseDFG shardConf = .ok dFG → k ≤ dFG.toNat

/-- The certificate in the block is about a settled proof-of-work block. -/
def CertifiesSettled (lib : BaseLibrary C) (views : ι → BlockTree β) (hash : β → List UInt8)
    (k : ℕ) (block : Block C) : Prop :=
  ∀ uc, getUCv1 lib (some block) = .ok uc → Anchored views hash k (getStateHash (some uc)).bytes

/-- Everything that a node holds or has written is about settled blocks. -/
structure HoldsSettled (lib : BaseLibrary C) (views : ι → BlockTree β) (hash : β → List UInt8)
    (k : ℕ) (n : Node C) : Prop where
  rooted : Rooted views hash k n.transactionSystem
  proposal : ∀ {block}, n.pendingBlockProposal = some block →
    ∀ {ir}, lib.blockInputRecord block = .ok ir → Anchored views hash k ir.hash.bytes
  written : ∀ op ∈ n.storeLog, op.Carries (CertifiesSettled lib views hash k)

section Moves

variable {lib : BaseLibrary C} {conf : NodeConf} {views : ι → BlockTree β}
  {hash : β → List UInt8} {k : ℕ} {n n' : Node C}

theorem Rooted.chosen {s : FGPTxSystem} (h : Rooted views hash k s)
    (hshared : CommonPrefix views k) {root : Slice} {height : UInt64}
    (hchosen : Chosen (InView views hash) s root height) : Anchored views hash k root.bytes := by
  cases hchosen with
  | candidate henv hcandidate => exact h.candidate hshared henv hcandidate
  | verified henv hverified => exact h.verified hshared henv hverified

theorem Rooted.txSteps {s s' : FGPTxSystem} (h : Rooted views hash k s)
    (hshared : CommonPrefix views k) (hdeep : conf.Deep k)
    (hsteps : TxSteps conf (InView views hash) s s') : Rooted views hash k s' := by
  refine hsteps.invariant (P := Rooted views hash k) (fun {s call} hrooted havailable ↦ ?_) h
  apply hrooted.apply hshared
  cases call with
  | leaderPropose pow round | followerVerify pow round root =>
    obtain ⟨env, henv, rfl⟩ := havailable
    exact henv
  | restoreState => cases havailable
  | updateConfig shardConf => exact fun dFG hparse ↦ hdeep havailable hparse
  | stateSummary | revert | commit => trivial

variable (hcbor : lib.CborLaw) (hhash : lib.BlockHashLaw) (hrecord : lib.BlockRecordLaw)
  (hequalIR : lib.EqualIRLaw)

include hcbor hhash hrecord in
theorem HoldsSettled.held (h : HoldsSettled lib views hash k n) (hshared : CommonPrefix views k)
    {proposal : Option (Block C)} (hheld : Held lib (InView views hash) n proposal) :
    ∀ {block}, proposal = some block → ∀ {ir}, lib.blockInputRecord block = .ok ir →
      Anchored views hash k ir.hash.bytes := by
  cases hheld with
  | kept => exact h.proposal
  | dropped => rintro _ ⟨⟩
  | stripped hpending =>
    -- without a certificate there is no record
    rintro _ ⟨⟩ ir hir
    obtain ⟨encoded, _, hencoded, _⟩ := hrecord.certificate hir
    cases hencoded
  | built hchosen hbuild =>
    have hbuilt := built_of_buildProposal lib hcbor hhash hrecord hbuild
    rintro _ ⟨⟩ ir hir
    rw [hbuilt.record] at hir
    cases hir
    rw [hbuilt.ir_eq]
    exact h.rooted.chosen hshared hchosen

include hcbor hhash hrecord hequalIR in
theorem HoldsSettled.writes (h : HoldsSettled lib views hash k n) (hshared : CommonPrefix views k)
    {op : StoreOp C} (hwrites : Writes lib conf (InView views hash) n op) :
    op.Carries (CertifiesSettled lib views hash k) := by
  cases hwrites with
  | @finalize proposal ir uc encoded hpending hir hequal hmarshal =>
    -- the certified record is the one of the pending proposal
    obtain ⟨record, hinput, hsame⟩ := hequalIR hequal
    intro uc' huc'
    have hdecoded : lib.unmarshal encoded = .ok uc' := huc'
    rw [hcbor hmarshal] at hdecoded
    cases hdecoded
    rw [getStateHash_of_record hinput, ← hsame.hash]
    exact h.proposal hpending hir
  | undo => trivial
  | @replay env block uc height henv huc hsuccessor hverified =>
    intro uc' huc'
    rw [huc] at huc'
    cases huc'
    exact h.rooted.chosen hshared (.verified henv hverified)
  | propose hchosen hbuild =>
    have hbuilt := built_of_buildProposal lib hcbor hhash hrecord hbuild
    intro uc huc
    rw [hbuilt.certificate] at huc
    cases huc
    rw [hbuilt.ir_eq]
    exact h.rooted.chosen hshared hchosen
  | forget => trivial

include hcbor hhash hrecord hequalIR in
theorem HoldsSettled.move (h : HoldsSettled lib views hash k n) (hshared : CommonPrefix views k)
    (hdeep : conf.Deep k) (hmove : Move lib conf (InView views hash) n n') :
    HoldsSettled lib views hash k n' := by
  obtain ⟨ops, hperforms, hwrites⟩ := hmove.stores
  refine ⟨h.rooted.txSteps hshared hdeep hmove.txSteps, ?_, ?_⟩
  · exact h.held hcbor hhash hrecord hshared hmove.held
  · intro op hop
    rw [hperforms.storeLog] at hop
    rcases List.mem_append.mp hop with hop | hop
    · exact h.written op hop
    · exact h.writes hcbor hhash hrecord hequalIR hshared (hwrites op hop)

end Moves

/-! ## Processes -/

section Processes

variable {lib : BaseLibrary C} {conf : NodeConf} {views : ι → BlockTree β}
  {hash : β → List UInt8} {k : ℕ} {store : BlockStore C} {n : Node C}

theorem Restores.rooted (hdeep : conf.Deep k)
    (hstore : Entries (CertifiesSettled lib views hash k) store) {s : FGPTxSystem}
    (h : Restores lib conf (InView views hash) store s) : Rooted views hash k s := by
  cases h with
  | genesis hlast hload hparse => exact ⟨hdeep hload hparse, anchored_nil, anchored_nil⟩
  | block hlast huc hload hparse henv hheight =>
    obtain ⟨hentry, _⟩ := OrderedStore.last?_eq_some_iff.mp hlast
    exact ⟨hdeep hload hparse, hstore _ _ hentry _ huc, anchored_nil⟩

/-- A process that starts on settled entries holds nothing else. -/
theorem Boots.holdsSettled (hrecord : lib.BlockRecordLaw) (hshared : CommonPrefix views k)
    (hdeep : conf.Deep k)
    (hstore : Entries (CertifiesSettled lib views hash k) store)
    (h : Boots lib conf (InView views hash) store n) : HoldsSettled lib views hash k n := by
  obtain ⟨s, hrestores, hsteps⟩ := h.txSteps
  have hstarted := h.started
  refine ⟨(hrestores.rooted hdeep hstore).txSteps hshared hdeep hsteps, ?_, ?_⟩
  · intro block hblock ir hir
    cases hstarted.replay with
    | nothing hproposal =>
      rw [hproposal] at hblock
      cases hblock
    | proposal proposal uc hstored huc hextends hproposal =>
      rw [hproposal] at hblock
      cases hblock
      obtain ⟨encoded, uc', hencoded, hdecoded, hinput⟩ := hrecord.certificate hir
      have huc' : getUCv1 lib (some block) = .ok uc' := by
        simp only [getUCv1, hencoded, hdecoded]
      rw [← getStateHash_of_record hinput]
      exact hstore _ _ hstored uc' huc'
  · rw [hstarted.storeLog]
    simp

variable (hcbor : lib.CborLaw) (hhash : lib.BlockHashLaw) (hrecord : lib.BlockRecordLaw)
  (hequalIR : lib.EqualIRLaw)

include hcbor hhash hrecord hequalIR in
/-- Nothing but settled blocks gets into a store, over any number of processes. -/
theorem Outlives.certifiesSettled (hshared : CommonPrefix views k)
    {confs : Set NodeConf} (hdeep : ∀ conf ∈ confs, conf.Deep k)
    (h : Outlives lib confs (InView views hash) OrderedStore.empty store) :
    Entries (CertifiesSettled lib views hash k) store := by
  refine h.invariant (P := Entries (CertifiesSettled lib views hash k)) ?_ entries_empty
  intro conf store n inputs hstore hconf hboots henvs count
  have hholds : HoldsSettled lib views hash k (runNode lib conf n inputs) :=
    invariant_moves (fun hinv hmove ↦ hinv.move hcbor hhash hrecord hequalIR hshared
      (hdeep conf hconf) hmove)
      (hboots.holdsSettled hrecord hshared (hdeep conf hconf) hstore) henvs
  exact hstore.applyOps fun op hop ↦ hholds.written op (List.mem_of_mem_take hop)

/-- The blocks in the stores of any two validators, or of one validator at different times, certify
proof-of-work blocks one of which is an ancestor of the other, as long as the views share their
prefix up to the required depth. And no view that has reached the height of such a block leaves it
out of its active chain. -/
theorem finalized_blocks_never_conflict (hcbor : lib.CborLaw) (hhash : lib.BlockHashLaw)
    (hrecord : lib.BlockRecordLaw) (hequalIR : lib.EqualIRLaw)
    (hshared : CommonPrefix views k) {confs : Set NodeConf} (hdeep : ∀ conf ∈ confs, conf.Deep k)
    {store store' : BlockStore C}
    (hstore : Outlives lib confs (InView views hash) OrderedStore.empty store)
    (hstore' : Outlives lib confs (InView views hash) OrderedStore.empty store')
    {round round' : UInt64} {block block' : Block C} {uc uc' : UnicityCertificate}
    (hblock : storedBlock store round = some block)
    (hblock' : storedBlock store' round' = some block')
    (huc : getUCv1 lib (some block) = .ok uc) (huc' : getUCv1 lib (some block') = .ok uc')
    (hne : (getStateHash (some uc)).bytes ≠ []) (hne' : (getStateHash (some uc')).bytes ≠ []) :
    ∃ b b', (getStateHash (some uc)).bytes = hash b ∧ (getStateHash (some uc')).bytes = hash b' ∧
      (∀ i, (views i).Ancestor b b' ∨ (views i).Ancestor b' b) ∧
      ∀ i, (views i).height b ≤ (views i).height (views i).tip → (views i).Active b := by
  have hsettled :=
    hstore.certifiesSettled hcbor hhash hrecord hequalIR hshared hdeep _ _ hblock uc huc
  have hsettled' :=
    hstore'.certifiesSettled hcbor hhash hrecord hequalIR hshared hdeep _ _ hblock' uc' huc'
  obtain ⟨b, hb, hdeepEnough⟩ := hsettled.resolve_left hne
  obtain ⟨b', hb', hdeepEnough'⟩ := hsettled'.resolve_left hne'
  exact ⟨b, b', hb, hb', hshared.settled_ancestor_or hdeepEnough hdeepEnough',
    hshared.active_of_height_le hdeepEnough⟩

end Processes

section Reference

open Reference

/-- The chain before and after its fourth block. -/
def chainViews : Bool → BlockTree Blk
  | false => forked
  | true => grown

theorem headerIn_chainViews (i : Bool) (b : Blk) :
    (headerIn (chainViews i) b).Describes (chainViews i) Blk.hash b :=
  headerIn_describes (by cases i <;> exact Blk.height_lt b)

/-- The tip is asked for in one view, and everything else after the fourth block. -/
def viewEnv (i : Bool) : Env where
  pow := { powIn grown [(.fourth, 0), (.rival, 1)] with
    getTip := .ok (headerIn (chainViews i) (chainViews i).tip) }

theorem viewEnv_inView (i : Bool) : InView chainViews Blk.hash (viewEnv i) where
  tip := by
    rintro _ ⟨⟩
    exact ⟨i, i, headerIn_chainViews i _⟩
  byHeight := by
    intro height header h
    simp only [viewEnv, powIn] at h
    split at h
    next hle =>
      cases h
      exact ⟨true, true, hle, headerIn_chainViews true _⟩
    next => cases h
  byHash := by
    intro data header h
    simp only [viewEnv, powIn, hexDecode_hexEncode] at h
    split at h
    next b hb =>
      split at h
      next =>
        cases h
        exact ⟨true, b, Blk.hash_of_find hb, headerIn_chainViews true b⟩
      next => cases h
    next => cases h

theorem chainViews_commonPrefix : CommonPrefix chainViews 1 where
  parent_eq i j := by cases i <;> cases j <;> rfl
  height_eq i j := by cases i <;> cases j <;> rfl
  agree i j b h := by
    by_cases hactive : (chainViews j).Active b
    · exact Or.inl hactive
    · -- only the fourth block is missing in a view, and there the third one is the tip
      have hfourth : i = true ∧ j = false ∧ b = .fourth := by
        cases i <;> cases j <;> cases b <;>
          first
          | exact ⟨rfl, rfl, rfl⟩
          | exact absurd h.1 (by decide)
          | exact absurd (by decide) hactive
      obtain ⟨rfl, rfl, rfl⟩ := hfourth
      exact Or.inr ⟨1, rfl⟩

/-- The record of a first round that finalizes the tip of a view. -/
def tipRecord (i : Bool) : InputRecord where
  roundNumber := 2
  hash := some (chainViews i).tip.hash
  summaryValue := some []
  timestamp := 5
  blockHash := some (chainViews i).tip.hash

/-- The validator leads the first round and gets the tip of its view certified. -/
def finalizingTip (id : PeerID) (i : Bool) : List (Input UnicityCertificate) :=
  [{ event := .certificationResponse (some (response (certify { roundNumber := 1 } 5
      (technical 2 id)) (technical 2 id))), envs := fun _ ↦ viewEnv i },
    { event := .t1Timeout, envs := fun _ ↦ viewEnv i },
    { event := .certificationResponse (some (response (certify (tipRecord i) 6
      (technical 3 id)) (technical 3 id))), envs := fun _ ↦ viewEnv i }]

theorem outlives_finalizingTip {id : PeerID} {key : List UInt8} (i : Bool)
    (hconf : conf id key ∈ ({conf "A" [1], conf "B" [2]} : Set NodeConf)) :
    Outlives referenceLibrary {conf "A" [1], conf "B" [2]} (InView chainViews Blk.hash)
      OrderedStore.empty (applyOps OrderedStore.empty
        ((runNode referenceLibrary (conf id key) node (finalizingTip id i)).storeLog.take 4)) := by
  have hboots : Boots referenceLibrary (conf id key) (InView chainViews Blk.hash)
      OrderedStore.empty node :=
    ⟨shardConf, _, viewEnv i, viewEnv i, rfl, rfl, viewEnv_inView i, viewEnv_inView i, rfl⟩
  refine .single ⟨_, hconf, node, hboots, finalizingTip id i, ?_, 4, rfl⟩
  simp [finalizingTip, viewEnv_inView]

/-- The validator `A` finalizes the third block, which was the tip when it asked for it, and `B`
finalizes the fourth one. -/
theorem finalized_tips_never_conflict :
    ∃ b b' : Blk, [3] = b.hash ∧ [4] = b'.hash ∧
      (∀ i, (chainViews i).Ancestor b b' ∨ (chainViews i).Ancestor b' b) ∧
      ∀ i, (chainViews i).height b ≤ (chainViews i).height (chainViews i).tip →
        (chainViews i).Active b := by
  have hdeep : ∀ other ∈ ({conf "A" [1], conf "B" [2]} : Set NodeConf), other.Deep 1 := by
    rintro other (rfl | rfl) _ dFG ⟨epoch, ⟨⟩⟩ ⟨⟩ <;> decide
  have hthird : storedBlock (applyOps OrderedStore.empty ((runNode referenceLibrary
      (conf "A" [1]) node (finalizingTip "A" false)).storeLog.take 4)) 2 = some _ := rfl
  have hfourth : storedBlock (applyOps OrderedStore.empty ((runNode referenceLibrary
      (conf "B" [2]) node (finalizingTip "B" true)).storeLog.take 4)) 2 = some _ := rfl
  exact finalized_blocks_never_conflict cborLaw blockHashLaw blockRecordLaw equalIRLaw
    chainViews_commonPrefix hdeep (outlives_finalizingTip false (Or.inl rfl))
    (outlives_finalizingTip true (Or.inr rfl)) hthird hfourth rfl rfl (by decide) (by decide)

end Reference

end FinalityGadget
