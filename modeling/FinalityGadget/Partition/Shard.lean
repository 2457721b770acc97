import FinalityGadget.Foundation.Interleaving
import FinalityGadget.Partition.Votes

/-!
# A shard of validators

The validators of a shard take turns in any order, and each of them may crash and start again on any
store. Messages may be lost, duplicated, reordered and delayed, and anybody may send anything; only
the signatures of the validators cannot be forged: a valid proposal that names one of them as its
author is one that it has announced.

Then a vote of any validator is for a root that the leader of its round has announced in that root
round. So as long as the leader announces one root only, all votes of a root round are for the same
record.
-/

namespace FinalityGadget

open Bytes Fallible Interleaving

variable {C : Type}

/-! ## The system -/

/-- A validator: the process that is running and the messages of the processes before it. -/
structure Validator (C : Type) where
  node : Node C
  past : List (Sent C) := []

/-- Everything the validator has ever sent. -/
def Validator.sent (v : Validator C) : List (Sent C) := v.past ++ v.node.sent

/-- What happens to a validator: a turn of its process, or a new process. -/
inductive Happening (C : Type) where
  | turn (input : Input C)
  | restart (n : Node C)

def Validator.next (lib : BaseLibrary C) (conf : NodeConf) (v : Validator C) :
    Happening C → Validator C
  | .turn input => { v with node := step lib conf v.node input }
  | .restart n => { node := n, past := v.sent }

section System

variable {ι : Type} (lib : BaseLibrary C) (confs : ι → NodeConf)

/-- When the proposal is valid and its author is a validator, then that one has announced it. -/
def Genuine (shard : ι → Validator C) (prop : BlockProposal) : Prop :=
  ∀ k trustBase shardConf, prop.nodeID = (confs k).peerID →
    BlockProposal.isValid lib (some prop) trustBase shardConf = .ok () →
    ∃ announced ∈ proposalsIn (shard k).sent, prop = { announced with signature := prop.signature }

/-- What can happen next: proposals are genuine, and a process starts as it does on some store. -/
def Possible (shard : ι → Validator C) (move : ι × Happening C) : Prop :=
  match move.2 with
  | .turn input => input.event.Delivers (Genuine lib confs shard)
  | .restart n => ∃ store, Starts lib (confs move.1) store n

/-- The shard after a schedule. -/
def runShard [DecidableEq ι] (shard : ι → Validator C) (schedule : List (ι × Happening C)) :
    ι → Validator C :=
  Run.run (Interleaving.turn fun i ↦ Validator.next lib (confs i)) shard schedule

/-- Every validator is about to start for the first time. -/
def Fresh (shard : ι → Validator C) : Prop :=
  ∀ i, (shard i).past = [] ∧ ∃ store, Starts lib (confs i) store (shard i).node

end System

/-! ## What voters know -/

/-- What a node knows of its shard and of its round. -/
structure Knowing (lib : BaseLibrary C) (conf : NodeConf) (n : NodeState C) : Prop where
  loaded : conf.Loads n.shardConf
  informed : Informed lib conf n
  leader : LeaderCoherent lib n

/-- The node knows its round, and so it did whenever it voted. -/
structure Aware (lib : BaseLibrary C) (conf : NodeConf) (n : Node C) : Prop where
  known : Knowing lib conf n.toNodeState
  votes : ∀ vote ∈ n.requests, Knowing lib conf vote.1

section Knowledge

variable {lib : BaseLibrary C} {conf : NodeConf} {n n' : Node C}

theorem Knowing.segment {guard : Guard C} (h : Knowing lib conf n.toNodeState)
    (hsegment : Segment lib conf guard n n') : Knowing lib conf n'.toNodeState where
  loaded := hsegment.loads h.loaded
  informed := h.informed.adoption h.loaded hsegment.adoption
  leader := h.leader.segment hsegment

theorem Knowing.voting (h : Knowing lib conf n.toNodeState) (root : Slice) (height : UInt64)
    (block : Block C) : Knowing lib conf (n.voting root height block) :=
  ⟨h.loaded, h.informed, h.leader⟩

theorem Aware.segment {guard : Guard C} (h : Aware lib conf n)
    (hsegment : Segment lib conf guard n n') : Aware lib conf n' := by
  refine ⟨h.known.segment hsegment, ?_⟩
  rcases hsegment.request_cases with hrequests | ⟨_, _, root, height, hproposing, _⟩
  · rw [hrequests]
    exact h.votes
  · cases hproposing with
    | kept _ hrequests | recorded _ _ _ _ hrequests =>
      rw [hrequests]
      exact h.votes
    | requested ir block request hbuild _ hrequest hrequests =>
      rw [hrequests, List.forall_mem_append, List.forall_mem_singleton]
      exact ⟨h.votes, h.known.voting root height block⟩

theorem Aware.step (h : Aware lib conf n) (input : Input C) :
    Aware lib conf (FinalityGadget.step lib conf n input) := by
  have hadmits : Run.Guarded (FinalityGadget.step lib conf) (Guard.none.Admits lib conf) n
      [input] := ⟨Guard.none_admits lib conf n input, trivial⟩
  exact invariant_runNode (Guard.none_sound lib) (fun hinv hsegment ↦ hinv.segment hsegment) h
    hadmits

theorem aware_of_starts {store : BlockStore C} (h : Starts lib conf store n) :
    Aware lib conf n := by
  have hstarted := started_of_starts lib conf h
  refine ⟨⟨hstarted.shardConf, ?_, Or.inl ⟨hstarted.ltr, hstarted.leader⟩⟩, ?_⟩
  · intro tr htr
    cases hstarted.ltr.symm.trans htr
  · rw [Node.requests, hstarted.sent]
    intro vote hvote
    cases hvote

/-- Nodes that know their round and are in the same root round know the same of it. -/
theorem Knowing.sameRound {confs : Set NodeConf} {conf' : NodeConf} {voter voter' : NodeState C}
    (hrootRound : RootRoundLaw lib confs) (hconf : conf ∈ confs) (hconf' : conf' ∈ confs)
    (h : Knowing lib conf voter) (h' : Knowing lib conf' voter') (hltr : voter.ltr ≠ none)
    (hltr' : voter'.ltr ≠ none)
    (hcollision : ∀ tr tr', voter.ltr = some tr → voter'.ltr = some tr' →
      lib.technicalRecordHash tr = lib.technicalRecordHash tr' → tr = tr')
    (hround : getRootRoundNumber voter'.luc = getRootRoundNumber voter.luc) :
    SameRound voter voter' := by
  obtain ⟨tr, hltr⟩ := Option.ne_none_iff_exists'.mp hltr
  obtain ⟨tr', hltr'⟩ := Option.ne_none_iff_exists'.mp hltr'
  obtain ⟨uc, hluc, htechnical, hdecode, hvalid⟩ := h.informed tr hltr
  obtain ⟨uc', hluc', htechnical', hdecode', hvalid'⟩ := h'.informed tr' hltr'
  have hvalid := hvalid.mono hconf
  have hvalid' := hvalid'.mono hconf'
  rw [hluc, hluc'] at hround
  have hsame : tr = tr' := by
    obtain ⟨hash, hhash, hmatches⟩ := TechnicalRecord.hash_of_hashMatches (htechnical tr rfl).2
    obtain ⟨hash', hhash', hmatches'⟩ :=
      TechnicalRecord.hash_of_hashMatches (htechnical' tr' rfl).2
    apply hcollision tr tr' hltr hltr'
    rw [hhash, hhash', ← hmatches, ← hmatches', hrootRound.trHash hvalid' hvalid hround]
  subst hsame
  constructor
  case ltr => rw [hltr, hltr']
  case leader => exact Except.ok.inj (hdecode'.symm.trans hdecode)
  case stateHash =>
    rw [hluc, hluc']
    exact congrArg (fun record ↦ Option.bind record InputRecord.hash)
      (hrootRound.inputRecord hvalid' hvalid hround)
  case timestamp =>
    rw [hluc, hluc']
    exact hrootRound.timestamp hvalid' hvalid hround

end Knowledge

/-! ## Runs -/

section Runs

variable {ι : Type} {lib : BaseLibrary C} {confs : ι → NodeConf} {shard shard' : ι → Validator C}

/-- What holds of one validator at any time of a run of the shard. -/
structure Accountable (lib : BaseLibrary C) (confs : ι → NodeConf) (shard : ι → Validator C)
    (i : ι) : Prop where
  aware : Aware lib (confs i) (shard i).node
  past : ∀ vote ∈ requestsIn (shard i).past, Knowing lib (confs i) vote.1
  remembered : ∀ prop, (shard i).node.recoveryLastProp = some prop → Genuine lib confs shard prop
  justified : ∀ vote ∈ requestsIn (shard i).sent,
    Justified lib (confs i) (Genuine lib confs shard) (shard i).sent vote

theorem requestsIn_append (sent sent' : List (Sent C)) :
    requestsIn (sent ++ sent') = requestsIn sent ++ requestsIn sent' :=
  List.filterMap_append

theorem Genuine.mono {prop : BlockProposal} (h : Genuine lib confs shard prop)
    (hgrows : ∀ k, (shard k).sent ⊆ (shard' k).sent) : Genuine lib confs shard' prop := by
  intro k trustBase shardConf hauthor hvalid
  obtain ⟨announced, hmem, hsame⟩ := h k trustBase shardConf hauthor hvalid
  exact ⟨announced, proposalsIn_mono (hgrows k) hmem, hsame⟩

theorem Accountable.knows {i : ι} (h : Accountable lib confs shard i)
    {vote : NodeState C × BlockCertificationRequest} (hvote : vote ∈ requestsIn (shard i).sent) :
    Knowing lib (confs i) vote.1 := by
  rw [Validator.sent, requestsIn_append] at hvote
  rcases List.mem_append.mp hvote with hpast | hnow
  · exact h.past vote hpast
  · exact h.aware.votes vote hnow

/-- Nothing changes for a validator when only others send more. -/
theorem Accountable.mono {i : ι} (h : Accountable lib confs shard i)
    (hsame : shard' i = shard i) (hgrows : ∀ k, (shard k).sent ⊆ (shard' k).sent) :
    Accountable lib confs shard' i := by
  have hgenuine : ∀ prop, Genuine lib confs shard prop → Genuine lib confs shard' prop :=
    fun _ hprop ↦ hprop.mono hgrows
  constructor
  case aware => exact hsame ▸ h.aware
  case past => exact hsame ▸ h.past
  case remembered =>
    rw [hsame]
    exact fun prop hprop ↦ hgenuine prop (h.remembered prop hprop)
  case justified =>
    rw [hsame]
    exact fun vote hvote ↦ (h.justified vote hvote).mono hgenuine (List.Subset.refl _)

/-- A validator forgets nothing that it has sent. -/
theorem Validator.sent_next (hduplicate : lib.DuplicateLaw) (conf : NodeConf) (v : Validator C)
    (event : Happening C) : v.sent ⊆ (v.next lib conf event).sent := by
  cases event with
  | turn input =>
    apply List.append_subset.mpr
    exact ⟨List.subset_append_left _ _,
      List.Subset.trans (step_sent hduplicate conf v.node input) (List.subset_append_right _ _)⟩
  | restart n => exact List.subset_append_left _ _

/-- A turn of a validator that hears of genuine proposals only. -/
theorem Accountable.turn (hduplicate : lib.DuplicateLaw) {i : ι} {input : Input C}
    (h : Accountable lib confs shard i)
    (hevent : input.event.Delivers (Genuine lib confs shard))
    (hnode : shard' i = (shard i).next lib (confs i) (.turn input))
    (hgrows : ∀ k, (shard k).sent ⊆ (shard' k).sent) : Accountable lib confs shard' i := by
  have hgenuine : ∀ prop, Genuine lib confs shard prop → Genuine lib confs shard' prop :=
    fun _ hprop ↦ hprop.mono hgrows
  have hcasts : Casts lib (confs i) (Genuine lib confs shard) (shard i).node
      (step lib (confs i) (shard i).node input) := step_casts hduplicate hevent h.remembered
  constructor
  case aware =>
    rw [hnode]
    exact h.aware.step input
  case past =>
    rw [hnode]
    exact h.past
  case remembered =>
    rw [hnode]
    intro prop hprop
    rcases hcasts.remembered prop hprop with hold | hheard
    · exact hgenuine prop (h.remembered prop hold)
    · exact hgenuine prop hheard
  case justified =>
    intro vote hvote
    have hsent : (shard' i).sent =
        (shard i).past ++ (step lib (confs i) (shard i).node input).sent := by rw [hnode]; rfl
    have hcases : vote ∈ requestsIn (shard i).sent ∨ Justified lib (confs i)
        (Genuine lib confs shard) (step lib (confs i) (shard i).node input).sent vote := by
      rw [hsent, requestsIn_append] at hvote
      rw [Validator.sent, requestsIn_append, List.mem_append]
      rcases List.mem_append.mp hvote with hpast | hnow
      · exact Or.inl (Or.inl hpast)
      · exact (hcasts.requests vote hnow).imp_left Or.inr
    rcases hcases with hold | hnew
    · exact (h.justified vote hold).mono hgenuine (hgrows i)
    · apply hnew.mono hgenuine
      rw [hsent]
      exact List.subset_append_right _ _

/-- A new process has sent nothing yet. -/
theorem Accountable.restart {i : ι} {n : Node C} {store : BlockStore C}
    (h : Accountable lib confs shard i) (hstart : Starts lib (confs i) store n)
    (hnode : shard' i = (shard i).next lib (confs i) (.restart n))
    (hgrows : ∀ k, (shard k).sent ⊆ (shard' k).sent) : Accountable lib confs shard' i := by
  have hempty := (started_of_starts lib (confs i) hstart).sent
  have hsent : (shard' i).sent = (shard i).sent := by
    rw [hnode, Validator.sent, Validator.next, hempty, List.append_nil]
  constructor
  case aware =>
    rw [hnode]
    exact aware_of_starts hstart
  case past =>
    rw [hnode]
    exact fun vote hvote ↦ h.knows hvote
  case remembered =>
    rw [hnode]
    intro prop hprop
    cases hstart.queues_empty.2.symm.trans hprop
  case justified =>
    rw [hsent]
    intro vote hvote
    exact (h.justified vote hvote).mono (fun _ hprop ↦ hprop.mono hgrows) (List.Subset.refl _)

variable [DecidableEq ι]

theorem turn_sent (hduplicate : lib.DuplicateLaw) (move : ι × Happening C) (k : ι) :
    (shard k).sent ⊆
      (Interleaving.turn (fun i ↦ Validator.next lib (confs i)) shard move k).sent := by
  obtain ⟨i, event⟩ := move
  by_cases h : k = i
  · subst h
    rw [turn_self]
    exact (shard k).sent_next hduplicate (confs k) event
  · rw [turn_of_ne shard h]
    exact List.Subset.refl _

/-- In every run of the shard all votes are justified. -/
theorem accountable_runShard (hduplicate : lib.DuplicateLaw) (hfresh : Fresh lib confs shard)
    {schedule : List (ι × Happening C)}
    (hpossible : Run.Guarded (Interleaving.turn fun i ↦ Validator.next lib (confs i))
      (Possible lib confs) shard schedule) (i : ι) :
    Accountable lib confs (runShard lib confs shard schedule) i := by
  let AllAccountable (shard : ι → Validator C) : Prop := ∀ i, Accountable lib confs shard i
  suffices hall : AllAccountable (runShard lib confs shard schedule) from hall i
  refine Run.invariant_run (fun shard move hall hmove i ↦ ?_) (fun i ↦ ?_) hpossible
  · obtain ⟨j, event⟩ := move
    have hgrows : ∀ k, (shard k).sent ⊆ (Interleaving.turn
        (fun i ↦ Validator.next lib (confs i)) shard (j, event) k).sent :=
      turn_sent hduplicate (j, event)
    by_cases h : i = j
    · subst h
      cases event with
      | turn input => exact (hall i).turn hduplicate hmove (turn_self _ _ _) hgrows
      | restart n =>
        obtain ⟨store, hstart⟩ := hmove
        exact (hall i).restart hstart (turn_self _ _ _) hgrows
    · exact (hall i).mono (turn_of_ne shard h) hgrows
  · obtain ⟨hpast, store, hstart⟩ := hfresh i
    have hempty := (started_of_starts lib (confs i) hstart).sent
    have hsent : (shard i).sent = [] := by rw [Validator.sent, hpast, hempty]; rfl
    constructor
    case aware => exact aware_of_starts hstart
    case past =>
      rw [hpast]
      intro vote hvote
      cases hvote
    case remembered =>
      intro prop hprop
      cases hstart.queues_empty.2.symm.trans hprop
    case justified =>
      rw [hsent]
      intro vote hvote
      cases hvote

end Runs

/-! ## Agreement -/

/-- The messages announce one root only in each root round. -/
def AnnouncesOnce (sent : List (Sent C)) : Prop :=
  ∀ prop ∈ proposalsIn sent, ∀ prop' ∈ proposalsIn sent,
    getRootRoundNumber prop.unicityCertificate = getRootRoundNumber prop'.unicityCertificate →
    prop.proposedRoot = prop'.proposedRoot

section Agreement

variable {ι : Type} {lib : BaseLibrary C} {confs : ι → NodeConf} {shard : ι → Validator C}

/-- A vote is for a root that the leader of the voter has announced in the root round of the
vote. -/
theorem Supports.announced_by {i k : ι} (hpeers : Function.Injective fun i ↦ (confs i).peerID)
    {voter : NodeState C} {root : Slice}
    (h : Supports lib (confs i) (Genuine lib confs shard) (shard i).sent voter root)
    (hleader : voter.leader = (confs k).peerID) :
    ∃ prop ∈ proposalsIn (shard k).sent,
      getRootRoundNumber prop.unicityCertificate = getRootRoundNumber voter.luc ∧
        prop.proposedRoot = root := by
  cases h with
  | announced prop hself hmem hround hroot =>
    obtain rfl : i = k := hpeers (hself.symm.trans hleader)
    exact ⟨prop, hmem, hround, hroot⟩
  | verified prop hgenuine trustBase hvalid hauthor hround hroot =>
    obtain ⟨announced, hmem, hsame⟩ :=
      hgenuine k trustBase voter.shardConf (hauthor.trans hleader) hvalid
    refine ⟨announced, hmem, ?_, ?_⟩
    · rw [← hround, hsame]
    · rw [← hroot, hsame]

/-- Votes of nodes that know the same of their round for the same root differ in the block hash at
most. -/
theorem SameRound.records {voter voter' : NodeState C}
    {request request' : BlockCertificationRequest} {root : Slice}
    (hcbor : lib.CborLaw) (hhash : lib.BlockHashLaw) (hrecord : lib.BlockRecordLaw)
    (h : SameRound voter voter') (hltr : voter.ltr ≠ none)
    (hshard : voter'.shardConf.partitionID = voter.shardConf.partitionID ∧
      voter'.shardConf.shardID = voter.shardConf.shardID)
    (hvote : VotesFor lib voter request root) (hvote' : VotesFor lib voter' request' root) :
    ∃ ir ir', request.inputRecord = some ir ∧ request'.inputRecord = some ir' ∧
      { ir with blockHash := none } = { ir' with blockHash := none } ∧
      (getBlockHash voter'.committedUC = getBlockHash voter.committedUC → ir' = ir) := by
  obtain ⟨ir, block, hbuild, hir⟩ := hvote.record
  obtain ⟨ir', block', hbuild', hir'⟩ := hvote'.record
  obtain ⟨tr, htr⟩ := Option.ne_none_iff_exists'.mp hltr
  have htr' : voter'.ltr = some tr := h.ltr.trans htr
  have hproposed : proposedIR voter' (voter'.transactionSystem.summaryOf root) =
      proposedIR voter (voter.transactionSystem.summaryOf root) := by
    simp only [proposedIR, FGPTxSystem.summaryOf_eq, NodeState.currentRoundNumber,
      NodeState.currentEpoch, htr, htr', h.stateHash, h.timestamp]
  refine ⟨ir, ir', hir, hir', ?_, fun hcommitted ↦ ?_⟩
  · rw [(built_of_buildProposal lib hcbor hhash hrecord hbuild).ir_eq,
      (built_of_buildProposal lib hcbor hhash hrecord hbuild').ir_eq, hproposed]
  · have hsame : buildProposal lib voter' (lib.peerIDString voter'.leader)
        (voter'.transactionSystem.summaryOf root) =
          buildProposal lib voter (lib.peerIDString voter.leader)
            (voter.transactionSystem.summaryOf root) := by
      simp only [buildProposal, proposedUC, proposedHeader, hproposed, h.leader, hshard.1, hshard.2,
        hcommitted]
    rw [hbuild, hbuild'] at hsame
    exact congrArg Prod.fst (Except.ok.inj hsame)

/-- Votes of one root round agree when both voters can account for them. -/
theorem Accountable.agree (hcbor : lib.CborLaw) (hhash : lib.BlockHashLaw)
    (hrecord : lib.BlockRecordLaw) (hrootRound : RootRoundLaw lib (Set.range confs))
    (hpeers : Function.Injective fun i ↦ (confs i).peerID)
    (hshard : ∀ i j shardConf shardConf', (confs i).Loads shardConf → (confs j).Loads shardConf' →
      shardConf'.partitionID = shardConf.partitionID ∧ shardConf'.shardID = shardConf.shardID)
    {i j k : ι} (hi : Accountable lib confs shard i) (hj : Accountable lib confs shard j)
    {voter voter' : NodeState C} {request request' : BlockCertificationRequest}
    (hvote : (voter, request) ∈ requestsIn (shard i).sent)
    (hvote' : (voter', request') ∈ requestsIn (shard j).sent)
    (hround : getRootRoundNumber voter'.luc = getRootRoundNumber voter.luc)
    (hleader : voter.leader = (confs k).peerID) (honce : AnnouncesOnce (shard k).sent)
    (hcollision : ∀ tr tr', voter.ltr = some tr → voter'.ltr = some tr' →
      lib.technicalRecordHash tr = lib.technicalRecordHash tr' → tr = tr') :
    ∃ ir ir', request.inputRecord = some ir ∧ request'.inputRecord = some ir' ∧
      { ir with blockHash := none } = { ir' with blockHash := none } ∧
      (getBlockHash voter'.committedUC = getBlockHash voter.committedUC → ir' = ir) := by
  have hknows := hi.knows hvote
  have hknows' := hj.knows hvote'
  obtain ⟨root, hvotes, hsupports⟩ := hi.justified _ hvote
  obtain ⟨root', hvotes', hsupports'⟩ := hj.justified _ hvote'
  have hltr := hvotes.known.elim id hknows.leader.ltr_ne
  have hltr' := hvotes'.known.elim id hknows'.leader.ltr_ne
  have hsame : SameRound voter voter' := hknows.sameRound hrootRound (Set.mem_range_self i)
    (Set.mem_range_self j) hknows' hltr hltr' hcollision hround
  -- both roots were announced by the one leader of the round
  obtain ⟨prop, hprop, hproposed, hroot⟩ := hsupports.announced_by hpeers hleader
  obtain ⟨prop', hprop', hproposed', hroot'⟩ :=
    hsupports'.announced_by hpeers (hsame.leader.trans hleader)
  have hroots : root = root' := by
    rw [← hroot, ← hroot']
    exact honce prop hprop prop' hprop' (hproposed.trans (hround.symm.trans hproposed'.symm))
  subst hroots
  exact hsame.records hcbor hhash hrecord hltr
    (hshard i j _ _ hknows.loaded hknows'.loaded) hvotes hvotes'

variable [DecidableEq ι]

/-- Two votes of one root round, of any validators at any times of any run of the shard, are for the
same record up to the hash of the block, as long as the leader is a validator that announces one
root only in each root round; and for the very same record if the voters extend the same block. -/
theorem votes_agree (hduplicate : lib.DuplicateLaw) (hcbor : lib.CborLaw) (hhash : lib.BlockHashLaw)
    (hrecord : lib.BlockRecordLaw) (hrootRound : RootRoundLaw lib (Set.range confs))
    (hpeers : Function.Injective fun i ↦ (confs i).peerID)
    (hshard : ∀ i j shardConf shardConf', (confs i).Loads shardConf → (confs j).Loads shardConf' →
      shardConf'.partitionID = shardConf.partitionID ∧ shardConf'.shardID = shardConf.shardID)
    (hfresh : Fresh lib confs shard) {schedule : List (ι × Happening C)}
    (hpossible : Run.Guarded (Interleaving.turn fun i ↦ Validator.next lib (confs i))
      (Possible lib confs) shard schedule)
    {i j k : ι} {voter voter' : NodeState C} {request request' : BlockCertificationRequest}
    (hvote : (voter, request) ∈ requestsIn (runShard lib confs shard schedule i).sent)
    (hvote' : (voter', request') ∈ requestsIn (runShard lib confs shard schedule j).sent)
    (hround : getRootRoundNumber voter'.luc = getRootRoundNumber voter.luc)
    (hleader : voter.leader = (confs k).peerID)
    (honce : AnnouncesOnce (runShard lib confs shard schedule k).sent)
    (hcollision : ∀ tr tr', voter.ltr = some tr → voter'.ltr = some tr' →
      lib.technicalRecordHash tr = lib.technicalRecordHash tr' → tr = tr') :
    ∃ ir ir', request.inputRecord = some ir ∧ request'.inputRecord = some ir' ∧
      { ir with blockHash := none } = { ir' with blockHash := none } ∧
      (getBlockHash voter'.committedUC = getBlockHash voter.committedUC → ir' = ir) := by
  have hi := accountable_runShard hduplicate hfresh hpossible i
  have hj := accountable_runShard hduplicate hfresh hpossible j
  exact hi.agree hcbor hhash hrecord hrootRound hpeers hshard hj hvote hvote' hround hleader honce
    hcollision

end Agreement

section Reference

open Reference

namespace Reference

/-- The validators `A` and `B`. -/
def members : Bool → NodeConf
  | false => conf "A" [1]
  | true => conf "B" [2]

/-- Both validators get the initial certificate, `A` announces its proposal and `B` hears of it. -/
def firstRound : List (Bool × Happening UnicityCertificate) :=
  [(true, .turn (deliver { roundNumber := 1 } 5 (technical 2 "A"))),
    (false, .turn (deliver { roundNumber := 1 } 5 (technical 2 "A"))),
    (false, .turn (input 10 .t1Timeout)),
    (true, .turn (input 10 (.blockProposal (some firstProposal))))]

/-- The shard after its first round. -/
def voted : Bool → Validator UnicityCertificate :=
  runShard shardLibrary members (fun _ ↦ { node := node }) firstRound

end Reference

theorem firstRound_possible :
    Run.Guarded (Interleaving.turn fun i ↦ Validator.next shardLibrary (members i))
      (Possible shardLibrary members) (fun _ ↦ { node := node }) firstRound := by
  refine ⟨trivial, trivial, trivial, ?_, trivial⟩
  intro k trustBase shardConf hauthor _
  cases k with
  | false => exact ⟨firstProposal, List.mem_cons_self, rfl⟩
  | true => exact absurd hauthor (by decide)

/-- In the first round `B` votes for the record of `A`. -/
theorem votes_agree_firstRound :
    ∃ voter voter' request request',
      requestsIn (voted false).sent = [(voter, request)] ∧
      requestsIn (voted true).sent = [(voter', request')] ∧
      request.inputRecord = some proposedRecord ∧ request'.inputRecord = some proposedRecord := by
  have hpeers : Function.Injective fun i ↦ (members i).peerID := by decide
  have hshard : ∀ i j shardConf shardConf', (members i).Loads shardConf →
      (members j).Loads shardConf' →
      shardConf'.partitionID = shardConf.partitionID ∧ shardConf'.shardID = shardConf.shardID := by
    rintro (_ | _) (_ | _) _ _ ⟨_, ⟨⟩⟩ ⟨_, ⟨⟩⟩ <;> exact ⟨rfl, rfl⟩
  have hfresh : Fresh shardLibrary members fun _ ↦ { node := node } := by
    rintro (_ | _)
    · exact ⟨rfl, _, starts_empty "A" [1]⟩
    · exact ⟨rfl, _, starts_empty "B" [2]⟩
  have honce : AnnouncesOnce (voted false).sent := by
    have hannounced : proposalsIn (voted false).sent = [firstProposal] := rfl
    intro prop hprop prop' hprop' _
    rw [hannounced, List.mem_singleton] at hprop hprop'
    rw [hprop, hprop']
  obtain ⟨voter, request, hvote, hleader, hltr, hround, hblock, hrecord⟩ : ∃ voter request,
      requestsIn (voted false).sent = [(voter, request)] ∧ voter.leader = (members false).peerID ∧
      voter.ltr = some (technical 2 "A") ∧ getRootRoundNumber voter.luc = 5 ∧
      getBlockHash voter.committedUC = none ∧ request.inputRecord = some proposedRecord :=
    ⟨_, _, rfl, rfl, rfl, rfl, rfl, rfl⟩
  obtain ⟨voter', request', hvote', hltr', hround', hblock'⟩ : ∃ voter' request',
      requestsIn (voted true).sent = [(voter', request')] ∧
      voter'.ltr = some (technical 2 "A") ∧ getRootRoundNumber voter'.luc = 5 ∧
      getBlockHash voter'.committedUC = none := ⟨_, _, rfl, rfl, rfl, rfl⟩
  refine ⟨voter, voter', request, request', hvote, hvote', hrecord, ?_⟩
  have hcollision : ∀ tr tr', voter.ltr = some tr → voter'.ltr = some tr' →
      shardLibrary.technicalRecordHash tr = shardLibrary.technicalRecordHash tr' → tr = tr' := by
    intro tr tr' htr htr' _
    exact Option.some.inj (htr.symm.trans (hltr.trans (hltr'.symm.trans htr')))
  obtain ⟨ir, ir', hir, hir', _, hsame⟩ := votes_agree duplicateLaw cborLaw blockHashLaw
    blockRecordLaw (shardLibrary_rootRoundLaw _) hpeers hshard hfresh firstRound_possible
    (hvote ▸ List.mem_cons_self) (hvote' ▸ List.mem_cons_self) (hround'.trans hround.symm) hleader
    honce hcollision
  rw [hir', hsame (hblock'.trans hblock.symm), ← hir, hrecord]

end Reference

end FinalityGadget
