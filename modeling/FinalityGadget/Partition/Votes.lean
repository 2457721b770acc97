import FinalityGadget.Partition.Agreement
import FinalityGadget.Partition.Traffic

/-!
# What a node votes for

A certification request is a vote for a root. The leader of a round votes for the root that it has
announced itself, a follower for the root of a proposal that it has heard of, that is valid and that
belongs to the root round of its own latest certificate. Every vote is cast by a node that knows its
round: it has validated the latest certificate itself and holds the technical record that names the
leader.
-/

namespace FinalityGadget

open Bytes Fallible

variable {C : Type}

/-- The proposals among the messages. -/
def proposalsIn (sent : List (Sent C)) : List BlockProposal :=
  sent.filterMap fun sent ↦
    match sent.message with
    | .blockProposal prop => some prop
    | _ => none

/-- The requests among the messages, each with the state it was sent in. -/
def requestsIn (sent : List (Sent C)) : List (NodeState C × BlockCertificationRequest) :=
  sent.filterMap fun sent ↦
    match sent.message with
    | .certificationRequest request => some (sent.sender, request)
    | _ => none

theorem mem_proposalsIn {sent : List (Sent C)} {prop : BlockProposal} :
    prop ∈ proposalsIn sent ↔ ∃ entry ∈ sent, entry.message = .blockProposal prop := by
  rw [proposalsIn, List.mem_filterMap]
  refine exists_congr fun entry ↦ and_congr_right fun _ ↦ ?_
  cases entry.message <;> simp

theorem proposalsIn_mono {sent sent' : List (Sent C)} (h : sent ⊆ sent') :
    proposalsIn sent ⊆ proposalsIn sent' := by
  intro prop hprop
  obtain ⟨entry, hentry, hmessage⟩ := mem_proposalsIn.mp hprop
  exact mem_proposalsIn.mpr ⟨entry, h hentry, hmessage⟩

theorem requestsIn_mono {sent sent' : List (Sent C)} (h : sent ⊆ sent') :
    requestsIn sent ⊆ requestsIn sent' :=
  List.filterMap_subset _ h

/-! ## Votes -/

/-- Why a node votes for a root. -/
inductive Supports (lib : BaseLibrary C) (conf : NodeConf) (heard : BlockProposal → Prop)
    (log : List (Sent C)) (voter : NodeState C) (root : Slice) : Prop where
  | announced (prop : BlockProposal) (hself : voter.leader = conf.peerID)
      (hmem : prop ∈ proposalsIn log)
      (hround : getRootRoundNumber prop.unicityCertificate = getRootRoundNumber voter.luc)
      (hroot : prop.proposedRoot = root)
  | verified (prop : BlockProposal) (hheard : heard prop) (trustBase : RootTrustBase)
      (hvalid : BlockProposal.isValid lib (some prop) trustBase voter.shardConf = .ok ())
      (hauthor : prop.nodeID = voter.leader)
      (hround : getRootRoundNumber prop.unicityCertificate = getRootRoundNumber voter.luc)
      (hroot : prop.proposedRoot = root)

/-- The request is for a block with the root on top of the committed state of the voter. -/
structure VotesFor (lib : BaseLibrary C) (voter : NodeState C) (request : BlockCertificationRequest)
    (root : Slice) : Prop where
  known : voter.ltr ≠ none ∨ voter.leader ≠ ""
  record : ∃ ir block, buildProposal lib voter (lib.peerIDString voter.leader)
    (voter.transactionSystem.summaryOf root) = .ok (ir, block) ∧ request.inputRecord = some ir

/-- A request that was sent for a reason. -/
def Justified (lib : BaseLibrary C) (conf : NodeConf) (heard : BlockProposal → Prop)
    (log : List (Sent C)) (vote : NodeState C × BlockCertificationRequest) : Prop :=
  ∃ root, VotesFor lib vote.1 vote.2 root ∧ Supports lib conf heard log vote.1 root

/-- The log grows, by justified requests, and the node remembers only what it has heard. -/
structure Casts (lib : BaseLibrary C) (conf : NodeConf) (heard : BlockProposal → Prop)
    (n n' : Node C) : Prop where
  grows : n.sent ⊆ n'.sent
  requests : ∀ vote ∈ n'.requests, vote ∈ n.requests ∨ Justified lib conf heard n'.sent vote
  remembered : ∀ prop, n'.recoveryLastProp = some prop →
    n.recoveryLastProp = some prop ∨ heard prop

section Casting

variable {lib : BaseLibrary C} {conf : NodeConf} {heard heard' : BlockProposal → Prop} {env : Env}
  {n n' : Node C} {result : EStateM.Result Err (Node C) Unit}

theorem Supports.mono {log log' : List (Sent C)} {voter : NodeState C} {root : Slice}
    (h : Supports lib conf heard log voter root) (hheard : ∀ prop, heard prop → heard' prop)
    (hlog : log ⊆ log') : Supports lib conf heard' log' voter root := by
  cases h with
  | announced prop hself hmem hround hroot =>
    exact .announced prop hself (proposalsIn_mono hlog hmem) hround hroot
  | verified prop hprop trustBase hvalid hauthor hround hroot =>
    exact .verified prop (hheard prop hprop) trustBase hvalid hauthor hround hroot

theorem Justified.mono {log log' : List (Sent C)}
    {vote : NodeState C × BlockCertificationRequest} (h : Justified lib conf heard log vote)
    (hheard : ∀ prop, heard prop → heard' prop) (hlog : log ⊆ log') :
    Justified lib conf heard' log' vote := by
  obtain ⟨root, hvotes, hsupports⟩ := h
  exact ⟨root, hvotes, hsupports.mono hheard hlog⟩

theorem Casts.trans {m : Node C} (h : Casts lib conf heard n m)
    (h' : Casts lib conf heard m n') : Casts lib conf heard n n' where
  grows := List.Subset.trans h.grows h'.grows
  requests := by
    intro vote hvote
    rcases h'.requests vote hvote with hvote | hnew
    · rcases h.requests vote hvote with hold | hjustified
      · exact Or.inl hold
      · exact Or.inr (hjustified.mono (fun _ ↦ id) h'.grows)
    · exact Or.inr hnew
  remembered := by
    intro prop hprop
    rcases h'.remembered prop hprop with hprop | hheard
    · exact h.remembered prop hprop
    · exact Or.inr hheard

theorem requests_of_sent (h : n'.sent = n.sent) : n'.requests = n.requests := by
  rw [Node.requests, h]
  rfl

theorem casts_of_sent (hsent : n'.sent = n.sent)
    (hlast : n'.recoveryLastProp = n.recoveryLastProp) : Casts lib conf heard n n' where
  grows := hsent ▸ List.Subset.refl _
  requests _ hvote := Or.inl (requests_of_sent hsent ▸ hvote)
  remembered _ hprop := Or.inl (hlast ▸ hprop)

/-- Anything but a certification request can be sent. -/
theorem casts_post (n : Node C) {message : Message C} (receivers : List PeerID)
    (h : (n.post message receivers).requests = n.requests) :
    Casts lib conf heard n (n.post message receivers) where
  grows := List.subset_append_left _ _
  requests _ hvote := Or.inl (h ▸ hvote)
  remembered _ hprop := Or.inl hprop

/-- A vote for a root with a reason. -/
theorem Proposing.casts {root : Slice} {height : UInt64} (h : Proposing lib n root height n')
    (hgrows : n.sent ⊆ n'.sent) (hlast : n'.recoveryLastProp = n.recoveryLastProp)
    (hknown : n.ltr ≠ none ∨ n.leader ≠ "")
    (hsupports : ∀ block, Supports lib conf heard n'.sent (n.voting root height block) root) :
    Casts lib conf heard n n' := by
  refine ⟨hgrows, ?_, fun prop hprop ↦ Or.inl (hlast ▸ hprop)⟩
  intro vote hvote
  cases h with
  | kept _ hrequests => exact Or.inl (hrequests ▸ hvote)
  | recorded ir block hbuild _ hrequests => exact Or.inl (hrequests ▸ hvote)
  | requested ir block request hbuild _ hrequest hrequests =>
    rw [hrequests] at hvote
    rcases List.mem_append.mp hvote with hold | hnew
    · exact Or.inl hold
    · rw [List.mem_singleton.mp hnew]
      exact Or.inr ⟨root, ⟨hknown, ir, block, hbuild, hrequest⟩, hsupports block⟩

theorem RequestExit.grows {author : String} {state : Summary}
    (h : RequestExit lib conf env author state n result) :
    n.sent ⊆ (final result).sent ∧ (final result).recoveryLastProp = n.recoveryLastProp := by
  cases h with
  | unbuilt | unstored | unsent => exact ⟨List.Subset.refl _, rfl⟩
  | undelivered | sent => exact ⟨List.subset_append_left _ _, rfl⟩

/-- A leader votes for what it has announced. -/
theorem Announced.casts {m m' : Node C} {data : List UInt8} (hleader : n.leader = conf.peerID)
    (hannounced : Announced lib conf env n data m)
    (hrequest : RequestExit lib conf env (lib.peerIDString conf.peerID)
      (n.transactionSystem.summaryOf (some data)) m result)
    (hfinal : m'.sent = (final result).sent)
    (hlast : m'.recoveryLastProp = (final result).recoveryLastProp)
    (hproposing : ∃ height, Proposing lib n (some data) height m') :
    Casts lib conf heard n m' := by
  obtain ⟨hgrows, hkept⟩ := hrequest.grows
  obtain ⟨_, ltr, prop, _, hltr, hsign, rfl⟩ := hannounced
  obtain ⟨height, hproposing⟩ := hproposing
  have hposted : n.sent ⊆ m'.sent := by
    rw [hfinal]
    exact List.Subset.trans (List.subset_append_left _ _) hgrows
  refine hproposing.casts hposted (hlast.trans hkept) (Or.inl (by simp [hltr])) fun block ↦ ?_
  obtain ⟨_, _, _, _, hprop⟩ := BlockProposal.sign_eq_ok lib hsign
  refine .announced prop hleader ?_ ?_ ?_
  · rw [hfinal]
    exact mem_proposalsIn.mpr ⟨_, hgrows (List.mem_append_right _ List.mem_cons_self), rfl⟩
  · rw [hprop]
    rfl
  · rw [hprop]
    rfl

theorem TimeoutExit.casts (h : TimeoutExit lib conf env n result) :
    Casts lib conf heard n (final result) := by
  cases h with
  | idle | abandoned => exact casts_of_sent rfl rfl
  | unproposed data m hstatus hleader hannounced =>
    obtain ⟨height, ltr, prop, _, _, _, rfl⟩ := hannounced
    have hpending : Casts lib conf heard n
        (n.setTx (n.transactionSystem.setPending (some data) height)) := casts_of_sent rfl rfl
    have hreverted : ∀ m : Node C, Casts lib conf heard m m.revertState :=
      fun m ↦ casts_of_sent rfl rfl
    exact (hpending.trans (casts_post _ _ (Node.post_blockProposal _ _ _))).trans (hreverted _)
  | unrequested data m m' err hstatus hleader hannounced hrequest =>
    refine hannounced.casts hleader hrequest rfl rfl ?_
    obtain ⟨height, _, _, _, _, _, rfl⟩ := hannounced
    rw [← hleader] at hrequest
    have hproposing := hrequest.proposing rfl (Node.post_blockProposal _ _ _)
    exact ⟨height, hproposing.revertState⟩
  | requested data m m' hstatus hleader hannounced hrequest =>
    refine hannounced.casts hleader hrequest rfl rfl ?_
    obtain ⟨height, _, _, _, _, _, rfl⟩ := hannounced
    rw [← hleader] at hrequest
    exact ⟨height, hrequest.proposing rfl (Node.post_blockProposal _ _ _)⟩

/-- A follower votes for the proposal that it has verified. -/
theorem VoteExit.casts {prop : BlockProposal} {uc : UnicityCertificate} (hheard : heard prop)
    (huc : prop.unicityCertificate = some uc) (hvalid : ValidProposal lib conf n prop)
    (hround : getRootRoundNumber n.luc = getRootRoundNumber (some uc))
    (h : VoteExit lib conf env prop uc n result) : Casts lib conf heard n (final result) := by
  have hkept : n.sent ⊆ (final result).sent ∧
      (final result).recoveryLastProp = n.recoveryLastProp := by
    cases h with
    | refused | unverified => exact ⟨List.Subset.refl _, rfl⟩
    | unrequested height err cause m helectable hverified hrequest =>
      have hgrows := hrequest.grows
      exact hgrows
    | requested height m helectable hverified hrequest =>
      have hgrows := hrequest.grows
      exact hgrows
  obtain ⟨hgrows, hlast⟩ := hkept
  rcases h.proposing with ⟨_, hrequests⟩ | ⟨helectable, height, _, hproposing⟩
  · exact ⟨hgrows, fun vote hvote ↦ Or.inl (hrequests ▸ hvote),
      fun prop hprop ↦ Or.inl (hlast ▸ hprop)⟩
  · obtain ⟨trustBase, _, hisValid⟩ := hvalid
    refine hproposing.casts hgrows hlast (Or.inr helectable.leader_ne) fun block ↦ ?_
    refine .verified prop hheard trustBase hisValid helectable.author_eq ?_ rfl
    rw [huc]
    exact hround.symm

theorem carries_casts (hduplicate : lib.DuplicateLaw) (conf : NodeConf)
    (heard : BlockProposal → Prop) : Carries lib conf heard (Casts lib conf heard) where
  trans h h' := h.trans h'
  kept hsent _ hlast := casts_of_sent hsent hlast
  routine n message receivers hroutine := by
    apply casts_post
    cases message with
    | handshake | replicationRequest => simp [Node.requests, Node.post]
    | _ => exact hroutine.elim
  remembers n proposal hheard :=
    ⟨List.Subset.refl _, fun _ hvote ↦ Or.inl hvote, fun prop hprop ↦ Or.inr (hheard prop hprop)⟩
  proposes h := h.casts
  votes hheard huc _ hvalid hround h := h.casts hheard huc hvalid (hround hduplicate)

theorem casts_sendResponse (msg : LedgerReplicationResponse C) (toId : String) (n : Node C) :
    Casts lib conf heard n (final ((sendLedgerReplicationResponse lib env msg toId).run n)) := by
  unfold sendLedgerReplicationResponse
  cases lib.decodePeerID toId with
  | error err => exact casts_of_sent rfl rfl
  | ok id =>
    have hpost : Casts lib conf heard n (n.post (.replicationResponse msg) [id]) :=
      casts_post n [id] (by simp [Node.requests, Node.post])
    cases env.sendResponse <;> exact hpost

/-- Every request of a turn is justified by what the node has heard. -/
theorem step_casts (hduplicate : lib.DuplicateLaw) {input : Input C}
    (hevent : input.event.Delivers heard)
    (hheard : ∀ prop, n.recoveryLastProp = some prop → heard prop) :
    Casts lib conf heard n (step lib conf n input) := by
  cases hservice : input.event.isService with
  | false => exact (carries_casts hduplicate conf heard).step hevent hheard hservice
  | true =>
    apply step_service _ _ _ hservice
    · exact fun h h' ↦ h.trans h'
    · exact fun _ _ ↦ casts_of_sent rfl rfl
    · exact fun _ msg toId n ↦ casts_sendResponse msg toId n

/-- Nothing that was sent is forgotten. -/
theorem step_sent (hduplicate : lib.DuplicateLaw) (conf : NodeConf) (n : Node C) (input : Input C) :
    n.sent ⊆ (step lib conf n input).sent := by
  have hdelivers : input.event.Delivers fun _ ↦ True := by
    unfold Event.Delivers
    split <;> trivial
  have hcasts : Casts lib conf (fun _ ↦ True) n (step lib conf n input) :=
    step_casts hduplicate hdelivers fun _ _ ↦ trivial
  exact hcasts.grows

end Casting

end FinalityGadget
