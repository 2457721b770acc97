import FinalityGadget.Partition.Extension

/-!
# Leader and follower certify the same record

The leader of a round and its followers build the record to certify on their own: the leader when
its timer fires, from its own technical record and identifier, a follower when the proposal arrives,
from what it knows or has just learned from the proposal. Both records are the same function of the
latest certificate, the technical record and the committed block, and the certificate of a root
round fixes all of these.
-/

namespace FinalityGadget

open Bytes Fallible

variable {C : Type}

/-- The certificates of one root round differ in their signatures only. -/
structure RootRoundLaw (lib : BaseLibrary C) (confs : Set NodeConf) : Prop where
  inputRecord : ∀ {uc other}, WasValidated lib confs uc → WasValidated lib confs other →
    getRootRoundNumber (some uc) = getRootRoundNumber (some other) →
    uc.inputRecord = other.inputRecord
  trHash : ∀ {uc other}, WasValidated lib confs uc → WasValidated lib confs other →
    getRootRoundNumber (some uc) = getRootRoundNumber (some other) →
    uc.trHash.bytes = other.trHash.bytes
  timestamp : ∀ {uc other}, WasValidated lib confs uc → WasValidated lib confs other →
    getRootRoundNumber (some uc) = getRootRoundNumber (some other) →
    getTimestamp (some uc) = getTimestamp (some other)

/-- A certificate that is verified with a configuration hash is verified without it. -/
def VerifyLaw (lib : BaseLibrary C) : Prop :=
  ∀ {uc trustBase partition shard shardConfHash},
    lib.verify (some uc) trustBase partition shard shardConfHash = .ok () →
    lib.verify (some uc) trustBase partition shard none = .ok ()

/-! ## What a node knows of its round -/

/-- The technical record was checked against the latest certificate, and this was validated by the
node itself. -/
def Informed (lib : BaseLibrary C) (conf : NodeConf) (n : NodeState C) : Prop :=
  ∀ tr, n.ltr = some tr → ∃ uc, n.luc = some uc ∧ Technical lib uc (some tr) ∧
    lib.decodePeerID tr.leader = .ok n.leader ∧ WasValidated lib {conf} uc

/-- A validator of the shard in a state it can reach. -/
structure Peer (lib : BaseLibrary C) (confs : Set NodeConf) (conf : NodeConf) (n : Node C) :
    Prop where
  aligned : Aligned lib confs conf n
  informed : Informed lib conf n.toNodeState

section Knowledge

variable {lib : BaseLibrary C} {confs : Set NodeConf} {conf : NodeConf} {n n' : Node C}

theorem WasValidated.mono {uc : UnicityCertificate} (h : WasValidated lib {conf} uc)
    (hconf : conf ∈ confs) : WasValidated lib confs uc := by
  obtain ⟨_, rfl, hvalid⟩ := h
  exact ⟨_, hconf, hvalid⟩

theorem Informed.of_latest {n n' : NodeState C} (h : Informed lib conf n)
    (hlatest : n'.latest = n.latest) : Informed lib conf n' := by
  unfold Informed
  rw [NodeState.luc_of_latest hlatest, NodeState.ltr_of_latest hlatest,
    NodeState.leader_of_latest hlatest]
  exact h

theorem Informed.adoption (h : Informed lib conf n.toNodeState) (hloaded : conf.Loads n.shardConf)
    (hadoption : Adoption lib conf n n') : Informed lib conf n'.toNodeState := by
  rcases hadoption with hkept | ⟨uc, record, leader, htechnical, hadoptable, hlatest⟩
  · exact h.of_latest hkept
  · intro tr htr
    have hluc : n'.luc = some uc := congrArg Prod.fst hlatest
    have hltr : n'.ltr = record := congrArg (fun latest ↦ latest.2.1) hlatest
    have hleader : n'.leader = leader := congrArg (fun latest ↦ latest.2.2) hlatest
    have hdecode := hadoptable.leader_eq
    rw [← hltr, htr] at hdecode htechnical
    refine ⟨uc, hluc, htechnical, ?_, conf, Set.mem_singleton _, n.shardConf, hloaded,
      hadoptable.validated⟩
    rw [hleader]
    exact mapError_eq_ok.mp hdecode

theorem Peer.segment (hlaws : ChainLaws lib confs) (hconf : conf ∈ confs) {guard : Guard C}
    (h : Peer lib confs conf n) (hsegment : Segment lib conf guard n n') :
    Peer lib confs conf n' where
  aligned := h.aligned.segment hlaws hconf hsegment
  informed := h.informed.adoption h.aligned.loaded hsegment.adoption

/-- A state that a process of the validator reaches from a store it can have left behind. -/
def Reachable (lib : BaseLibrary C) (confs : Set NodeConf) (conf : NodeConf) (n : Node C) : Prop :=
  ∃ store start inputs, conf ∈ confs ∧ LeftBehind lib confs store ∧
    Starts lib conf store start ∧ n = runNode lib conf start inputs

theorem Reachable.peer (hlaws : ChainLaws lib confs) (hcbor : lib.CborLaw)
    (hhash : lib.BlockHashLaw) (hrecord : lib.BlockRecordLaw) (h : Reachable lib confs conf n) :
    Peer lib confs conf n := by
  obtain ⟨store, start, inputs, hconf, hstore, hstart, rfl⟩ := h
  have hstarted := started_of_starts lib conf hstart
  have hinit : Peer lib confs conf start := by
    refine ⟨hstarted.aligned hcbor hhash hrecord (hstore.wellKept hcbor), ?_⟩
    intro tr htr
    cases hstarted.ltr.symm.trans htr
  exact invariant_runNode (Guard.none_sound lib)
    (fun hinv hsegment ↦ hinv.segment hlaws hconf hsegment) hinit
    (Run.guarded_of_forall (fun n input ↦ Guard.none_admits lib conf n input) start inputs)

end Knowledge

/-! ## The leader -/

/-- The timer of the leader fires, and a proposal and a request leave. -/
def Proposes (lib : BaseLibrary C) (conf : NodeConf) (env : Env) (n : Node C)
    (prop : BlockProposal) (request : BlockCertificationRequest) : Prop :=
  ∃ receivers sender rootIDs voter,
    (final ((handleT1TimeoutEvent lib conf env).run n)).sent =
      n.sent ++ [⟨.blockProposal prop, receivers, sender⟩,
        ⟨.certificationRequest request, rootIDs, voter⟩]

/-- Where the proposal and the request of a leader come from. -/
structure LeaderRecord (lib : BaseLibrary C) (conf : NodeConf) (n : Node C) (prop : BlockProposal)
    (request : BlockCertificationRequest) (tr : TechnicalRecord) (data : List UInt8)
    (ir : InputRecord) (block : Block C) : Prop where
  running : n.status ≠ .recovering
  leader : n.leader = conf.peerID
  ltr : n.ltr = some tr
  signed : (announcement conf n.toNodeState tr (some data)).sign lib conf.signHash = .ok prop
  built : buildProposal lib n.toNodeState (lib.peerIDString conf.peerID)
    (n.transactionSystem.summaryOf (some data)) = .ok (ir, block)
  record : request.inputRecord = some ir
  size : lib.blockSize block = .ok request.blockSize

section Leader

variable {lib : BaseLibrary C} {conf : NodeConf} {env : Env} {n : Node C}

/-- A request leaves only after it was built and prepared. -/
theorem RequestExit.sent_cases {author : String} {state : Summary}
    {result : EStateM.Result Err (Node C) Unit}
    (h : RequestExit lib conf env author state n result) :
    (final result).sent = n.sent ∨ ∃ ir block request rootIDs voter,
      buildProposal lib n.toNodeState author state = .ok (ir, block) ∧
      prepareRequest lib conf n.toNodeState ir block = .ok (request, rootIDs) ∧
      (final result).sent = n.sent ++ [⟨.certificationRequest request, rootIDs, voter⟩] := by
  cases h with
  | unbuilt | unstored | unsent => exact Or.inl rfl
  | undelivered err ir block request rootIDs hbuild hprepare =>
    exact Or.inr ⟨ir, block, request, rootIDs, _, hbuild, hprepare, rfl⟩
  | sent ir block request rootIDs hbuild hprepare =>
    exact Or.inr ⟨ir, block, request, rootIDs, _, hbuild, hprepare, rfl⟩

/-- An announced proposal followed by a request is the record of the leader. -/
theorem Announced.leaderRecord {m m' : Node C} {data : List UInt8}
    {result : EStateM.Result Err (Node C) Unit} {prop : BlockProposal}
    {request : BlockCertificationRequest} {receivers rootIDs : List PeerID}
    {sender voter : NodeState C} (hstatus : n.status ≠ .recovering)
    (hleader : n.leader = conf.peerID) (hannounced : Announced lib conf env n data m)
    (hrequest : RequestExit lib conf env (lib.peerIDString conf.peerID)
      (n.transactionSystem.summaryOf (some data)) m result) (hfinal : m'.sent = (final result).sent)
    (hsent : m'.sent = n.sent ++ [⟨.blockProposal prop, receivers, sender⟩,
      ⟨.certificationRequest request, rootIDs, voter⟩]) :
    ∃ tr ir block, LeaderRecord lib conf n prop request tr data ir block := by
  obtain ⟨height, tr, signed, _, hltr, hsign, rfl⟩ := hannounced
  rw [hfinal] at hsent
  rcases hrequest.sent_cases with hnone | ⟨ir, block, prepared, ids, voter', hbuild, hprepare,
    hnew⟩
  · -- the proposal alone has left
    rw [hnone] at hsent
    simp [Node.post, Node.setTx] at hsent
  · rw [hnew] at hsent
    simp only [Node.post, Node.setTx, List.append_assoc, List.append_cancel_left_eq,
      List.cons_append, List.nil_append, List.cons.injEq, Sent.mk.injEq,
      Message.blockProposal.injEq, Message.certificationRequest.injEq] at hsent
    obtain ⟨⟨rfl, _⟩, ⟨rfl, _⟩, _⟩ := hsent
    obtain ⟨hrecord, hsize⟩ := prepareRequest_content lib conf hprepare
    exact ⟨tr, ir, block, hstatus, hleader, hltr, hsign, hbuild, hrecord, hsize⟩

theorem Proposes.leaderRecord {prop : BlockProposal} {request : BlockCertificationRequest}
    (h : Proposes lib conf env n prop request) :
    ∃ tr data ir block, LeaderRecord lib conf n prop request tr data ir block := by
  obtain ⟨receivers, sender, rootIDs, voter, hsent⟩ := h
  have hexit := handleT1TimeoutEvent_spec lib conf env n
  generalize (handleT1TimeoutEvent lib conf env).run n = result at hexit hsent
  cases hexit with
  | idle => simp at hsent
  | abandoned => simp [Node.revertState, Node.setTx] at hsent
  | unproposed data m hstatus hleader hannounced =>
    obtain ⟨height, tr, signed, _, hltr, hsign, rfl⟩ := hannounced
    simp [Node.revertState, Node.post, Node.setTx] at hsent
  | unrequested data m m' err hstatus hleader hannounced hrequest =>
    obtain ⟨tr, ir, block, hrecord⟩ :=
      hannounced.leaderRecord hstatus hleader hrequest rfl hsent
    exact ⟨tr, data, ir, block, hrecord⟩
  | requested data m m' hstatus hleader hannounced hrequest =>
    obtain ⟨tr, ir, block, hrecord⟩ :=
      hannounced.leaderRecord hstatus hleader hrequest rfl hsent
    exact ⟨tr, data, ir, block, hrecord⟩

end Leader

/-! ## The follower -/

/-- The validator is in the shard configuration, with the key it signs with. -/
structure Registered (lib : BaseLibrary C) (conf : NodeConf)
    (shardConf : PartitionDescriptionRecord) : Prop where
  peerID_ne : conf.peerID ≠ ""
  validator : ∃ proposer key,
    lib.findValidator shardConf (lib.peerIDString conf.peerID) = some proposer ∧
      lib.sigVerifier proposer = .ok key ∧
      ∀ digest signature, conf.signHash digest = .ok signature →
        lib.verifyHash key signature digest = .ok ()

/-- Two nodes know the same of the round: the technical record, the leader and what a record takes
from the latest certificate. -/
structure SameRound (n m : NodeState C) : Prop where
  ltr : m.ltr = n.ltr
  leader : m.leader = n.leader
  stateHash : getStateHash m.luc = getStateHash n.luc
  timestamp : getTimestamp m.luc = getTimestamp n.luc

section Follower

variable {lib : BaseLibrary C} {confs : Set NodeConf} {conf conf' : NodeConf} {env : Env}
  {n m : Node C} {prop : BlockProposal} {request : BlockCertificationRequest}
  {tr : TechnicalRecord} {data : List UInt8} {ir : InputRecord} {block : Block C}

/-- What a leader has announced is valid at every node of the shard. -/
theorem LeaderRecord.validProposal (hverify : VerifyLaw lib) (hone : conf.OneShard)
    (h : LeaderRecord lib conf n prop request tr data ir block) (hpeer : Peer lib confs conf n)
    (hregistered : Registered lib conf n.shardConf)
    (htrust : conf'.trustBaseByEpoch = conf.trustBaseByEpoch)
    (hshardConf : m.shardConf = n.shardConf) : ValidProposal lib conf' m prop := by
  obtain ⟨uc, hluc, htechnical, hdecode, hvalid⟩ := hpeer.informed tr h.ltr
  obtain ⟨validator, hself, shardConf, hloaded, trustBase, hbase, hvalid⟩ := hvalid
  obtain rfl : conf = validator := (Set.mem_singleton_iff.mp hself).symm
  obtain ⟨hisValid, hmatches⟩ := htechnical tr rfl
  obtain ⟨proposer, key, hfind, hkey, haccepts⟩ := hregistered.validator
  obtain ⟨shardConfHash, hverified⟩ := verify_of_validateCertificate lib hvalid
  have hsignature := BlockProposal.verify_of_sign lib h.signed haccepts
  obtain ⟨_, _, _, _, rfl⟩ := BlockProposal.sign_eq_ok lib h.signed
  -- the configuration may have changed since the certificate came, the shard has not
  obtain ⟨hpartition, hshard⟩ := hone _ _ hloaded hpeer.aligned.loaded
  have hcertificate : lib.verify n.luc trustBase n.shardConf.partitionID n.shardConf.shardID none =
      .ok () := by
    rw [hluc, ← hpartition, ← hshard]
    exact hverify hverified
  have hepoch : conf'.trustBaseByEpoch (getRootEpoch n.luc) = .ok trustBase := by
    rw [htrust, hluc]
    exact hbase
  have htrHash : tr.hashMatches lib (n.luc.bind UnicityCertificate.trHash) = .ok () := by
    rw [hluc]
    exact hmatches
  refine ⟨trustBase, hepoch, ?_⟩
  rw [hshardConf]
  exact (BlockProposal.isValid_iff lib).mpr ⟨rfl, rfl, hregistered.peerID_ne, proposer, key, hfind,
    hkey, hcertificate, hisValid, htrHash, hsignature⟩

/-- Nodes with technical records for certificates of one root round know the same of the round. -/
theorem SameRound.of_rootRound (hrootRound : RootRoundLaw lib confs) (hconf : conf ∈ confs)
    (hconf' : conf' ∈ confs) (hn : Peer lib confs conf n) (hm : Peer lib confs conf' m)
    (hltr : n.ltr = some tr) (hinformed : m.ltr ≠ none)
    (hcollision : ∀ tr tr', n.ltr = some tr → m.ltr = some tr' →
      lib.technicalRecordHash tr = lib.technicalRecordHash tr' → tr = tr')
    (hround : getRootRoundNumber m.luc = getRootRoundNumber n.luc) :
    SameRound n.toNodeState m.toNodeState := by
  obtain ⟨tr', hltr'⟩ := Option.ne_none_iff_exists'.mp hinformed
  obtain ⟨uc, hluc, htechnical, hdecode, hvalid⟩ := hn.informed tr hltr
  obtain ⟨uc', hluc', htechnical', hdecode', hvalid'⟩ := hm.informed tr' hltr'
  have hvalid := hvalid.mono hconf
  have hvalid' := hvalid'.mono hconf'
  rw [hluc, hluc'] at hround
  have hsame : tr = tr' := by
    obtain ⟨hash, hhash, hmatches⟩ := TechnicalRecord.hash_of_hashMatches (htechnical tr rfl).2
    obtain ⟨hash', hhash', hmatches'⟩ :=
      TechnicalRecord.hash_of_hashMatches (htechnical' tr' rfl).2
    apply hcollision tr tr' hltr hltr'
    rw [hhash, hhash', ← hmatches, ← hmatches', hrootRound.trHash hvalid' hvalid hround]
  subst hsame
  constructor
  case ltr => rw [hltr, hltr']
  case leader => exact Except.ok.inj (hdecode'.symm.trans hdecode)
  case stateHash =>
    rw [hluc, hluc']
    exact congrArg (fun record ↦ Option.bind record InputRecord.hash)
      (hrootRound.inputRecord hvalid' hvalid hround)
  case timestamp =>
    rw [hluc, hluc']
    exact hrootRound.timestamp hvalid' hvalid hround

/-- A proposal is built from what a node knows of its round, the committed certificate and the
shard. -/
theorem SameRound.buildProposal_eq (h : SameRound n.toNodeState m.toNodeState)
    (hltr : n.ltr = some tr) (hshardConf : m.shardConf = n.shardConf)
    (hcommitted : m.committedUC = n.committedUC) (author : String) (root : Slice) :
    buildProposal lib m.toNodeState author (m.transactionSystem.summaryOf root) =
      buildProposal lib n.toNodeState author (n.transactionSystem.summaryOf root) := by
  have hltr' : m.ltr = some tr := h.ltr.trans hltr
  simp only [buildProposal, proposedUC, proposedIR, proposedHeader, FGPTxSystem.summaryOf_eq,
    NodeState.currentRoundNumber, NodeState.currentEpoch, hltr, hltr', h.stateHash, h.timestamp,
    hshardConf, hcommitted]

/-- What a follower is like when it comes to vote for the proposal of the leader. -/
structure Voter (lib : BaseLibrary C) (confs : Set NodeConf) (conf : NodeConf)
    (leader follower voter : Node C) : Prop where
  peer : Peer lib confs conf voter
  round : SameRound leader.toNodeState voter.toNodeState
  shardConf : voter.shardConf = follower.shardConf
  requests : voter.requests = follower.requests

/-- A follower that takes the certificate and the technical record from the proposal knows the
round. -/
theorem Voter.of_renewed {leader follower : Node C} {uc : UnicityCertificate}
    (hlaws : ChainLaws lib confs) (hconf' : conf' ∈ confs)
    (hfollower : Peer lib confs conf' follower) (hluc : leader.luc = some uc)
    (hltr : leader.ltr = some tr) (htechnical : Technical lib uc (some tr))
    (hdecode : lib.decodePeerID tr.leader = .ok leader.leader)
    (hrunning : follower.status ≠ .recovering)
    (hnewer : getRootRoundNumber follower.luc < getRootRoundNumber (some uc))
    (hrun : (handleUnicityCertificate lib conf' env uc (some tr)).run follower = .ok () m) :
    Voter lib confs conf' leader follower m := by
  have hexit := handleUnicityCertificate_spec lib conf' env follower uc (some tr)
  rw [hrun] at hexit
  have hshardConf := hexit.shardConf_eq
  cases hexit with
  | recovering hstatus => exact absurd hstatus hrunning
  | processed hstatus m' haccepted _ hexit =>
    have hsegment : Segment lib conf' Guard.none follower m :=
      .certificate trivial hstatus trivial htechnical haccepted hexit
    have hnew : lib.isDuplicate uc follower.luc = false := by
      by_contra hsame
      have hround := hlaws.duplicate.rootRound_eq (Bool.not_eq_false _ ▸ hsame)
      exact absurd hnewer (hround ▸ lt_irrefl _)
    have hrequests := hexit.requests_eq
    have hlatest := hexit.latest_eq
    obtain ⟨leader', hadoptable, rfl⟩ := haccepted.adopted_of_new hnew
    have hdecode' : lib.decodePeerID tr.leader = .ok leader' :=
      mapError_eq_ok.mp hadoptable.leader_eq
    have hluc' : m.luc = some uc := congrArg Prod.fst hlatest
    have hleader' : m.leader = leader' := congrArg (fun latest ↦ latest.2.2) hlatest
    have hltr' : m.ltr = some tr := congrArg (fun latest ↦ latest.2.1) hlatest
    refine ⟨hfollower.segment hlaws hconf' hsegment, ⟨?_, ?_, ?_, ?_⟩, hshardConf, hrequests⟩
    · rw [hltr, hltr']
    · rw [hleader']
      exact Except.ok.inj (hdecode'.symm.trans hdecode)
    · rw [hluc, hluc']
    · rw [hluc, hluc']

theorem ComesToVote.voter {leader follower : Node C} {uc : UnicityCertificate}
    (hlaws : ChainLaws lib confs) (hrootRound : RootRoundLaw lib confs) (hconf : conf ∈ confs)
    (hconf' : conf' ∈ confs) (hleader : Peer lib confs conf leader)
    (hfollower : Peer lib confs conf' follower) (hluc : leader.luc = some uc)
    (hltr : leader.ltr = some tr) (hrecord : prop.technical = tr)
    (hrunning : follower.status ≠ .recovering)
    (hinformed : getRootRoundNumber follower.luc = getRootRoundNumber (some uc) →
      follower.ltr ≠ none)
    (hcollision : ∀ tr tr', leader.ltr = some tr → follower.ltr = some tr' →
      lib.technicalRecordHash tr = lib.technicalRecordHash tr' → tr = tr')
    (h : ComesToVote lib conf' env follower prop uc m) :
    Voter lib confs conf' leader follower m := by
  cases h with
  | current hsame =>
    have hround : getRootRoundNumber m.luc = getRootRoundNumber leader.luc := by rw [hluc, hsame]
    exact ⟨hfollower, .of_rootRound hrootRound hconf hconf' hleader hfollower hltr
      (hinformed hsame) hcollision hround, rfl, rfl⟩
  | renewed _ hnewer hrun =>
    obtain ⟨uc', hluc', htechnical, hdecode, _⟩ := hleader.informed tr hltr
    cases hluc.symm.trans hluc'
    rw [hrecord] at hrun
    exact .of_renewed hlaws hconf' hfollower hluc hltr htechnical hdecode hrunning hnewer hrun

/-- The follower extends the state of the leader's certificate, and knows its author. -/
theorem Voter.electable {leader follower : Node C} {uc : UnicityCertificate}
    (h : Voter lib confs conf' leader follower m) (hleader : Peer lib confs conf leader)
    (hpeerID : conf.peerID ≠ "") (hluc : leader.luc = some uc)
    (hrecord : LeaderRecord lib conf leader prop request tr data ir block)
    (hclean : m.transactionSystem.pendingStateHash = none)
    (hcommitted : m.committedUC = leader.committedUC) : Electable lib m prop uc := by
  have hauthor : prop.nodeID = conf.peerID := by
    obtain ⟨_, _, _, _, rfl⟩ := BlockProposal.sign_eq_ok lib hrecord.signed
    rfl
  have hself : m.leader = conf.peerID := h.round.leader.trans hrecord.leader
  refine ⟨hself ▸ hpeerID, hauthor.trans hself.symm, hclean, Or.inr ?_⟩
  calc
    (getStateHash (some uc)).bytes = leader.transactionSystem.committedStateHash.bytes := by
      rw [← hluc]
      exact hleader.aligned.running hrecord.running
    _ = (getStateHash m.committedUC).bytes := by
      rw [hcommitted]
      exact hleader.aligned.committedHash
    _ = m.transactionSystem.committedStateHash.bytes := h.peer.aligned.committedHash.symm

/-- The node can sign a request and knows root nodes to send it to. -/
def CanRequest (lib : BaseLibrary C) (conf : NodeConf) (n : NodeState C) : Prop :=
  ∀ ir block size, lib.blockSize block = .ok size →
    ∃ prepared, prepareRequest lib conf n ir block = .ok prepared

/-- A request that can be stored and prepared leaves with the record and the size of its block. -/
theorem RequestExit.certifies {author : String} {state : Summary} {size : UInt64}
    {result : EStateM.Result Err (Node C) Unit}
    (h : RequestExit lib conf env author state n result) (hwrite : env.writeProposal = .ok ())
    (hcan : CanRequest lib conf n.toNodeState)
    (hbuild : buildProposal lib n.toNodeState author state = .ok (ir, block))
    (hsize : lib.blockSize block = .ok size) :
    ∃ sent request', (final result).requests = n.requests ++ [(sent, request')] ∧
      request'.inputRecord = some ir ∧ request'.blockSize = size := by
  have hposted : ∀ prepared rootIDs, prepareRequest lib conf n.toNodeState ir block =
      .ok (prepared, rootIDs) → prepared.inputRecord = some ir ∧ prepared.blockSize = size := by
    intro prepared rootIDs hprepare
    obtain ⟨hir, hblockSize⟩ := prepareRequest_content lib conf hprepare
    exact ⟨hir, Except.ok.inj (hblockSize.symm.trans hsize)⟩
  cases h with
  | unbuilt err hnone => exact absurd hbuild (hnone _)
  | unstored err hfails => exact absurd hwrite hfails
  | unsent err ir' block' hbuild' hnone =>
    cases hbuild.symm.trans hbuild'
    obtain ⟨prepared, hprepare⟩ := hcan ir block size hsize
    exact absurd hprepare (hnone prepared)
  | undelivered err ir' block' prepared rootIDs hbuild' hprepare =>
    cases hbuild.symm.trans hbuild'
    exact ⟨_, prepared, Node.post_certificationRequest _ _ _, hposted prepared rootIDs hprepare⟩
  | sent ir' block' prepared rootIDs hbuild' hprepare =>
    cases hbuild.symm.trans hbuild'
    exact ⟨_, prepared, Node.post_certificationRequest _ _ _, hposted prepared rootIDs hprepare⟩

theorem VoteExit.certifies {uc : UnicityCertificate} {size height : UInt64}
    {result : EStateM.Result Err (Node C) Unit} (h : VoteExit lib conf env prop uc n result)
    (helectable : Electable lib n prop uc)
    (hverified : FGPTxSystem.Verified env.pow n.transactionSystem prop.proposedRoot height)
    (hwrite : env.writeProposal = .ok ()) (hcan : CanRequest lib conf n.toNodeState)
    (hbuild : buildProposal lib n.toNodeState (lib.peerIDString prop.nodeID)
      (n.transactionSystem.summaryOf prop.proposedRoot) = .ok (ir, block))
    (hsize : lib.blockSize block = .ok size) :
    ∃ sent request', (final result).requests = n.requests ++ [(sent, request')] ∧
      request'.inputRecord = some ir ∧ request'.blockSize = size := by
  cases h with
  | refused err hrefused => exact absurd helectable hrefused
  | unverified err _ hnone => exact absurd hverified (hnone height)
  | unrequested height' err cause m _ _ hrequest =>
    exact hrequest.certifies hwrite hcan hbuild hsize
  | requested height' m _ _ hrequest => exact hrequest.certifies hwrite hcan hbuild hsize

/-- A follower votes in the state in which it comes to vote. -/
theorem ComesToVote.voteExit {follower : Node C} {uc : UnicityCertificate}
    (h : ComesToVote lib conf env follower prop uc m) (hrunning : follower.status ≠ .recovering)
    (hvalid : ValidProposal lib conf follower prop) (huc : prop.unicityCertificate = some uc) :
    VoteExit lib conf env prop uc m
      ((handleBlockProposal lib conf env (some prop)).run follower) := by
  have hexit := handleBlockProposal_spec lib conf env follower (some prop)
  generalize (handleBlockProposal lib conf env (some prop)).run follower = result at hexit
  cases hexit with
  | remembered err hstatus => exact absurd hstatus hrunning
  | rejected err hrejected =>
    have hstale := hrejected prop uc rfl huc hvalid
    cases h with
    | current hsame => exact absurd hstale (hsame ▸ lt_irrefl _)
    | renewed _ hnewer => exact absurd hstale hnewer.not_gt
  | uncertified err cause _ uc' m' _ hprop huc' _ hnewer' _ hrun' =>
    cases hprop
    cases huc.symm.trans huc'
    cases h with
    | current hsame => exact absurd hnewer' (hsame ▸ lt_irrefl _)
    | renewed _ _ hrun => cases hrun.symm.trans hrun'
  | certified _ uc' m' _ _ hprop huc' _ hnewer' _ hvote hrun' =>
    cases hprop
    cases huc.symm.trans huc'
    cases h with
    | current hsame => exact absurd hnewer' (hsame ▸ lt_irrefl _)
    | renewed _ _ hrun =>
      cases hrun.symm.trans hrun'
      exact hvote
  | current _ uc' _ _ hprop huc' _ hsame' hvote =>
    cases hprop
    cases huc.symm.trans huc'
    cases h with
    | current _ => exact hvote
    | renewed _ hnewer _ => exact absurd hnewer (hsame' ▸ lt_irrefl _)

/-- A follower that comes to vote with the committed certificate of the leader and nothing pending
accepts the leader's proposal and asks for the record the leader asks for, with the same block size.
A follower that is in the round already needs its technical record for that, and the stored
configurations of the leader name one shard. -/
theorem follower_certifies_same_record (hlaws : ChainLaws lib confs)
    (hrootRound : RootRoundLaw lib confs) (hverify : VerifyLaw lib) (hcbor : lib.CborLaw)
    (hhash : lib.BlockHashLaw) (hrecords : lib.BlockRecordLaw) {leader follower : Node C}
    {leaderEnv : Env} {uc : UnicityCertificate} {round : UInt64} {summary : Summary}
    {verified : FGPTxSystem} (hone : conf.OneShard) (hleader : Reachable lib confs conf leader)
    (hfollower : Reachable lib confs conf' follower)
    (htrust : conf'.trustBaseByEpoch = conf.trustBaseByEpoch)
    (hshardConf : follower.shardConf = leader.shardConf)
    (hregistered : Registered lib conf leader.shardConf)
    (hproposes : Proposes lib conf leaderEnv leader prop request)
    (huc : prop.unicityCertificate = some uc) (hrunning : follower.status ≠ .recovering)
    (hinformed : getRootRoundNumber follower.luc = getRootRoundNumber (some uc) →
      follower.ltr ≠ none)
    (hcollision : ∀ tr tr', leader.ltr = some tr → follower.ltr = some tr' →
      lib.technicalRecordHash tr = lib.technicalRecordHash tr' → tr = tr')
    (hvotes : ComesToVote lib conf' env follower prop uc m)
    (hcommitted : m.committedUC = leader.committedUC)
    (hclean : m.transactionSystem.pendingStateHash = none)
    (hverified : (FGPTxSystem.followerVerify env.pow round prop.proposedRoot).run
      m.transactionSystem = .ok summary verified)
    (hwrite : env.writeProposal = .ok ()) (hcan : CanRequest lib conf' m.toNodeState) :
    ValidProposal lib conf' follower prop ∧ (m.leader ≠ "" ∧ prop.nodeID = m.leader) ∧
      ∃ sent request',
        (final ((handleBlockProposal lib conf' env (some prop)).run follower)).requests =
          follower.requests ++ [(sent, request')] ∧
        request'.inputRecord = request.inputRecord ∧ request'.blockSize = request.blockSize := by
  have hpeer := hleader.peer hlaws hcbor hhash hrecords
  have hpeer' := hfollower.peer hlaws hcbor hhash hrecords
  obtain ⟨_, _, _, hconf, _⟩ := hleader
  obtain ⟨_, _, _, hconf', _⟩ := hfollower
  obtain ⟨tr, data, ir, block, hrecord⟩ := hproposes.leaderRecord
  have hvalid : ValidProposal lib conf' follower prop :=
    hrecord.validProposal hverify hone hpeer hregistered htrust hshardConf
  -- the proposal repeats what the leader knows
  obtain ⟨_, signature, _, _, hprop⟩ := BlockProposal.sign_eq_ok lib hrecord.signed
  have hluc : leader.luc = some uc := by rw [← huc, hprop]; rfl
  have htechnical : prop.technical = tr := by rw [hprop]; rfl
  have hroot : prop.proposedRoot = some data := by rw [hprop]; rfl
  have hauthor : prop.nodeID = conf.peerID := by rw [hprop]; rfl
  have hvoter := hvotes.voter hlaws hrootRound hconf hconf' hpeer hpeer' hluc hrecord.ltr
    htechnical hrunning hinformed hcollision
  have helectable := hvoter.electable hpeer hregistered.peerID_ne hluc hrecord hclean hcommitted
  have hbuild : buildProposal lib m.toNodeState (lib.peerIDString prop.nodeID)
      (m.transactionSystem.summaryOf prop.proposedRoot) = .ok (ir, block) := by
    rw [hvoter.round.buildProposal_eq hrecord.ltr (hvoter.shardConf.trans hshardConf) hcommitted,
      hauthor, hroot]
    exact hrecord.built
  obtain ⟨height, hverifies, -, -⟩ := FGPTxSystem.followerVerify_ok hverified
  have hexit := hvotes.voteExit hrunning hvalid huc
  obtain ⟨sent, request', hrequests, hir, hsize⟩ :=
    hexit.certifies helectable hverifies hwrite hcan hbuild hrecord.size
  refine ⟨hvalid, ⟨helectable.leader_ne, helectable.author_eq⟩, sent, request', ?_, ?_, hsize⟩
  · rw [hrequests, hvoter.requests]
  · rw [hir, hrecord.record]

end Follower

namespace Reference

theorem shardLibrary_rootRoundLaw (confs : Set NodeConf) : RootRoundLaw shardLibrary confs := by
  have hissued : ∀ {uc}, WasValidated shardLibrary confs uc → uc ∈ issuedUCs :=
    fun h ↦ of_decide_eq_true (issued_of_wasValidated h)
  have hunique : ∀ left ∈ issuedUCs, ∀ right ∈ issuedUCs,
      getRootRoundNumber (some left) = getRootRoundNumber (some right) → left = right := by decide
  constructor
  all_goals
    intro uc other h h' hround
    rw [hunique uc (hissued h) other (hissued h') hround]

theorem verifyLaw {issued : UnicityCertificate → Bool} : VerifyLaw (libraryOf issued) := by
  intro uc trustBase partition shard hash h
  simp only [libraryOf, verify] at h ⊢
  repeat' split at h
  all_goals simp_all

theorem registered {issued : UnicityCertificate → Bool} :
    Registered (libraryOf issued) (conf "A" [1]) shardConf := by
  refine ⟨by decide, { nodeID := "A", sigKey := some [1] }, [1], rfl, rfl, ?_⟩
  rintro digest _ ⟨⟩
  exact if_pos rfl

/-- The validators of the shard. -/
def validators : Set NodeConf := {conf "A" [1], conf "B" [2]}

theorem reachable_empty {id : PeerID} {key : List UInt8} (hconf : conf id key ∈ validators)
    (inputs : List (Input UnicityCertificate)) :
    Reachable shardLibrary validators (conf id key)
      (runNode shardLibrary (conf id key) node inputs) :=
  ⟨_, _, inputs, hconf, .empty, starts_empty id key, rfl⟩

theorem reachable_restarted {id : PeerID} {key : List UInt8} (hconf : conf id key ∈ validators)
    (inputs : List (Input UnicityCertificate)) :
    Reachable shardLibrary validators (conf id key)
      (runNode shardLibrary (conf id key) restarted inputs) := by
  have hstore : LeftBehind shardLibrary validators restarted.blockStore :=
    .crash .empty (Set.mem_insert _ _) (starts_empty "A" [1]) finalizing 4
  exact ⟨_, _, inputs, hconf, hstore, starts_finalized id key, rfl⟩

/-- A validator that has received the initial certificate. -/
def joined (id : PeerID) (key : List UInt8) : Node UnicityCertificate :=
  runNode shardLibrary (conf id key) node [deliver { roundNumber := 1 } 5 (technical 2 "A")]

theorem joined_shardConf (id : PeerID) (key : List UInt8) : (joined id key).shardConf = shardConf :=
  rfl

theorem joined_committedUC (id : PeerID) (key : List UInt8) : (joined id key).committedUC = none :=
  rfl

/-- The proposal of `A` in the first round. -/
def firstProposal : BlockProposal where
  partitionID := 1
  nodeID := "A"
  unicityCertificate := some (certify { roundNumber := 1 } 5 (technical 2 "A"))
  technical := technical 2 "A"
  proposedRoot := some [10]
  signature := some [1, 10]

def firstRequest : BlockCertificationRequest where
  partitionID := 1
  nodeID := "A"
  inputRecord := some proposedRecord
  blockSize := 1
  signature := some (uint64ToBytes 1)

/-- The block of the second proposal of `A`, stored with the later one of its certificates. -/
def nextFinalized : Block UnicityCertificate :=
  { nextBlock with unicityCertificate := some (nextUC 8) }

/-- After a restart `A` gets its second proposal certified. -/
def leading : Node UnicityCertificate :=
  runNode shardLibrary (conf "A" [1]) restarted
    [deliver proposedRecord 6 (technical 3 "A"), input 11 .t1Timeout,
      deliver nextRecord 8 (technical 4 "A")]

/-- After a restart `B` has to recover the block of that proposal from `A`; the block comes with a
later certificate than `B` has seen, and without a technical record. -/
def recovered : Node UnicityCertificate :=
  runNode shardLibrary (conf "B" [2]) restarted
    [deliver proposedRecord 6 (technical 3 "A"), deliver nextRecord 7 (technical 4 "A"),
      input 11 (.ledgerReplicationResponse (some
        { blocks := some [some nextFinalized], firstBlockNumber := 3, lastBlockNumber := 3 }))]

/-- The proposal of `A` in the third round. -/
def thirdProposal : BlockProposal where
  partitionID := 1
  nodeID := "A"
  unicityCertificate := some (nextUC 8)
  technical := technical 4 "A"
  proposedRoot := some [12]
  signature := some [1, 12]

end Reference

section Reference

open Reference

/-- The follower `B` votes for the first proposal of the leader `A`. -/
theorem follower_certifies_first_record :
    Proposes shardLibrary (conf "A" [1]) (env 10) (joined "A" [1]) firstProposal firstRequest ∧
      ∃ sent request',
        (final ((handleBlockProposal shardLibrary (conf "B" [2]) (env 10)
          (some firstProposal)).run (joined "B" [2]))).requests =
          (joined "B" [2]).requests ++ [(sent, request')] ∧
        request'.inputRecord = firstRequest.inputRecord ∧
        request'.blockSize = firstRequest.blockSize := by
  have hproposes : Proposes shardLibrary (conf "A" [1]) (env 10) (joined "A" [1]) firstProposal
      firstRequest := ⟨["B"], _, ["R"], _, rfl⟩
  have hcan : CanRequest shardLibrary (conf "B" [2]) (joined "B" [2]).toNodeState :=
    fun _ _ _ _ ↦ ⟨_, rfl⟩
  have hverified : (FGPTxSystem.followerVerify (pow 10) 2 (some [10])).run
      (joined "B" [2]).transactionSystem =
        .ok ((joined "B" [2]).transactionSystem.summaryOf (some [10]))
          ((joined "B" [2]).transactionSystem.setPending (some [10]) 10) := rfl
  have hleader : Reachable shardLibrary validators (conf "A" [1]) (joined "A" [1]) :=
    reachable_empty (Set.mem_insert _ _) _
  have hfollower : Reachable shardLibrary validators (conf "B" [2]) (joined "B" [2]) :=
    reachable_empty (Or.inr rfl) _
  have hregistered : Registered shardLibrary (conf "A" [1]) (joined "A" [1]).shardConf := registered
  have hcollision : ∀ tr tr', (joined "A" [1]).ltr = some tr → (joined "B" [2]).ltr = some tr' →
      shardLibrary.technicalRecordHash tr = shardLibrary.technicalRecordHash tr' → tr = tr' := by
    rintro tr tr' ⟨⟩ ⟨⟩ _
    rfl
  have hvotes : ComesToVote shardLibrary (conf "B" [2]) (env 10) (joined "B" [2]) firstProposal
      (certify { roundNumber := 1 } 5 (technical 2 "A")) (joined "B" [2]) := .current rfl
  have hagree := follower_certifies_same_record (shardLibrary_chainLaws validators)
    (shardLibrary_rootRoundLaw validators) verifyLaw cborLaw blockHashLaw blockRecordLaw
    (conf_oneShard "A" [1]) hleader hfollower rfl (joined_shardConf _ _) hregistered hproposes rfl
    (by decide) (fun _ ↦ by decide) hcollision hvotes (joined_committedUC _ _) rfl hverified rfl
    hcan
  exact ⟨hproposes, hagree.2.2⟩

/-- The recovered follower `B` has the certificate of the leader `A`, but no technical record, and
refuses the proposal of `A`. -/
theorem recovered_follower_refuses :
    Reachable shardLibrary validators (conf "A" [1]) leading ∧
      Reachable shardLibrary validators (conf "B" [2]) recovered ∧
      (conf "B" [2]).trustBaseByEpoch = (conf "A" [1]).trustBaseByEpoch ∧
      recovered.shardConf = leading.shardConf ∧ recovered.committedUC = leading.committedUC ∧
      leading.status = .normal ∧ recovered.status = .normal ∧
      recovered.transactionSystem.pendingStateHash = none ∧
      (∃ request, Proposes shardLibrary (conf "A" [1]) (env 12) leading thirdProposal request) ∧
      getRootRoundNumber recovered.luc =
        getRootRoundNumber thirdProposal.unicityCertificate ∧
      (∃ summary verified, (FGPTxSystem.followerVerify (pow 12) 4 thirdProposal.proposedRoot).run
        recovered.transactionSystem = .ok summary verified) ∧
      (handleBlockProposal shardLibrary (conf "B" [2]) (env 12) (some thirdProposal)).run
          recovered =
        .error "expecting leader , leader in proposal: A" recovered := by
  have hleading : leading.shardConf = shardConf ∧ leading.committedUC = some (nextUC 8) :=
    ⟨rfl, rfl⟩
  have hrecovered : recovered.shardConf = shardConf ∧ recovered.committedUC = some (nextUC 8) :=
    ⟨rfl, rfl⟩
  have hproposes : ∃ request, Proposes shardLibrary (conf "A" [1]) (env 12) leading thirdProposal
      request := ⟨_, ["B"], _, ["R"], _, rfl⟩
  exact ⟨reachable_restarted (Set.mem_insert _ _) _, reachable_restarted (Or.inr rfl) _, rfl,
    hrecovered.1.trans hleading.1.symm, hrecovered.2.trans hleading.2.symm, rfl, rfl, rfl,
    hproposes, rfl, ⟨_, _, rfl⟩, rfl⟩

end Reference

end FinalityGadget
