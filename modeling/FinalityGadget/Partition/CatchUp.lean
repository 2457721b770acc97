import FinalityGadget.Partition.Serving
import FinalityGadget.Partition.Silence

/-!
# Catching up

A recovering node asks a peer for the blocks after its committed one, applies what comes back and
asks again, until its committed round is the latest it knows of. Every answer is a part of what is
missing, cut off by the limits of both sides, but it is never empty. So a node that can reach a peer
with the blocks catches up after at most as many round trips as there are blocks.
-/

namespace FinalityGadget

open Bytes Fallible Scan Text

variable {C : Type}

/-! ## Blocks that pass the checks -/

/-- The proof-of-work node has the block with the hash on its active chain, deep enough. -/
def PowClient.Confirms (pow : PowClient) (dFG : UInt64) (hash : List UInt8) : Prop :=
  ∃ block tip : BlockHeader, pow.getBlockHeaderByHash (hexEncode hash) = .ok block ∧
    block.isActive = true ∧ pow.getTip = .ok tip ∧ block.height ≤ tip.height ∧
    dFG - 1 ≤ tip.height - block.height

/-- The block passes the checks of a node with the given configuration on top of a certificate. -/
structure Replays (lib : BaseLibrary C) (conf : NodeConf) (env : Env)
    (shardConf : PartitionDescriptionRecord) (dFG : UInt64) (prevUC : Option UnicityCertificate)
    (block : Block C) (uc : UnicityCertificate) : Prop where
  certificate : getUCv1 lib (some block) = .ok uc
  isValid : lib.blockIsValid block none = .ok ()
  validated : Validated lib conf shardConf uc
  successor : lib.isSuccessor uc prevUC = true
  linked : block.previousBlockHash.bytes = (getBlockHash prevUC).bytes
  record : ∃ record, uc.inputRecord = some record ∧ record.summaryValue.bytes = [] ∧
    record.sumOfEarnedFees = 0 ∧ record.etHash.bytes = []
  confirmed : env.pow.Confirms dFG (getStateHash (some uc)).bytes

/-- The blocks pass the checks one after the other, each under the round of its certificate. -/
inductive ReplaysAll (lib : BaseLibrary C) (conf : NodeConf) (env : Env)
    (shardConf : PartitionDescriptionRecord) (dFG : UInt64) :
    Option UnicityCertificate → List (UInt64 × Block C) → Prop where
  | nil {prevUC : Option UnicityCertificate} : ReplaysAll lib conf env shardConf dFG prevUC []
  | cons {prevUC : Option UnicityCertificate} {block : Block C} {uc : UnicityCertificate}
      {rest : List (UInt64 × Block C)} (h : Replays lib conf env shardConf dFG prevUC block uc)
      (hrest : ReplaysAll lib conf env shardConf dFG (some uc) rest) :
      ReplaysAll lib conf env shardConf dFG prevUC ((getRoundNumber (some uc), block) :: rest)

/-- A recovering node between two blocks. -/
structure Ready (lib : BaseLibrary C) (confs : Set NodeConf) (conf : NodeConf) (n : Node C) :
    Prop where
  peer : Peer lib confs conf n
  status : n.status = .recovering
  clean : n.transactionSystem.pendingStateHash = none

/-- What the given blocks change when a node applies all of them. -/
structure Advances (n m : NodeState C) (entries : List (UInt64 × Block C)) : Prop where
  shardConf : m.shardConf = n.shardConf
  dFG : m.transactionSystem.dFG = n.transactionSystem.dFG
  lastProp : m.recoveryLastProp = n.recoveryLastProp
  committed : getRoundNumber m.committedUC =
    (entries.getLast?.map Prod.fst).getD (getRoundNumber n.committedUC)
  forward : getRoundNumber n.committedUC ≤ getRoundNumber m.committedUC
  stored : ∀ entry ∈ entries, storedBlock m.blockStore entry.1 = some entry.2
  kept : ∀ round ≤ getRoundNumber n.committedUC,
    storedBlock m.blockStore round = storedBlock n.blockStore round
  luc_le : ∀ {bound}, getRoundNumber n.luc ≤ bound → (∀ entry ∈ entries, entry.1 ≤ bound) →
    getRoundNumber m.luc ≤ bound
  luc_ge : getRoundNumber n.luc ≤ getRoundNumber m.luc
  le_luc : entries ≠ [] → getRoundNumber m.committedUC ≤ getRoundNumber m.luc

section Batch

variable {lib : BaseLibrary C} {confs : Set NodeConf} {conf : NodeConf} {env : Env}
  {shardConf : PartitionDescriptionRecord} {dFG : UInt64} {n m : Node C}

theorem PowClient.Confirms.verified {pow : PowClient} {s : FGPTxSystem} {root : Slice}
    (h : pow.Confirms s.dFG root.bytes) : ∃ height, FGPTxSystem.Verified pow s root height := by
  obtain ⟨block, tip, hblock, hactive, htip, hle, hdepth⟩ := h
  by_cases heq : root.bytes = s.committedStateHash.bytes
  · exact ⟨_, .noop heq⟩
  · exact ⟨_, .block block tip heq hblock hactive htip hle hdepth⟩

/-- After a certificate was seen, the latest one is not of a smaller round. -/
theorem LUCExit.round_le (hlaws : ReplayLaws lib confs) (hconf : conf ∈ confs)
    (h : Aligned lib confs conf n) (hstatus : n.status = .recovering) {uc : UnicityCertificate}
    {tr : Option TechnicalRecord} (hluc : LUCExit lib conf n uc tr (.ok () m)) :
    getRoundNumber (some uc) ≤ getRoundNumber m.luc := by
  have hissued := h.wasValidated hconf hluc.validated
  obtain ⟨luc, hlatest, htrusted⟩ := h.recovering hstatus
  have hround : getRootRoundNumber (some uc) ≤ getRootRoundNumber n.luc →
      getRoundNumber (some uc) ≤ getRoundNumber n.luc := by
    intro hle
    rw [hlatest] at hle ⊢
    exact hlaws.chain.round.round_le (hlaws.nonEquivocation hissued htrusted hle)
  cases hluc with
  | stale hvalid _ hlt => exact hround hlt.le
  | duplicate hvalid hequivocation hduplicate =>
    exact hround (hlaws.chain.duplicate.rootRound_eq hduplicate).le
  | adopted => exact le_rfl

/-- The round of the latest certificate does not decrease. -/
theorem LUCExit.luc_round_le (hlaws : ReplayLaws lib confs) (hconf : conf ∈ confs)
    (h : Aligned lib confs conf n) {uc : UnicityCertificate} {tr : Option TechnicalRecord}
    (hluc : LUCExit lib conf n uc tr (.ok () m)) :
    getRoundNumber n.luc ≤ getRoundNumber m.luc := by
  cases hluc with
  | stale | duplicate => exact le_rfl
  | adopted leader hadoptable =>
    exact (hadoptable.follows hlaws.chain (h.wasValidated hconf hadoptable.validated)).round_le

/-- A block that passes the checks is applied. -/
theorem Ready.handleBlock (hlaws : ReplayLaws lib confs) (hconf : conf ∈ confs)
    (h : Ready lib confs conf n) (hwrite : env.writeBlock = .ok ()) {block : Block C}
    {uc : UnicityCertificate} (hreplays : Replays lib conf env n.shardConf n.transactionSystem.dFG
      n.committedUC block uc) :
    ∃ m, (FinalityGadget.handleBlock lib conf env (some block)).run n = .ok () m ∧
      Ready lib confs conf m ∧ m.committedUC = some uc ∧
      Advances n.toNodeState m.toNodeState [(getRoundNumber (some uc), block)] := by
  obtain ⟨m, hseen⟩ :=
    updateLUC_of_validated hlaws hconf h.peer.aligned h.status hreplays.validated
  have hluc := updateLUC_spec lib conf n uc none
  rw [hseen] at hluc
  have htx : m.transactionSystem = n.transactionSystem := by cases hluc <;> rfl
  have hstore : m.blockStore = n.blockStore := by cases hluc <;> rfl
  have hcommitted : m.committedUC = n.committedUC := hluc.committedUC_eq lib conf
  have hreplayable : Replayable lib m.toNodeState uc block :=
    ⟨hreplays.certificate, hreplays.isValid, hcommitted ▸ hreplays.linked, hreplays.record⟩
  have hhash : m.transactionSystem.committedStateHash.bytes =
      (getStateHash m.committedUC).bytes := by
    rw [htx, hcommitted]
    exact h.peer.aligned.committedHash
  obtain ⟨height, hverified⟩ := PowClient.Confirms.verified (s := m.transactionSystem)
    (htx ▸ hreplays.confirmed)
  have happlicable : Applicable lib env m block uc height :=
    hreplayable.applicable hlaws hhash (hcommitted ▸ hreplays.successor) (htx ▸ h.clean) hverified
  obtain ⟨height', hrun⟩ := handleBlock_of_applicable lib conf h.status hreplays.certificate
    hreplays.isValid hseen happlicable hwrite
  have hexit := handleBlock_spec lib conf env n (some block) h.status
  have hsegment : Segment lib conf Guard.none n
      (final ((FinalityGadget.handleBlock lib conf env (some block)).run n)) :=
    .block trivial h.status hexit
  have hpeer := h.peer.segment hlaws.chain hconf hsegment
  have hstatus := hexit.status_eq
  rw [hrun] at hpeer hstatus
  refine ⟨_, hrun, ⟨hpeer, hstatus.trans h.status, rfl⟩, rfl, ?_⟩
  have hround : getRoundNumber n.committedUC < getRoundNumber (some uc) :=
    hlaws.chain.successor.round_lt hreplays.successor
  have hstored : ∀ round, storedBlock ((m.setTx (m.transactionSystem.setPending
      (getStateHash (some uc)) height')).finalized block uc).blockStore round =
        Function.update (storedBlock n.blockStore) (getRoundNumber (some uc)) (some block)
          round := by
    intro round
    rw [← hstore]
    exact congrFun (storedBlock_writeBlock _ _ m.blockStore) round
  constructor
  case shardConf => cases hluc <;> rfl
  case dFG =>
    have hdFG : m.transactionSystem.dFG = n.transactionSystem.dFG := by rw [htx]
    exact hdFG
  case lastProp => cases hluc <;> rfl
  case committed => rfl
  case forward => exact hround.le
  case stored =>
    intro entry hentry
    rw [List.mem_singleton.mp hentry, hstored, Function.update_self]
  case kept =>
    intro round hle
    rw [hstored, Function.update_of_ne (hle.trans_lt hround).ne]
  case luc_le =>
    intro bound hbound hentries
    have hentry : getRoundNumber (some uc) ≤ bound := hentries _ List.mem_cons_self
    cases hluc with
    | stale | duplicate => exact hbound
    | adopted => exact hentry
  case luc_ge =>
    have hnewer : getRoundNumber n.luc ≤ getRoundNumber m.luc :=
      hluc.luc_round_le hlaws hconf h.peer.aligned
    exact hnewer
  case le_luc => exact fun _ ↦ hluc.round_le hlaws hconf h.peer.aligned h.status

theorem Advances.refl (n : NodeState C) : Advances n n [] where
  shardConf := rfl
  dFG := rfl
  lastProp := rfl
  committed := rfl
  forward := le_rfl
  stored := by simp
  kept _ _ := rfl
  luc_le hbound _ := hbound
  luc_ge := le_rfl
  le_luc h := absurd rfl h

theorem Advances.cons {n m k : NodeState C} {entry : UInt64 × Block C}
    {rest : List (UInt64 × Block C)} (h : Advances n m [entry]) (hrest : Advances m k rest) :
    Advances n k (entry :: rest) where
  shardConf := hrest.shardConf.trans h.shardConf
  dFG := hrest.dFG.trans h.dFG
  lastProp := hrest.lastProp.trans h.lastProp
  committed := by
    rw [hrest.committed, h.committed]
    cases hlast : rest.getLast? <;> simp [List.getLast?_cons, hlast]
  forward := h.forward.trans hrest.forward
  stored := by
    intro other hother
    rcases List.mem_cons.mp hother with rfl | hother
    · have hround : getRoundNumber m.committedUC = other.1 := h.committed
      rw [hrest.kept other.1 hround.ge]
      exact h.stored other List.mem_cons_self
    · exact hrest.stored other hother
  kept round hle := by rw [hrest.kept round (hle.trans h.forward), h.kept round hle]
  luc_le hbound hentries := by
    obtain ⟨hentry, hrestEntries⟩ := List.forall_mem_cons.mp hentries
    exact hrest.luc_le (h.luc_le hbound (by simpa using hentry)) hrestEntries
  luc_ge := h.luc_ge.trans hrest.luc_ge
  le_luc _ := by
    by_cases hempty : rest = []
    · have hround : getRoundNumber k.committedUC = getRoundNumber m.committedUC := by
        rw [hrest.committed, hempty]
        rfl
      rw [hround]
      exact (h.le_luc (List.cons_ne_nil _ _)).trans hrest.luc_ge
    · exact hrest.le_luc hempty

/-- A batch that passes the checks is applied as a whole, and what follows it can come next. -/
theorem Ready.handleBlocks (hlaws : ReplayLaws lib confs) (hconf : conf ∈ confs)
    (hwrite : env.writeBlock = .ok ()) (entries rest : List (UInt64 × Block C)) (i : ℕ)
    (h : Ready lib confs conf n) (hall : ReplaysAll lib conf env n.shardConf
      n.transactionSystem.dFG n.committedUC (entries ++ rest)) :
    ∃ m, (FinalityGadget.handleBlocks lib conf (fun _ ↦ env) i
        (entries.map fun entry ↦ some entry.2)).run n = .ok () m ∧ Ready lib confs conf m ∧
      Advances n.toNodeState m.toNodeState entries ∧
      ReplaysAll lib conf env m.shardConf m.transactionSystem.dFG m.committedUC rest := by
  induction entries generalizing n i with
  | nil => exact ⟨n, rfl, h, .refl n.toNodeState, hall⟩
  | cons entry entries ih =>
    cases hall with
    | @cons _ block uc _ hreplays hrest =>
      obtain ⟨m, hrun, hready, hcommitted, hadvances⟩ := h.handleBlock hlaws hconf hwrite hreplays
      rw [← hcommitted, ← hadvances.shardConf, ← hadvances.dFG] at hrest
      obtain ⟨k, hrun', hready', hadvances', hrest'⟩ := ih (i + 1) hready hrest
      refine ⟨k, ?_, hready', hadvances.cons hadvances', hrest'⟩
      simp only [List.map_cons, FinalityGadget.handleBlocks, EStateM.run_bind, hrun]
      exact hrun'

end Batch

/-! ## Round trips -/

/-- The last message of the node, if it went to the given peer. -/
def Node.lastMessageTo (n : Node C) (receiver : PeerID) : Option (Message C) :=
  n.sent.getLast?.bind fun sent ↦ if receiver ∈ sent.receivers then some sent.message else none

/-- The monitor of the node sends a request, the server takes it and one of its workers answers, and
the node handles the answer. -/
def roundTrip (lib : BaseLibrary C) (conf conf' : NodeConf) (env env' : Env)
    (nodes : Node C × Node C) : Node C × Node C :=
  let n := step lib conf nodes.1 { event := .monitoring false true, envs := fun _ ↦ env }
  match n.lastMessageTo conf'.peerID with
  | some (.replicationRequest request) =>
    let asked := step lib conf' nodes.2
      { event := .ledgerReplicationRequest (some request), envs := fun _ ↦ env' }
    let server := step lib conf' asked { event := .replicationWorker, envs := fun _ ↦ env' }
    match server.lastMessageTo conf.peerID with
    | some (.replicationResponse response) =>
      (step lib conf n
        { event := .ledgerReplicationResponse (some response), envs := fun _ ↦ env }, server)
    | _ => (n, server)
  | _ => (n, nodes.2)

/-- The server is the first of the peers that the node can reach. -/
def FirstReached (conf : NodeConf) (env : Env) (peers : List PeerID) (server : PeerID) : Prop :=
  ∃ before after, peers = before ++ server :: after ∧ server ≠ conf.peerID ∧
    env.sendReplication server = .ok () ∧
    ∀ peer ∈ before, peer = conf.peerID ∨ env.sendReplication peer ≠ .ok ()

/-- The server can answer the requests of the node until the node knows all it has heard of. -/
structure Serves (lib : BaseLibrary C) (conf conf' : NodeConf) (env env' : Env)
    (n server : NodeState C) : Prop where
  keyed : BlockKeyed server.blockStore
  head : Heads lib (storedBlock server.blockStore) server.committedUC
  idle : server.replicationCh = []
  workers : conf'.replicationConfig.maxWorkers ≠ 0
  allocates : conf'.replicationConfig.Allocates
  readable : ∀ key, env'.readBlock key = .ok ()
  shard : n.shardConf.partitionID = server.shardConf.partitionID ∧
    n.shardConf.shardID = server.shardConf.shardID
  assigned : n.shardConf.partitionID ≠ 0
  since : getRoundNumber server.fuc ≤ getRoundNumber n.committedUC
  ahead : getRoundNumber n.luc ≤ getRoundNumber server.committedUC
  limit : (getRoundNumber server.committedUC).toNat +
    conf.replicationConfig.maxFetchBlocks.toNat < 2 ^ 64
  reached : FirstReached conf env (env.shuffle (n.validators lib)) conf'.peerID
  answered : lib.decodePeerID (lib.peerIDString conf.peerID) = .ok conf.peerID

section Messages

variable {lib : BaseLibrary C} {conf conf' : NodeConf} {env env' : Env}

theorem lastMessageTo_post (n : Node C) (message : Message C) (receiver : PeerID) :
    (n.post message [receiver]).lastMessageTo receiver = some message := by
  simp [Node.lastMessageTo, Node.post]

theorem FirstReached.lastMessageTo {peers : List PeerID} {server : PeerID}
    (h : FirstReached conf env peers server) (request : LedgerReplicationRequest) (n : Node C) :
    (Node.postReplicationRequest conf env request peers n).lastMessageTo server =
      some (.replicationRequest request) := by
  obtain ⟨before, after, rfl, hother, hsend, hskipped⟩ := h
  induction before generalizing n with
  | nil =>
    rw [List.nil_append, Node.postReplicationRequest, if_neg hother.symm, hsend]
    exact lastMessageTo_post n _ server
  | cons peer before ih =>
    obtain ⟨hpeer, hbefore⟩ := List.forall_mem_cons.mp hskipped
    rw [List.cons_append, Node.postReplicationRequest]
    split
    next => exact ih n hbefore
    next hself =>
      split
      next hsent => exact absurd hsent (hpeer.resolve_left fun heq ↦ hself heq.symm)
      next => exact ih _ hbefore

/-- A request that is taken by an idle server is answered by its worker. -/
theorem step_serve {server : Node C} {lr : LedgerReplicationRequest} {id : PeerID}
    (hkeyed : BlockKeyed server.blockStore) (hidle : server.replicationCh = [])
    (hworkers : conf'.replicationConfig.maxWorkers ≠ 0)
    (hcap : conf'.replicationConfig.Allocates)
    (hreadable : ∀ key, env'.readBlock key = .ok ())
    (hvalid : LedgerReplicationRequest.isValid (some lr) = .ok ())
    (hown : lr.partitionID = server.shardConf.partitionID ∧ lr.shardID = server.shardConf.shardID)
    (hfirst : getRoundNumber server.fuc < lr.beginBlockNumber)
    (hlatest : lr.beginBlockNumber ≤ getRoundNumber server.committedUC)
    (hid : lib.decodePeerID lr.nodeID = .ok id) :
    step lib conf' (step lib conf' server
        { event := .ledgerReplicationRequest (some lr), envs := fun _ ↦ env' })
        { event := .replicationWorker, envs := fun _ ↦ env' } =
      server.post (.replicationResponse (responseOf lr (scan (reachesEnd lr)
        conf'.replicationConfig.maxReturnBlocks.toNat
        (blocksFrom server.blockStore lr.beginBlockNumber)))) [id] := by
  have hfree : server.replicationCh.length < conf'.replicationConfig.maxWorkers.toNat := by
    rw [hidle, List.length_nil]
    exact UInt64.lt_iff_toNat_lt.mp (UInt64.pos_iff_ne_zero.mpr hworkers)
  have htaken : (handleLedgerReplicationRequest lib conf' env' (some lr)).run server =
      .ok () { server with replicationCh := server.replicationCh ++ [lr] } := by
    simp only [handleLedgerReplicationRequest, EStateM.run_bind, run_ofExcept, hvalid,
      EStateM.run_get, Option.getD_some, run_ite, hown, not_le.mpr hfirst, not_lt.mpr hlatest,
      hfree]
    rfl
  have hqueued : step lib conf' server
      { event := .ledgerReplicationRequest (some lr), envs := fun _ ↦ env' } =
        { server with replicationCh := [lr] } := by
    simp only [step, handleEvent, htaken, final_ok, hidle, List.nil_append]
  have hbegin : 1 ≤ lr.beginBlockNumber := by
    have hpos := UInt64.lt_iff_toNat_lt.mp hfirst
    rw [UInt64.le_iff_toNat_le]
    simp only [UInt64.reduceToNat]
    omega
  have hsame : { server with replicationCh := [] } = server := by rw [← hidle]
  have hworker : step lib conf' { server with replicationCh := [lr] }
      { event := .replicationWorker, envs := fun _ ↦ env' } =
        final ((processReplicationRequest lib conf' env' lr).run server) := by
    simp only [step, handleEvent, replicationWorker, EStateM.run_bind, EStateM.run_get,
      EStateM.run_modify, hsame]
  rw [hqueued, hworker]
  exact processReplicationRequest_eq hkeyed hcap hreadable hbegin hid

end Messages

/-! ## Progress -/

section Progress

variable {lib : BaseLibrary C} {confs : Set NodeConf} {conf conf' : NodeConf} {env env' : Env}
  {n server : Node C}

/-- The blocks after the last one of a part are the rest. -/
theorem BlockKeyed.blocksFrom_after {store : BlockStore C} (h : BlockKeyed store) {first : UInt64}
    {slice rest : List (UInt64 × Block C)} (hsplit : blocksFrom store first = slice ++ rest)
    {last : UInt64 × Block C} (hlast : slice.getLast? = some last)
    (hnext : (last.1 + 1).toNat = last.1.toNat + 1) : blocksFrom store (last.1 + 1) = rest := by
  obtain ⟨init, rfl⟩ := List.getLast?_eq_some_iff.mp hlast
  have hsorted := h.sorted_blocksFrom first
  rw [hsplit, List.pairwise_append, List.pairwise_append] at hsorted
  obtain ⟨⟨_, _, hinit⟩, _, hrest⟩ := hsorted
  have hmem : last ∈ init ++ [last] := List.mem_append_right _ List.mem_cons_self
  have hfirst : first ≤ last.1 := by
    have hentry : last ∈ blocksFrom store first := hsplit ▸ List.mem_append_left rest hmem
    exact (h.mem_blocksFrom.mp hentry).2
  have hfilter : blocksFrom store (last.1 + 1) =
      (blocksFrom store first).filter fun entry ↦ decide (last.1 + 1 ≤ entry.1) := by
    rw [blocksFrom, blocksFrom, List.filter_filter]
    refine List.filter_congr fun entry _ ↦ ?_
    have himplies : last.1 + 1 ≤ entry.1 → first ≤ entry.1 := by
      intro hle
      rw [UInt64.le_iff_toNat_le] at hle hfirst ⊢
      omega
    by_cases hle : last.1 + 1 ≤ entry.1 <;> simp [hle, himplies]
  have hbelow : ∀ entry ∈ init ++ [last], ¬last.1 + 1 ≤ entry.1 := by
    intro entry hentry hle
    have hupper : entry.1 ≤ last.1 := by
      rcases List.mem_append.mp hentry with hentry | hentry
      · exact (hinit entry hentry last List.mem_cons_self).le
      · rw [List.mem_singleton.mp hentry]
    rw [UInt64.le_iff_toNat_le] at hle hupper
    omega
  have habove : ∀ entry ∈ rest, last.1 + 1 ≤ entry.1 := by
    intro entry hentry
    have hlt := hrest last hmem entry hentry
    rw [UInt64.le_iff_toNat_le]
    rw [UInt64.lt_iff_toNat_lt] at hlt
    omega
  rw [hfilter, hsplit, List.filter_append, List.filter_eq_nil_iff.mpr (by simpa using hbelow),
    List.filter_eq_self.mpr (by simpa using habove), List.nil_append]

theorem scan_ne_nil {α : Type*} (stop : α → Bool) (limit : ℕ) {entries : List α}
    (h : entries ≠ []) : scan stop limit entries ≠ [] := by
  cases entries with
  | nil => exact absurd rfl h
  | cons entry rest => exact List.cons_ne_nil _ _

/-- Serving does not depend on what a node has applied, as long as that is known to the server. -/
theorem Serves.advance {n m server : NodeState C} (h : Serves lib conf conf' env env' n server)
    {entries : List (UInt64 × Block C)} (hadvances : Advances n m entries)
    (hentries : ∀ entry ∈ entries, entry.1 ≤ getRoundNumber server.committedUC) :
    Serves lib conf conf' env env' m server where
  keyed := h.keyed
  head := h.head
  idle := h.idle
  workers := h.workers
  allocates := h.allocates
  readable := h.readable
  shard := hadvances.shardConf ▸ h.shard
  assigned := hadvances.shardConf ▸ h.assigned
  since := h.since.trans hadvances.forward
  ahead := hadvances.luc_le h.ahead hentries
  limit := h.limit
  reached := by
    rw [NodeState.validators, hadvances.shardConf]
    exact h.reached
  answered := h.answered

theorem Serves.le_committed {n server : NodeState C} (h : Serves lib conf conf' env env' n server)
    {first : UInt64} {entry : UInt64 × Block C}
    (hentry : entry ∈ blocksFrom server.blockStore first) :
    entry.1 ≤ getRoundNumber server.committedUC := by
  have hstored := (h.keyed.mem_blocksFrom.mp hentry).1
  have hhead := h.head
  cases hcommitted : server.committedUC with
  | none =>
    rw [hcommitted] at hhead
    cases (hhead entry.1).symm.trans hstored
  | some uc =>
    rw [hcommitted] at hhead
    obtain ⟨_, _, _, hbounds⟩ := hhead
    exact hbounds entry.1 (by rw [hstored]; rfl)

theorem round_add_one {round other : UInt64} (h : round < other) :
    (round + 1).toNat = round.toNat + 1 := by
  have hother := other.toNat_lt
  rw [UInt64.lt_iff_toNat_lt] at h
  rw [UInt64.toNat_add]
  exact Nat.mod_eq_of_lt (by simp; omega)

/-- A node that is behind misses a block of the server. -/
theorem Serves.missing_ne_nil {n server : NodeState C}
    (h : Serves lib conf conf' env env' n server)
    (hbehind : getRoundNumber n.committedUC < getRoundNumber server.committedUC) :
    blocksFrom server.blockStore (getRoundNumber n.committedUC + 1) ≠ [] := by
  have hhead := h.head
  cases hcommitted : server.committedUC with
  | none =>
    rw [hcommitted] at hbehind
    exact absurd hbehind UInt64.not_lt_zero
  | some uc =>
    rw [hcommitted] at hhead hbehind
    obtain ⟨block, hblock, _⟩ := hhead
    have hmem : (getRoundNumber (some uc), block) ∈
        blocksFrom server.blockStore (getRoundNumber n.committedUC + 1) := by
      refine h.keyed.mem_blocksFrom.mpr ⟨hblock, ?_⟩
      rw [UInt64.le_iff_toNat_le, round_add_one hbehind]
      exact UInt64.lt_iff_toNat_lt.mp hbehind
    exact List.ne_nil_of_mem hmem

/-- The answer of the server to the request of a node that is behind. -/
theorem Serves.answers {n server : Node C} (hpeerID : PeerIDLaw lib)
    (h : Serves lib conf conf' env env' n.toNodeState server.toNodeState)
    (hbehind : getRoundNumber n.committedUC < getRoundNumber server.committedUC)
    {lr : LedgerReplicationRequest} (hlr : lr = n.replicationRequest lib conf env) :
    step lib conf' (step lib conf' server
        { event := .ledgerReplicationRequest (some lr), envs := fun _ ↦ env' })
        { event := .replicationWorker, envs := fun _ ↦ env' } =
      server.post (.replicationResponse (responseOf lr (scan (reachesEnd lr)
        conf'.replicationConfig.maxReturnBlocks.toNat
        (blocksFrom server.blockStore lr.beginBlockNumber)))) [conf.peerID] := by
  have hlimit := h.limit
  have hbegin : lr.beginBlockNumber.toNat = (getRoundNumber n.committedUC).toNat + 1 := by
    rw [hlr]
    exact round_add_one hbehind
  rw [UInt64.lt_iff_toNat_lt] at hbehind
  have hend : lr.beginBlockNumber ≤ lr.endBlockNumber := by
    have hsum : lr.endBlockNumber =
        lr.beginBlockNumber + conf.replicationConfig.maxFetchBlocks := by rw [hlr]; rfl
    rw [hsum, UInt64.le_iff_toNat_le, UInt64.toNat_add, Nat.mod_eq_of_lt (by omega)]
    omega
  have hnamed : lr.nodeID ≠ "" := by
    rw [hlr]
    exact hpeerID h.answered
  refine step_serve h.keyed h.idle h.workers h.allocates h.readable ?_ ?_ ?_ ?_ ?_
  · simp only [LedgerReplicationRequest.isValid, bind_eq_ok, require_eq_ok]
    have hassigned : lr.partitionID ≠ 0 := hlr ▸ h.assigned
    exact ⟨(), hassigned, (), hnamed, fun hrange ↦ absurd hrange.2 (not_lt.mpr hend)⟩
  · rw [hlr]
    exact h.shard
  · have hsince := h.since
    rw [UInt64.le_iff_toNat_le] at hsince
    rw [UInt64.lt_iff_toNat_lt]
    omega
  · rw [UInt64.le_iff_toNat_le]
    omega
  · rw [hlr]
    exact h.answered

/-- A response with blocks after the committed one, all of which can be applied. -/
theorem handleLedgerReplicationResponse_of_applied {m : Node C} {envs : ℕ → Env}
    {response : LedgerReplicationResponse C} {blocks : List (Option (Block C))}
    (hstatus : n.status = .recovering) (hok : response.status = .ok)
    (hblocks : response.blocks = some blocks)
    (hfirst : getRoundNumber n.committedUC < response.firstBlockNumber)
    (hrun : (handleBlocks lib conf envs 0 blocks).run n = .ok () m) :
    (handleLedgerReplicationResponse lib conf envs (some response)).run n =
      if m.isRecoveryComplete = false then
        .ok () (m.sendLedgerReplicationRequest lib conf (envs blocks.length))
      else (finishRecovery lib conf (envs blocks.length) (envs (blocks.length + 1))).run m := by
  have hvalid : LedgerReplicationResponse.isValid (some response) = .ok () := by
    simp [LedgerReplicationResponse.isValid, hblocks]
  simp only [handleLedgerReplicationResponse, EStateM.run_bind, run_ofExcept, hvalid,
    EStateM.run_get, Option.getD_some, run_ite, hstatus, hok, not_le.mpr hfirst, hblocks, hrun]
  rfl

theorem finishRecovery_of_none {nextEnv : Env} (h : n.recoveryLastProp = none) :
    (finishRecovery lib conf env nextEnv).run n = .ok () (n.stopRecovery.startNewRound env) := by
  have hkept : (n.stopRecovery.startNewRound env).recoveryLastProp = none := by
    rw [Node.startNewRound_toNodeState]
    exact h
  simp only [finishRecovery, EStateM.run_bind, EStateM.run_modify, EStateM.run_get, run_onlyIf,
    hkept]
  rfl

theorem Ready.ask (hlaws : ReplayLaws lib confs) (hconf : conf ∈ confs)
    (h : Ready lib confs conf n) :
    Ready lib confs conf (n.sendLedgerReplicationRequest lib conf env) := by
  have hsegment : Segment lib conf Guard.none n (n.sendLedgerReplicationRequest lib conf env) :=
    (ordinary_sendLedgerReplicationRequest n env).1
  have hstate := n.sendLedgerReplicationRequest_toNodeState lib conf env
  exact ⟨h.peer.segment hlaws.chain hconf hsegment, hstate ▸ h.status, hstate ▸ h.clean⟩

/-- One round trip of a node that is behind: a part of the missing blocks is applied, and either the
recovery ends or the next request is sent. -/
theorem roundTrip_advances (hlaws : ReplayLaws lib confs) (hconf : conf ∈ confs)
    (h : Ready lib confs conf n) (hwrite : env.writeBlock = .ok ())
    (hserves : Serves lib conf conf' env env' n.toNodeState server.toNodeState)
    (hbehind : getRoundNumber n.committedUC < getRoundNumber server.committedUC)
    (hall : ReplaysAll lib conf env n.shardConf n.transactionSystem.dFG n.committedUC
      (blocksFrom server.blockStore (getRoundNumber n.committedUC + 1))) :
    ∃ m slice rest, slice ≠ [] ∧
      blocksFrom server.blockStore (getRoundNumber n.committedUC + 1) = slice ++ rest ∧
      Ready lib confs conf m ∧ Advances n.toNodeState m.toNodeState slice ∧
      ReplaysAll lib conf env m.shardConf m.transactionSystem.dFG m.committedUC rest ∧
      (roundTrip lib conf conf' env env' (n, server)).2.toNodeState = server.toNodeState ∧
      (roundTrip lib conf conf' env env' (n, server)).1 =
        if m.isRecoveryComplete = false then m.sendLedgerReplicationRequest lib conf env
        else final ((finishRecovery lib conf env env).run m) := by
  obtain ⟨lr, hlr⟩ : ∃ lr, lr = n.replicationRequest lib conf env := ⟨_, rfl⟩
  obtain ⟨asked, hasked⟩ : ∃ asked, asked = n.sendLedgerReplicationRequest lib conf env := ⟨_, rfl⟩
  have hbegin : lr.beginBlockNumber = getRoundNumber n.committedUC + 1 := by rw [hlr]; rfl
  have hmonitor : step lib conf n { event := .monitoring false true, envs := fun _ ↦ env } =
      asked := by
    simp [step, handleEvent, handleMonitoring, h.status, hasked]
  have hrequest : asked.lastMessageTo conf'.peerID = some (.replicationRequest lr) := by
    rw [hasked, hlr]
    exact hserves.reached.lastMessageTo _ n
  have hanswer := hserves.answers hlaws.peerID hbehind hlr
  rw [hbegin] at hanswer
  have hstate : asked.toNodeState = n.toNodeState := by rw [hasked]; simp
  have hready : Ready lib confs conf asked := hasked ▸ h.ask hlaws hconf
  -- the answer is a part of the missing blocks, cut off at its end
  have hmissing := hserves.missing_ne_nil hbehind
  have hsome := scan_ne_nil (reachesEnd lr) conf'.replicationConfig.maxReturnBlocks.toNat hmissing
  obtain ⟨rest, hsplit⟩ := scan_isPrefix (reachesEnd lr)
    conf'.replicationConfig.maxReturnBlocks.toNat
    (blocksFrom server.blockStore (getRoundNumber n.committedUC + 1))
  generalize scan (reachesEnd lr) conf'.replicationConfig.maxReturnBlocks.toNat
    (blocksFrom server.blockStore (getRoundNumber n.committedUC + 1)) = slice at *
  rw [← hsplit, ← hstate] at hall
  obtain ⟨m, hrun, hm, hadvances, hrest⟩ := hready.handleBlocks hlaws hconf hwrite slice rest 0 hall
  rw [hstate] at hadvances
  have hfirst : getRoundNumber asked.committedUC < (responseOf lr slice).firstBlockNumber := by
    obtain ⟨entry, tail, rfl⟩ := List.exists_cons_of_ne_nil hsome
    have hentry : entry ∈ blocksFrom server.blockStore (getRoundNumber n.committedUC + 1) :=
      hsplit ▸ List.mem_cons_self
    have hle := (hserves.keyed.mem_blocksFrom.mp hentry).2
    rw [UInt64.le_iff_toNat_le, round_add_one hbehind] at hle
    rw [hstate]
    exact UInt64.lt_iff_toNat_lt.mpr hle
  have hresponse := handleLedgerReplicationResponse_of_applied hready.status rfl rfl hfirst hrun
  have htrip : roundTrip lib conf conf' env env' (n, server) =
      (final ((handleLedgerReplicationResponse lib conf (fun _ ↦ env)
        (some (responseOf lr slice))).run asked),
        server.post (.replicationResponse (responseOf lr slice)) [conf.peerID]) := by
    simp only [roundTrip, hmonitor, hrequest, hanswer, lastMessageTo_post]
    rfl
  refine ⟨m, slice, rest, hsome, hsplit.symm, hm, hadvances, hrest, ?_, ?_⟩
  · rw [htrip]
    rfl
  · rw [htrip, hresponse]
    dsimp only
    split <;> rfl

/-- The node has left recovery with blocks from the given ones, up to its committed round. -/
structure CaughtUp (n after : NodeState C) (entries : List (UInt64 × Block C)) : Prop where
  status : after.status = .normal
  forward : getRoundNumber n.committedUC ≤ getRoundNumber after.committedUC
  luc_le : getRoundNumber n.luc ≤ getRoundNumber after.committedUC
  applied : ∀ entry ∈ entries, entry.1 ≤ getRoundNumber after.committedUC →
    storedBlock after.blockStore entry.1 = some entry.2
  kept : ∀ round ≤ getRoundNumber n.committedUC,
    storedBlock after.blockStore round = storedBlock n.blockStore round

/-- When all the node has heard of is applied, the recovery ends. -/
theorem Advances.caughtUp {m : Node C} {slice rest : List (UInt64 × Block C)}
    (h : Advances n.toNodeState m.toNodeState slice) (hsome : slice ≠ [])
    (hsorted : (slice ++ rest).Pairwise fun left right ↦ left.1 < right.1)
    (hcomplete : m.isRecoveryComplete = true) :
    CaughtUp n.toNodeState (m.stopRecovery.startNewRound env).toNodeState (slice ++ rest) := by
  have hround : getRoundNumber m.committedUC = getRoundNumber m.luc := by
    simpa [NodeState.isRecoveryComplete] using hcomplete
  have hcommitted : (m.stopRecovery.startNewRound env).committedUC = m.committedUC :=
    NodeState.committedUC_of_committed (m.stopRecovery.startNewRound_committed env)
  have hstored : storedBlock (m.stopRecovery.startNewRound env).blockStore =
      storedBlock m.blockStore := storedBlock_startNewRound m.stopRecovery env
  constructor
  case status =>
    rw [Node.startNewRound_status]
    rfl
  case forward =>
    rw [hcommitted]
    exact h.forward
  case luc_le =>
    rw [hcommitted, hround]
    exact h.luc_ge
  case applied =>
    intro entry hentry hle
    rw [hcommitted] at hle
    rw [hstored]
    rcases List.mem_append.mp hentry with hentry | hentry
    · exact h.stored entry hentry
    · -- what is left is above the last applied block
      obtain ⟨last, hlast⟩ := Option.ne_none_iff_exists'.mp (mt List.getLast?_eq_none_iff.mp hsome)
      have hmem : last ∈ slice := List.mem_of_getLast? hlast
      have hlt := (List.pairwise_append.mp hsorted).2.2 last hmem entry hentry
      have hat : getRoundNumber m.committedUC = last.1 := by
        rw [h.committed, hlast]
        rfl
      exact absurd hle (not_le.mpr (hat ▸ hlt))
  case kept =>
    rw [hstored]
    exact h.kept

theorem CaughtUp.of_advances {n m after : NodeState C} {slice rest : List (UInt64 × Block C)}
    (hadvances : Advances n m slice) (h : CaughtUp m after rest)
    (hslice : ∀ entry ∈ slice, entry.1 ≤ getRoundNumber m.committedUC) :
    CaughtUp n after (slice ++ rest) where
  status := h.status
  forward := hadvances.forward.trans h.forward
  luc_le := hadvances.luc_ge.trans h.luc_le
  applied := by
    intro entry hentry hle
    rcases List.mem_append.mp hentry with hentry | hentry
    · rw [h.kept entry.1 (hslice entry hentry)]
      exact hadvances.stored entry hentry
    · exact h.applied entry hentry hle
  kept round hle := by
    rw [h.kept round (hle.trans hadvances.forward), hadvances.kept round hle]

/-- The number of missing blocks drops with every round trip. -/
theorem Ready.catchesUp (hlaws : ReplayLaws lib confs) (hconf : conf ∈ confs)
    (hwrite : env.writeBlock = .ok ()) (length : ℕ) {n server : Node C}
    (h : Ready lib confs conf n)
    (hserves : Serves lib conf conf' env env' n.toNodeState server.toNodeState)
    (hbehind : getRoundNumber n.committedUC < getRoundNumber n.luc)
    (hproposal : n.recoveryLastProp = none)
    (hall : ReplaysAll lib conf env n.shardConf n.transactionSystem.dFG n.committedUC
      (blocksFrom server.blockStore (getRoundNumber n.committedUC + 1)))
    (hlength : (blocksFrom server.blockStore (getRoundNumber n.committedUC + 1)).length ≤ length) :
    ∃ count ≤ length, CaughtUp n.toNodeState
      ((roundTrip lib conf conf' env env')^[count] (n, server)).1.toNodeState
      (blocksFrom server.blockStore (getRoundNumber n.committedUC + 1)) := by
  have hahead : getRoundNumber n.committedUC < getRoundNumber server.committedUC :=
    hbehind.trans_le hserves.ahead
  induction length generalizing n server with
  | zero =>
    have hnil := List.length_eq_zero_iff.mp (Nat.le_zero.mp hlength)
    exact absurd hnil (hserves.missing_ne_nil hahead)
  | succ length ih =>
    obtain ⟨m, slice, rest, hsome, hsplit, hm, hadvances, hrest, hserver, hnode⟩ :=
      roundTrip_advances hlaws hconf h hwrite hserves hahead hall
    have hsorted := hserves.keyed.sorted_blocksFrom (getRoundNumber n.committedUC + 1)
    have hknown : ∀ entry ∈ slice, entry.1 ≤ getRoundNumber server.committedUC := by
      intro entry hentry
      exact hserves.le_committed (hsplit ▸ List.mem_append_left rest hentry)
    rw [hsplit] at hsorted hlength ⊢
    have hpositive : 0 < slice.length := List.length_pos_iff.mpr hsome
    by_cases hcomplete : m.isRecoveryComplete = true
    · refine ⟨1, Nat.succ_le_succ (Nat.zero_le _), ?_⟩
      have hnone : m.recoveryLastProp = none := hadvances.lastProp.trans hproposal
      rw [Function.iterate_one, hnode, if_neg (by simp [hcomplete]), finishRecovery_of_none hnone,
        final_ok]
      exact hadvances.caughtUp hsome hsorted hcomplete
    · -- the next request is about the rest
      rw [Bool.not_eq_true] at hcomplete
      rw [if_pos hcomplete] at hnode
      obtain ⟨last, hlast⟩ := Option.ne_none_iff_exists'.mp (mt List.getLast?_eq_none_iff.mp hsome)
      have hround : getRoundNumber m.committedUC = last.1 := by
        rw [hadvances.committed, hlast]
        rfl
      have hbehind' : getRoundNumber m.committedUC < getRoundNumber m.luc := by
        apply lt_of_le_of_ne (hadvances.le_luc hsome)
        simpa [NodeState.isRecoveryComplete] using hcomplete
      have hnext : blocksFrom server.blockStore (getRoundNumber m.committedUC + 1) = rest := by
        have hlt := round_add_one hbehind'
        rw [hround] at hlt ⊢
        exact hserves.keyed.blocksFrom_after hsplit hlast hlt
      have hserves' := hserves.advance hadvances hknown
      obtain ⟨asked, hasked⟩ : ∃ asked, asked = m.sendLedgerReplicationRequest lib conf env :=
        ⟨_, rfl⟩
      have hstate : asked.toNodeState = m.toNodeState := by rw [hasked]; simp
      obtain ⟨served, hserved⟩ :
          ∃ served, served = (roundTrip lib conf conf' env env' (n, server)).2 := ⟨_, rfl⟩
      have hpair : roundTrip lib conf conf' env env' (n, server) = (asked, served) := by
        rw [hasked, hserved, ← hnode]
      rw [← hserved] at hserver
      have hready : Ready lib confs conf asked := hasked ▸ hm.ask hlaws hconf
      have hlater := @ih asked served hready
      rw [hstate, hserver, hnext] at hlater
      obtain ⟨count, hcount, hcaught⟩ := hlater hserves' hbehind'
        (hadvances.lastProp.trans hproposal) hrest (by simp at hlength; omega)
        (hbehind'.trans_le hserves'.ahead)
      refine ⟨count + 1, Nat.succ_le_succ hcount, ?_⟩
      rw [Function.iterate_succ_apply, hpair]
      refine hcaught.of_advances hadvances fun entry hentry ↦ ?_
      obtain ⟨init, rfl⟩ := List.getLast?_eq_some_iff.mp hlast
      rw [hround]
      rcases List.mem_append.mp hentry with hinit | hinit
      · have hbelow := (List.pairwise_append.mp (List.pairwise_append.mp hsorted).1).2.2
        exact (hbelow entry hinit last List.mem_cons_self).le
      · rw [List.mem_singleton.mp hinit]

theorem Reachable.validator (h : Reachable lib confs conf n) : conf ∈ confs := by
  obtain ⟨_, _, _, hconf, _⟩ := h
  exact hconf

theorem Reachable.clean (h : Reachable lib confs conf n) : Clean n := by
  obtain ⟨store, start, inputs, _, _, hstart, rfl⟩ := h
  apply invariant_runNode (Guard.none_sound lib) (fun hinv hsegment ↦ hinv.segment hsegment)
  · intro hrecovering
    have hinitial := (started_of_starts lib conf hstart).status
    rw [hinitial] at hrecovering
    cases hrecovering
  · exact Run.guarded_of_forall (fun n input ↦ Guard.none_admits lib conf n input) start inputs

/-- A recovering node that can reach a server with all it has heard of leaves recovery after at most
as many round trips as the server has blocks for it. It has applied the blocks of the server up to
the latest round it knew of, at least, and kept its own. -/
theorem recovery_catches_up (hlaws : ReplayLaws lib confs)
    (hreachable : Reachable lib confs conf n) (hstatus : n.status = .recovering)
    (hbehind : getRoundNumber n.committedUC < getRoundNumber n.luc)
    (hproposal : n.recoveryLastProp = none) (hwrite : env.writeBlock = .ok ())
    (hserves : Serves lib conf conf' env env' n.toNodeState server.toNodeState)
    (hall : ReplaysAll lib conf env n.shardConf n.transactionSystem.dFG n.committedUC
      (blocksFrom server.blockStore (getRoundNumber n.committedUC + 1))) :
    ∃ count ≤ (blocksFrom server.blockStore (getRoundNumber n.committedUC + 1)).length,
      ∃ after, ((roundTrip lib conf conf' env env')^[count] (n, server)).1 = after ∧
        after.status = .normal ∧ getRoundNumber n.luc ≤ getRoundNumber after.committedUC ∧
        (∀ round block, getRoundNumber n.committedUC < round →
          round ≤ getRoundNumber after.committedUC →
          storedBlock server.blockStore round = some block →
          storedBlock after.blockStore round = some block) ∧
        ∀ round ≤ getRoundNumber n.committedUC,
          storedBlock after.blockStore round = storedBlock n.blockStore round := by
  have hpeer := hreachable.peer hlaws.chain hlaws.cbor hlaws.blockHash hlaws.blockRecord
  have hready : Ready lib confs conf n := ⟨hpeer, hstatus, hreachable.clean hstatus⟩
  obtain ⟨count, hcount, hcaught⟩ := hready.catchesUp hlaws hreachable.validator hwrite _ hserves
    hbehind hproposal hall le_rfl
  refine ⟨count, hcount, _, rfl, hcaught.status, hcaught.luc_le, ?_, hcaught.kept⟩
  intro round block hlt hle hstored
  refine hcaught.applied (round, block) (hserves.keyed.mem_blocksFrom.mpr ⟨hstored, ?_⟩) hle
  rw [UInt64.le_iff_toNat_le, round_add_one hlt]
  exact UInt64.lt_iff_toNat_lt.mp hlt

end Progress

section Reference

open Reference

/-- The node `B` has missed the second block of `A` and gets it from `A`. -/
theorem recovery_catches_up_lagging :
    lagging.status = .recovering ∧ lagging.committedUC = some proposalUC ∧
      ∃ count ≤ 1, ∃ after, ((roundTrip shardLibrary (conf "B" [2]) (conf "A" [1]) (env 11)
          (env 11))^[count] (lagging, leading)).1 = after ∧
        after.status = .normal ∧ 3 ≤ getRoundNumber after.committedUC := by
  have hlagging : Reachable shardLibrary validators (conf "B" [2]) lagging :=
    reachable_restarted (Or.inr rfl) _
  have hkeyed : BlockKeyed leading.blockStore :=
    (blockKeyed_empty.writeBlock 2 finalizedBlock).writeBlock 3 nextFinalized
  have hserves : Serves shardLibrary (conf "B" [2]) (conf "A" [1]) (env 11) (env 11)
      lagging.toNodeState leading.toNodeState := by
    constructor
    case keyed => exact hkeyed
    case head =>
      refine ⟨nextFinalized, rfl, rfl, fun round hsome ↦ ?_⟩
      obtain ⟨block, hblock⟩ := Option.isSome_iff_exists.mp hsome
      have hmem := hkeyed.mem_storedBlocks.mpr hblock
      have hstored : storedBlocks leading.blockStore = [(2, finalizedBlock), (3, nextFinalized)] :=
        rfl
      rw [hstored] at hmem
      have hle : ∀ entry ∈ [(2, finalizedBlock), (3, nextFinalized)], entry.1 ≤ (3 : UInt64) := by
        decide
      exact hle _ hmem
    case idle => rfl
    case workers => decide
    case allocates => decide
    case readable => exact fun _ ↦ rfl
    case shard => exact ⟨rfl, rfl⟩
    case assigned => decide
    case since => decide
    case ahead => decide
    case limit => decide
    case reached => exact ⟨[], ["B"], rfl, by decide, rfl, by simp⟩
    case answered => rfl
  have hreplays : Replays shardLibrary (conf "B" [2]) (env 11) lagging.shardConf
      lagging.transactionSystem.dFG lagging.committedUC nextFinalized (nextUC 8) := by
    constructor
    case certificate => rfl
    case isValid => rfl
    case validated => exact ⟨{ epoch := 0, rootNodes := [{ nodeID := "R" }] }, rfl, rfl⟩
    case successor => rfl
    case linked => rfl
    case record => exact ⟨nextRecord, rfl, rfl, rfl, rfl⟩
    case confirmed => exact ⟨_, _, rfl, rfl, rfl, by decide, by decide⟩
  have hall : ReplaysAll shardLibrary (conf "B" [2]) (env 11) lagging.shardConf
      lagging.transactionSystem.dFG lagging.committedUC [(3, nextFinalized)] := .cons hreplays .nil
  obtain ⟨count, hcount, after, hafter, hstatus, hround, _⟩ := recovery_catches_up
    (shardLibrary_replayLaws validators) hlagging rfl (by decide) rfl rfl hserves hall
  exact ⟨rfl, rfl, count, hcount, after, hafter, hstatus, hround⟩

end Reference

end FinalityGadget
