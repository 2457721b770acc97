import FinalityGadget.Foundation.Scan
import FinalityGadget.Partition.Agreement

/-!
# Serving blocks

A node answers requests for ranges of its blocks. The handler decides by the first certificate of
the process and by the committed one whether it has the requested block at all; a worker then reads
the store from the requested round on, appending each block before it asks whether to stop.

The first certificate is the one that the process was started with, so a restarted node denies the
blocks that an earlier process has stored. The worker returns the requested slice unless the range
ends in a gap of the stored rounds or it may return nothing at all.
-/

namespace FinalityGadget

open Bytes Fallible Scan

variable {C : Type}

/-! ## The requested slice -/

/-- Blocks are stored under the keys of their rounds; the only other entry is the proposal. -/
def BlockKeyed (store : BlockStore C) : Prop :=
  ∀ key, (store.find? key).isSome → key = proposalKey ∨ ∃ round, key = blockKey round

/-- The stored blocks with their rounds. -/
def storedBlocks (store : BlockStore C) : List (UInt64 × Block C) :=
  (store.entries.filter fun entry ↦ decide (entry.1 ≠ proposalKey)).map
    fun entry ↦ (bytesToUint64 entry.1, entry.2)

/-- The stored blocks from the begin of the requested range to its end, if it has one. -/
def requestedBlocks (store : BlockStore C) (lr : LedgerReplicationRequest) :
    List (UInt64 × Block C) :=
  (storedBlocks store).filter fun entry ↦ decide (lr.beginBlockNumber ≤ entry.1 ∧
    (lr.endBlockNumber = 0 ∨ entry.1 ≤ lr.endBlockNumber))

/-- The response with the given blocks. -/
def responseOf (lr : LedgerReplicationRequest) (slice : List (UInt64 × Block C)) :
    LedgerReplicationResponse C where
  uuid := lr.uuid
  status := .ok
  blocks := some (slice.map fun entry ↦ some entry.2)
  firstBlockNumber := (slice.head?.map Prod.fst).getD 0
  lastBlockNumber := (slice.getLast?.map Prod.fst).getD 0

/-- The list for the blocks can be made. -/
def ReplicationConfig.Allocates (config : ReplicationConfig) : Prop :=
  config.maxReturnBlocks.toNat ≤ maxSliceCap

instance (config : ReplicationConfig) : Decidable config.Allocates :=
  inferInstanceAs (Decidable (_ ≤ maxSliceCap))

/-- The range ends where the worker stops: it may return something, and it finds the end of the
range, or nothing above it, or enough blocks before. -/
structure EndsInRange (conf : NodeConf) (store : BlockStore C) (lr : LedgerReplicationRequest) :
    Prop where
  limit_pos : conf.replicationConfig.maxReturnBlocks = 0 →
    ∀ round, lr.beginBlockNumber ≤ round → storedBlock store round = none
  bounded : lr.endBlockNumber ≠ 0 → (storedBlock store lr.endBlockNumber).isSome ∨
    (∀ round, (storedBlock store round).isSome → round ≤ lr.endBlockNumber) ∨
    conf.replicationConfig.maxReturnBlocks.toNat ≤ (requestedBlocks store lr).length

section Store

variable {store : BlockStore C}

theorem bytesToUint64_blockKey (round : UInt64) : bytesToUint64 (blockKey round) = round :=
  bytesToUint64_uint64ToBytes round

theorem BlockKeyed.key_eq (h : BlockKeyed store) {entry : List UInt8 × Block C}
    (hentry : entry ∈ store.entries) (hkey : entry.1 ≠ proposalKey) :
    blockKey (bytesToUint64 entry.1) = entry.1 := by
  have hfind : store.find? entry.1 = some entry.2 := OrderedStore.find?_eq_some_iff.mpr hentry
  rcases h entry.1 (by simp [hfind]) with heq | ⟨round, heq⟩
  · exact absurd heq hkey
  · rw [heq, bytesToUint64_blockKey]

theorem blockKeyed_empty : BlockKeyed (OrderedStore.empty : BlockStore C) := by
  intro key hkey
  simp at hkey

theorem BlockKeyed.writeBlock (h : BlockKeyed store) (round : UInt64) (block : Block C) :
    BlockKeyed ((StoreOp.writeBlock round block).apply store) := by
  intro key hkey
  by_cases heq : key = blockKey round
  · exact Or.inr ⟨round, heq⟩
  · rw [StoreOp.apply, OrderedStore.find?_insert_of_ne _ _ heq] at hkey
    exact h key hkey

/-- The blocks are the entries other than the proposal. -/
theorem BlockKeyed.entries_eq (h : BlockKeyed store) :
    (store.entries.filter fun entry ↦ decide (entry.1 ≠ proposalKey)) =
      (storedBlocks store).map fun entry ↦ (blockKey entry.1, entry.2) := by
  rw [storedBlocks, List.map_map]
  symm
  refine (List.map_congr_left ?_).trans (List.map_id _)
  intro entry hentry
  obtain ⟨hmem, hkey⟩ := List.mem_filter.mp hentry
  exact Prod.ext (h.key_eq hmem (by simpa using hkey)) rfl

theorem BlockKeyed.sorted (h : BlockKeyed store) :
    (storedBlocks store).Pairwise fun left right ↦ left.1 < right.1 := by
  have hsorted := store.sorted.filter fun entry ↦ decide (entry.1 ≠ proposalKey)
  rw [h.entries_eq, List.pairwise_map] at hsorted
  exact hsorted.imp fun hlt ↦ blockKey_lt_iff.mp hlt

theorem BlockKeyed.mem_storedBlocks (h : BlockKeyed store) {round : UInt64} {block : Block C} :
    (round, block) ∈ storedBlocks store ↔ storedBlock store round = some block := by
  rw [storedBlock, OrderedStore.find?_eq_some_iff]
  constructor
  · intro hmem
    have hentry : (blockKey round, block) ∈
        (storedBlocks store).map fun entry ↦ (blockKey entry.1, entry.2) :=
      List.mem_map.mpr ⟨_, hmem, rfl⟩
    rw [← h.entries_eq] at hentry
    exact (List.mem_filter.mp hentry).1
  · intro hentry
    refine List.mem_map.mpr ⟨(blockKey round, block), List.mem_filter.mpr ⟨hentry, ?_⟩, ?_⟩
    · simpa using blockKey_ne_proposalKey round
    · rw [bytesToUint64_blockKey]

/-- The stored blocks at and above a round. -/
def blocksFrom (store : BlockStore C) (round : UInt64) : List (UInt64 × Block C) :=
  (storedBlocks store).filter fun entry ↦ decide (round ≤ entry.1)

theorem BlockKeyed.mem_blocksFrom (h : BlockKeyed store) {first round : UInt64}
    {block : Block C} : (round, block) ∈ blocksFrom store first ↔
      storedBlock store round = some block ∧ first ≤ round := by
  rw [blocksFrom, List.mem_filter, h.mem_storedBlocks]
  simp

/-- An iterator positioned at a round visits the blocks from that round on, and not the proposal. -/
theorem BlockKeyed.seek_eq (h : BlockKeyed store) (round : UInt64) :
    store.seek (blockKey round) =
      (blocksFrom store round).map fun entry ↦ (blockKey entry.1, entry.2) := by
  have hproposal : store.seek (blockKey round) =
      (store.entries.filter fun entry ↦ decide (entry.1 ≠ proposalKey)).filter
        fun entry ↦ decide (blockKey round ≤ entry.1) := by
    rw [OrderedStore.seek, List.filter_filter]
    refine List.filter_congr fun entry _ ↦ ?_
    by_cases hle : blockKey round ≤ entry.1
    · have hne : entry.1 ≠ proposalKey := ((proposalKey_lt_blockKey round).trans_le hle).ne'
      simp [hle, hne]
    · simp [hle]
  rw [hproposal, h.entries_eq, List.filter_map, blocksFrom]
  congr 1
  refine List.filter_congr fun entry _ ↦ ?_
  simp [blockKey_le_iff]

end Store

/-! ## The loop of a worker -/

section Worker

variable {lib : BaseLibrary C} {conf : NodeConf} {env : Env} {lr : LedgerReplicationRequest}

/-- The worker stops at a block that reaches the end of the range. -/
def reachesEnd (lr : LedgerReplicationRequest) (entry : UInt64 × Block C) : Bool :=
  decide (lr.endBlockNumber ≤ entry.1 ∧ 0 < lr.endBlockNumber)

/-- The loop of the worker is a scan: it appends what the scan returns. -/
theorem fetchBlocks_eq (hread : ∀ key, env.readBlock key = .ok ())
    {rounds : List (UInt64 × Block C)} (hpos : ∀ entry ∈ rounds, entry.1 ≠ 0)
    (fetched : Fetched C) (hcnt : fetched.blockCnt = 0 ∨
      fetched.blockCnt < conf.replicationConfig.maxReturnBlocks)
    {slice : List (UInt64 × Block C)}
    (hslice : slice = scan (reachesEnd lr)
      (conf.replicationConfig.maxReturnBlocks.toNat - fetched.blockCnt.toNat) rounds)
    {result : Fetched C}
    (hresult : result = fetchBlocks conf env lr
      (rounds.map fun entry ↦ (blockKey entry.1, entry.2)) fetched) :
    result.blocks = fetched.blocks ++ slice.map (fun entry ↦ some entry.2) ∧
      result.first = (if fetched.first = 0 then (slice.head?.map Prod.fst).getD 0
        else fetched.first) ∧
      result.last = (slice.getLast?.map Prod.fst).getD fetched.last := by
  induction rounds generalizing fetched slice with
  | nil =>
    rw [hslice, hresult]
    simp [fetchBlocks]
  | cons entry rest ih =>
    obtain ⟨round, block⟩ := entry
    have hround : round ≠ 0 := hpos _ List.mem_cons_self
    -- the counter does not wrap, since it is below the limit or zero
    have hnext : (fetched.blockCnt + 1).toNat = fetched.blockCnt.toNat + 1 := by
      have hlt := conf.replicationConfig.maxReturnBlocks.toNat_lt
      rw [UInt64.toNat_add]
      refine Nat.mod_eq_of_lt ?_
      rcases hcnt with hzero | hbelow
      · simp [hzero]
      · rw [UInt64.lt_iff_toNat_lt] at hbelow
        simp
        omega
    have hlimit : conf.replicationConfig.maxReturnBlocks ≤ fetched.blockCnt + 1 ↔
        conf.replicationConfig.maxReturnBlocks.toNat - fetched.blockCnt.toNat ≤ 1 := by
      rw [UInt64.le_iff_toNat_le, hnext]
      omega
    rw [scan_cons] at hslice
    simp only [List.map_cons, fetchBlocks, hread, bytesToUint64_blockKey] at hresult
    by_cases hstop : conf.replicationConfig.maxReturnBlocks ≤ fetched.blockCnt + 1 ∨
        (lr.endBlockNumber ≤ round ∧ 0 < lr.endBlockNumber)
    · have hscan : conf.replicationConfig.maxReturnBlocks.toNat - fetched.blockCnt.toNat ≤ 1 ∨
          reachesEnd lr (round, block) = true := by
        rw [reachesEnd, decide_eq_true_eq, ← hlimit]
        exact hstop
      rw [if_pos hscan] at hslice
      rw [if_pos hstop] at hresult
      rw [hslice, hresult]
      exact ⟨rfl, rfl, rfl⟩
    · have hscan : ¬(conf.replicationConfig.maxReturnBlocks.toNat - fetched.blockCnt.toNat ≤ 1 ∨
          reachesEnd lr (round, block) = true) := by
        rw [reachesEnd, decide_eq_true_eq, ← hlimit]
        exact hstop
      rw [if_neg hscan] at hslice
      rw [if_neg hstop] at hresult
      have hbelow := not_le.mp (not_or.mp hstop).1
      obtain ⟨hblocks, hfirst, hlast⟩ :=
        ih (fun entry hentry ↦ hpos entry (List.mem_cons_of_mem _ hentry)) _ (Or.inr hbelow) rfl
          hresult
      have hrest : conf.replicationConfig.maxReturnBlocks.toNat - (fetched.blockCnt + 1).toNat =
          conf.replicationConfig.maxReturnBlocks.toNat - fetched.blockCnt.toNat - 1 := by
        rw [hnext]
        omega
      simp only [hrest] at hblocks hfirst hlast
      rw [hslice]
      refine ⟨?_, ?_, ?_⟩
      · rw [hblocks, List.map_cons, List.append_assoc, List.singleton_append]
      · rw [hfirst]
        by_cases hzero : fetched.first = 0
        · simp [hzero, hround]
        · simp [hzero]
      · rw [hlast, List.getLast?_cons]
        cases (scan (reachesEnd lr) _ rest).getLast? <;> rfl

/-- A worker that cannot make its list of blocks sends nothing. -/
theorem processReplicationRequest_panics {n : Node C} (hcap : ¬conf.replicationConfig.Allocates) :
    (processReplicationRequest lib conf env lr).run n =
      .error "runtime error: makeslice: cap out of range" n := by
  unfold ReplicationConfig.Allocates at hcap
  simp only [processReplicationRequest, EStateM.run_bind, run_ensure, hcap, if_false]

/-- A worker sends one response, with the blocks that its scan returns. -/
theorem processReplicationRequest_eq {n : Node C} (hkeys : BlockKeyed n.blockStore)
    (hcap : conf.replicationConfig.Allocates)
    (hread : ∀ key, env.readBlock key = .ok ()) (hbegin : 1 ≤ lr.beginBlockNumber) {id : PeerID}
    (hid : lib.decodePeerID lr.nodeID = .ok id) :
    final ((processReplicationRequest lib conf env lr).run n) =
      n.post (.replicationResponse (responseOf lr (scan (reachesEnd lr)
        conf.replicationConfig.maxReturnBlocks.toNat
        (blocksFrom n.blockStore lr.beginBlockNumber)))) [id] := by
  have hpos : ∀ entry ∈ blocksFrom n.blockStore lr.beginBlockNumber, entry.1 ≠ 0 := by
    intro entry hentry hzero
    have hle := hbegin.trans (hkeys.mem_blocksFrom.mp hentry).2
    rw [hzero] at hle
    exact absurd hle (by decide)
  obtain ⟨hblocks, hfirst, hlast⟩ := fetchBlocks_eq hread hpos {} (Or.inl rfl) rfl
    (congrArg (fun entries ↦ fetchBlocks conf env lr entries {}) (hkeys.seek_eq _))
  unfold ReplicationConfig.Allocates at hcap
  simp only [processReplicationRequest, EStateM.run_bind, run_ensure, hcap, if_true,
    EStateM.run_get, run_tryCatch, hblocks, hfirst, hlast, sendLedgerReplicationResponse,
    run_ofExcept, hid, EStateM.run_modify]
  cases env.sendResponse <;> rfl

theorem BlockKeyed.blocksFrom_eq_nil_iff {store : BlockStore C} (h : BlockKeyed store)
    {first : UInt64} : blocksFrom store first = [] ↔
      ∀ round, first ≤ round → storedBlock store round = none := by
  rw [List.eq_nil_iff_forall_not_mem]
  constructor
  · intro hnone round hle
    by_contra hsome
    obtain ⟨block, hblock⟩ := Option.ne_none_iff_exists'.mp hsome
    exact hnone (round, block) (h.mem_blocksFrom.mpr ⟨hblock, hle⟩)
  · rintro hnone ⟨round, block⟩ hmem
    obtain ⟨hblock, hle⟩ := h.mem_blocksFrom.mp hmem
    cases (hnone round hle).symm.trans hblock

theorem requestedBlocks_of_unbounded (store : BlockStore C) (hend : lr.endBlockNumber = 0) :
    requestedBlocks store lr = blocksFrom store lr.beginBlockNumber := by
  refine List.filter_congr fun entry _ ↦ ?_
  simp [hend]

theorem requestedBlocks_of_bounded (store : BlockStore C) (hend : lr.endBlockNumber ≠ 0) :
    requestedBlocks store lr = upTo lr.endBlockNumber (blocksFrom store lr.beginBlockNumber) := by
  rw [upTo, blocksFrom, List.filter_filter]
  refine List.filter_congr fun entry _ ↦ ?_
  simp [hend, and_comm]

theorem BlockKeyed.sorted_blocksFrom {store : BlockStore C} (h : BlockKeyed store)
    (first : UInt64) :
    (blocksFrom store first).Pairwise fun left right ↦ left.1 < right.1 :=
  h.sorted.filter _

theorem requestedBlocks_isPrefix {store : BlockStore C} (h : BlockKeyed store) :
    requestedBlocks store lr <+: blocksFrom store lr.beginBlockNumber := by
  by_cases hend : lr.endBlockNumber = 0
  · rw [requestedBlocks_of_unbounded store hend]
  · rw [requestedBlocks_of_bounded store hend]
    exact upTo_isPrefix _ (h.sorted_blocksFrom _)

theorem begin_le_end (hvalid : LedgerReplicationRequest.isValid (some lr) = .ok ())
    (hend : lr.endBlockNumber ≠ 0) : lr.beginBlockNumber ≤ lr.endBlockNumber := by
  simp only [LedgerReplicationRequest.isValid, bind_eq_ok, require_eq_ok] at hvalid
  obtain ⟨_, _, _, _, hrange⟩ := hvalid
  exact not_lt.mp fun hlt ↦ hrange ⟨hend, hlt⟩

/-- The scan of the worker ends within the range exactly when the stored rounds let it. -/
theorem BlockKeyed.stops_iff {store : BlockStore C} (h : BlockKeyed store)
    (hvalid : LedgerReplicationRequest.isValid (some lr) = .ok ())
    (hend : lr.endBlockNumber ≠ 0) :
    Stops lr.endBlockNumber conf.replicationConfig.maxReturnBlocks.toNat
        (blocksFrom store lr.beginBlockNumber) ↔ EndsInRange conf store lr := by
  have hrange := begin_le_end hvalid hend
  have hrequested := requestedBlocks_of_bounded store hend
  have hzero : conf.replicationConfig.maxReturnBlocks.toNat = 0 ↔
      conf.replicationConfig.maxReturnBlocks = 0 := by
    rw [← UInt64.toNat_inj]
    rfl
  constructor
  · rintro ⟨hpos, hbounded⟩
    refine ⟨fun hmax ↦ h.blocksFrom_eq_nil_iff.mp (hpos (hzero.mpr hmax)), fun _ ↦ ?_⟩
    refine hbounded.imp ?_ (Or.imp ?_ ?_)
    · rintro ⟨⟨round, block⟩, hmem, rfl⟩
      rw [(h.mem_blocksFrom.mp hmem).1]
      rfl
    · intro hall round hsome
      obtain ⟨block, hblock⟩ := Option.isSome_iff_exists.mp hsome
      rcases le_total lr.beginBlockNumber round with hle | hle
      · exact hall (round, block) (h.mem_blocksFrom.mpr ⟨hblock, hle⟩)
      · exact hle.trans hrange
    · exact fun hlimit ↦ hrequested ▸ hlimit
  · rintro ⟨hpos, hbounded⟩
    refine ⟨fun hmax ↦ h.blocksFrom_eq_nil_iff.mpr (hpos (hzero.mp hmax)), ?_⟩
    refine (hbounded hend).imp ?_ (Or.imp ?_ ?_)
    · intro hsome
      obtain ⟨block, hblock⟩ := Option.isSome_iff_exists.mp hsome
      exact ⟨(_, block), h.mem_blocksFrom.mpr ⟨hblock, hrange⟩, rfl⟩
    · rintro hall ⟨round, block⟩ hmem
      exact hall round (by rw [(h.mem_blocksFrom.mp hmem).1]; rfl)
    · exact fun hlimit ↦ hrequested ▸ hlimit

theorem scan_eq_requested_iff {store : BlockStore C} (h : BlockKeyed store)
    (hvalid : LedgerReplicationRequest.isValid (some lr) = .ok ()) :
    scan (reachesEnd lr) conf.replicationConfig.maxReturnBlocks.toNat
        (blocksFrom store lr.beginBlockNumber) =
        (requestedBlocks store lr).take conf.replicationConfig.maxReturnBlocks.toNat ↔
      EndsInRange conf store lr := by
  by_cases hend : lr.endBlockNumber = 0
  · have hstop : (reachesEnd lr : UInt64 × Block C → Bool) = fun _ ↦ false := by
      funext entry
      simp [reachesEnd, hend]
    rw [requestedBlocks_of_unbounded store hend, hstop, scan_unbounded_iff,
      h.blocksFrom_eq_nil_iff]
    constructor
    · exact fun hpos ↦ ⟨fun hmax ↦ hpos (by rw [hmax]; rfl), fun hne ↦ absurd hend hne⟩
    · exact fun hends hmax ↦ hends.limit_pos (UInt64.toNat_inj.mp hmax)
  · have hstop : (reachesEnd lr : UInt64 × Block C → Bool) =
        fun entry ↦ decide (lr.endBlockNumber ≤ entry.1) := by
      funext entry
      simp [reachesEnd, UInt64.pos_iff_ne_zero.mpr hend]
    rw [requestedBlocks_of_bounded store hend, hstop,
      scan_bounded_iff _ _ (h.sorted_blocksFrom _), h.stops_iff hvalid hend]

end Worker

/-- A worker answers a valid request with the first blocks of the requested slice, in the order of
their rounds, exactly when the list for the blocks can be made and the range ends where the worker
stops. -/
theorem replication_response_slice_iff {lib : BaseLibrary C} {conf : NodeConf} {env : Env}
    {lr : LedgerReplicationRequest} {n : Node C} {id : PeerID} (hkeys : BlockKeyed n.blockStore)
    (hread : ∀ key, env.readBlock key = .ok ())
    (hvalid : LedgerReplicationRequest.isValid (some lr) = .ok ())
    (hbegin : 1 ≤ lr.beginBlockNumber) (hid : lib.decodePeerID lr.nodeID = .ok id) :
    final ((processReplicationRequest lib conf env lr).run n) =
        n.post (.replicationResponse (responseOf lr ((requestedBlocks n.blockStore lr).take
          conf.replicationConfig.maxReturnBlocks.toNat))) [id] ↔
      conf.replicationConfig.Allocates ∧ EndsInRange conf n.blockStore lr := by
  by_cases hcap : conf.replicationConfig.Allocates
  case neg =>
    refine iff_of_false (fun hpost ↦ ?_) fun h ↦ hcap h.1
    rw [processReplicationRequest_panics hcap] at hpost
    have hsent := congrArg (fun m ↦ m.sent.length) hpost
    simp [Node.post] at hsent
  rw [processReplicationRequest_eq hkeys hcap hread hbegin hid,
    ← scan_eq_requested_iff hkeys hvalid, and_iff_right hcap]
  constructor
  · intro hpost
    -- both lists are prefixes of the stored blocks, so their lengths tell them apart
    have hsent := congrArg Node.sent hpost
    simp only [Node.post, List.append_cancel_left_eq, List.cons.injEq, Sent.mk.injEq,
      Message.replicationResponse.injEq, responseOf, LedgerReplicationResponse.mk.injEq,
      Option.some.injEq, true_and, and_true] at hsent
    have hlength := congrArg List.length hsent.1
    rw [List.length_map, List.length_map] at hlength
    have hscan := scan_isPrefix (reachesEnd lr) conf.replicationConfig.maxReturnBlocks.toNat
      (blocksFrom n.blockStore lr.beginBlockNumber)
    have htake := (List.take_prefix conf.replicationConfig.maxReturnBlocks.toNat
      (requestedBlocks n.blockStore lr)).trans (requestedBlocks_isPrefix hkeys)
    exact (List.prefix_of_prefix_length_le hscan htake hlength.le).eq_of_length hlength
  · intro heq
    rw [heq]

/-! ## Which requests are taken -/

section Handler

variable {lib : BaseLibrary C} {conf : NodeConf} {env : Env} {lr : LedgerReplicationRequest}

/-- The request is left to a worker, or answered with `Busy` when all of them are. -/
def Taken (lib : BaseLibrary C) (env : Env) (lr : LedgerReplicationRequest) (n : Node C)
    (result : EStateM.Result Err (Node C) Unit) : Prop :=
  result = .ok () { n with replicationCh := n.replicationCh ++ [lr] } ∨
    result = (sendLedgerReplicationResponse lib env
      { uuid := lr.uuid, status := .busy, message := "Too many concurrent replication requests" }
      lr.nodeID).run n

/-- A request for blocks between the first and the committed certificate is taken. -/
theorem handleLedgerReplicationRequest_taken {n : Node C}
    (hvalid : LedgerReplicationRequest.isValid (some lr) = .ok ())
    (hown : lr.partitionID = n.shardConf.partitionID ∧ lr.shardID = n.shardConf.shardID)
    (hfirst : getRoundNumber n.fuc < lr.beginBlockNumber)
    (hlatest : lr.beginBlockNumber ≤ getRoundNumber n.committedUC) :
    Taken lib env lr n ((handleLedgerReplicationRequest lib conf env (some lr)).run n) := by
  have hrun : (handleLedgerReplicationRequest lib conf env (some lr)).run n =
      if n.replicationCh.length < conf.replicationConfig.maxWorkers.toNat then
        .ok () { n with replicationCh := n.replicationCh ++ [lr] }
      else (sendLedgerReplicationResponse lib env
        { uuid := lr.uuid, status := .busy, message := "Too many concurrent replication requests" }
        lr.nodeID).run n := by
    simp only [handleLedgerReplicationRequest, EStateM.run_bind, run_ofExcept, hvalid,
      EStateM.run_get, Option.getD_some, run_ite, hown, not_le.mpr hfirst, not_lt.mpr hlatest]
    rfl
  rw [hrun]
  split
  · exact Or.inl rfl
  · exact Or.inr rfl

/-- A request for a block that is not above the first certificate is denied. -/
theorem handleLedgerReplicationRequest_denied {n : Node C}
    (hvalid : LedgerReplicationRequest.isValid (some lr) = .ok ())
    (hown : lr.partitionID = n.shardConf.partitionID ∧ lr.shardID = n.shardConf.shardID)
    (hfirst : lr.beginBlockNumber ≤ getRoundNumber n.fuc) :
    (handleLedgerReplicationRequest lib conf env (some lr)).run n =
      (sendLedgerReplicationResponse lib env
        { uuid := lr.uuid
          status := .blocksNotFound
          message := s!"Node does not have block: {lr.beginBlockNumber}, " ++
            s!"first block: {getRoundNumber n.fuc + 1}" } lr.nodeID).run n := by
  simp only [handleLedgerReplicationRequest, EStateM.run_bind, run_ofExcept, hvalid,
    EStateM.run_get, Option.getD_some, run_ite, hown, hfirst]
  rfl

theorem final_sendLedgerReplicationResponse {n : Node C} {msg : LedgerReplicationResponse C}
    {toId : String} {id : PeerID} (hid : lib.decodePeerID toId = .ok id) :
    final ((sendLedgerReplicationResponse lib env msg toId).run n) =
      n.post (.replicationResponse msg) [id] := by
  simp only [sendLedgerReplicationResponse, EStateM.run_bind, run_ofExcept, hid,
    EStateM.run_modify]
  cases env.sendResponse <;> rfl

/-- A denied request is told from one that is taken, if it can be answered at all. -/
theorem taken_of_denied_iff {n : Node C} {message : String} :
    Taken lib env lr n ((sendLedgerReplicationResponse lib env
        { uuid := lr.uuid, status := .blocksNotFound, message := message } lr.nodeID).run n) ↔
      ∃ err, lib.decodePeerID lr.nodeID = .error err := by
  cases hid : lib.decodePeerID lr.nodeID with
  | error err =>
    refine iff_of_true (Or.inr ?_) ⟨err, rfl⟩
    simp only [sendLedgerReplicationResponse, EStateM.run_bind, run_ofExcept, hid]
  | ok id =>
    refine iff_of_false ?_ (by rintro ⟨err, ⟨⟩⟩)
    rintro (h | h)
    · have hsent := congrArg (fun result ↦ (final result).sent.length) h
      simp [final_sendLedgerReplicationResponse hid, Node.post] at hsent
    · have hsent := congrArg (fun result ↦ (final result).sent) h
      simp [final_sendLedgerReplicationResponse hid, Node.post] at hsent

theorem TimeoutExit.fuc_eq {n : Node C} {result : EStateM.Result Err (Node C) Unit}
    (h : TimeoutExit lib conf env n result) : (final result).fuc = n.fuc :=
  h.preserves (fun m ↦ m.fuc) (fun _ _ _ ↦ rfl) (fun _ _ ↦ rfl) (fun _ _ _ ↦ rfl)

theorem VoteExit.fuc_eq {prop : BlockProposal} {uc : UnicityCertificate} {n : Node C}
    {result : EStateM.Result Err (Node C) Unit} (h : VoteExit lib conf env prop uc n result) :
    (final result).fuc = n.fuc :=
  h.preserves (fun m ↦ m.fuc) (fun _ _ _ ↦ rfl) (fun _ _ ↦ rfl) (fun _ _ _ ↦ rfl)

theorem startNewRound_fuc (n : Node C) (env : Env) : (n.startNewRound env).fuc = n.fuc := by
  rw [Node.startNewRound_toNodeState]

theorem startRecovery_fuc (n : Node C) (env : Env) :
    (n.startRecovery lib conf env).fuc = n.fuc := by
  by_cases hstatus : n.status = .recovering
  · rw [n.startRecovery_of_recovering lib conf env hstatus]
  · rw [n.startRecovery_toNodeState lib conf env hstatus]

theorem CertificateExit.fuc_eq {uc : UnicityCertificate} {prevLUC : Option UnicityCertificate}
    {wasInitializing : Bool} {m : Node C} {result : EStateM.Result Err (Node C) Unit}
    (h : CertificateExit lib conf env uc prevLUC wasInitializing m result) :
    (final result).fuc = m.fuc :=
  h.preserves (fun m ↦ m.fuc) (fun m ↦ startNewRound_fuc m env) (fun m ↦ startRecovery_fuc m env)
    (fun _ ↦ rfl) (fun _ _ ↦ rfl) fun hfinalize ↦ by cases hfinalize <;> rfl

theorem BlockExit.fuc_eq {n : Node C} {block : Option (Block C)}
    {result : EStateM.Result Err (Node C) Unit} (h : BlockExit lib conf env n block result) :
    (final result).fuc = n.fuc :=
  h.preserves lib conf (fun n ↦ n.fuc) (fun _ _ _ _ ↦ rfl) (fun _ ↦ rfl) fun _ _ _ _ ↦ rfl

/-- The first certificate never changes after the start. -/
theorem Segment.fuc_eq {guard : Guard C} {n n' : Node C} (h : Segment lib conf guard n n') :
    n'.fuc = n.fuc := by
  cases h with
  | quiet h => exact h.fuc
  | adopt hstatus htr hluc => cases hluc <;> rfl
  | certificate henv hstatus hguard htr haccepted hexit =>
    cases haccepted <;> exact hexit.fuc_eq
  | timeout henv hguard hexit => exact hexit.fuc_eq
  | vote henv hstatus hguard hvote => exact hvote.fuc_eq
  | block henv hstatus hexit => exact hexit.fuc_eq
  | finish henv hstatus hcomplete => exact startNewRound_fuc _ _
  | stop hstatus hcomplete => rfl

/-- The first certificate of a process is the one it restores. -/
theorem Starts.fuc_eq {store : BlockStore C} {n : Node C} (h : Starts lib conf store n) :
    n.fuc = n.committedUC := by
  obtain ⟨txConf, txSystem, env, nextEnv, _, hnew⟩ := h
  obtain ⟨shardConf, restored, _, _, hreplay⟩ := newNode_spec lib conf hnew
  cases hreplay <;> rfl

theorem fuc_runNode (start : Node C) (inputs : List (Input C)) :
    (runNode lib conf start inputs).fuc = start.fuc :=
  invariant_runNode (Guard.none_sound lib) (fun hinv hsegment ↦ hsegment.fuc_eq.trans hinv)
    rfl (Run.guarded_of_forall (fun n input ↦ Guard.none_admits lib conf n input) start inputs)

end Handler

/-- A process takes a valid request for a block of its shard that is not above the committed round
exactly when the block was finalized after the start of the process. A requester that cannot be
decoded gets no answer, whatever it asks for. -/
theorem serves_blocks_iff_since_start {lib : BaseLibrary C} {conf : NodeConf}
    {store : BlockStore C} {start : Node C} (hstart : Starts lib conf store start)
    (inputs : List (Input C)) {env : Env} {lr : LedgerReplicationRequest}
    (hvalid : LedgerReplicationRequest.isValid (some lr) = .ok ())
    (hown : lr.partitionID = (runNode lib conf start inputs).shardConf.partitionID ∧
      lr.shardID = (runNode lib conf start inputs).shardConf.shardID)
    (hlatest : lr.beginBlockNumber ≤ getRoundNumber (runNode lib conf start inputs).committedUC) :
    Taken lib env lr (runNode lib conf start inputs)
        ((handleLedgerReplicationRequest lib conf env (some lr)).run
          (runNode lib conf start inputs)) ↔
      getRoundNumber start.committedUC < lr.beginBlockNumber ∨
        ∃ err, lib.decodePeerID lr.nodeID = .error err := by
  have hfirst : (runNode lib conf start inputs).fuc = start.committedUC :=
    (fuc_runNode start inputs).trans hstart.fuc_eq
  by_cases hsince : getRoundNumber start.committedUC < lr.beginBlockNumber
  case pos =>
    refine iff_of_true ?_ (Or.inl hsince)
    exact handleLedgerReplicationRequest_taken hvalid hown (hfirst ▸ hsince) hlatest
  case neg =>
    rw [handleLedgerReplicationRequest_denied hvalid hown (hfirst ▸ not_lt.mp hsince),
      taken_of_denied_iff]
    exact (or_iff_right hsince).symm

section Reference

open Reference

namespace Reference

/-- A request of `B` for blocks in a range. -/
def rangeRequest (first last : UInt64) : LedgerReplicationRequest where
  partitionID := 1
  nodeID := "B"
  beginBlockNumber := first
  endBlockNumber := last

/-- A block that was certified in the fifth round. -/
def fifthBlock : Block UnicityCertificate :=
  { nextBlock with
    unicityCertificate := some (certify { nextRecord with roundNumber := 5 } 8 (technical 6 "A")) }

/-- A node that stores blocks of the second and the fifth round. -/
def server : Node UnicityCertificate :=
  (node.store (.writeBlock 2 finalizedBlock)).store (.writeBlock 5 fifthBlock)

theorem server_blockKeyed : BlockKeyed server.blockStore :=
  (blockKeyed_empty.writeBlock 2 finalizedBlock).writeBlock 5 fifthBlock

/-- The configuration of a validator that returns at most the given number of blocks. -/
def limited (maxReturnBlocks : UInt64) : NodeConf :=
  { conf "A" [1] with replicationConfig := { maxReturnBlocks := maxReturnBlocks } }

end Reference

/-- A node that has finalized its first block since its start takes a request for it. -/
theorem serves_finalized_block :
    Taken referenceLibrary (env 10) (rangeRequest 2 2)
      (runNode referenceLibrary (conf "A" [1]) node finalizing)
      ((handleLedgerReplicationRequest referenceLibrary (conf "A" [1]) (env 10)
        (some (rangeRequest 2 2))).run
          (runNode referenceLibrary (conf "A" [1]) node finalizing)) := by
  have hcommitted : getRoundNumber (runNode referenceLibrary (conf "A" [1]) node
      finalizing).committedUC = 2 := rfl
  have hconf : (runNode referenceLibrary (conf "A" [1]) node finalizing).shardConf =
      shardConf := rfl
  exact (serves_blocks_iff_since_start (starts_empty "A" [1]) finalizing rfl (hconf ▸ ⟨rfl, rfl⟩)
    (hcommitted ▸ by decide)).mpr (Or.inl (by decide))

/-- A node that was restarted after its first block still stores it, and denies having it. -/
theorem restarted_denies_stored_block :
    Reachable shardLibrary validators (conf "A" [1]) restarted ∧
      LedgerReplicationRequest.isValid (some (rangeRequest 2 2)) = .ok () ∧
      (rangeRequest 2 2).partitionID = restarted.shardConf.partitionID ∧
      (rangeRequest 2 2).shardID = restarted.shardConf.shardID ∧
      storedBlock restarted.blockStore 2 = some finalizedBlock ∧
      2 ≤ getRoundNumber restarted.committedUC ∧
      (handleLedgerReplicationRequest shardLibrary (conf "A" [1]) (env 10)
        (some (rangeRequest 2 2))).run restarted = .ok () (restarted.post (.replicationResponse
          { status := .blocksNotFound
            message := "Node does not have block: 2, first block: 3" }) ["B"]) :=
  ⟨reachable_restarted (Set.mem_insert _ _) [], rfl, rfl, rfl, rfl, by decide, rfl⟩

/-- A range that ends at a stored round is answered with its blocks. -/
theorem replication_response_slice_stored :
    final ((processReplicationRequest referenceLibrary (conf "A" [1]) (env 10)
        (rangeRequest 1 2)).run server) =
      server.post (.replicationResponse
        { blocks := some [some finalizedBlock], firstBlockNumber := 2, lastBlockNumber := 2 })
        ["B"] := by
  have hread : ∀ key, (env 10).readBlock key = .ok () := fun _ ↦ rfl
  have hid : referenceLibrary.decodePeerID (rangeRequest 1 2).nodeID = .ok "B" := rfl
  have hends : EndsInRange (conf "A" [1]) server.blockStore (rangeRequest 1 2) :=
    ⟨fun hzero ↦ absurd hzero (by decide), fun _ ↦ Or.inl rfl⟩
  exact (replication_response_slice_iff server_blockKeyed hread rfl (by decide) hid).mpr
    ⟨by decide, hends⟩

/-- A range that ends in a gap of the stored rounds is answered with the block above the gap as
well, a limit of zero with one block, and a limit of 2^63 not at all. -/
theorem replication_response_outside_range :
    BlockKeyed server.blockStore ∧
      LedgerReplicationRequest.isValid (some (rangeRequest 1 3)) = .ok () ∧
      requestedBlocks server.blockStore (rangeRequest 1 3) = [(2, finalizedBlock)] ∧
      final ((processReplicationRequest referenceLibrary (conf "A" [1]) (env 10)
        (rangeRequest 1 3)).run server) = server.post (.replicationResponse
          { blocks := some [some finalizedBlock, some fifthBlock]
            firstBlockNumber := 2
            lastBlockNumber := 5 }) ["B"] ∧
      (limited 0).replicationConfig.maxReturnBlocks = 0 ∧
      final ((processReplicationRequest referenceLibrary (limited 0) (env 10)
        (rangeRequest 1 3)).run server) = server.post (.replicationResponse
          { blocks := some [some finalizedBlock]
            firstBlockNumber := 2
            lastBlockNumber := 2 }) ["B"] ∧
      (processReplicationRequest referenceLibrary (limited 0x8000000000000000) (env 10)
        (rangeRequest 1 3)).run server =
          .error "runtime error: makeslice: cap out of range" server :=
  ⟨server_blockKeyed, rfl, rfl, rfl, rfl, rfl, processReplicationRequest_panics (by decide)⟩

end Reference

end FinalityGadget
