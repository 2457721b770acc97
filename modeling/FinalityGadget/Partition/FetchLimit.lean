import FinalityGadget.Partition.Serving

/-!
# The limit of a replication request

A recovering node asks for the blocks after its committed one, up to a configured number of them.
Its peers read the end of the range as included and zero as no end at all, while the node adds the
limit to the begin of the range with wrapping arithmetic. So the range is one round too long, or it
has no end, or it is not valid.
-/

namespace FinalityGadget

open Bytes Fallible

variable {C : Type}

/-- The rounds a request asks for. -/
def LedgerReplicationRequest.Asks (lr : LedgerReplicationRequest) (round : UInt64) : Prop :=
  lr.beginBlockNumber ≤ round ∧ (lr.endBlockNumber = 0 ∨ round ≤ lr.endBlockNumber)

/-- The stored rounds have no gaps. -/
def ConsecutiveRounds (store : BlockStore C) : Prop :=
  ∀ {first round last}, (storedBlock store first).isSome → (storedBlock store last).isSome →
    first ≤ round → round ≤ last → (storedBlock store round).isSome

/-- The request is valid, has an end, and asks for at most the given number of rounds, so that a
peer without gaps returns at most that many blocks. -/
structure WithinLimit (C : Type) (maxFetchBlocks : UInt64) (lr : LedgerReplicationRequest) :
    Prop where
  valid : LedgerReplicationRequest.isValid (some lr) = .ok ()
  bounded : lr.endBlockNumber ≠ 0
  rounds : ∀ rounds : List UInt64, rounds.Nodup → (∀ round ∈ rounds, lr.Asks round) →
    rounds.length ≤ maxFetchBlocks.toNat
  returned : ∀ (conf : NodeConf) (env : Env) (store : BlockStore C), BlockKeyed store →
    ConsecutiveRounds store →
    (fetchBlocks conf env lr (store.seek (blockKey lr.beginBlockNumber)) {}).blocks.length ≤
      maxFetchBlocks.toNat

/-- The rounds from the given one on, as many as said. -/
def roundsFrom (first : UInt64) (count : ℕ) : List UInt64 :=
  (List.range count).map fun i ↦ UInt64.ofNat (first.toNat + i)

theorem mem_roundsFrom {first round : UInt64} {count : ℕ}
    (hfits : first.toNat + count ≤ UInt64.size) :
    round ∈ roundsFrom first count ↔
      first.toNat ≤ round.toNat ∧ round.toNat < first.toNat + count := by
  rw [roundsFrom, List.mem_map]
  constructor
  · rintro ⟨i, hi, rfl⟩
    rw [List.mem_range] at hi
    rw [UInt64.toNat_ofNat_of_lt' (by omega)]
    omega
  · rintro ⟨hle, hlt⟩
    refine ⟨round.toNat - first.toNat, List.mem_range.mpr (by omega), ?_⟩
    rw [Nat.add_sub_cancel' hle, UInt64.ofNat_toNat]

theorem nodup_roundsFrom {first : UInt64} {count : ℕ}
    (hfits : first.toNat + count ≤ UInt64.size) : (roundsFrom first count).Nodup := by
  apply List.Nodup.map_on _ List.nodup_range
  intro i hi j hj heq
  rw [List.mem_range] at hi hj
  have hnat := congrArg UInt64.toNat heq
  rw [UInt64.toNat_ofNat_of_lt' (by omega), UInt64.toNat_ofNat_of_lt' (by omega)] at hnat
  omega

section Request

variable {lib : BaseLibrary C} {conf : NodeConf} {env : Env} {n : Node C}

/-- A valid request with an end does not wrap. -/
theorem replicationRequest_end_toNat
    (hvalid : LedgerReplicationRequest.isValid (some (n.replicationRequest lib conf env)) = .ok ())
    (hbounded : (n.replicationRequest lib conf env).endBlockNumber ≠ 0) :
    (n.replicationRequest lib conf env).endBlockNumber.toNat =
      (n.replicationRequest lib conf env).beginBlockNumber.toNat +
        conf.replicationConfig.maxFetchBlocks.toNat := by
  have hle := begin_le_end hvalid hbounded
  have hend : (n.replicationRequest lib conf env).endBlockNumber =
      (n.replicationRequest lib conf env).beginBlockNumber +
        conf.replicationConfig.maxFetchBlocks := rfl
  rw [UInt64.le_iff_toNat_le] at hle
  rw [hend, UInt64.toNat_add] at hle ⊢
  have hlimit := conf.replicationConfig.maxFetchBlocks.toNat_lt
  have hbegin := (n.replicationRequest lib conf env).beginBlockNumber.toNat_lt
  omega

/-- A valid request with an end asks for one round more than the limit. -/
theorem replicationRequest_asks
    (hvalid : LedgerReplicationRequest.isValid (some (n.replicationRequest lib conf env)) = .ok ())
    (hbounded : (n.replicationRequest lib conf env).endBlockNumber ≠ 0) (round : UInt64) :
    (n.replicationRequest lib conf env).Asks round ↔
      round ∈ roundsFrom (n.replicationRequest lib conf env).beginBlockNumber
        (conf.replicationConfig.maxFetchBlocks.toNat + 1) := by
  have hend := replicationRequest_end_toNat hvalid hbounded
  have hlt := (n.replicationRequest lib conf env).endBlockNumber.toNat_lt
  rw [mem_roundsFrom (by rw [UInt64.size]; omega), LedgerReplicationRequest.Asks,
    or_iff_right hbounded, UInt64.le_iff_toNat_le, UInt64.le_iff_toNat_le, hend]
  omega

end Request

/-- No request for blocks keeps to the limit of its sender. -/
theorem replication_request_exceeds_limit (lib : BaseLibrary C) (conf : NodeConf) (env : Env)
    (n : Node C) :
    ¬WithinLimit C conf.replicationConfig.maxFetchBlocks (n.replicationRequest lib conf env) := by
  rintro ⟨hvalid, hbounded, hrounds, _⟩
  have hend := replicationRequest_end_toNat hvalid hbounded
  have hlt := (n.replicationRequest lib conf env).endBlockNumber.toNat_lt
  have hfits : (n.replicationRequest lib conf env).beginBlockNumber.toNat +
      (conf.replicationConfig.maxFetchBlocks.toNat + 1) ≤ UInt64.size := by
    rw [UInt64.size]
    omega
  have hcount := hrounds _ (nodup_roundsFrom hfits) fun round hround ↦
    (replicationRequest_asks hvalid hbounded round).mpr hround
  rw [roundsFrom, List.length_map, List.length_range] at hcount
  omega

section Reference

open Reference

/-- The configuration of a validator that fetches at most the given number of blocks at once. -/
def fetching (maxFetchBlocks : UInt64) : NodeConf :=
  { conf "A" [1] with replicationConfig := { maxFetchBlocks := maxFetchBlocks } }

/-- A peer with the blocks of the first two rounds. -/
def twoRounds : BlockStore UnicityCertificate :=
  applyOps OrderedStore.empty [.writeBlock 1 finalizedBlock, .writeBlock 2 nextBlock]

theorem isSome_storedBlock_twoRounds (round : UInt64) :
    (storedBlock twoRounds round).isSome ↔ round = 1 ∨ round = 2 := by
  rw [twoRounds, applyOps, List.foldl_cons, List.foldl_cons, List.foldl_nil, storedBlock_apply]
  dsimp only
  rw [storedBlock_apply]
  dsimp only
  split_ifs <;> simp [*]

theorem consecutive_twoRounds : ConsecutiveRounds twoRounds := by
  intro first round last hfirst hlast hle hle'
  rw [isSome_storedBlock_twoRounds] at hfirst hlast ⊢
  rw [← UInt64.toNat_inj, ← UInt64.toNat_inj] at hfirst hlast ⊢
  rw [UInt64.le_iff_toNat_le] at hle hle'
  simp only [UInt64.reduceToNat] at hfirst hlast ⊢
  omega

/-- With a limit of one block the node asks for two and is sent both; with the largest limit it asks
for all blocks, or for a range that ends before it begins. -/
theorem fetch_limit_exceeded :
    (fetching 1).replicationConfig.maxFetchBlocks = 1 ∧ ConsecutiveRounds twoRounds ∧
      (fetchBlocks (conf "B" [2]) (env 10) (node.replicationRequest referenceLibrary (fetching 1)
        (env 10)) (twoRounds.seek (blockKey 1)) {}).blocks =
          [some finalizedBlock, some nextBlock] ∧
      (node.replicationRequest referenceLibrary (fetching 0xffffffffffffffff)
        (env 10)).endBlockNumber = 0 ∧
      LedgerReplicationRequest.isValid (some (restarted.replicationRequest referenceLibrary
        (fetching 0xffffffffffffffff) (env 10))) =
          .error "invalid block request range from 3 to 2" :=
  ⟨rfl, consecutive_twoRounds, rfl, rfl, rfl⟩

end Reference

end FinalityGadget
