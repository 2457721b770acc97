import FinalityGadget.Foundation.Run
import FinalityGadget.Partition.Node

/-!
# The store of shard configurations

One configuration is stored for each epoch, in a database and behind a cache that is filled by
reads. A new configuration is verified with the one of the epoch before, and nothing prevents an
epoch from being stored again. Whether the records still follow each other is then a matter of the
epoch above, which is not looked at.
-/

namespace FinalityGadget

open Bytes Fallible

/-! ## The store -/

abbrev ShardConfDB := OrderedStore (List UInt8) PartitionDescriptionRecord

structure ShardConfStore where
  db : ShardConfDB
  cache : UInt64 → Option PartitionDescriptionRecord := fun _ ↦ none

/-- How the database answers during one call. -/
structure ConfDBEnv where
  read : Except Err Unit := .ok ()
  write : Except Err Unit := .ok ()
  value : List UInt8 → Except Err Unit := fun _ ↦ .ok ()

/-- `PartitionDescriptionRecord.Verify`, which belongs to the base library. -/
abbrev ConfVerify :=
  PartitionDescriptionRecord → Option PartitionDescriptionRecord → Except Err Unit

abbrev ConfM := EStateM Err ShardConfStore

def epochToKey (epoch : UInt64) : List UInt8 := uint64ToBytes epoch

/-- The configuration in the database for an epoch. -/
def storedConf (db : ShardConfDB) (epoch : UInt64) : Option PartitionDescriptionRecord :=
  db.find? (epochToKey epoch)

/-- The loop of `verifyDb`. The record that all others are compared with is the first one. -/
def verifyEntries (env : ConfDBEnv) : Option PartitionDescriptionRecord →
    List (List UInt8 × PartitionDescriptionRecord) → Except Err Unit
  | _, [] => .ok ()
  | prev, (key, shardConf) :: rest => do
    let epoch := bytesToUint64 key
    (env.value key).mapError fun err ↦ s!"failed to read shard conf for epoch {epoch}: {err}"
    let first := prev.getD shardConf
    require (first.networkID = shardConf.networkID)
      s!"inconsistent network id in shard conf for epoch {epoch}"
    require (first.partitionTypeID = shardConf.partitionTypeID)
      s!"inconsistent partition type id in shard conf for epoch {epoch}"
    require (first.partitionID = shardConf.partitionID)
      s!"inconsistent partition id in shard conf for epoch {epoch}"
    require (first.shardID = shardConf.shardID)
      s!"inconsistent shard id in shard conf for epoch {epoch}"
    verifyEntries env (some first) rest

def verifyDb (env : ConfDBEnv) (db : ShardConfDB) : Except Err Unit :=
  verifyEntries env none db.entries

def newShardConfStore (env : ConfDBEnv) (db : ShardConfDB) : Except Err ShardConfStore := do
  (verifyDb env db).mapError fun err ↦ s!"failed to verify shard conf store: {err}"
  pure { db := db }

/-- The answer of `load` to what the database holds. -/
def loaded : Option PartitionDescriptionRecord → Except Err PartitionDescriptionRecord
  | none => .error "shard conf not found"
  | some shardConf => .ok shardConf

namespace ShardConfStore

def load (s : ShardConfStore) (env : ConfDBEnv) (epoch : UInt64) :
    Except Err PartitionDescriptionRecord := do
  env.read.mapError fun err ↦ s!"reading shard conf: {err}"
  loaded (storedConf s.db epoch)

/-- The configuration of the epoch before, if there is one. -/
def loadPrevious (s : ShardConfStore) (env : ConfDBEnv) (epoch : UInt64) :
    Except Err (Option PartitionDescriptionRecord) :=
  if 0 < epoch then
    match s.load env (epoch - 1) with
    | .ok shardConf => .ok (some shardConf)
    | .error err => .error s!"failed to load shard conf for previous epoch {epoch - 1}: {err}"
  else .ok none

def store (verify : ConfVerify) (env : ConfDBEnv) (shardConf : PartitionDescriptionRecord) :
    ConfM Unit := do
  let s ← get
  let prevShardConf ← ofExcept id (s.loadPrevious env shardConf.epoch)
  ofExcept (fun err ↦ s!"failed to verify shard conf for epoch {shardConf.epoch}: {err}")
    (verify shardConf prevShardConf)
  ofExcept (fun err ↦ s!"saving shard conf for epoch {shardConf.epoch}: {err}") env.write
  modify fun s ↦ { s with db := s.db.insert (epochToKey shardConf.epoch) shardConf }

def fill (s : ShardConfStore) (epoch : UInt64) (shardConf : PartitionDescriptionRecord) :
    ShardConfStore :=
  { s with cache := Function.update s.cache epoch (some shardConf) }

/-- Both looks into the cache find the same when nothing runs in between. -/
def get (env : ConfDBEnv) (epoch : UInt64) : ConfM PartitionDescriptionRecord := do
  let s ← MonadState.get
  match s.cache epoch with
  | some shardConf => return shardConf
  | none =>
    let shardConf ← ofExcept id (s.load env epoch)
    modify fun s ↦ s.fill epoch shardConf
    return shardConf

def getFirst (env : ConfDBEnv) : ConfM PartitionDescriptionRecord := do
  let s ← MonadState.get
  match s.db.entries.head? with
  | none => throw "empty shard conf db"
  | some (key, _) => get env (bytesToUint64 key)

end ShardConfStore

/-! ## Records under their epochs -/

theorem epochToKey_inj {first second : UInt64} :
    epochToKey first = epochToKey second ↔ first = second := uint64ToBytes_inj

theorem epochToKey_le_iff {first second : UInt64} :
    epochToKey first ≤ epochToKey second ↔ first ≤ second := by
  rw [← not_lt, epochToKey, epochToKey, uint64ToBytes_lt, UInt64.not_lt]

theorem storedConf_insert (db : ShardConfDB) (shardConf : PartitionDescriptionRecord) :
    storedConf (db.insert (epochToKey shardConf.epoch) shardConf) =
      Function.update (storedConf db) shardConf.epoch (some shardConf) := by
  funext epoch
  by_cases heq : epoch = shardConf.epoch
  · subst heq
    rw [Function.update_self, storedConf, OrderedStore.find?_insert_self]
  · rw [Function.update_of_ne heq, storedConf,
      OrderedStore.find?_insert_of_ne _ _ fun h ↦ heq (epochToKey_inj.mp h)]
    rfl

theorem loaded_eq_ok_iff {stored : Option PartitionDescriptionRecord}
    {shardConf : PartitionDescriptionRecord} :
    loaded stored = .ok shardConf ↔ stored = some shardConf := by
  cases stored with
  | none => simp [loaded]
  | some stored => simp [loaded]

theorem loaded_injective : Function.Injective loaded := by
  intro first second heq
  cases second with
  | some shardConf => exact loaded_eq_ok_iff.mp heq
  | none =>
    cases first with
    | none => rfl
    | some shardConf => cases heq

theorem load_eq_ok_iff {s : ShardConfStore} {env : ConfDBEnv} {epoch : UInt64}
    {shardConf : PartitionDescriptionRecord} :
    s.load env epoch = .ok shardConf ↔
      env.read = .ok () ∧ storedConf s.db epoch = some shardConf := by
  rw [ShardConfStore.load, bind_eq_ok]
  constructor
  · rintro ⟨⟨⟩, hread, hloaded⟩
    exact ⟨mapError_eq_ok.mp hread, loaded_eq_ok_iff.mp hloaded⟩
  · rintro ⟨hread, hstored⟩
    exact ⟨(), mapError_eq_ok.mpr hread, loaded_eq_ok_iff.mpr hstored⟩

theorem run_get_eq (s : ShardConfStore) (env : ConfDBEnv) (epoch : UInt64) :
    (ShardConfStore.get env epoch).run s =
      match s.cache epoch with
      | some shardConf => .ok shardConf s
      | none =>
        match s.load env epoch with
        | .ok shardConf => .ok shardConf (s.fill epoch shardConf)
        | .error err => .error err s := by
  have hrun : (ShardConfStore.get env epoch).run s =
      (match s.cache epoch with
      | some shardConf => pure shardConf
      | none => do
        let shardConf ← ofExcept id (s.load env epoch)
        modify fun s ↦ s.fill epoch shardConf
        pure shardConf : ConfM PartitionDescriptionRecord).run s := rfl
  rw [hrun]
  cases s.cache epoch with
  | some shardConf => rfl
  | none => cases s.load env epoch <;> rfl

theorem run_getFirst_eq (s : ShardConfStore) (env : ConfDBEnv) :
    (ShardConfStore.getFirst env).run s =
      match s.db.entries.head? with
      | none => .error "empty shard conf db" s
      | some entry => (ShardConfStore.get env (bytesToUint64 entry.1)).run s := by
  have hrun : (ShardConfStore.getFirst env).run s =
      (match s.db.entries.head? with
      | none => throw "empty shard conf db"
      | some (key, _) => ShardConfStore.get env (bytesToUint64 key)).run s := rfl
  rw [hrun]
  cases s.db.entries.head? <;> rfl

section Storing

variable {verify : ConfVerify}

/-- The conditions under which a call of `Store` succeeds. -/
def Storable (verify : ConfVerify) (env : ConfDBEnv) (s : ShardConfStore)
    (shardConf : PartitionDescriptionRecord) : Prop :=
  (∃ prev, s.loadPrevious env shardConf.epoch = .ok prev ∧ verify shardConf prev = .ok ()) ∧
    env.write = .ok ()

inductive StoreExit (verify : ConfVerify) (env : ConfDBEnv) (s : ShardConfStore)
    (shardConf : PartitionDescriptionRecord) : EStateM.Result Err ShardConfStore Unit → Prop
  | refused (err : Err) (hrefused : ¬Storable verify env s shardConf) :
      StoreExit verify env s shardConf (.error err s)
  | stored (hstorable : Storable verify env s shardConf) :
      StoreExit verify env s shardConf
        (.ok () { s with db := s.db.insert (epochToKey shardConf.epoch) shardConf })

theorem store_spec (env : ConfDBEnv) (s : ShardConfStore)
    (shardConf : PartitionDescriptionRecord) :
    StoreExit verify env s shardConf ((ShardConfStore.store verify env shardConf).run s) := by
  unfold ShardConfStore.store
  refine exec_get (exec_ofExcept ?_ ?_)
  · rintro err hload
    refine .refused _ ?_
    rintro ⟨⟨prev, hprev, -⟩, -⟩
    rw [hload] at hprev
    cases hprev
  · rintro prev hload
    refine exec_ofExcept ?_ ?_
    · rintro err hverify
      refine .refused _ ?_
      rintro ⟨⟨prev', hprev, hok⟩, -⟩
      obtain rfl : prev = prev' := Except.ok.inj (hload.symm.trans hprev)
      rw [hverify] at hok
      cases hok
    · rintro ⟨⟩ hverify
      refine exec_ofExcept ?_ ?_
      · rintro err hwrite
        refine .refused _ ?_
        rintro ⟨-, hok⟩
        rw [hwrite] at hok
        cases hok
      · rintro ⟨⟩ hwrite
        exact .stored ⟨⟨prev, hload, hverify⟩, hwrite⟩

/-- A record above the first epoch is stored only on top of a stored one that it was verified
with. -/
theorem Storable.previous {env : ConfDBEnv} {s : ShardConfStore}
    {shardConf : PartitionDescriptionRecord} (h : Storable verify env s shardConf)
    (hpos : 0 < shardConf.epoch) :
    ∃ prev, storedConf s.db (shardConf.epoch - 1) = some prev ∧
      verify shardConf (some prev) = .ok () := by
  obtain ⟨⟨prev, hload, hverify⟩, -⟩ := h
  rw [ShardConfStore.loadPrevious, if_pos hpos] at hload
  cases hstored : s.load env (shardConf.epoch - 1) with
  | error err =>
    rw [hstored] at hload
    cases hload
  | ok stored =>
    rw [hstored] at hload
    cases hload
    exact ⟨stored, (load_eq_ok_iff.mp hstored).2, hverify⟩

end Storing

/-! ## One chain of epochs -/

/-- The records belong to one shard of one partition. -/
def SameIDs (first second : PartitionDescriptionRecord) : Prop :=
  first.networkID = second.networkID ∧ first.partitionTypeID = second.partitionTypeID ∧
    first.partitionID = second.partitionID ∧ first.shardID = second.shardID

instance (first second : PartitionDescriptionRecord) : Decidable (SameIDs first second) :=
  inferInstanceAs (Decidable (_ ∧ _))

theorem SameIDs.refl (shardConf : PartitionDescriptionRecord) : SameIDs shardConf shardConf :=
  ⟨rfl, rfl, rfl, rfl⟩

theorem SameIDs.symm {first second : PartitionDescriptionRecord} (h : SameIDs first second) :
    SameIDs second first :=
  ⟨h.1.symm, h.2.1.symm, h.2.2.1.symm, h.2.2.2.symm⟩

theorem SameIDs.trans {first second third : PartitionDescriptionRecord}
    (h : SameIDs first second) (h' : SameIDs second third) : SameIDs first third :=
  ⟨h.1.trans h'.1, h.2.1.trans h'.2.1, h.2.2.1.trans h'.2.2.1, h.2.2.2.trans h'.2.2.2⟩

/-- What `Verify` promises when there is a previous record. -/
def FollowsPrevious (verify : ConfVerify) : Prop :=
  ∀ next prev, verify next (some prev) = .ok () →
    SameIDs prev next ∧ next.epoch = prev.epoch + 1

/-- The loop accepts exactly the records that can be read and belong to the shard of the first. -/
theorem verifyEntries_eq_ok_iff {env : ConfDBEnv} {first : PartitionDescriptionRecord}
    {entries : List (List UInt8 × PartitionDescriptionRecord)} :
    verifyEntries env (some first) entries = .ok () ↔
      ∀ entry ∈ entries, env.value entry.1 = .ok () ∧ SameIDs first entry.2 := by
  induction entries with
  | nil => exact iff_of_true rfl (by simp)
  | cons entry entries ih =>
    simp only [verifyEntries, Option.getD_some, bind_eq_ok, mapError_eq_ok, require_eq_ok,
      exists_and_left, exists_const, ih, List.forall_mem_cons, SameIDs]
    tauto

theorem verifyDb_eq_ok_iff {env : ConfDBEnv} {db : ShardConfDB} :
    verifyDb env db = .ok () ↔
      ∀ entry ∈ db.entries, env.value entry.1 = .ok () ∧
        ∀ other ∈ db.entries, SameIDs entry.2 other.2 := by
  unfold verifyDb
  cases db.entries with
  | nil => exact iff_of_true rfl (by simp)
  | cons entry entries =>
    have hfirst : verifyEntries env none (entry :: entries) =
        verifyEntries env (some entry.2) (entry :: entries) := rfl
    rw [hfirst, verifyEntries_eq_ok_iff]
    constructor
    · intro h other hother
      refine ⟨(h other hother).1, fun third hthird ↦ ?_⟩
      exact (h other hother).2.symm.trans (h third hthird).2
    · intro h other hother
      exact ⟨(h other hother).1, (h entry List.mem_cons_self).2 other hother⟩

section Chain

variable {verify : ConfVerify} {db : ShardConfDB}

/-- What `Store` builds as long as it does not replace a record under its successor: no epoch is
left out, and each record was verified with the one below. -/
structure EpochChain (verify : ConfVerify) (db : ShardConfDB) : Prop where
  own : ∀ {key shardConf}, db.find? key = some shardConf → key = epochToKey shardConf.epoch
  closed : ∀ {epoch lower}, (storedConf db epoch).isSome → lower ≤ epoch →
    (storedConf db lower).isSome
  adjacent : ∀ {epoch prev next}, epoch < epoch + 1 → storedConf db epoch = some prev →
    storedConf db (epoch + 1) = some next → verify next (some prev) = .ok ()

/-- The database holds one consistent chain of epochs, and the node can start from it. -/
structure ConsistentChain (verify : ConfVerify) (db : ShardConfDB) : Prop where
  epochs : (∀ epoch, storedConf db epoch = none) ∨
    ∃ last, ∀ epoch, (storedConf db epoch).isSome ↔ epoch ≤ last
  own : ∀ {key shardConf}, db.find? key = some shardConf → key = epochToKey shardConf.epoch
  adjacent : ∀ {epoch prev next}, epoch < epoch + 1 → storedConf db epoch = some prev →
    storedConf db (epoch + 1) = some next → verify next (some prev) = .ok ()
  reopens : ∃ s, newShardConfStore {} db = .ok s ∧ ∀ first, storedConf db 0 = some first →
    answer ((ShardConfStore.getFirst {}).run s) = .ok first

theorem epochChain_empty : EpochChain verify OrderedStore.empty := by
  constructor
  · intro key shardConf hfind
    cases hfind
  · intro epoch lower hstored
    cases hstored
  · intro epoch prev next _ hprev
    cases hprev

theorem epoch_induction {P : UInt64 → Prop} (zero : P 0)
    (succ : ∀ epoch, epoch < epoch + 1 → P epoch → P (epoch + 1)) (epoch : UInt64) : P epoch := by
  induction h : epoch.toNat generalizing epoch with
  | zero =>
    obtain rfl : epoch = 0 := UInt64.toNat_inj.mp h
    exact zero
  | succ n ih =>
    have hle : 1 ≤ epoch := by
      rw [UInt64.le_iff_toNat_le, h]
      exact Nat.le_add_left 1 n
    have hpred : (epoch - 1).toNat = n := by
      rw [UInt64.toNat_sub_of_le _ _ hle, h]
      rfl
    have hnext := succ (epoch - 1) (by grind) (ih _ hpred)
    rwa [show epoch - 1 + 1 = epoch by grind] at hnext

namespace EpochChain

theorem storedConf_own (h : EpochChain verify db) {key : List UInt8}
    {shardConf : PartitionDescriptionRecord} (hfind : db.find? key = some shardConf) :
    storedConf db shardConf.epoch = some shardConf := by
  rwa [storedConf, ← h.own hfind]

/-- Verification carries the ids of the first record up the chain. -/
theorem sameIDs_first (h : EpochChain verify db) (hlaw : FollowsPrevious verify)
    {first : PartitionDescriptionRecord} (hfirst : storedConf db 0 = some first)
    (epoch : UInt64) :
    ∀ shardConf, storedConf db epoch = some shardConf → SameIDs first shardConf := by
  induction epoch using epoch_induction with
  | zero =>
    intro shardConf hstored
    obtain rfl : first = shardConf := Option.some.inj (hfirst.symm.trans hstored)
    exact SameIDs.refl first
  | succ epoch hlt ih =>
    intro next hnext
    have hbelow : (storedConf db epoch).isSome := h.closed (Option.isSome_of_eq_some hnext) hlt.le
    obtain ⟨prev, hprev⟩ := Option.isSome_iff_exists.mp hbelow
    exact (ih prev hprev).trans (hlaw next prev (h.adjacent hlt hprev hnext)).1

theorem epochs (h : EpochChain verify db) : (∀ epoch, storedConf db epoch = none) ∨
    ∃ last, ∀ epoch, (storedConf db epoch).isSome ↔ epoch ≤ last := by
  cases hlast : db.last? with
  | none => exact Or.inl fun epoch ↦ OrderedStore.last?_eq_none_iff.mp hlast _
  | some entry =>
    obtain ⟨hfind, hgreatest⟩ := OrderedStore.last?_eq_some_iff.mp hlast
    rw [h.own hfind] at hgreatest
    refine Or.inr ⟨entry.2.epoch, fun epoch ↦ ⟨fun hstored ↦ ?_, fun hle ↦ ?_⟩⟩
    · exact epochToKey_le_iff.mp (hgreatest _ hstored)
    · exact h.closed (Option.isSome_of_eq_some (h.storedConf_own hfind)) hle

/-- The first key of a chain is the one of epoch 0. -/
theorem head_eq (h : EpochChain verify db) {first : PartitionDescriptionRecord}
    (hfirst : storedConf db 0 = some first) :
    db.entries.head? = some (epochToKey 0, first) := by
  have hmem := OrderedStore.find?_eq_some_iff.mp hfirst
  have hsorted := db.sorted
  have hown : ∀ entry ∈ db.entries, entry.1 = epochToKey entry.2.epoch := fun entry hentry ↦
    h.own (OrderedStore.find?_eq_some_iff.mpr hentry)
  cases hentries : db.entries with
  | nil =>
    rw [hentries] at hmem
    cases hmem
  | cons entry entries =>
    rw [hentries] at hmem hsorted hown
    rcases List.mem_cons.mp hmem with heq | hrest
    · rw [← heq]
      rfl
    · -- no key is below the one of epoch 0
      have hlt := (List.pairwise_cons.mp hsorted).1 _ hrest
      rw [hown entry List.mem_cons_self, epochToKey, epochToKey, uint64ToBytes_lt] at hlt
      exact absurd hlt UInt64.not_lt_zero

theorem reopens (h : EpochChain verify db) (hlaw : FollowsPrevious verify) :
    newShardConfStore {} db = .ok { db := db } := by
  have hverify : verifyDb {} db = .ok () := by
    rw [verifyDb_eq_ok_iff]
    intro entry hentry
    have hfirst : (storedConf db 0).isSome := by
      have hstored := h.storedConf_own (OrderedStore.find?_eq_some_iff.mpr hentry)
      exact h.closed (Option.isSome_of_eq_some hstored) UInt64.zero_le
    obtain ⟨first, hfirst⟩ := Option.isSome_iff_exists.mp hfirst
    have hids : ∀ other ∈ db.entries, SameIDs first other.2 := by
      intro other hother
      have hstored := h.storedConf_own (OrderedStore.find?_eq_some_iff.mpr hother)
      exact h.sameIDs_first hlaw hfirst _ _ hstored
    exact ⟨rfl, fun other hother ↦ (hids entry hentry).symm.trans (hids other hother)⟩
  rw [newShardConfStore, hverify]
  rfl

theorem getFirst_eq (h : EpochChain verify db) {first : PartitionDescriptionRecord}
    (hfirst : storedConf db 0 = some first) :
    answer ((ShardConfStore.getFirst {}).run { db := db }) = .ok first := by
  have hload : ShardConfStore.load { db := db } {} 0 = .ok first :=
    load_eq_ok_iff.mpr ⟨rfl, hfirst⟩
  have hepoch : bytesToUint64 (epochToKey 0) = 0 := bytesToUint64_uint64ToBytes 0
  rw [run_getFirst_eq, h.head_eq hfirst]
  dsimp only
  rw [hepoch, run_get_eq, hload]
  rfl

end EpochChain

theorem consistentChain_iff (hlaw : FollowsPrevious verify) :
    ConsistentChain verify db ↔ EpochChain verify db := by
  constructor
  · intro h
    refine ⟨h.own, fun hstored hle ↦ ?_, h.adjacent⟩
    rcases h.epochs with hnone | ⟨last, hlast⟩
    · rw [hnone] at hstored
      cases hstored
    · exact (hlast _).mpr (hle.trans ((hlast _).mp hstored))
  · intro h
    exact ⟨h.epochs, h.own, h.adjacent, _, h.reopens hlaw, fun first hfirst ↦ h.getFirst_eq hfirst⟩

/-! ### Storing an epoch again -/

def storeStep (verify : ConfVerify) (s : ShardConfStore)
    (call : ConfDBEnv × PartitionDescriptionRecord) : ShardConfStore :=
  final ((ShardConfStore.store verify call.1 call.2).run s)

/-- A record that is stored below another one is one that the other can be verified with. -/
def KeepsSuccessor (verify : ConfVerify) (s : ShardConfStore)
    (call : ConfDBEnv × PartitionDescriptionRecord) : Prop :=
  Storable verify call.1 s call.2 → ∀ next, call.2.epoch < call.2.epoch + 1 →
    storedConf s.db (call.2.epoch + 1) = some next → verify next (some call.2) = .ok ()

theorem EpochChain.insert (h : EpochChain verify db) {shardConf : PartitionDescriptionRecord}
    (hprev : 0 < shardConf.epoch → ∃ prev, storedConf db (shardConf.epoch - 1) = some prev ∧
      verify shardConf (some prev) = .ok ())
    (hnext : ∀ next, shardConf.epoch < shardConf.epoch + 1 →
      storedConf db (shardConf.epoch + 1) = some next → verify next (some shardConf) = .ok ()) :
    EpochChain verify (db.insert (epochToKey shardConf.epoch) shardConf) := by
  constructor
  · intro key stored hfind
    by_cases heq : key = epochToKey shardConf.epoch
    · subst heq
      rw [OrderedStore.find?_insert_self] at hfind
      cases hfind
      rfl
    · rw [OrderedStore.find?_insert_of_ne _ _ heq] at hfind
      exact h.own hfind
  · intro epoch lower hstored hle
    rw [storedConf_insert] at hstored ⊢
    by_cases hlower : lower = shardConf.epoch
    · rw [hlower, Function.update_self]
      rfl
    rw [Function.update_of_ne hlower]
    by_cases heq : epoch = shardConf.epoch
    · -- everything below the new record was there, since the record just below it was
      subst heq
      have hlt : lower < shardConf.epoch := lt_of_le_of_ne hle hlower
      obtain ⟨prev, hstored, -⟩ := hprev (by grind)
      exact h.closed (Option.isSome_of_eq_some hstored) (by grind)
    · rw [Function.update_of_ne heq] at hstored
      exact h.closed hstored hle
  · intro epoch prev next hlt hstored hstored'
    rw [storedConf_insert] at hstored hstored'
    by_cases heq : epoch = shardConf.epoch
    · subst heq
      rw [Function.update_self] at hstored
      rw [Function.update_of_ne hlt.ne'] at hstored'
      cases hstored
      exact hnext next hlt hstored'
    rw [Function.update_of_ne heq] at hstored
    by_cases heq' : epoch + 1 = shardConf.epoch
    · rw [heq', Function.update_self] at hstored'
      cases hstored'
      obtain ⟨below, hbelow, hverify⟩ := hprev (by grind)
      rw [show shardConf.epoch - 1 = epoch by grind, hstored] at hbelow
      cases hbelow
      exact hverify
    · rw [Function.update_of_ne heq'] at hstored'
      exact h.adjacent hlt hstored hstored'

theorem EpochChain.step_iff (s : ShardConfStore)
    (call : ConfDBEnv × PartitionDescriptionRecord) (h : EpochChain verify s.db) :
    EpochChain verify (storeStep verify s call).db ↔ KeepsSuccessor verify s call := by
  have hexit : StoreExit verify call.1 s call.2 _ := store_spec call.1 s call.2
  unfold storeStep
  generalize (ShardConfStore.store verify call.1 call.2).run s = result at hexit ⊢
  cases hexit with
  | refused err hrefused => exact iff_of_true h fun hstorable ↦ absurd hstorable hrefused
  | stored hstorable =>
    constructor
    · intro hchain _ next hlt hnext
      refine hchain.adjacent hlt ?_ ?_
      · rw [final_ok, storedConf_insert, Function.update_self]
      · rw [final_ok, storedConf_insert, Function.update_of_ne hlt.ne', hnext]
    · intro hkeeps
      exact h.insert hstorable.previous (hkeeps hstorable)

/-- The store holds one consistent chain after every call exactly when no call replaces a record
whose successor does not follow the new one. -/
theorem epoch_chain_consistent_iff (hlaw : FollowsPrevious verify)
    (calls : List (ConfDBEnv × PartitionDescriptionRecord)) :
    (∀ before, before <+: calls →
      ConsistentChain verify (Run.run (storeStep verify) { db := OrderedStore.empty } before).db) ↔
    Run.Guarded (storeStep verify) (KeepsSuccessor verify) { db := OrderedStore.empty } calls := by
  have hchain : (∀ before, before <+: calls →
      EpochChain verify (Run.run (storeStep verify) { db := OrderedStore.empty } before).db) ↔
      Run.Guarded (storeStep verify) (KeepsSuccessor verify) { db := OrderedStore.empty } calls :=
    Run.forall_prefix_iff_guarded EpochChain.step_iff calls epochChain_empty
  rw [← hchain]
  exact forall₂_congr fun _ _ ↦ consistentChain_iff hlaw

end Chain

namespace Reference

/-- A verification that asks for the ids of the previous record and for the epoch after it. -/
def verifyConf (next : PartitionDescriptionRecord) :
    Option PartitionDescriptionRecord → Except Err Unit
  | none => .ok ()
  | some prev => require (SameIDs prev next ∧ next.epoch = prev.epoch + 1) "invalid shard conf"

theorem verifyConf_law : FollowsPrevious verifyConf := by
  intro next prev hverify
  exact require_eq_ok.mp hverify

def firstConf : PartitionDescriptionRecord := { partitionID := 8, epoch := 0 }

def secondConf : PartitionDescriptionRecord := { partitionID := 8, epoch := 1 }

/-- The same files stored again at the next start. -/
def twoStarts : List (ConfDBEnv × PartitionDescriptionRecord) :=
  [({}, firstConf), ({}, secondConf), ({}, firstConf), ({}, secondConf)]

/-- A record for epoch 0 of another partition. -/
def otherConf : PartitionDescriptionRecord := { partitionID := 9, epoch := 0 }

end Reference

open Reference

theorem epoch_chain_consistent_iff_twoStarts :
    ConsistentChain verifyConf
      (Run.run (storeStep verifyConf) { db := OrderedStore.empty } twoStarts).db := by
  have hguarded : Run.Guarded (storeStep verifyConf) (KeepsSuccessor verifyConf)
      { db := OrderedStore.empty } twoStarts := by
    refine ⟨?_, ?_, ?_, ?_, trivial⟩
    · intro _ next _ hnext
      cases hnext
    · intro _ next _ hnext
      cases hnext
    · -- the second record follows the first one that is stored again below it
      intro _ next _ hnext
      cases hnext
      rfl
    · intro _ next _ hnext
      cases hnext
  exact (epoch_chain_consistent_iff verifyConf_law twoStarts).mpr hguarded _ (List.prefix_refl _)

/-- Epoch 0 is replaced by a record of another partition, which is verified with nothing. The store
cannot be opened again. -/
theorem replaced_epoch_breaks_chain :
    let db := (Run.run (storeStep verifyConf) { db := OrderedStore.empty }
      [({}, firstConf), ({}, secondConf), ({}, otherConf)]).db
    FollowsPrevious verifyConf ∧ storedConf db 0 = some otherConf ∧
      storedConf db 1 = some secondConf ∧
      verifyConf secondConf (some otherConf) = .error "invalid shard conf" ∧
      newShardConfStore {} db = .error ("failed to verify shard conf store: " ++
        "inconsistent partition id in shard conf for epoch 1") ∧
      ¬ConsistentChain verifyConf db := by
  refine ⟨verifyConf_law, rfl, rfl, rfl, rfl, fun h ↦ ?_⟩
  obtain ⟨s, hnew, -⟩ := h.reopens
  cases hnew

end FinalityGadget
