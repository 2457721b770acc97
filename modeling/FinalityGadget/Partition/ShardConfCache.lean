import FinalityGadget.Foundation.ReadThrough
import FinalityGadget.Partition.ShardConfStore

/-!
# The cache of shard configurations

`Get` fills the cache and `Store` does not know about it. The store is shared: reads exclude each
other by a lock, and a configuration may be stored while a read is between the database and the
cache. A cached record is never looked up again, so what a read returns is what was stored last
only as long as nothing is stored over a cached record.
-/

namespace FinalityGadget

open Bytes Fallible

/-! ## A shared store -/

/-- A store shared by its callers. `loading` is what a `Get` has read from the database and not yet
put into the cache. It holds the lock until it has, so other reads wait; `Store` takes no lock. -/
structure SharedConfStore where
  store : ShardConfStore
  loading : Option (UInt64 × PartitionDescriptionRecord) := none

inductive ConfStep where
  | store (env : ConfDBEnv) (shardConf : PartitionDescriptionRecord)
  /-- A `Get`, from its second look into the cache to its read of the database. -/
  | load (env : ConfDBEnv) (epoch : UInt64)
  | loadFirst (env : ConfDBEnv)
  /-- The rest of the `Get` that holds the lock. -/
  | fill

namespace SharedConfStore

def load (p : SharedConfStore) (env : ConfDBEnv) (epoch : UInt64) : SharedConfStore :=
  match p.loading, p.store.cache epoch, p.store.load env epoch with
  | none, none, .ok shardConf => { p with loading := some (epoch, shardConf) }
  | _, _, _ => p

def fill (p : SharedConfStore) : SharedConfStore :=
  match p.loading with
  | none => p
  | some (epoch, shardConf) => { store := p.store.fill epoch shardConf }

def step (verify : ConfVerify) (p : SharedConfStore) : ConfStep → SharedConfStore
  | .store env shardConf =>
    { p with store := final ((ShardConfStore.store verify env shardConf).run p.store) }
  | .load env epoch => p.load env epoch
  | .loadFirst env =>
    match p.store.db.entries.head? with
    | none => p
    | some (key, _) => p.load env (bytesToUint64 key)
  | .fill => p.fill

theorem fill_of_idle {p : SharedConfStore} (hidle : p.loading = none) : p.fill = p := by
  unfold fill
  rw [hidle]

theorem loading_fill (p : SharedConfStore) : p.fill.loading = none := by
  unfold fill
  cases hloading : p.loading with
  | none => exact hloading
  | some entry => rfl

theorem db_fill (p : SharedConfStore) : p.fill.store.db = p.store.db := by
  unfold fill
  cases p.loading <;> rfl

/-- With nothing in between, the two halves are a call of `Get`. -/
theorem fill_load (s : ShardConfStore) (env : ConfDBEnv) (epoch : UInt64) :
    (({ store := s } : SharedConfStore).load env epoch).fill =
      { store := final ((ShardConfStore.get env epoch).run s) } := by
  rw [run_get_eq]
  unfold load
  cases s.cache epoch with
  | some shardConf => rfl
  | none => cases s.load env epoch <;> rfl

end SharedConfStore

section Cache

open SharedConfStore

variable {verify : ConfVerify}

theorem answer_get (s : ShardConfStore) (epoch : UInt64) :
    answer ((ShardConfStore.get {} epoch).run s) =
      loaded (ReadThrough.lookup s.cache (storedConf s.db) epoch) := by
  rw [run_get_eq, ReadThrough.lookup]
  cases s.cache epoch with
  | some shardConf => rfl
  | none =>
    have hload : s.load {} epoch = loaded (storedConf s.db epoch) := rfl
    rw [hload]
    cases storedConf s.db epoch <;> rfl

/-- The configuration that a step stores. -/
def storedBy (verify : ConfVerify) (p : SharedConfStore) :
    ConfStep → Option PartitionDescriptionRecord
  | .store env shardConf =>
    (value? ((ShardConfStore.store verify env shardConf).run p.store)).map fun _ ↦ shardConf
  | _ => none

/-- The configuration that was most recently stored for an epoch, `last` if none was. -/
def lastStored (verify : ConfVerify) (epoch : UInt64) : SharedConfStore →
    Option PartitionDescriptionRecord → List ConfStep → Option PartitionDescriptionRecord
  | _, last, [] => last
  | p, last, step :: steps =>
    let last := ((storedBy verify p step).filter fun stored ↦ stored.epoch = epoch).or last
    lastStored verify epoch (p.step verify step) last steps

/-- A configuration is stored only when the cache holds nothing else for its epoch, the read that is
under way counted in. -/
def StoresUncached (verify : ConfVerify) (p : SharedConfStore) : ConfStep → Prop
  | .store env shardConf => Storable verify env p.store shardConf →
    p.fill.store.cache shardConf.epoch = none ∨
      p.fill.store.cache shardConf.epoch = some shardConf
  | _ => True

/-- What the next read finds: the read under way is over by then. -/
def FreshCache (p : SharedConfStore) : Prop :=
  ReadThrough.Fresh p.fill.store.cache (storedConf p.store.db)

/-- What a step does to the database and to the cache that the next read finds. -/
inductive ConfEffect (verify : ConfVerify) (p : SharedConfStore) (step : ConfStep)
    (after : SharedConfStore) : Prop
  | unchanged (hstored : storedBy verify p step = none) (hdb : after.store.db = p.store.db)
      (hcache : after.fill.store.cache = p.fill.store.cache)
  | filled (epoch : UInt64) (hstored : storedBy verify p step = none)
      (hdb : after.store.db = p.store.db)
      (hcache : after.fill.store.cache =
        Function.update p.fill.store.cache epoch (storedConf p.store.db epoch))
  | stored (shardConf : PartitionDescriptionRecord)
      (hstored : storedBy verify p step = some shardConf)
      (hdb : storedConf after.store.db =
        Function.update (storedConf p.store.db) shardConf.epoch (some shardConf))
      (hcache : after.fill.store.cache = p.fill.store.cache)

theorem load_effect (p : SharedConfStore) (env : ConfDBEnv) (epoch : UInt64) {step : ConfStep}
    (hstored : storedBy verify p step = none) :
    ConfEffect verify p step (p.load env epoch) := by
  unfold SharedConfStore.load
  split
  · rename_i shardConf hidle hmissed hload
    refine .filled epoch hstored rfl ?_
    rw [fill_of_idle hidle, (load_eq_ok_iff.mp hload).2]
    rfl
  · exact .unchanged hstored rfl rfl

theorem step_effect (verify : ConfVerify) (p : SharedConfStore) (step : ConfStep) :
    ConfEffect verify p step (p.step verify step) := by
  cases step with
  | store env shardConf =>
    have hexit : StoreExit verify env p.store shardConf _ := store_spec env p.store shardConf
    cases hrun : (ShardConfStore.store verify env shardConf).run p.store with
    | ok value after =>
      rw [hrun] at hexit
      cases hexit with
      | stored hstorable =>
        refine .stored shardConf ?_ ?_ ?_
        · rw [storedBy, hrun]
          rfl
        · rw [SharedConfStore.step, hrun]
          exact storedConf_insert _ _
        · rw [SharedConfStore.step, hrun]
          unfold SharedConfStore.fill
          cases p.loading <;> rfl
    | error err after =>
      rw [hrun] at hexit
      cases hexit with
      | refused err hrefused =>
        have hstep : p.step verify (.store env shardConf) = p := by
          rw [SharedConfStore.step, hrun]
          rfl
        rw [hstep]
        refine .unchanged ?_ rfl rfl
        rw [storedBy, hrun]
        rfl
  | load env epoch => exact load_effect p env epoch rfl
  | loadFirst env =>
    unfold SharedConfStore.step
    cases p.store.db.entries.head? with
    | none => exact .unchanged rfl rfl rfl
    | some entry => exact load_effect p env _ rfl
  | fill =>
    refine .unchanged rfl p.db_fill ?_
    rw [SharedConfStore.step, fill_of_idle p.loading_fill]

theorem storedBy_eq_some_iff {p : SharedConfStore} {env : ConfDBEnv}
    {shardConf stored : PartitionDescriptionRecord} :
    storedBy verify p (.store env shardConf) = some stored ↔
      Storable verify env p.store shardConf ∧ shardConf = stored := by
  have hexit : StoreExit verify env p.store shardConf _ := store_spec env p.store shardConf
  rw [storedBy]
  generalize (ShardConfStore.store verify env shardConf).run p.store = result at hexit ⊢
  cases hexit with
  | refused err hrefused => simp [value?, hrefused]
  | stored hstorable => simp [value?, hstorable]

theorem storesUncached_iff (p : SharedConfStore) (step : ConfStep) :
    StoresUncached verify p step ↔ ∀ shardConf, storedBy verify p step = some shardConf →
      p.fill.store.cache shardConf.epoch = none ∨
        p.fill.store.cache shardConf.epoch = some shardConf := by
  cases step with
  | store env shardConf =>
    simp only [storedBy_eq_some_iff, StoresUncached]
    constructor
    · rintro huncached _ ⟨hstorable, rfl⟩
      exact huncached hstorable
    · intro huncached hstorable
      exact huncached shardConf ⟨hstorable, rfl⟩
  | load env epoch => exact iff_of_true trivial nofun
  | loadFirst env => exact iff_of_true trivial nofun
  | fill => exact iff_of_true trivial nofun

theorem FreshCache.step_iff (p : SharedConfStore) (step : ConfStep) (h : FreshCache p) :
    FreshCache (p.step verify step) ↔ StoresUncached verify p step := by
  rw [storesUncached_iff]
  unfold FreshCache
  cases step_effect verify p step with
  | unchanged hstored hdb hcache =>
    rw [hdb, hcache, hstored]
    exact iff_of_true h fun _ hsome ↦ by cases hsome
  | filled epoch hstored hdb hcache =>
    rw [hdb, hcache, hstored]
    exact iff_of_true (h.fill epoch) fun _ hsome ↦ by cases hsome
  | stored shardConf hstored hdb hcache =>
    rw [hdb, hcache, hstored, h.write_iff]
    simp only [Option.some.injEq, forall_eq']

/-- No read shows that there is a cache exactly when the cache is fresh. -/
theorem freshCache_iff (p : SharedConfStore) :
    FreshCache p ↔ ∀ epoch, answer ((ShardConfStore.get {} epoch).run p.fill.store) =
      loaded (storedConf p.store.db epoch) := by
  unfold FreshCache
  rw [ReadThrough.fresh_iff_lookup]
  refine forall_congr' fun epoch ↦ ?_
  rw [answer_get, db_fill, loaded_injective.eq_iff]

theorem storedConf_step (p : SharedConfStore) (step : ConfStep) (epoch : UInt64) :
    storedConf (p.step verify step).store.db epoch =
      ((storedBy verify p step).filter fun stored ↦ stored.epoch = epoch).or
        (storedConf p.store.db epoch) := by
  cases step_effect verify p step with
  | unchanged hstored hdb hcache =>
    rw [hdb, hstored]
    rfl
  | filled _ hstored hdb hcache =>
    rw [hdb, hstored]
    rfl
  | stored shardConf hstored hdb hcache =>
    rw [hdb, hstored]
    by_cases heq : epoch = shardConf.epoch
    · subst heq
      simp [Option.filter_some]
    · simp [Option.filter_some, heq, Ne.symm heq]

/-- The database holds what was stored last. -/
theorem storedConf_run (p : SharedConfStore) (steps : List ConfStep) (epoch : UInt64) :
    storedConf (Run.run (SharedConfStore.step verify) p steps).store.db epoch =
      lastStored verify epoch p (storedConf p.store.db epoch) steps := by
  induction steps generalizing p with
  | nil => rfl
  | cons step steps ih =>
    rw [lastStored, ← storedConf_step]
    exact ih (p.step verify step)

/-- Every read returns the configuration stored last, in every interleaving, exactly when none is
stored over one that the cache holds or that a read is about to put there. -/
theorem shard_conf_cache_transparent_iff (db : ShardConfDB) (steps : List ConfStep) :
    (∀ before, before <+: steps → ∀ epoch,
      answer ((ShardConfStore.get {} epoch).run
        (Run.run (SharedConfStore.step verify) { store := { db := db } } before).fill.store) =
      loaded (lastStored verify epoch { store := { db := db } } (storedConf db epoch) before)) ↔
    Run.Guarded (SharedConfStore.step verify) (StoresUncached verify) { store := { db := db } }
      steps := by
  have hfresh : (∀ before, before <+: steps →
      FreshCache (Run.run (SharedConfStore.step verify) { store := { db := db } } before)) ↔
      Run.Guarded (SharedConfStore.step verify) (StoresUncached verify) { store := { db := db } }
        steps :=
    Run.forall_prefix_iff_guarded FreshCache.step_iff steps (ReadThrough.fresh_empty _)
  rw [← hfresh]
  refine forall₂_congr fun before _ ↦ ?_
  rw [freshCache_iff]
  refine forall_congr' fun epoch ↦ ?_
  rw [storedConf_run]

end Cache

open Reference

namespace Reference

/-- A record for epoch 0 with other parameters. -/
def changedConf : PartitionDescriptionRecord :=
  { firstConf with partitionParams := [("dFG", "6")] }

end Reference

/-- Epoch 0 is read, stored again and read once more, or stored again while it is being read. Both
times the old record is returned. -/
theorem stale_shard_conf_returned :
    (∃ s, (do
        ShardConfStore.store verifyConf {} firstConf
        let _ ← ShardConfStore.get {} 0
        ShardConfStore.store verifyConf {} changedConf
        ShardConfStore.get {} 0).run { db := OrderedStore.empty } = .ok firstConf s ∧
      s.load {} 0 = .ok changedConf) ∧
    let p := Run.run (SharedConfStore.step verifyConf) { store := { db := OrderedStore.empty } }
      [.store {} firstConf, .load {} 0, .store {} changedConf, .fill]
    answer ((ShardConfStore.get {} 0).run p.store) = .ok firstConf ∧
      storedConf p.store.db 0 = some changedConf :=
  ⟨⟨_, rfl, rfl⟩, rfl, rfl⟩

end FinalityGadget
