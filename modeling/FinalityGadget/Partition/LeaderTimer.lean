import FinalityGadget.Partition.RoundTimer
import FinalityGadget.Partition.Traffic

/-!
# The timer of a leader

A routine of the timer may clear `isRunning` late, when the main loop has already stopped it and
started another one, so that the flag does not tell whether a timer is running. Still a leader that
waits for an event is never without a timer: a timeout is in the slot, or a routine is on its way
that has not been cancelled and puts one there when it is left alone.
-/

namespace FinalityGadget

open Bytes Fallible

variable {C : Type}

/-- The routine has not cleared `isRunning` yet. -/
def TimerRoutine.Counting (r : TimerRoutine) : Prop := r.phase = .waiting ∨ r.phase = .expired

/-- The routine has its event still to put. -/
def TimerRoutine.Live (r : TimerRoutine) : Prop := r.Counting ∨ r.phase = .offering

namespace TimerSystem

/-- A routine that has been started and not been cancelled. -/
def Armed (s : TimerSystem C) (i : ℕ) : Prop := ∃ r, s.routines i = some r ∧ r.cancelled = false

/-- The routine that the cancel function belongs to has the property. -/
def Current (s : TimerSystem C) (P : TimerRoutine → Prop) : Prop :=
  ∃ i r, s.cancel = some i ∧ s.routines i = some r ∧ P r

/-- What holds between any two steps of the main loop and the routines: the cancel function belongs
to the one routine that is not cancelled, and `isRunning` is set only as long as nothing has cleared
it since the start of that routine. -/
structure Timed (conf : NodeConf) (s : TimerSystem C) : Prop where
  fresh : ∀ i, s.started ≤ i → s.routines i = none
  armed_iff : ∀ i, s.Armed i ↔ s.cancel = some i
  parked : (∃ restart, s.main = .clearing restart) ∨ s.main = .arming → s.cancel = none
  counting : s.isRunning = true →
    (∃ restart, s.main = .clearing restart) ∨ s.Current TimerRoutine.Counting
  released : s.main = .cancelling false ∨ s.main = .clearing false → ¬shouldBeRunning conf s.node
  alive : s.main = .selecting → shouldBeRunning conf s.node →
    s.event = true ∨ s.Current TimerRoutine.Live

section Steps

variable {lib : BaseLibrary C} {conf : NodeConf} {s : TimerSystem C}

theorem Current.mono {P Q : TimerRoutine → Prop} (h : s.Current P) (himp : ∀ r, P r → Q r) :
    s.Current Q := by
  obtain ⟨i, r, hcancel, hr, hP⟩ := h
  exact ⟨i, r, hcancel, hr, himp r hP⟩

/-- A step of one routine that does not cancel it. -/
theorem armed_modifyRoutine {i : ℕ} {f : TimerRoutine → TimerRoutine}
    (hf : ∀ r, (f r).cancelled = r.cancelled) (j : ℕ) :
    (s.modifyRoutine i f).Armed j ↔ s.Armed j := by
  rw [Armed, Armed, routines_modifyRoutine]
  by_cases h : j = i
  · subst h
    rw [Function.update_self]
    cases s.routines j with
    | none => simp
    | some r => simp [hf]
  · rw [Function.update_of_ne h]

theorem current_modifyRoutine {P : TimerRoutine → Prop} {i : ℕ} {f : TimerRoutine → TimerRoutine}
    (h : s.Current P)
    (hf : ∀ r, s.cancel = some i → s.routines i = some r → P r → P (f r)) :
    (s.modifyRoutine i f).Current P := by
  obtain ⟨j, r, hcancel, hr, hP⟩ := h
  by_cases hij : j = i
  · subst hij
    refine ⟨j, f r, hcancel, ?_, hf r hcancel hr hP⟩
    rw [routines_modifyRoutine, Function.update_self, hr]
    rfl
  · refine ⟨j, r, hcancel, ?_, hP⟩
    rw [routines_modifyRoutine, Function.update_of_ne hij]
    exact hr

/-- A step of one routine that does not cancel it keeps the invariant, if the routine counts as long
as `isRunning` is set and lives until its event is in the slot. -/
theorem Timed.modifyRoutine (h : Timed conf s) {i : ℕ} {f : TimerRoutine → TimerRoutine}
    {isRunning event : Bool} (hf : ∀ r, (f r).cancelled = r.cancelled)
    (hrunning : isRunning = true → s.isRunning = true)
    (hcounts : isRunning = true → ∀ r, s.cancel = some i → s.routines i = some r → r.Counting →
      (f r).Counting)
    (hevent : s.event = true → event = true)
    (hlives : event = true ∨ ∀ r, s.cancel = some i → s.routines i = some r → r.Live →
      (f r).Live) :
    Timed conf { s.modifyRoutine i f with isRunning := isRunning, event := event } where
  fresh j hj := by
    have hnone := h.fresh j hj
    show (s.modifyRoutine i f).routines j = none
    rw [routines_modifyRoutine]
    by_cases hij : j = i
    · subst hij
      rw [Function.update_self, hnone]
      rfl
    · rw [Function.update_of_ne hij]
      exact hnone
  armed_iff j := (armed_modifyRoutine hf j).trans (h.armed_iff j)
  parked := h.parked
  counting hset := (h.counting (hrunning hset)).imp_right fun hcurrent ↦
    current_modifyRoutine hcurrent (hcounts hset)
  released := h.released
  alive hmain hshould := by
    rcases hlives with hput | hlives
    · exact Or.inl hput
    · refine (h.alive hmain hshould).imp hevent fun hcurrent ↦ ?_
      exact current_modifyRoutine hcurrent hlives

theorem Timed.expire (h : Timed conf s) (i : ℕ) :
    Timed conf (s.modifyRoutine i TimerRoutine.expire) := by
  have hcancelled : ∀ r : TimerRoutine, r.expire.cancelled = r.cancelled := by
    intro r
    unfold TimerRoutine.expire
    split <;> rfl
  have hcounting : ∀ r : TimerRoutine, r.Counting → r.expire.Counting := by
    intro r hcounting
    unfold TimerRoutine.expire
    split
    · exact Or.inr rfl
    · exact hcounting
  refine h.modifyRoutine hcancelled id (fun _ r _ _ ↦ hcounting r) id (Or.inr fun r _ _ hlive ↦ ?_)
  rcases hlive with hcounts | hoffering
  · exact Or.inl (hcounting r hcounts)
  · unfold TimerRoutine.expire
    rw [if_neg (by rw [hoffering]; nofun)]
    exact Or.inr hoffering

theorem Timed.unset (h : Timed conf s) (i : ℕ) : Timed conf (s.unset i) := by
  unfold TimerSystem.unset
  split
  · have hcancelled : ∀ r : TimerRoutine, r.unset.cancelled = r.cancelled := by
      intro r
      unfold TimerRoutine.unset
      split <;> rfl
    refine h.modifyRoutine hcancelled nofun nofun id (Or.inr fun r _ _ hlive ↦ ?_)
    unfold TimerRoutine.unset
    split
    · exact Or.inr rfl
    · exact hlive
  · exact h

theorem Timed.put (h : Timed conf s) (i : ℕ) : Timed conf (s.put i) := by
  unfold TimerSystem.put
  split
  · rename_i hput
    have hcancelled : ∀ r : TimerRoutine, r.put.cancelled = r.cancelled := by
      intro r
      unfold TimerRoutine.put
      split <;> rfl
    refine h.modifyRoutine hcancelled id (fun _ r _ hr hcounting ↦ ?_) (fun _ ↦ rfl) (Or.inl rfl)
    have hoffering : r.phase = .offering := by simpa [hr] using hput.1
    rcases hcounting with hphase | hphase <;> cases hphase.symm.trans hoffering
  · exact h

/-- Only a cancelled routine gives up. -/
theorem Timed.done (h : Timed conf s) (i : ℕ) :
    Timed conf (s.modifyRoutine i TimerRoutine.done) := by
  have hcancelled : ∀ r : TimerRoutine, r.done.cancelled = r.cancelled := by
    intro r
    unfold TimerRoutine.done
    split <;> rfl
  have hkept : ∀ r, s.cancel = some i → s.routines i = some r → r.done = r := by
    intro r hcancel hr
    obtain ⟨r', hr', harmed⟩ := (h.armed_iff i).mpr hcancel
    rw [hr] at hr'
    cases hr'
    unfold TimerRoutine.done
    rw [harmed]
    split <;> simp_all
  refine h.modifyRoutine hcancelled id (fun _ r hcancel hr ↦ ?_) id (Or.inr fun r hcancel hr ↦ ?_)
  · rw [hkept r hcancel hr]
    exact id
  · rw [hkept r hcancel hr]
    exact id

/-- A replication worker changes nothing that the timer depends on. -/
theorem shouldBeRunning_worker (n : Node C) (envs : ℕ → Env) :
    shouldBeRunning conf (FinalityGadget.step lib conf n ⟨.replicationWorker, envs⟩) ↔
      shouldBeRunning conf n := by
  have hkept : (FinalityGadget.step lib conf n ⟨.replicationWorker, envs⟩).leader = n.leader ∧
      (FinalityGadget.step lib conf n ⟨.replicationWorker, envs⟩).status = n.status := by
    apply step_service (R := fun n n' : Node C ↦ n'.leader = n.leader ∧ n'.status = n.status)
      _ _ _ rfl
    · exact fun h h' ↦ ⟨h'.1.trans h.1, h'.2.trans h.2⟩
    · exact fun _ _ ↦ ⟨rfl, rfl⟩
    · intro env msg toId n
      unfold sendLedgerReplicationResponse
      cases lib.decodePeerID toId with
      | error err => exact ⟨rfl, rfl⟩
      | ok id => cases env.sendResponse <;> exact ⟨rfl, rfl⟩
  rw [shouldBeRunning, shouldBeRunning, hkept.1, hkept.2]

/-- The main loop takes an event: it will look after the timer before it waits again. -/
theorem Timed.taken (h : Timed conf s) (hmain : s.main = .selecting) (n : Node C) (event : Bool) :
    Timed conf { s with node := n, main := .checking, event := event } where
  fresh := h.fresh
  armed_iff := h.armed_iff
  parked hparked := by rcases hparked with ⟨_, ⟨⟩⟩ | ⟨⟨⟩⟩
  counting hset := by
    rcases h.counting hset with ⟨_, hclearing⟩ | hcurrent
    · cases hmain.symm.trans hclearing
    · exact Or.inr hcurrent
  released hreleased := by rcases hreleased with ⟨⟨⟩⟩ | ⟨⟨⟩⟩
  alive := nofun

theorem Timed.handle (h : Timed conf s) (input : Input C) :
    Timed conf (s.handle lib conf input) := by
  obtain ⟨event, envs⟩ := input
  unfold TimerSystem.handle
  split
  · rename_i hevent
    cases hevent
    have hshould : shouldBeRunning conf
        (FinalityGadget.step lib conf s.node ⟨.replicationWorker, envs⟩) ↔
          shouldBeRunning conf s.node := shouldBeRunning_worker s.node envs
    exact ⟨h.fresh, h.armed_iff, h.parked, h.counting, fun hmain ↦ mt hshould.mp (h.released hmain),
      fun hmain hrun ↦ h.alive hmain (hshould.mp hrun)⟩
  · split
    · exact h.taken ‹_› _ _
    · exact h
  · exact h.taken ‹_› _ _
  · exact h

/-- An excuse is history only. -/
theorem Timed.excuseAll (h : Timed conf s) : Timed conf s.excuseAll := by
  have hcancelled : ∀ r : TimerRoutine, r.excuse.cancelled = r.cancelled := by
    intro r
    unfold TimerRoutine.excuse
    split <;> rfl
  have hphase : ∀ r : TimerRoutine, r.excuse.phase = r.phase := by
    intro r
    unfold TimerRoutine.excuse
    split <;> rfl
  have hroutines : ∀ i, s.excuseAll.routines i = (s.routines i).map TimerRoutine.excuse :=
    fun _ ↦ rfl
  have hcurrent : ∀ {P : TimerRoutine → Prop}, (∀ r, P r → P r.excuse) → s.Current P →
      s.excuseAll.Current P := by
    rintro P hP ⟨i, r, hcancel, hr, hr'⟩
    exact ⟨i, r.excuse, hcancel, by rw [hroutines, hr]; rfl, hP r hr'⟩
  have hcounting : ∀ r : TimerRoutine, r.Counting → r.excuse.Counting := by
    intro r hr
    rw [TimerRoutine.Counting, hphase]
    exact hr
  constructor
  case fresh =>
    intro i hi
    rw [hroutines, h.fresh i hi]
    rfl
  case armed_iff =>
    intro i
    refine Iff.trans ?_ (h.armed_iff i)
    rw [Armed, Armed, hroutines]
    cases s.routines i with
    | none => simp
    | some r => simp [hcancelled]
  case parked => exact h.parked
  case counting => exact fun hset ↦ (h.counting hset).imp_right (hcurrent hcounting)
  case released => exact h.released
  case alive =>
    refine fun hmain hshould ↦ (h.alive hmain hshould).imp_right (hcurrent fun r hr ↦ ?_)
    rw [TimerRoutine.Live, hphase]
    exact hr.imp_left (hcounting r)

theorem Timed.ensureT1TimerState (h : Timed conf s) (hmain : s.main = .checking) :
    Timed conf (s.ensureT1TimerState conf) := by
  have hcounting : s.isRunning = true → s.Current TimerRoutine.Counting := by
    intro hset
    rcases h.counting hset with ⟨_, hclearing⟩ | hcurrent
    · cases hmain.symm.trans hclearing
    · exact hcurrent
  unfold TimerSystem.ensureT1TimerState
  by_cases hshould : shouldBeRunning conf s.node
  · rw [if_pos hshould]
    cases hset : s.isRunning with
    | true =>
      refine ⟨h.fresh, h.armed_iff, nofun, fun _ ↦ Or.inr (hcounting hset), nofun, fun _ _ ↦ ?_⟩
      exact Or.inr ((hcounting hset).mono fun r ↦ Or.inl)
    | false => exact ⟨h.fresh, h.armed_iff, nofun, nofun, nofun, nofun⟩
  · rw [if_neg hshould]
    have h' := h.excuseAll
    cases hset : s.isRunning with
    | true =>
      refine ⟨h'.fresh, h'.armed_iff, nofun, fun _ ↦ ?_, fun _ ↦ hshould, nofun⟩
      rcases h'.counting hset with ⟨_, hclearing⟩ | hcurrent
      · cases hmain.symm.trans hclearing
      · exact Or.inr hcurrent
    | false =>
      refine ⟨h'.fresh, h'.armed_iff, nofun, fun hset' ↦ ?_, nofun, fun _ h ↦ absurd h hshould⟩
      cases hset.symm.trans hset'

/-- After `timer.cancel()` no routine is armed. -/
theorem Timed.cancelTimer (h : Timed conf s) {restart : Bool}
    (hmain : s.main = .cancelling restart) :
    Timed conf { s.cancelTimer with main := .clearing restart } := by
  have hreleased : restart = false → ¬shouldBeRunning conf s.node := by
    rintro rfl
    exact h.released (Or.inl hmain)
  unfold TimerSystem.cancelTimer
  cases hcancel : s.cancel with
  | none =>
    refine ⟨h.fresh, ?_, fun _ ↦ hcancel, fun _ ↦ Or.inl ⟨restart, rfl⟩, ?_, nofun⟩
    · exact h.armed_iff
    · rintro (⟨⟨⟩⟩ | hclearing)
      cases hclearing
      exact hreleased rfl
  | some i =>
    refine ⟨?_, ?_, fun _ ↦ rfl, fun _ ↦ Or.inl ⟨restart, rfl⟩, ?_, nofun⟩
    · intro j hj
      have hnone := h.fresh j hj
      have hne : j ≠ i := by
        rintro rfl
        obtain ⟨r, hr, _⟩ := (h.armed_iff j).mpr hcancel
        cases hnone.symm.trans hr
      exact (Function.update_of_ne hne _ _).trans hnone
    · intro j
      refine iff_of_false ?_ nofun
      rintro ⟨r, hr, harmed⟩
      by_cases hij : j = i
      · subst hij
        have hr' : (s.routines j).map (fun r ↦ { r with cancelled := true }) = some r :=
          (Function.update_self j _ _).symm.trans hr
        obtain ⟨_, _, rfl⟩ := Option.map_eq_some_iff.mp hr'
        cases harmed
      · have hr' : s.routines j = some r := (Function.update_of_ne hij _ _).symm.trans hr
        have hcancel' := (h.armed_iff j).mp ⟨r, hr', harmed⟩
        exact hij (Option.some.inj (hcancel'.symm.trans hcancel))
    · rintro (⟨⟨⟩⟩ | hclearing)
      cases hclearing
      exact hreleased rfl

theorem Timed.startRoutine (h : Timed conf s) (hmain : s.main = .arming) :
    Timed conf { s.startRoutine with main := .selecting } := by
  have hcancel : s.cancel = none := h.parked (Or.inr hmain)
  have hcurrent : ∀ {P : TimerRoutine → Prop}, P {} →
      TimerSystem.Current { s.startRoutine with main := .selecting } P :=
    fun hP ↦ ⟨s.started, {}, rfl, Function.update_self _ _ _, hP⟩
  refine ⟨?_, ?_, nofun, fun _ ↦ Or.inr (hcurrent (Or.inl rfl)), nofun,
    fun _ _ ↦ Or.inr (hcurrent (Or.inl (Or.inl rfl)))⟩
  · intro j hj
    have hlt : s.started < j := hj
    exact (Function.update_of_ne hlt.ne' _ _).trans (h.fresh j hlt.le)
  · intro j
    by_cases hij : j = s.started
    · subst hij
      exact iff_of_true ⟨{}, Function.update_self _ _ _, rfl⟩ rfl
    · refine iff_of_false ?_ fun h ↦ hij (Option.some.inj h).symm
      rintro ⟨r, hr, harmed⟩
      have hr' : s.routines j = some r := (Function.update_of_ne hij _ _).symm.trans hr
      have hcancel' := (h.armed_iff j).mp ⟨r, hr', harmed⟩
      cases hcancel.symm.trans hcancel'

theorem Timed.clear (h : Timed conf s) {restart : Bool} (hmain : s.main = .clearing restart) :
    Timed conf { s with
      isRunning := false
      main := if restart = true then .arming else .selecting } := by
  have hcancel : s.cancel = none := h.parked (Or.inl ⟨restart, hmain⟩)
  cases restart with
  | true => exact ⟨h.fresh, h.armed_iff, fun _ ↦ hcancel, nofun, nofun, nofun⟩
  | false =>
    have hreleased := h.released (Or.inr hmain)
    exact ⟨h.fresh, h.armed_iff, nofun, nofun, nofun, fun _ hshould ↦ absurd hshould hreleased⟩

theorem Timed.advance (h : Timed conf s) : Timed conf (s.advance conf) := by
  unfold TimerSystem.advance
  split
  · exact h
  · exact h.ensureT1TimerState ‹_›
  · exact h.cancelTimer ‹_›
  · exact h.excuseAll.cancelTimer ‹_›
  · exact h.clear ‹_›
  · exact h.startRoutine ‹_›

theorem Timed.step (h : Timed conf s) (timerStep : TimerStep C) :
    Timed conf (TimerSystem.step lib conf s timerStep) := by
  cases timerStep with
  | handle input => exact h.handle input
  | advance => exact h.advance
  | expire i => exact h.expire i
  | unset i => exact h.unset i
  | put i => exact h.put i
  | done i => exact h.done i

/-- A routine that is left alone puts its event. -/
theorem Current.delivers (h : s.Current TimerRoutine.Live) (hfree : s.event = false) :
    ∃ i, s.cancel = some i ∧
      (Run.run (TimerSystem.step lib conf) s [.expire i, .unset i, .put i]).event = true := by
  obtain ⟨i, r, hcancel, hr, hlive⟩ := h
  refine ⟨i, hcancel, ?_⟩
  simp only [Run.run, List.foldl_cons, List.foldl_nil, TimerSystem.step]
  rcases hlive with (hphase | hphase) | hphase <;>
    simp [modifyRoutine, TimerSystem.unset, TimerSystem.put, TimerRoutine.expire,
      TimerRoutine.unset, hr, hphase, hfree]

end Steps

end TimerSystem

/-- In every interleaving of the main loop with the routines of the timer at most one routine is not
cancelled, and whenever a running leader waits for an event, a timeout is in the slot or the routine
of the cancel function puts one there when it is left alone. -/
theorem leader_timer_alive {lib : BaseLibrary C} {conf : NodeConf} {store : BlockStore C}
    {n : Node C} (hstart : Starts lib conf store n) (hpeer : conf.peerID ≠ "")
    (steps : List (TimerStep C)) {s : TimerSystem C}
    (hs : s = Run.run (TimerSystem.step lib conf) { node := n } steps) :
    (∀ i j, s.Armed i → s.Armed j → i = j) ∧
      (s.main = .selecting → TimerSystem.shouldBeRunning conf s.node →
        s.event = true ∨ ∃ i, s.Armed i ∧
          (Run.run (TimerSystem.step lib conf) s [.expire i, .unset i, .put i]).event = true) := by
  have hinit : TimerSystem.Timed conf ({ node := n } : TimerSystem C) := by
    refine ⟨fun _ _ ↦ rfl, fun i ↦ iff_of_false ?_ nofun, fun _ ↦ rfl, nofun, nofun, ?_⟩
    · rintro ⟨r, ⟨⟩, _⟩
    · rintro - ⟨hleader, _⟩
      rw [(started_of_starts lib conf hstart).leader] at hleader
      exact absurd hleader.symm hpeer
  have htimed : TimerSystem.Timed conf s := by
    rw [hs]
    exact Run.invariant_run_of_forall (fun _ timerStep h ↦ h.step timerStep) steps hinit
  constructor
  · intro i j hi hj
    exact Option.some.inj (((htimed.armed_iff i).mp hi).symm.trans ((htimed.armed_iff j).mp hj))
  · intro hmain hshould
    cases hevent : s.event with
    | true => exact Or.inl rfl
    | false =>
      have hcurrent := (htimed.alive hmain hshould).resolve_left (by simp [hevent])
      obtain ⟨i, hcancel, hdelivered⟩ := hcurrent.delivers hevent
      exact Or.inr ⟨i, (htimed.armed_iff i).mpr hcancel, hdelivered⟩

section Reference

open Reference

/-- The expiry of the first timer is lost, and the leader `A` still has one. -/
theorem leader_timer_alive_tick :
    let s := Run.run (TimerSystem.step referenceLibrary (conf "A" [1])) { node := node }
      tickAfterExpiry
    s.event = false ∧ ∃ i, s.Armed i ∧ (Run.run (TimerSystem.step referenceLibrary (conf "A" [1])) s
      [.expire i, .unset i, .put i]).event = true := by
  have hstart : Starts referenceLibrary (conf "A" [1]) OrderedStore.empty node :=
    starts_empty "A" [1]
  have halive := (leader_timer_alive hstart (by decide) tickAfterExpiry rfl).2 rfl (by decide)
  exact ⟨rfl, halive.resolve_left nofun⟩

end Reference

end FinalityGadget
