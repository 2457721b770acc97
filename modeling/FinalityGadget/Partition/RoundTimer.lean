import FinalityGadget.Partition.Reference

/-!
# The T1 timer and the main loop

The timer of a round is a goroutine that waits for its time, clears `isRunning` and then offers an
event to the main loop, or gives up when it is cancelled. The main loop, after every event, starts
the timer of a leader when `isRunning` is false and stops the timer of a node that should have none.
Both share `isRunning`, the cancel function and the slot of the event, and their steps interleave.
An expiry that has cleared `isRunning` looks to the main loop like a timer that has to be started.
-/

namespace FinalityGadget

variable {C : Type}

/-! ## The parties -/

inductive TimerPhase where
  /-- In the first select. -/
  | waiting
  /-- Its time is up, and `isRunning` is still to be cleared. -/
  | expired
  /-- In the second select. -/
  | offering
  | delivered
  /-- Ended by its cancellation, before the expiry. -/
  | stopped
  /-- Ended by its cancellation, after the expiry. -/
  | discarded
  deriving DecidableEq

/-- A goroutine of the timer. `excused` is history: since its expiry the main loop has been in an
`ensureT1TimerState` that found the node without need of a timer. -/
structure TimerRoutine where
  phase : TimerPhase := .waiting
  cancelled : Bool := false
  excused : Bool := false

/-- Where the main loop is, inside `ensureT1TimerState` if not in its select. The flag tells whether
`stopT1Timer` was called to start the timer again. -/
inductive MainPhase where
  | selecting
  | checking
  | cancelling (restart : Bool)
  | clearing (restart : Bool)
  | arming
  deriving DecidableEq

/-- The node with its timer. The routines are numbered in the order in which they were started;
`cancel` holds the number of the one that the cancel function belongs to. -/
structure TimerSystem (C : Type) where
  node : Node C
  main : MainPhase := .selecting
  isRunning : Bool := false
  cancel : Option ℕ := none
  event : Bool := false
  started : ℕ := 0
  routines : ℕ → Option TimerRoutine := fun _ ↦ none

inductive TimerStep (C : Type) where
  /-- The main loop takes an event out of its select and handles it. -/
  | handle (input : Input C)
  /-- The next step of the main loop in `ensureT1TimerState`. -/
  | advance
  | expire (i : ℕ)
  | unset (i : ℕ)
  | put (i : ℕ)
  | done (i : ℕ)

namespace TimerRoutine

def Pending (r : TimerRoutine) : Prop := r.phase = .expired ∨ r.phase = .offering

instance (r : TimerRoutine) : Decidable r.Pending := inferInstanceAs (Decidable (_ ∨ _))

def expire (r : TimerRoutine) : TimerRoutine :=
  if r.phase = .waiting then { r with phase := .expired, excused := false } else r

def unset (r : TimerRoutine) : TimerRoutine :=
  if r.phase = .expired then { r with phase := .offering } else r

def put (r : TimerRoutine) : TimerRoutine :=
  if r.phase = .offering then { r with phase := .delivered } else r

def done (r : TimerRoutine) : TimerRoutine :=
  match r.phase, r.cancelled with
  | .waiting, true => { r with phase := .stopped }
  | .offering, true => { r with phase := .discarded }
  | _, _ => r

def excuse (r : TimerRoutine) : TimerRoutine := if r.Pending then { r with excused := true } else r

end TimerRoutine

namespace TimerSystem

variable (lib : BaseLibrary C) (conf : NodeConf)

def shouldBeRunning (n : Node C) : Prop := n.leader = conf.peerID ∧ n.status ≠ .recovering

instance (n : Node C) : Decidable (shouldBeRunning conf n) := inferInstanceAs (Decidable (_ ∧ _))

def modifyRoutine (s : TimerSystem C) (i : ℕ) (f : TimerRoutine → TimerRoutine) : TimerSystem C :=
  { s with routines := Function.update s.routines i ((s.routines i).map f) }

theorem routines_modifyRoutine (s : TimerSystem C) (i : ℕ) (f : TimerRoutine → TimerRoutine) :
    (s.modifyRoutine i f).routines = Function.update s.routines i ((s.routines i).map f) := rfl

def excuseAll (s : TimerSystem C) : TimerSystem C :=
  { s with routines := fun i ↦ (s.routines i).map TimerRoutine.excuse }

/-- A timeout is handled only when the slot holds one. A replication worker is not the main loop. -/
def handle (s : TimerSystem C) (input : Input C) : TimerSystem C :=
  let next := { s with node := step lib conf s.node input, main := .checking }
  match s.main, input.event with
  | _, .replicationWorker => { s with node := step lib conf s.node input }
  | .selecting, .t1Timeout => if s.event = true then { next with event := false } else s
  | .selecting, _ => next
  | _, _ => s

def ensureT1TimerState (s : TimerSystem C) : TimerSystem C :=
  if shouldBeRunning conf s.node then
    { s with main := if s.isRunning = true then .selecting else .cancelling true }
  else
    { s.excuseAll with main := if s.isRunning = true then .cancelling false else .selecting }

/-- `timer.cancel()`, in `stopT1Timer`. -/
def cancelTimer (s : TimerSystem C) : TimerSystem C :=
  match s.cancel with
  | none => s
  | some i => { s.modifyRoutine i fun r ↦ { r with cancelled := true } with cancel := none }

/-- The rest of `startT1Timer`, after the call of `stopT1Timer`. -/
def startRoutine (s : TimerSystem C) : TimerSystem C :=
  { s with
    isRunning := true
    cancel := some s.started
    started := s.started + 1
    routines := Function.update s.routines s.started (some {}) }

theorem routines_startRoutine (s : TimerSystem C) :
    s.startRoutine.routines = Function.update s.routines s.started (some {}) := rfl

def advance (s : TimerSystem C) : TimerSystem C :=
  match s.main with
  | .selecting => s
  | .checking => s.ensureT1TimerState conf
  | .cancelling true => { s.cancelTimer with main := .clearing true }
  | .cancelling false => { s.excuseAll.cancelTimer with main := .clearing false }
  | .clearing restart =>
    { s with isRunning := false, main := if restart = true then .arming else .selecting }
  | .arming => { s.startRoutine with main := .selecting }

/-- `n.timer.isRunning.Store(false)` of a routine. -/
def unset (s : TimerSystem C) (i : ℕ) : TimerSystem C :=
  if (s.routines i).any fun r ↦ r.phase = .expired then
    { s.modifyRoutine i TimerRoutine.unset with isRunning := false }
  else s

/-- `n.timer.event <- struct{}{}`, which waits for the slot to be free. -/
def put (s : TimerSystem C) (i : ℕ) : TimerSystem C :=
  if (s.routines i).any (fun r ↦ r.phase = .offering) ∧ s.event = false then
    { s.modifyRoutine i TimerRoutine.put with event := true }
  else s

def step (s : TimerSystem C) : TimerStep C → TimerSystem C
  | .handle input => s.handle lib conf input
  | .advance => s.advance conf
  | .expire i => s.modifyRoutine i TimerRoutine.expire
  | .unset i => s.unset i
  | .put i => s.put i
  | .done i => s.modifyRoutine i TimerRoutine.done

end TimerSystem

/-! ## Expiries -/

namespace TimerRoutine

/-- Past its expiry, the routine has put its event or can only end by putting it, unless it is
excused. -/
def ExpiryKept (r : TimerRoutine) : Prop :=
  (r.Pending → r.excused = true ∨ r.cancelled = false) ∧
    (r.phase = .discarded → r.excused = true)

theorem expiryKept_of_ne {r : TimerRoutine} (hexpired : r.phase ≠ .expired)
    (hoffering : r.phase ≠ .offering) (hdiscarded : r.phase ≠ .discarded) : r.ExpiryKept := by
  refine ⟨fun hpending ↦ ?_, fun hphase ↦ absurd hphase hdiscarded⟩
  rcases hpending with hphase | hphase
  · exact absurd hphase hexpired
  · exact absurd hphase hoffering

theorem ExpiryKept.excuse {r : TimerRoutine} (h : r.ExpiryKept) : r.excuse.ExpiryKept := by
  unfold TimerRoutine.excuse
  split
  · exact ⟨fun _ ↦ Or.inl rfl, fun _ ↦ rfl⟩
  · exact h

theorem expiryKept_expire_iff {r : TimerRoutine} (h : r.ExpiryKept) :
    r.expire.ExpiryKept ↔ (r.phase = .waiting → r.cancelled = false) := by
  unfold TimerRoutine.expire
  split
  · rename_i hwaiting
    constructor
    · intro hkept _
      exact (hkept.1 (Or.inl rfl)).resolve_left nofun
    · intro hcancelled
      exact ⟨fun _ ↦ Or.inr (hcancelled hwaiting), fun hphase ↦ by cases hphase⟩
  · rename_i hphase
    exact iff_of_true h fun hwaiting ↦ absurd hwaiting hphase

theorem ExpiryKept.unset {r : TimerRoutine} (h : r.ExpiryKept) : r.unset.ExpiryKept := by
  unfold TimerRoutine.unset
  split
  · rename_i hexpired
    exact ⟨fun _ ↦ h.1 (Or.inl hexpired), fun hphase ↦ by cases hphase⟩
  · exact h

theorem ExpiryKept.put {r : TimerRoutine} (h : r.ExpiryKept) : r.put.ExpiryKept := by
  unfold TimerRoutine.put
  split
  · exact expiryKept_of_ne nofun nofun nofun
  · exact h

/-- A cancelled routine that gives up its event is an excused one. -/
theorem ExpiryKept.done {r : TimerRoutine} (h : r.ExpiryKept) : r.done.ExpiryKept := by
  unfold TimerRoutine.done
  split
  · exact expiryKept_of_ne nofun nofun nofun
  · rename_i hoffering hcancelled
    have hexcused : r.excused = true := by
      rcases h.1 (Or.inr hoffering) with hexcused | hrunning
      · exact hexcused
      · rw [hcancelled] at hrunning
        cases hrunning
    exact ⟨fun _ ↦ Or.inl hexcused, fun _ ↦ hexcused⟩
  · exact h

theorem expiryKept_cancel_iff {r : TimerRoutine} (h : r.ExpiryKept) :
    ({ r with cancelled := true } : TimerRoutine).ExpiryKept ↔
      (r.Pending → r.excused = true) := by
  constructor
  · intro hkept hpending
    exact (hkept.1 hpending).resolve_right nofun
  · intro hexcused
    exact ⟨fun hpending ↦ Or.inl (hexcused hpending), h.2⟩

end TimerRoutine

namespace TimerSystem

variable {lib : BaseLibrary C} {conf : NodeConf} {s : TimerSystem C}

def ExpiriesKept (s : TimerSystem C) : Prop := ∀ i r, s.routines i = some r → r.ExpiryKept

/-- No step takes the expiry of a cancelled routine, and the timer is not started again while the
event of the routine it replaces is on its way. -/
def Undisturbed (s : TimerSystem C) : TimerStep C → Prop
  | .expire i => ∀ r, s.routines i = some r → r.phase = .waiting → r.cancelled = false
  | .advance => s.main = .cancelling true →
    ∀ i r, s.cancel = some i → s.routines i = some r → r.Pending → r.excused = true
  | _ => True

theorem expiriesKept_congr {s' : TimerSystem C} (heq : s'.routines = s.routines) :
    s'.ExpiriesKept ↔ s.ExpiriesKept := by
  unfold ExpiriesKept
  rw [heq]

/-- A step of one routine is judged by that routine alone. -/
theorem expiriesKept_modifyRoutine (h : s.ExpiriesKept) (i : ℕ) (f : TimerRoutine → TimerRoutine) :
    (s.modifyRoutine i f).ExpiriesKept ↔ ∀ r, s.routines i = some r → (f r).ExpiryKept := by
  constructor
  · intro hkept r hr
    refine hkept i (f r) ?_
    rw [routines_modifyRoutine, Function.update_self, hr]
    rfl
  · intro hkept j r hr
    rw [routines_modifyRoutine] at hr
    by_cases heq : j = i
    · subst heq
      rw [Function.update_self] at hr
      obtain ⟨r', hr', rfl⟩ := Option.map_eq_some_iff.mp hr
      exact hkept r' hr'
    · rw [Function.update_of_ne heq] at hr
      exact h j r hr

theorem ExpiriesKept.excuseAll (h : s.ExpiriesKept) : s.excuseAll.ExpiriesKept := by
  intro i r hr
  obtain ⟨r', hr', rfl⟩ := Option.map_eq_some_iff.mp hr
  exact (h i r' hr').excuse

theorem expiriesKept_cancelTimer (h : s.ExpiriesKept) :
    s.cancelTimer.ExpiriesKept ↔
      ∀ i r, s.cancel = some i → s.routines i = some r → r.Pending → r.excused = true := by
  unfold cancelTimer
  cases hcancel : s.cancel with
  | none => exact iff_of_true h fun i r hsome ↦ by cases hsome
  | some i =>
    have hmodify := expiriesKept_modifyRoutine h i fun r ↦ { r with cancelled := true }
    refine (expiriesKept_congr rfl).trans (hmodify.trans ?_)
    constructor
    · rintro hkept _ r ⟨⟩ hr
      exact (TimerRoutine.expiryKept_cancel_iff (h i r hr)).mp (hkept r hr)
    · intro hexcused r hr
      exact (TimerRoutine.expiryKept_cancel_iff (h i r hr)).mpr (hexcused i r rfl hr)

theorem ExpiriesKept.cancel_excused (h : s.ExpiriesKept) :
    s.excuseAll.cancelTimer.ExpiriesKept := by
  refine (expiriesKept_cancelTimer h.excuseAll).mpr fun i r _ hr hpending ↦ ?_
  obtain ⟨r', hr', rfl⟩ := Option.map_eq_some_iff.mp hr
  unfold TimerRoutine.excuse at hpending ⊢
  split
  · rfl
  · rename_i hnot
    rw [if_neg hnot] at hpending
    exact absurd hpending hnot

theorem ExpiriesKept.startRoutine (h : s.ExpiriesKept) : s.startRoutine.ExpiriesKept := by
  intro i r hr
  rw [routines_startRoutine] at hr
  by_cases heq : i = s.started
  · subst heq
    rw [Function.update_self] at hr
    cases hr
    exact TimerRoutine.expiryKept_of_ne nofun nofun nofun
  · rw [Function.update_of_ne heq] at hr
    exact h i r hr

theorem ExpiriesKept.unset (h : s.ExpiriesKept) (i : ℕ) : (s.unset i).ExpiriesKept := by
  unfold TimerSystem.unset
  split
  · have hkept := (expiriesKept_modifyRoutine h i TimerRoutine.unset).mpr fun r hr ↦
      (h i r hr).unset
    exact (expiriesKept_congr rfl).mpr hkept
  · exact h

theorem ExpiriesKept.put (h : s.ExpiriesKept) (i : ℕ) : (s.put i).ExpiriesKept := by
  unfold TimerSystem.put
  split
  · have hkept := (expiriesKept_modifyRoutine h i TimerRoutine.put).mpr fun r hr ↦
      (h i r hr).put
    exact (expiriesKept_congr rfl).mpr hkept
  · exact h

theorem routines_handle (s : TimerSystem C) (input : Input C) :
    (s.handle lib conf input).routines = s.routines := by
  unfold handle
  split
  · rfl
  · split <;> rfl
  · rfl
  · rfl

theorem undisturbed_advance (hmain : s.main ≠ .cancelling true) :
    Undisturbed s (.advance : TimerStep C) :=
  fun hrestart ↦ absurd hrestart hmain

theorem expiriesKept_advance (h : s.ExpiriesKept) :
    (s.advance conf).ExpiriesKept ↔ Undisturbed s (.advance : TimerStep C) := by
  unfold advance
  split
  · rename_i hmain
    exact iff_of_true h (undisturbed_advance (by rw [hmain]; nofun))
  · rename_i hmain
    refine iff_of_true ?_ (undisturbed_advance (by rw [hmain]; nofun))
    unfold ensureT1TimerState
    split
    · exact (expiriesKept_congr rfl).mpr h
    · exact (expiriesKept_congr rfl).mpr h.excuseAll
  · -- the only step that can cancel a routine whose event is still expected
    rename_i hmain
    refine (expiriesKept_congr rfl).trans ((expiriesKept_cancelTimer h).trans ?_)
    exact (imp_iff_right hmain).symm
  · rename_i hmain
    refine iff_of_true ?_ (undisturbed_advance (by rw [hmain]; nofun))
    exact (expiriesKept_congr rfl).mpr h.cancel_excused
  · rename_i hmain
    refine iff_of_true ?_ (undisturbed_advance (by rw [hmain]; nofun))
    exact (expiriesKept_congr rfl).mpr h
  · rename_i hmain
    refine iff_of_true ?_ (undisturbed_advance (by rw [hmain]; nofun))
    exact (expiriesKept_congr rfl).mpr h.startRoutine

theorem ExpiriesKept.step_iff (s : TimerSystem C) (timerStep : TimerStep C) (h : s.ExpiriesKept) :
    (s.step lib conf timerStep).ExpiriesKept ↔ Undisturbed s timerStep := by
  cases timerStep with
  | handle input =>
    exact iff_of_true ((expiriesKept_congr (s.routines_handle input)).mpr h) trivial
  | advance => exact expiriesKept_advance h
  | expire i =>
    refine (expiriesKept_modifyRoutine h i _).trans (forall₂_congr fun r hr ↦ ?_)
    exact TimerRoutine.expiryKept_expire_iff (h i r hr)
  | unset i => exact iff_of_true (h.unset i) trivial
  | put i => exact iff_of_true (h.put i) trivial
  | done i =>
    refine iff_of_true ?_ trivial
    exact (expiriesKept_modifyRoutine h i _).mpr fun r hr ↦ (h i r hr).done

end TimerSystem

/-- In every interleaving every expired timer has put its event or can only end by putting it,
unless it is excused, exactly when no step cancels one or lets a cancelled one expire. -/
theorem t1_expiry_kept_iff (lib : BaseLibrary C) (conf : NodeConf) (n : Node C)
    (steps : List (TimerStep C)) :
    (∀ before, before <+: steps →
      (Run.run (TimerSystem.step lib conf) { node := n } before).ExpiriesKept) ↔
    Run.Guarded (TimerSystem.step lib conf) TimerSystem.Undisturbed { node := n } steps :=
  Run.forall_prefix_iff_guarded TimerSystem.ExpiriesKept.step_iff steps fun i r hr ↦ by cases hr

section Reference

open Reference

/-- Node A becomes the leader of round 2 and starts its timer. The timer expires, and before its
event is in the slot a tick of the monitor is handled. -/
def tickAfterExpiry : List (TimerStep UnicityCertificate) :=
  [.handle (deliver { roundNumber := 1 } 5 (technical 2 "A")), .advance, .advance, .advance,
    .advance, .expire 0, .unset 0, .handle (input 10 (.monitoring false false)), .advance, .advance,
    .advance, .advance, .done 0]

/-- The timer is started again, and the expiry is lost. -/
theorem t1_expiry_discarded :
    let s := Run.run (TimerSystem.step referenceLibrary (conf "A" [1])) { node := node }
      tickAfterExpiry
    s.routines 0 = some { phase := .discarded, cancelled := true, excused := false } ∧
      s.routines 1 = some { phase := .waiting } ∧ s.event = false ∧ s.isRunning = true ∧
      TimerSystem.shouldBeRunning (conf "A" [1]) s.node :=
  ⟨rfl, rfl, rfl, rfl, by decide⟩

end Reference

end FinalityGadget
