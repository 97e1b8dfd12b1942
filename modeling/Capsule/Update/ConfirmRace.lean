import Capsule.Atomic.Pool
import Capsule.Update.Commit

/-!
# Capsule.Update.ConfirmRace

The deadline callback beside a `Confirm`, in tentative mode.

`Timer.Stop` does not wait for a callback that has fired, so the callback may take its steps at
any moment, also its first one after `Confirm` has stopped the timer.

* `Lap`: how far each of the two threads has come, kept by a monitor for each (`callbackMonitor`,
  `confirmLaps`).
* `Racing`: the invariant of the race. The row is the pending one until `Confirm` has stored its
  own, and a callback that reads the stored one does nothing.
* `Apart`: when `Confirm` stores its row, the callback is not between its read and its return.
* `confirm_durable`: in every interleaving that keeps the two apart so, a successful `Confirm` is
  what the machine boots from then on.
-/

namespace Capsule.Update

open Atomic

inductive Racer where
  | callback
  | confirm
  deriving DecidableEq

/-- What a thread returns: nothing, or the answer of `Confirm`. -/
abbrev RaceResult := Option (Except Err (Slot × Bytes))

def racer (sha256 : Bytes → String) (slot : Slot) : Racer → Code RaceResult
  | .callback => deadlineExpired >>= fun _ => .ret none
  | .confirm => confirm ⟨some slot, sha256⟩ >>= fun r => .ret (some r)

def race (sha256 : Bytes → String) (slot : Slot) (h : Host) : Pool Racer Op Res Host RaceResult :=
  ⟨h, racer sha256 slot⟩

def Op.isGet : Op → Bool
  | .stateGet => true
  | _ => false

def Op.isPut : Op → Bool
  | .statePut _ => true
  | _ => false

/-- The operations of a rollback, up to the reboot. -/
def Op.isRollback : Op → Bool
  | .findPartition _ => true
  | .mountBoot => true
  | .rewriteGrubDefault _ => true
  | .umountBoot => true
  | .reboot => true
  | _ => false

/-- Nothing runs once the machine is down. -/
def Feasible (c : Pool Racer Op Res Host RaceResult) (_ : Racer) (_ : Env) : Prop :=
  c.st.down = false

/-- When `Confirm` stores its row, the callback has not started or has returned. -/
def Apart (c : Pool Racer Op Res Host RaceResult) (i : Racer) (_ : Env) : Prop :=
  i = .confirm → (c.thr .confirm).next?.any Op.isPut = true →
    (c.thr .callback).next?.all Op.isGet = true

instance (c : Pool Racer Op Res Host RaceResult) (i : Racer) (e : Env) :
    Decidable (Feasible c i e) := inferInstanceAs (Decidable (_ = _))

instance (c : Pool Racer Op Res Host RaceResult) (i : Racer) (e : Env) :
    Decidable (Apart c i e) := inferInstanceAs (Decidable (_ → _ → _))

inductive Lap where
  | waiting
  /-- The callback has read a pending row. -/
  | rollingBack
  | rebooted
  /-- `Confirm` has read the row. -/
  | read (st : OSState)
  | stopped (st : OSState)
  | stored (st : OSState)
  /-- Nothing was or will be changed. -/
  | finished

def Lap.callbackRead : Except Err OSState → Lap
  | .ok st => if st.pendingSlot = none then .finished else .rollingBack
  | .error _ => .finished

def Lap.confirmRead (slot : Slot) : Except Err OSState → Lap
  | .ok st => if st.pendingSlot = some slot then .read st else .finished
  | .error _ => .finished

def Lap.confirmStored (st : OSState) : Except Err Unit → Lap
  | .ok _ => .stored st
  | .error _ => .finished

theorem Lap.callbackRead_cases (r : Except Err OSState) :
    callbackRead r = .finished ∨ callbackRead r = .rollingBack := by
  cases r with
  | error e => exact .inl rfl
  | ok st =>
    rw [callbackRead]
    split
    · exact .inl rfl
    · exact .inr rfl

def callbackMonitor : Monitor Op Res RaceResult Lap where
  ok g o :=
    match g with
    | .waiting => o = .stateGet
    | .rollingBack => o.isRollback = true
    | _ => False
  next g o r :=
    match g, o, r with
    | .waiting, .stateGet, r => .callbackRead r
    | .rollingBack, .reboot, _ => .rebooted
    | g, _, _ => g
  fin g _ := g = .rebooted ∨ g = .finished

def confirmLaps (slot : Slot) : Monitor Op Res RaceResult Lap where
  ok g o :=
    match g with
    | .waiting => o = .stateGet
    | .read _ => o = .stopTimer
    | .stopped st => o = .statePut (committedRow st)
    | _ => False
  next g o r :=
    match g, o, r with
    | .waiting, .stateGet, r => .confirmRead slot r
    | .read st, .stopTimer, _ => .stopped st
    | .stopped st, .statePut _, r => .confirmStored st r
    | g, _, _ => g
  fin g r :=
    match g with
    | .stored st => r = some (.ok (st.activeSlot, st.lastVersion))
    | .finished => ∀ a, r ≠ some (.ok a)
    | _ => False

def lapMonitor (slot : Slot) : Racer → Monitor Op Res RaceResult Lap
  | .callback => callbackMonitor
  | .confirm => confirmLaps slot

section Obeys

variable (slot : Slot)

theorem callback_obeys (sha256 : Bytes → String) :
    (racer sha256 slot .callback).Obeys callbackMonitor .waiting := by
  simp [racer, deadlineExpired, Prog.forall_except, callbackMonitor, Lap.callbackRead]
  intro st
  cases hp : st.pendingSlot with
  | none => simp
  | some p =>
    simp only [Prog.obeys_bind]
    refine rollbackToLastGood_obeys ⟨rfl, fun _ => rfl⟩ ⟨rfl, fun _ => rfl⟩ rfl ?_ ?_
    · simp [Op.isRollback]
    · intro r; exact ⟨rfl, fun _ => by simp [Op.isRollback]⟩

theorem confirm_laps (sha256 : Bytes → String) :
    (racer sha256 slot .confirm).Obeys (confirmLaps slot) .waiting := by
  simp [racer, confirm, Prog.forall_except, Except.mapError, confirmLaps, Lap.confirmRead]
  intro st
  cases hp : st.pendingSlot with
  | none => simp
  | some p =>
    by_cases h : slot = p
    · simp [h, Prog.forall_except, Except.mapError, committedRow, Lap.confirmStored]
    · simp [h, Ne.symm h]

end Obeys

/-- Tentative mode, with the row `st₀` pending on the running slot, and how far the two threads
have come. -/
structure Racing (slot : Slot) (st₀ : OSState) (g : Racer → Lap) (h : Host) : Prop where
  onPerm : h.onPerm = true
  row : (∀ st, g .confirm ≠ .stored st) → h.osState = some st₀
  read : ∀ st, g .confirm = .read st → st = st₀
  stopped : ∀ st, g .confirm = .stopped st → st = st₀
  stored : ∀ st, g .confirm = .stored st → st = st₀ ∧ h.osState = some (committedRow st₀) ∧
    (g .callback = .waiting ∨ g .callback = .finished)
  default : g .callback = .waiting ∨ g .callback = .finished → h.grubDefault = slot
  rebooted : g .callback = .rebooted → h.down = true

section Step

variable {slot : Slot} {st₀ : OSState} {g : Racer → Lap} {h : Host}

theorem Racing.callback_get (hr : Racing slot st₀ g h) (hg : g .callback = .waiting) (e : Env) :
    Racing slot st₀ (Function.update g .callback (.callbackRead (sem .stateGet e h).2))
      (sem .stateGet e h).1 := by
  have hread := Lap.callbackRead_cases (sem .stateGet e h).2
  -- a callback that comes after the stored row finds nothing pending
  have hlate : h.osState = some (committedRow st₀) →
      Lap.callbackRead (sem .stateGet e h).2 = .finished := by
    intro hrow
    rw [sem_stateGet hr.onPerm, hrow]
    cases e.fault <;> rfl
  rw [show (sem .stateGet e h).1 = h by rw [sem_stateGet hr.onPerm]]
  refine ⟨hr.onPerm, hr.row, hr.read, hr.stopped, ?_, ?_, ?_⟩
  · intro st hs
    obtain ⟨heq, hrow, -⟩ := hr.stored st hs
    refine ⟨heq, hrow, .inr ?_⟩
    rw [Function.update_self]
    exact hlate hrow
  · exact fun _ => hr.default (.inl hg)
  · intro hreb
    rw [Function.update_self] at hreb
    rw [hreb] at hread
    simp at hread

theorem sem_rollback {o : Op} (ho : o.isRollback = true) (e : Env) (h : Host) :
    (sem o e h).1.onPerm = h.onPerm ∧ (sem o e h).1.osState = h.osState ∧
      (sem o e h).1.timer = h.timer := by
  cases o with
  | findPartition n => exact ⟨rfl, rfl, rfl⟩
  | mountBoot => exact ⟨rfl, rfl, rfl⟩
  | umountBoot => exact ⟨rfl, rfl, rfl⟩
  | reboot => exact ⟨rfl, rfl, rfl⟩
  | rewriteGrubDefault t =>
    simp only [sem]
    split <;> exact ⟨rfl, rfl, rfl⟩
  | _ => cases ho

theorem rollback_next {o : Op} (ho : o.isRollback = true) (e : Env) (h : Host) :
    callbackMonitor.next .rollingBack o (sem o e h).2 = .rollingBack ∨
      callbackMonitor.next .rollingBack o (sem o e h).2 = .rebooted ∧
        (sem o e h).1.down = true := by
  cases o with
  | reboot => exact .inr ⟨rfl, rfl⟩
  | findPartition n => exact .inl rfl
  | mountBoot => exact .inl rfl
  | umountBoot => exact .inl rfl
  | rewriteGrubDefault t => exact .inl rfl
  | _ => cases ho

theorem Racing.callback_rollback (hr : Racing slot st₀ g h) (hg : g .callback = .rollingBack)
    {o : Op} (ho : o.isRollback = true) (e : Env) :
    Racing slot st₀
      (Function.update g .callback (callbackMonitor.next .rollingBack o (sem o e h).2))
      (sem o e h).1 := by
  have hst : ∀ st, g .confirm ≠ .stored st := by
    intro st hs
    have h := (hr.stored st hs).2.2
    rw [hg] at h
    simp at h
  obtain ⟨hperm, hrow, -⟩ := sem_rollback ho e h
  refine ⟨hperm.trans hr.onPerm, fun _ => hrow.trans (hr.row hst), hr.read, hr.stopped, ?_, ?_, ?_⟩
  · exact fun st hs => absurd hs (hst st)
  · intro hnext
    rw [Function.update_self] at hnext
    rcases rollback_next ho e h with hl | ⟨hl, -⟩ <;> rw [hl] at hnext <;> simp at hnext
  · intro hreb
    rw [Function.update_self] at hreb
    rcases rollback_next ho e h with hl | ⟨-, hdown⟩
    · rw [hl] at hreb; cases hreb
    · exact hdown

theorem Racing.confirm_get (hr : Racing slot st₀ g h) (hg : g .confirm = .waiting) (e : Env) :
    Racing slot st₀ (Function.update g .confirm (.confirmRead slot (sem .stateGet e h).2))
      (sem .stateGet e h).1 := by
  have hrow : h.osState = some st₀ := hr.row (by simp [hg])
  have hread : ∀ lap, lap = Lap.confirmRead slot (sem .stateGet e h).2 →
      lap = .finished ∨ lap = .read st₀ := by
    rintro lap rfl
    rw [sem_stateGet hr.onPerm, hrow]
    cases e.fault with
    | some m => exact .inl rfl
    | none =>
      simp only [Lap.confirmRead]
      split
      · exact .inr rfl
      · exact .inl rfl
  rw [show (sem .stateGet e h).1 = h by rw [sem_stateGet hr.onPerm]]
  generalize Lap.confirmRead slot (sem .stateGet e h).2 = lap at hread
  refine ⟨hr.onPerm, fun _ => hrow, ?_, ?_, ?_, hr.default, hr.rebooted⟩
  · intro st hs
    rw [Function.update_self] at hs
    rcases hread lap rfl with hl | hl <;> cases hl.symm.trans hs
    rfl
  · intro st hs
    rw [Function.update_self] at hs
    rcases hread lap rfl with hl | hl <;> cases hl.symm.trans hs
  · intro st hs
    rw [Function.update_self] at hs
    rcases hread lap rfl with hl | hl <;> cases hl.symm.trans hs

theorem Racing.confirm_stop (hr : Racing slot st₀ g h) {st : OSState} (hg : g .confirm = .read st)
    (e : Env) :
    Racing slot st₀ (Function.update g .confirm (.stopped st)) (sem .stopTimer e h).1 := by
  refine ⟨hr.onPerm, fun _ => hr.row (by simp [hg]), ?_, ?_, ?_, hr.default, hr.rebooted⟩
  · intro st' hs; rw [Function.update_self] at hs; cases hs
  · intro st' hs
    rw [Function.update_self] at hs
    cases hs
    exact hr.read st hg
  · intro st' hs; rw [Function.update_self] at hs; cases hs

theorem Racing.confirm_put (hr : Racing slot st₀ g h) {st : OSState} (hg : g .confirm = .stopped st)
    (hidle : g .callback = .waiting ∨ g .callback = .finished) (e : Env) :
    Racing slot st₀ (Function.update g .confirm
        (.confirmStored st (sem (.statePut (committedRow st)) e h).2))
      (sem (.statePut (committedRow st)) e h).1 := by
  obtain rfl := hr.stopped st hg
  rw [sem_statePut hr.onPerm]
  cases e.fault with
  | some m =>
    refine ⟨hr.onPerm, fun _ => hr.row (by simp [hg]), ?_, ?_, ?_, hr.default, hr.rebooted⟩ <;>
    · intro st' hs; rw [Function.update_self] at hs; cases hs
  | none =>
    refine ⟨hr.onPerm, ?_, ?_, ?_, ?_, hr.default, hr.rebooted⟩
    · exact fun hn => absurd (Function.update_self _ _ _) (hn st)
    · intro st' hs; rw [Function.update_self] at hs; cases hs
    · intro st' hs; rw [Function.update_self] at hs; cases hs
    · intro st' hs
      rw [Function.update_self] at hs
      cases hs
      exact ⟨rfl, rfl, hidle⟩

theorem idle_of_all {p : Code RaceResult} {lap : Lap} (h : p.Obeys callbackMonitor lap)
    (hall : p.next?.all Op.isGet = true) : lap = .waiting ∨ lap = .rebooted ∨ lap = .finished := by
  cases p with
  | ret a => exact .inr h
  | call o k =>
    have hok := h.1
    cases lap with
    | waiting => exact .inl rfl
    | rollingBack =>
      cases o with
      | stateGet => cases hok
      | _ => cases hall
    | _ => exact absurd hok id

/-- The step lemma. -/
theorem Racing.step {c : Pool Racer Op Res Host RaceResult} (hr : Racing slot st₀ g c.st)
    (hob : ∀ j, (c.thr j).Obeys (lapMonitor slot j) (g j)) {i : Racer} {e : Env} {o : Op}
    {k : Res o → Code RaceResult} (hp : c.thr i = .call o k) (hf : Feasible c i e)
    (ha : Apart c i e) :
    Racing slot st₀ (Function.update g i ((lapMonitor slot i).next (g i) o (sem o e c.st).2))
      (sem o e c.st).1 := by
  have hok := hob i
  rw [hp] at hok
  replace hok := hok.1
  cases i with
  | callback =>
    cases hg : g .callback with
    | waiting =>
      rw [hg] at hok; cases hok; exact hr.callback_get hg e
    | rollingBack => rw [hg] at hok; exact hr.callback_rollback hg hok e
    | _ => rw [hg] at hok; exact absurd hok id
  | confirm =>
    cases hg : g .confirm with
    | waiting => rw [hg] at hok; cases hok; exact hr.confirm_get hg e
    | read st => rw [hg] at hok; cases hok; exact hr.confirm_stop hg e
    | stopped st =>
      rw [hg] at hok
      cases hok
      refine hr.confirm_put hg ?_ e
      rcases idle_of_all (hob .callback) (ha rfl (by rw [hp]; rfl)) with hw | hreb | ho
      · exact .inl hw
      · exact absurd (hr.rebooted hreb) (by rw [hf]; exact Bool.false_ne_true)
      · exact .inr ho
    | _ => rw [hg] at hok; exact absurd hok id

/-- The run lemma: once `Confirm` has returned success, its row is stored and the default is the
running slot. -/
theorem Racing.run {sha256 : Bytes → String} (hr : Racing slot st₀ (fun _ => .waiting) h)
    {w : List (Racer × Env)}
    (hw : (race sha256 slot h).Allowed sem (fun c i e => Feasible c i e ∧ Apart c i e) w)
    {r : Slot × Bytes}
    (hret : ((race sha256 slot h).run sem w).thr .confirm = .ret (some (.ok r))) :
    r.1 = st₀.activeSlot ∧ ((race sha256 slot h).run sem w).st.grubDefault = slot ∧
      ((race sha256 slot h).run sem w).st.osState = some (committedRow st₀) := by
  obtain ⟨g, hr, hob⟩ := Pool.run_monitor (M := lapMonitor slot)
    (P := fun _ g c => Racing slot st₀ g c.st) (g := fun _ => Lap.waiting) (by
      intro _ g c i e o k hr hob hp hok
      rw [Pool.step_call hp]
      exact hr.step hob hp hok.1 hok.2)
    (by
      rintro (_ | _)
      · exact callback_obeys slot sha256
      · exact confirm_laps slot sha256)
    hr hw
  have hfin := hob .confirm
  rw [hret] at hfin
  cases hg : g .confirm with
  | stored st =>
    rw [hg] at hfin
    cases hfin
    obtain ⟨rfl, hrow, hidle⟩ := hr.stored st hg
    exact ⟨rfl, hr.default hidle, hrow⟩
  | finished => rw [hg] at hfin; exact absurd rfl (hfin r)
  | _ => rw [hg] at hfin; exact absurd hfin id

end Step

/-! ## Tentative mode -/

section Boot

variable {sha256 : Bytes → String} {slot : Slot} {h : Host}

theorem rollback_timer (lastGood : Slot) (es : List Env) (ht : h.timer = none) :
    ((rollbackToLastGood lastGood >>= fun _ => reboot).exec sem es h).st.timer = none := by
  have hob : (rollbackToLastGood lastGood >>= fun _ => reboot).Obeys
      (⟨fun _ o => o.isRollback = true, fun g _ _ => g, fun _ _ => True⟩ : Monitor Op Res _ Unit)
      () := by
    simp [rollbackToLastGood, withBootMount, Prog.forall_except, Except.mapError, Op.isRollback]
  obtain ⟨_, hj, -⟩ := hob.exec (J := fun _ h => h.timer = none)
    (fun _ h o e hj ho => (sem_rollback ho e h).2.2.trans hj) ht es
  exact hj

theorem deadline_armed (dl : Int) (lastGood : Slot) (es : List Env) (ht : h.timer = none) :
    let p : Code (Except Err Unit) := do
      let t ← now
      if dl = 0 ∨ dl ≤ t then
        let _ ← rollbackToLastGood lastGood
        reboot
      else
        let t ← now
        afterFunc (dl - t)
        return .ok ()
    (p.exec sem es h).st.timer ≠ none → ∃ d, (p.exec sem es h).st = { h with timer := some d } := by
  intro p
  simp only [p, now, Prog.call_bind, Prog.ret_bind]
  rcases es with _ | ⟨e, es⟩
  · exact fun harmed => absurd ht harmed
  simp only [Prog.exec_call_cons, sem]
  by_cases hdl : dl = 0 ∨ dl ≤ e.clock
  · simp only [hdl, if_true]
    exact fun harmed => absurd (rollback_timer lastGood es ht) harmed
  · simp only [hdl, if_false]
    rcases es with _ | ⟨e', _ | ⟨e'', es⟩⟩
    · exact fun harmed => absurd ht harmed
    · exact fun harmed => absurd ht harmed
    · exact fun _ => ⟨_, rfl⟩

theorem onStartup_armed (hp : h.onPerm = true) (ht : h.timer = none) {es : List Env}
    (harmed : ((onStartup ⟨some slot, sha256⟩).exec sem es h).st.timer ≠ none) :
    ∃ st d, h.osState = some st ∧ st.pendingSlot = some slot ∧
      ((onStartup ⟨some slot, sha256⟩).exec sem es h).st =
        { h with osState := some { st with activeSlot := slot }, timer := some d } := by
  simp only [onStartup, stateGet, Prog.call_bind, Prog.ret_bind] at harmed ⊢
  rcases es with _ | ⟨e₁, es⟩
  · exact absurd ht harmed
  simp only [Prog.exec_call_cons, sem_stateGet hp] at harmed ⊢
  cases h₁ : e₁.fault with
  | some m => simp [h₁, Err.is, ht] at harmed
  | none =>
    cases hst : h.osState with
    | none =>
      rcases es with _ | ⟨e₂, es⟩
      · simp [h₁, hst, Err.is, Prog.mapErr, ht] at harmed
      · cases h₂ : e₂.fault <;>
          simp [h₁, hst, Err.is, Prog.mapErr, Prog.exec_call_cons, sem_statePut hp, h₂, ht]
            at harmed
    | some st =>
      simp only [h₁, hst] at harmed ⊢
      cases hpend : st.pendingSlot with
      | none =>
        rcases es with _ | ⟨e₂, es⟩
        · simp [hpend, ht] at harmed
        · cases h₂ : e₂.fault <;>
            simp [hpend, Prog.exec_call_cons, sem_statePut hp, h₂, ht] at harmed
      | some p =>
        by_cases hslot : p = slot
        · subst hslot
          simp only [hpend, ne_eq, not_true_eq_false, if_false, statePut, Prog.thenOk,
            Prog.call_bind, Prog.ret_bind] at harmed ⊢
          rcases es with _ | ⟨e₂, es⟩
          · exact absurd ht harmed
          simp only [Prog.exec_call_cons, sem_statePut hp] at harmed ⊢
          cases h₂ : e₂.fault with
          | some m => simp [h₂, ht] at harmed
          | none =>
            simp only [h₂] at harmed ⊢
            obtain ⟨d, hd⟩ := deadline_armed
              (h := { h with osState := some { st with activeSlot := p } }) st.pendingDeadlineUnix
              st.lastGoodSlot es ht harmed
            refine ⟨st, d, rfl, hpend, ?_⟩
            rw [← hpend]
            exact hd
        · rcases es with _ | ⟨e₂, es⟩
          · simp [hpend, hslot, ht] at harmed
          · cases h₂ : e₂.fault <;>
              simp [hpend, hslot, Prog.exec_call_cons, sem_statePut hp, h₂, ht] at harmed

theorem racing_start {m : Machine} {es : List Env} (hoff : m.booted = none)
    (hup : (m.step sha256 (.boot es)).booted = some slot)
    (harmed : (m.step sha256 (.boot es)).host.timer ≠ none) :
    ∃ st₀, st₀.activeSlot = slot ∧
      Racing slot st₀ (fun _ => .waiting) (m.step sha256 (.boot es)).host := by
  have hslot : slot = m.host.grubDefault := by
    rw [Machine.step_boot_eq, Machine.bootInto, hoff] at hup
    exact Machine.booted_after hup
  rw [Machine.step_boot_eq, Machine.bootInto, hoff, ← hslot] at harmed ⊢
  obtain ⟨st, d, -, -, hhost⟩ := onStartup_armed rfl rfl harmed
  refine ⟨{ st with activeSlot := slot }, rfl, ?_⟩
  simp only [Machine.after, hhost]
  exact ⟨rfl, fun _ => rfl, fun _ hs => (by cases hs), fun _ hs => (by cases hs),
    fun _ hs => (by cases hs), fun _ => hslot.symm, fun hs => by cases hs⟩

end Boot

/-- The GRUB default is `slot`, and its boot finds and leaves it as last good. -/
def BootsCommitted (sha256 : Bytes → String) (slot : Slot) (h : Host) : Prop :=
  h.grubDefault = slot ∧ ∀ es committed,
    ((⟨h, none, committed⟩ : Machine).step sha256 (.boot es)).host.osState.map
      OSState.lastGoodSlot = some slot

theorem bootsCommitted_of_row {sha256 : Bytes → String} {slot : Slot} {h : Host} {st : OSState}
    (hd : h.grubDefault = slot) (hrow : h.osState = some (committedRow st))
    (hact : st.activeSlot = slot) : BootsCommitted sha256 slot h := by
  refine ⟨hd, ?_⟩
  intro es committed
  have hup : (⟨h, none, committed⟩ : Machine).Up := fun hb => absurd rfl hb
  rcases (Machine.ran_pick hup (.act (.boot es))).lastGood hup with hsame | hconf | ⟨hnone, -⟩
  · rw [Machine.pick] at hsame
    rw [hsame]
    change h.osState.map OSState.lastGoodSlot = some slot
    rw [hrow, ← hact]
    rfl
  · obtain ⟨es', r, hx, -⟩ := hconf; cases hx
  · rw [hrow] at hnone; cases hnone

/-- In tentative mode, `Confirm` beside the deadline callback: when the callback is not under way
as `Confirm` stores its row, a `Confirm` that returned success committed the running slot, and the
machine boots it from then on. -/
theorem confirm_durable (sha256 : Bytes → String) (m : Machine) (hoff : m.booted = none)
    (es : List Env) (slot : Slot) (hup : (m.step sha256 (.boot es)).booted = some slot)
    (harmed : (m.step sha256 (.boot es)).host.timer ≠ none) (w : List (Racer × Env))
    (hw : (race sha256 slot (m.step sha256 (.boot es)).host).Allowed sem
      (fun c i e => Feasible c i e ∧ Apart c i e) w) (r : Slot × Bytes)
    (hret : ((race sha256 slot (m.step sha256 (.boot es)).host).run sem w).thr .confirm =
      .ret (some (.ok r))) :
    r.1 = slot ∧
      BootsCommitted sha256 slot
        ((race sha256 slot (m.step sha256 (.boot es)).host).run sem w).st := by
  obtain ⟨st₀, hact, hr⟩ := racing_start hoff hup harmed
  obtain ⟨hr1, hd, hrow⟩ := hr.run hw hret
  exact ⟨hr1.trans hact, bootsCommitted_of_row hd hrow hact⟩

/-- A pushed update, switched off and not yet booted. -/
def pushed : Machine :=
  [.boot quiet, .push (bundle 1) quiet, .powerOff].foldl (Machine.step fun _ => "")
    (.factory bench)

/-- The timer has fired, but the callback reads the row only after `Confirm` has stored it. -/
theorem confirm_durable_late :
    Slot.b = .b ∧ BootsCommitted (fun _ => "") .b
      ((race (fun _ => "") .b (pushed.step (fun _ => "") (.boot quiet)).host).run sem
        [(.confirm, .ok), (.confirm, .ok), (.confirm, .ok), (.callback, .ok)]).st :=
  confirm_durable (fun _ => "") pushed (by decide) quiet .b (by decide) (by decide) _ (by decide)
    (.b, [1]) rfl

/-- The callback reads the pending row, `Confirm` runs to its end, the callback goes on. -/
theorem confirmed_then_rolled_back :
    ¬ ∀ (sha256 : Bytes → String) (m : Machine), m.booted = none → ∀ (es : List Env) (slot : Slot),
      (m.step sha256 (.boot es)).booted = some slot →
      (m.step sha256 (.boot es)).host.timer ≠ none → ∀ w : List (Racer × Env),
      (race sha256 slot (m.step sha256 (.boot es)).host).Allowed sem Feasible w →
      ∀ r, ((race sha256 slot (m.step sha256 (.boot es)).host).run sem w).thr .confirm =
        .ret (some (.ok r)) →
      r.1 = slot ∧ BootsCommitted sha256 slot
        ((race sha256 slot (m.step sha256 (.boot es)).host).run sem w).st := by
  intro hall
  have h := (hall (fun _ => "") pushed (by decide) quiet .b (by decide) (by decide)
    [(.callback, .ok), (.confirm, .ok), (.confirm, .ok), (.confirm, .ok), (.callback, .ok),
      (.callback, .ok), (.callback, .ok), (.callback, .ok), (.callback, .ok)] (by decide)
    (.b, [1]) rfl).2.1
  exact absurd h (by decide)

end Capsule.Update
