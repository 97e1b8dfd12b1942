import Capsule.Update.Machine

/-!
# Capsule.Update.Rollback

Does an unconfirmed boot always roll back?

A `TentativeBoot` is one boot of the pending slot with all that can go differently on it: whether
`/perm` mounts, the faults of the store, the clock, the `Confirm` calls and their faults. Its
`final` host at a time `t` has the deadline callback behind it when the timer that `OnStartup`
armed is over by then, and no `Confirm` has stopped it.

* `started_*`: what `OnStartup` leaves behind, one lemma for each way through it. Only
  `started_armed` sets a timer, and for exactly the time up to the recorded deadline.
* `confirms_*`: a `Confirm` that cannot read the row changes nothing; one that can stops the timer,
  also when its write then fails.
* `rollback_iff`: exactly when the machine is back on the last good slot at the time `t`.
-/

namespace Capsule.Update

open Atomic

/-- The answers the store gives to one `Confirm`. -/
structure ConfirmFaults where
  get : Option String
  put : Option String

structure TentativeBoot where
  mountedPerm : Bool
  installerMode : Bool
  /-- The faults of `sqlite.Open` and of `OnStartup`'s `Get` and `Put`. -/
  openFault : Option String
  getFault : Option String
  putFault : Option String
  /-- The clock when `OnStartup` compares it with the deadline, and when it sets the timer. From
  then on it runs steadily. -/
  clock : Int
  clock' : Int
  /-- The `Confirm` calls before the deadline. -/
  confirms : List ConfirmFaults
  /-- The fault of the deadline callback's `Get`. -/
  expireFault : Option String

namespace TentativeBoot

def startAnswers (b : TentativeBoot) : List Env :=
  (if b.mountedPerm then [{ fault := b.openFault }] else []) ++
    [{ fault := b.getFault }, { fault := b.putFault }, { clock := b.clock },
      { clock := b.clock' }, .ok, .ok, .ok, .ok]

def expireAnswers (b : TentativeBoot) : List Env :=
  [{ fault := b.expireFault }, .ok, .ok, .ok, .ok, .ok]

end TentativeBoot

def ConfirmFaults.answers (c : ConfirmFaults) : List Env :=
  [{ fault := c.get }, .ok, { fault := c.put }]

section

variable (sha256 : Bytes → String) (slot : Slot)

def confirmOnce (h : Host) (c : ConfirmFaults) :
    Prog.Outcome Op Host Env (Except Err (Slot × Bytes)) :=
  (confirm ⟨some slot, sha256⟩).exec sem c.answers h

/-- No `Confirm` of the list succeeds. -/
def NoneConfirms : Host → List ConfirmFaults → Prop
  | _, [] => True
  | h, c :: cs => (∀ r, (confirmOnce sha256 slot h c).val ≠ some (.ok r)) ∧
      NoneConfirms (confirmOnce sha256 slot h c).st cs

namespace TentativeBoot

/-- The host when `OnStartup` has returned. -/
def started (b : TentativeBoot) (h : Host) : Host :=
  ((startup true sha256 ⟨some slot, b.mountedPerm, b.installerMode⟩).exec sem b.startAnswers
    h.cold).st

/-- The host after the `Confirm` calls, before the callback. -/
def confirmed (b : TentativeBoot) (h : Host) : Host :=
  b.confirms.foldl (fun h c => (confirmOnce sha256 slot h c).st) (b.started sha256 slot h)

/-- The host at the time `t`. The callback has run when its timer, armed at `clock'`, is over. -/
def final (b : TentativeBoot) (h : Host) (t : Int) : Host :=
  if (b.started sha256 slot h).down then b.started sha256 slot h
  else
    match (b.confirmed sha256 slot h).timer with
    | none => b.confirmed sha256 slot h
    | some d =>
      if b.clock' + d ≤ t then
        (deadlineExpired.exec sem b.expireAnswers
          { b.confirmed sha256 slot h with timer := none }).st
      else b.confirmed sha256 slot h

end TentativeBoot

end

variable {sha256 : Bytes → String} {slot : Slot} {h : Host} {st : OSState}

namespace TentativeBoot

variable {b : TentativeBoot}

theorem started_memory (hm : b.mountedPerm = false ∨ b.openFault ≠ none) :
    b.started sha256 slot h = { h.cold with memState := some (seed slot) } := by
  cases hp : b.mountedPerm with
  | false =>
    simp [started, startup, openStore, onStartup, startAnswers, hp, sem, Prog.exec, Err.is,
      Host.row, Host.cold, Host.setRow, Prog.mapErr]
  | true =>
    obtain ⟨e, he⟩ := Option.ne_none_iff_exists'.mp (hm.resolve_left (by simp [hp]))
    simp [started, startup, openStore, onStartup, startAnswers, hp, he, sem, Prog.exec, Err.is,
      Host.row, Host.cold, Host.setRow, Prog.mapErr]

theorem started_getFault (hm : b.mountedPerm = true) (ho : b.openFault = none)
    (hg : b.getFault ≠ none) : b.started sha256 slot h = h.powerOn := by
  obtain ⟨e, he⟩ := Option.ne_none_iff_exists'.mp hg
  simp [started, startup, openStore, onStartup, startAnswers, hm, ho, he, sem, Prog.exec, Err.is,
    Host.powerOn]

section OnPerm

variable (hm : b.mountedPerm = true) (ho : b.openFault = none) (hg : b.getFault = none)
  (hst : h.osState = some st) (hpend : st.pendingSlot = some slot)
include hm ho hg hst hpend

theorem started_putFault (hp : b.putFault ≠ none) : b.started sha256 slot h = h.powerOn := by
  obtain ⟨e, he⟩ := Option.ne_none_iff_exists'.mp hp
  simp [started, startup, openStore, onStartup, startAnswers, hm, ho, hg, he, sem, Prog.exec,
    Host.powerOn, Host.row, Host.cold, hst, hpend, Prog.thenOk]

theorem started_expired (hp : b.putFault = none)
    (hd : st.pendingDeadlineUnix = 0 ∨ st.pendingDeadlineUnix ≤ b.clock) :
    b.started sha256 slot h =
      { h.powerOn with
        osState := some { st with activeSlot := slot }, grubDefault := st.lastGoodSlot,
        down := true } := by
  simp [started, startup, openStore, onStartup, startAnswers, hm, ho, hg, hp, hd, sem, Prog.exec,
    Host.powerOn, Host.row, Host.cold, Host.setRow, hst, hpend, Prog.thenOk, Prog.mapErr,
    rollbackToLastGood, withBootMount, Env.ok, Env.answer, Except.mapError]

theorem started_armed (sha256 : Bytes → String) (hp : b.putFault = none)
    (hd : ¬ (st.pendingDeadlineUnix = 0 ∨ st.pendingDeadlineUnix ≤ b.clock)) :
    b.started sha256 slot h =
      { h.powerOn with
        osState := some { st with activeSlot := slot },
        timer := some (st.pendingDeadlineUnix - b.clock') } := by
  simp [started, startup, openStore, onStartup, startAnswers, hm, ho, hg, hp, hd, sem, Prog.exec,
    Host.powerOn, Host.row, Host.cold, Host.setRow, hst, hpend, Prog.thenOk, Env.ok]

end OnPerm

end TentativeBoot

/-- The operations of `Confirm`. -/
def confirmMonitor : Monitor Op Res (Except Err (Slot × Bytes)) Unit where
  ok _ o := o = .stateGet ∨ o = .stopTimer ∨ ∃ st, o = .statePut st
  next g _ _ := g
  fin _ _ := True

theorem confirm_ops (s : Service) : (confirm s).Obeys confirmMonitor () := by
  simp [confirm, Prog.forall_except, confirmMonitor, Except.mapError]
  intro st
  split
  · simp
  · split <;> simp [Prog.forall_except, Except.mapError]

theorem confirmOnce_idle (c : ConfirmFaults) (ht : h.timer = none) (hd : h.down = false) :
    (confirmOnce sha256 slot h c).st.timer = none ∧
      (confirmOnce sha256 slot h c).st.down = false := by
  let Idle (_ : Unit) (h : Host) : Prop := h.timer = none ∧ h.down = false
  have hstep : ∀ g h o e, Idle g h → confirmMonitor.ok g o → Idle g (sem o e h).1 := by
    rintro - h o e ⟨h1, h2⟩ (rfl | rfl | ⟨st, rfl⟩)
    · simp only [sem]
      split <;> exact ⟨h1, h2⟩
    · exact ⟨rfl, h2⟩
    · simp only [sem, Host.setRow]
      split
      · exact ⟨h1, h2⟩
      · split <;> exact ⟨h1, h2⟩
  obtain ⟨_, hidle, -⟩ := (confirm_ops ⟨some slot, sha256⟩).exec hstep ⟨ht, hd⟩ c.answers
  exact hidle

theorem confirmOnce_getFault {c : ConfirmFaults} (hp : h.onPerm = true) (hc : c.get ≠ none) :
    (confirmOnce sha256 slot h c).st = h := by
  obtain ⟨e, he⟩ := Option.ne_none_iff_exists'.mp hc
  simp [confirmOnce, confirm, ConfirmFaults.answers, sem, Prog.exec, hp, he,
    Prog.thenOk, Prog.mapErr, Except.mapError]

theorem confirmOnce_read {c : ConfirmFaults} (hp : h.onPerm = true) (hst : h.osState = some st)
    (hpend : st.pendingSlot = some slot) (hc : c.get = none)
    (hno : ∀ r, (confirmOnce sha256 slot h c).val ≠ some (.ok r)) :
    (confirmOnce sha256 slot h c).st = { h with timer := none } := by
  cases hput : c.put with
  | some e =>
    simp [confirmOnce, confirm, ConfirmFaults.answers, sem, Prog.exec, hp, hc, hput, hst, hpend,
      Host.row, Prog.thenOk, Prog.mapErr, Except.mapError]
  | none =>
    refine absurd ?_ (hno (st.activeSlot, st.lastVersion))
    simp [confirmOnce, confirm, ConfirmFaults.answers, sem, Prog.exec, hp, hc, hput, hst, hpend,
      Host.row, Host.setRow, Prog.thenOk, Prog.mapErr, Except.mapError]

section Calls

variable {cs : List ConfirmFaults}

theorem confirms_idle (ht : h.timer = none) (hd : h.down = false) :
    (cs.foldl (fun h c => (confirmOnce sha256 slot h c).st) h).timer = none ∧
      (cs.foldl (fun h c => (confirmOnce sha256 slot h c).st) h).down = false := by
  induction cs generalizing h with
  | nil => exact ⟨ht, hd⟩
  | cons c cs ih =>
    rw [List.foldl_cons]
    exact ih (confirmOnce_idle c ht hd).1 (confirmOnce_idle c ht hd).2

theorem confirms_getFault (hp : h.onPerm = true) (hcs : ∀ c ∈ cs, c.get ≠ none) :
    cs.foldl (fun h c => (confirmOnce sha256 slot h c).st) h = h := by
  induction cs with
  | nil => rfl
  | cons c cs ih =>
    rw [List.foldl_cons, confirmOnce_getFault hp (hcs c List.mem_cons_self)]
    exact ih fun c hc => hcs c (List.mem_cons_of_mem _ hc)

theorem confirms_stop (hp : h.onPerm = true) (hst : h.osState = some st)
    (hpend : st.pendingSlot = some slot) (hd : h.down = false)
    (hno : NoneConfirms sha256 slot h cs) (hcs : ¬ ∀ c ∈ cs, c.get ≠ none) :
    (cs.foldl (fun h c => (confirmOnce sha256 slot h c).st) h).timer = none ∧
      (cs.foldl (fun h c => (confirmOnce sha256 slot h c).st) h).down = false := by
  induction cs with
  | nil => exact absurd (fun c hc => by cases hc) hcs
  | cons c cs ih =>
    rw [List.foldl_cons]
    by_cases hc : c.get = none
    · rw [confirmOnce_read hp hst hpend hc hno.1]; exact confirms_idle rfl hd
    · have hno' := hno.2
      rw [confirmOnce_getFault hp hc] at hno' ⊢
      refine ih hno' fun hall => hcs ?_
      intro c' hc'
      rcases List.mem_cons.mp hc' with rfl | hc'
      · exact hc
      · exact hall c' hc'

end Calls

/-- The next boot is the last good slot's, and it is under way. -/
def RolledBack (st : OSState) (h : Host) : Prop := h.grubDefault = st.lastGoodSlot ∧ h.down = true

instance (st : OSState) (h : Host) : Decidable (RolledBack st h) :=
  inferInstanceAs (Decidable (_ ∧ _))

namespace TentativeBoot

variable {b : TentativeBoot} {h₁ : Host} {t : Int}

theorem final_unarmed (hd : (b.started sha256 slot h).down = false)
    (hc : (b.confirmed sha256 slot h).timer = none ∧ (b.confirmed sha256 slot h).down = false) :
    ¬ RolledBack st (b.final sha256 slot h t) := by
  simp only [final, hd, hc.1, Bool.false_eq_true, if_false]
  intro hr
  exact absurd (hc.2.symm.trans hr.2) Bool.false_ne_true

theorem final_idle (hs : b.started sha256 slot h = h₁) (ht : h₁.timer = none)
    (hd : h₁.down = false) : ¬ RolledBack st (b.final sha256 slot h t) := by
  subst hs
  exact final_unarmed hd (confirms_idle ht hd)

theorem final_armed (hs : b.started sha256 slot h = h₁) (hd : h₁.down = false)
    (hp : h₁.onPerm = true) {d : Int} (ht : h₁.timer = some d) {st₁ : OSState}
    (hst : h₁.osState = some st₁) (hpend : st₁.pendingSlot ≠ none)
    (hcs : ∀ c ∈ b.confirms, c.get ≠ none) :
    RolledBack st₁ (b.final sha256 slot h t) ↔ b.expireFault = none ∧ b.clock' + d ≤ t := by
  subst hs
  have hc : b.confirmed sha256 slot h = b.started sha256 slot h := confirms_getFault hp hcs
  obtain ⟨p, hpend⟩ := Option.ne_none_iff_exists'.mp hpend
  simp only [final, hd, hc, ht, Bool.false_eq_true, if_false]
  by_cases hover : b.clock' + d ≤ t
  case neg => simp [hover, RolledBack, hd]
  rw [if_pos hover]
  cases he : b.expireFault with
  | none =>
    simp [deadlineExpired, expireAnswers, he, sem, Prog.exec, hp, hst, hpend, Host.row,
      rollbackToLastGood, withBootMount, Env.ok, Env.answer, Except.mapError, Prog.thenOk,
      Prog.mapErr, RolledBack, hover]
  | some e =>
    simp [deadlineExpired, expireAnswers, he, sem, Prog.exec, hp, RolledBack]

end TentativeBoot

open TentativeBoot

/-- Exactly when an unconfirmed boot into the pending slot has rolled back at the time `t`: at
startup when the deadline has passed by then, or else at the deadline and not before it. -/
theorem rollback_iff (sha256 : Bytes → String) (slot : Slot) (h : Host) (st : OSState)
    (b : TentativeBoot) (t : Int) (hst : h.osState = some st)
    (hpend : st.pendingSlot = some slot)
    (hno : NoneConfirms sha256 slot (b.started sha256 slot h) b.confirms) :
    RolledBack st (b.final sha256 slot h t) ↔
      b.mountedPerm = true ∧ b.openFault = none ∧ b.getFault = none ∧ b.putFault = none ∧
        ((st.pendingDeadlineUnix = 0 ∨ st.pendingDeadlineUnix ≤ b.clock) ∨
          (∀ c ∈ b.confirms, c.get ≠ none) ∧ b.expireFault = none ∧
            st.pendingDeadlineUnix ≤ t) := by
  by_cases hm : b.mountedPerm = false ∨ b.openFault ≠ none
  · -- in memory: nothing is pending there
    refine iff_of_false (final_idle (started_memory hm) rfl rfl) ?_
    rintro ⟨h1, h2, -⟩
    exact hm.elim (fun h => by simp [h1] at h) (fun h => h h2)
  have hperm : b.mountedPerm = true := by simpa using fun h => hm (.inl h)
  have hopen : b.openFault = none := by simpa using fun h => hm (.inr h)
  by_cases hget : b.getFault = none
  case neg =>
    exact iff_of_false (final_idle (started_getFault hperm hopen hget) rfl rfl)
      fun h => hget h.2.2.1
  by_cases hput : b.putFault = none
  case neg =>
    exact iff_of_false (final_idle (started_putFault hperm hopen hget hst hpend hput) rfl rfl)
      fun h => hput h.2.2.2.1
  by_cases hd : st.pendingDeadlineUnix = 0 ∨ st.pendingDeadlineUnix ≤ b.clock
  · -- too late already: `OnStartup` rolls back itself
    refine iff_of_true ?_ ⟨hperm, hopen, hget, hput, .inl hd⟩
    rw [final, started_expired hperm hopen hget hst hpend hput hd]
    exact ⟨rfl, rfl⟩
  · have hstart := started_armed hperm hopen hget hst hpend sha256 hput hd
    simp only [hperm, hopen, hget, hput, hd, true_and, false_or]
    by_cases hcs : ∀ c ∈ b.confirms, c.get ≠ none
    · have harmed := final_armed (t := t) hstart rfl rfl rfl rfl (by simp [hpend]) hcs
      -- the timer was set for the time that was left
      rw [add_sub_cancel] at harmed
      exact harmed.trans ⟨fun he => ⟨hcs, he⟩, And.right⟩
    · refine iff_of_false (final_unarmed (by rw [hstart]; rfl) ?_) fun hr => hcs hr.1
      rw [hstart] at hno
      rw [confirmed, hstart]
      exact confirms_stop rfl rfl hpend rfl hno hcs

/-- A boot with a working store whose one `Confirm` cannot read the row. -/
def unconfirmedBoot : TentativeBoot where
  mountedPerm := true
  installerMode := false
  openFault := none
  getFault := none
  putFault := none
  clock := 7
  clock' := 8
  confirms := [⟨some "database is locked", none⟩]
  expireFault := none

/-- The row a push of version 1 leaves for it. -/
def pendingB : OSState := ⟨.a, some .b, 600, .a, [1]⟩

theorem rollback_unconfirmedBoot :
    RolledBack pendingB
      (unconfirmedBoot.final (fun _ => "") .b
        { bench with grubDefault := .b, osState := some pendingB } 600) :=
  (rollback_iff _ .b _ pendingB unconfirmedBoot 600 rfl rfl
    ⟨fun _ h => (by cases h), trivial⟩).mpr
    ⟨rfl, rfl, rfl, rfl, .inr ⟨by simp [unconfirmedBoot], rfl, by decide⟩⟩

/-- `/perm` does not mount: the in-memory store knows of no pending slot, and nothing rolls
back. -/
theorem rollback_fails_without_perm :
    ¬ ∀ (sha256 : Bytes → String) (slot : Slot) (h : Host) (st : OSState) (b : TentativeBoot),
      h.grubDefault = slot → h.osState = some st → st.pendingSlot = some slot →
      NoneConfirms sha256 slot (b.started sha256 slot h) b.confirms →
      RolledBack st (b.final sha256 slot h st.pendingDeadlineUnix) := by
  intro hall
  have h := hall (fun _ => "") .b { bench with grubDefault := .b, osState := some pendingB }
    pendingB { unconfirmedBoot with mountedPerm := false } rfl rfl rfl
    ⟨fun _ h => (by cases h), trivial⟩
  revert h
  decide

end Capsule.Update
