import Capsule.Update.Bundle
import Capsule.Update.Commit

/-!
# Capsule.Update.Versions

Whether `LastVersion` names the image in `LastGoodSlot`, over runs of the A/B machine that remember
the version of each slot's image (`Versioned`).

* `Truthful`: with nothing pending and a push confirmed it does.
* `BootsPending`, `ConfirmsRunning`: no boot gives up a pending slot of another version than
  `LastGoodSlot` holds, and a `Confirm` finds the running slot as `ActiveSlot`.
* `Told`, `Told.step`: the invariant, kept by such steps.
* `lastVersion_kept`: so it does in every run of them.
-/

namespace Capsule.Update

open Atomic

/-- The machine, with the versions of its images. -/
structure Versioned where
  machine : Machine
  /-- The version of the image in each slot, if it is known. -/
  version : Slot → Option Bytes
  /-- A `Confirm` has stored its row. -/
  confirmed : Bool

namespace Versioned

/-- A disk as it leaves the factory, with images of any version. -/
def factory (h : Host) (version : Slot → Option Bytes) : Versioned :=
  ⟨.factory h, version, false⟩

def versionAfter (v : Versioned) : Choice → Slot → Option Bytes
  | .act (.push r _) =>
    match v.machine.booted with
    | some slot => Function.update v.version (otherSlot slot) r.version
    | none => v.version
  | _ => v.version

/-- The choice is a `Confirm` that changes the row. -/
def confirms (sha256 : Bytes → String) (v : Versioned) : Choice → Bool
  | .act (.confirm es) =>
    (v.machine.pick sha256 (.act (.confirm es))).host.osState ≠ v.machine.host.osState
  | _ => false

def step (sha256 : Bytes → String) (v : Versioned) (x : Choice) : Versioned where
  machine := v.machine.pick sha256 x
  version := v.versionAfter x
  confirmed := v.confirmed || v.confirms sha256 x

/-- With nothing pending and a push confirmed, `LastVersion` is the version of the image in
`LastGoodSlot`. -/
def Truthful (v : Versioned) : Prop :=
  ∀ st ∈ v.machine.host.osState, st.pendingSlot = none → v.confirmed = true →
    v.version st.lastGoodSlot = some st.lastVersion

instance (v : Versioned) : Decidable v.Truthful :=
  inferInstanceAs (Decidable (∀ st ∈ v.machine.host.osState, _))

def Succeeds (sha256 : Bytes → String) (v : Versioned) : Choice → Prop
  | .act (.push r es) => ∀ slot ∈ v.machine.booted,
      (((receiveBundle ⟨some slot, sha256⟩ r).exec sem es v.machine.host).val.any
        fun out => out.toBool) = true
  | _ => True

/-- A boot with a slot pending goes to that slot, or nothing was confirmed yet, or the slot that
`OnStartup` gives up holds the version that `LastGoodSlot` holds. -/
def BootsPending (v : Versioned) (x : Choice) : Prop :=
  v.machine.booted = none → ∀ st ∈ v.machine.host.osState, ∀ p ∈ st.pendingSlot,
    ∀ b ∈ v.machine.bootOf x,
      p = b.1 ∨ v.confirmed = false ∨ v.version p = v.version st.lastGoodSlot

/-- A `Confirm` that runs from the pending slot finds it as the row's `ActiveSlot`. -/
def ConfirmsRunning (v : Versioned) : Choice → Prop
  | .act (.confirm _) => ∀ st ∈ v.machine.host.osState, ∀ slot ∈ v.machine.booted,
      st.pendingSlot = some slot → st.activeSlot = slot
  | _ => True

instance (sha256 : Bytes → String) (v : Versioned) : ∀ x, Decidable (v.Succeeds sha256 x)
  | .act (.push _ _) => inferInstanceAs (Decidable (∀ slot ∈ v.machine.booted, _))
  | .act (.boot _) | .act (.confirm _) | .act (.expire _) | .act .powerOff | .menu _ _ =>
    .isTrue trivial

instance (v : Versioned) (x : Choice) : Decidable (v.BootsPending x) :=
  inferInstanceAs (Decidable (_ → ∀ st ∈ v.machine.host.osState, _))

instance (v : Versioned) : ∀ x, Decidable (v.ConfirmsRunning x)
  | .act (.confirm _) => inferInstanceAs (Decidable (∀ st ∈ v.machine.host.osState, _))
  | .act (.boot _) | .act (.push _ _) | .act (.expire _) | .act .powerOff | .menu _ _ =>
    .isTrue trivial

structure Told (v : Versioned) : Prop where
  up : v.machine.Up
  pending : ∀ st p, v.machine.host.osState = some st → st.pendingSlot = some p →
    v.version p = some st.lastVersion
  steady : v.Truthful
  seeded : v.confirmed = true → v.machine.host.osState ≠ none

section Step

variable {sha256 : Bytes → String} {v : Versioned}

theorem Told.sameRow (hv : v.Told) {v' : Versioned} (hup : v'.machine.Up)
    (hrow : v'.machine.host.osState = v.machine.host.osState) (hversion : v'.version = v.version)
    (hconf : v'.confirmed = v.confirmed) : v'.Told where
  up := hup
  pending := by
    rw [hrow, hversion]; exact hv.pending
  steady := by
    rw [Truthful, hrow, hversion, hconf]; exact hv.steady
  seeded := by
    rw [hrow, hconf]; exact hv.seeded

theorem Told.stored {v' : Versioned} (hup : v'.machine.Up) {st : OSState}
    (hrow : v'.machine.host.osState = some st)
    (hpending : ∀ p, st.pendingSlot = some p → v'.version p = some st.lastVersion)
    (hsteady : st.pendingSlot = none → v'.confirmed = true →
      v'.version st.lastGoodSlot = some st.lastVersion) : v'.Told where
  up := hup
  pending st' p hst' hp := by
    cases hrow.symm.trans hst'; exact hpending p hp
  steady st' hst' hp hc := by
    cases hrow.symm.trans hst'; exact hsteady hp hc
  seeded _ := by
    rw [hrow]; exact Option.some_ne_none st

theorem same_of_bootOf {x : Choice} {b : Slot × List Env} (hx : v.machine.bootOf x = some b) :
    (v.step sha256 x).version = v.version ∧ (v.step sha256 x).confirmed = v.confirmed := by
  cases x with
  | menu slot es => exact ⟨rfl, Bool.or_false _⟩
  | act a =>
    cases a with
    | boot es => exact ⟨rfl, Bool.or_false _⟩
    | _ => cases hx

theorem pendingRow_of_success {r : Push} {es : List Env} {slot : Slot} {h : Host}
    (hok : (((receiveBundle ⟨some slot, sha256⟩ r).exec sem es h).val.any
      fun out => out.toBool) = true) :
    ∃ st ∈ ((receiveBundle ⟨some slot, sha256⟩ r).exec sem es h).st.row,
      st.pendingSlot = some (otherSlot slot) ∧ r.version = some st.lastVersion := by
  cases hval : ((receiveBundle ⟨some slot, sha256⟩ r).exec sem es h).val with
  | none => rw [hval] at hok; cases hok
  | some out =>
    cases out with
    | error e => rw [hval] at hok; cases hok
    | ok x => exact Prog.Safe.exec_val (gives_pendingRow rfl) hval x rfl

theorem Told.push (hv : v.Told) {r : Push} {es : List Env} {slot : Slot}
    (hb : v.machine.booted = some slot) (hok : v.Succeeds sha256 (.act (.push r es))) :
    (v.step sha256 (.act (.push r es))).Told := by
  have hup : (v.machine.pick sha256 (.act (.push r es))).Up := (Machine.ran_pick hv.up _).up hv.up
  obtain ⟨hon, hdown⟩ := hv.up (by simp [hb])
  obtain ⟨g, ht, -⟩ := Track.exec (receiveBundle_obeys slot sha256 r) hon hdown es
  obtain ⟨st, hst, hpend, hver⟩ := pendingRow_of_success (hok slot hb)
  have hst : (v.step sha256 (.act (.push r es))).machine.host.osState = some st := by
    rw [Host.row, if_pos ht.onPerm, Option.mem_def] at hst
    simpa only [step, Machine.pick, Machine.step, hb, Machine.after] using hst
  have hversion : (v.step sha256 (.act (.push r es))).version =
      Function.update v.version (otherSlot slot) r.version := by
    simp only [step, versionAfter, hb]
  refine .stored hup hst (fun p hp => ?_) fun hp => ?_
  · cases hpend.symm.trans hp; rw [hversion, Function.update_self, hver]
  · cases hpend.symm.trans hp

theorem Told.boot (hv : v.Told) {x : Choice} (slot : Slot) (es : List Env)
    (hx : v.machine.bootOf x = some (slot, es)) (hok : v.BootsPending x) :
    (v.step sha256 x).Told := by
  have hup : (v.machine.pick sha256 x).Up := (Machine.ran_pick hv.up x).up hv.up
  obtain ⟨hversion, hconf⟩ : (v.step sha256 x).version = v.version ∧
      (v.step sha256 x).confirmed = v.confirmed := same_of_bootOf hx
  have hpick : v.machine.pick sha256 x = v.machine.bootInto sha256 slot es :=
    Machine.pick_of_bootOf hx
  cases hb : v.machine.booted with
  | some t =>
    rw [Machine.bootInto, hb] at hpick
    exact hv.sameRow hup (congrArg (·.host.osState) hpick) hversion hconf
  | none =>
    rw [Machine.bootInto, hb] at hpick
    obtain ⟨g, ht, -⟩ := Track.exec (onStartup_obeys slot sha256) (h := v.machine.host.powerOn)
      rfl rfl es
    have hrow : (v.step sha256 x).machine.host.osState =
        ((onStartup ⟨some slot, sha256⟩).exec sem es v.machine.host.powerOn).st.osState :=
      congrArg (·.host.osState) hpick
    rcases ht.row_cases with hsame | ⟨g₁, st, hput, hseen, hst⟩
    · exact hv.sameRow hup (hrow.trans hsame) hversion hconf
    · rcases hput with ⟨hr, rfl⟩ | ⟨prev, hr, hnew⟩
      · -- nothing is confirmed before there is a row
        have hnone : v.machine.host.osState = none := hseen _ hr
        refine .stored hup (hrow.trans hst) (fun p hp => by cases hp) fun _ hc => ?_
        exact absurd hnone (hv.seeded (hconf.symm.trans hc))
      · have hprev : v.machine.host.osState = some prev := hseen _ hr
        rcases hnew with ⟨-, rfl⟩ | ⟨hother, rfl⟩
        · refine .stored hup (hrow.trans hst) ?_ ?_
          · rw [hversion]; exact fun p => hv.pending prev p hprev
          · rw [hversion, hconf]; exact hv.steady prev hprev
        · refine .stored hup (hrow.trans hst) (fun p hp => by cases hp) fun _ hc => ?_
          rw [hconf] at hc
          rw [hversion]
          cases hp : prev.pendingSlot with
          | none => exact hv.steady prev hprev hp hc
          | some p =>
            -- the pending slot is given up
            have hver := hv.pending prev p hprev hp
            rcases hok hb prev hprev p hp (slot, es) hx with rfl | hnot | heq
            · exact absurd hp hother
            · cases hnot.symm.trans hc
            · exact heq.symm.trans hver

theorem Told.confirm (hv : v.Told) {es : List Env} {slot : Slot}
    (hb : v.machine.booted = some slot) (hok : v.ConfirmsRunning (.act (.confirm es))) :
    (v.step sha256 (.act (.confirm es))).Told := by
  have hup : (v.machine.pick sha256 (.act (.confirm es))).Up :=
    (Machine.ran_pick hv.up _).up hv.up
  have hon := (hv.up (by simp [hb])).1
  have hrow : (v.machine.pick sha256 (.act (.confirm es))).host.osState =
      ((Update.confirm ⟨some slot, sha256⟩).exec sem es v.machine.host).st.osState := by
    simp only [Machine.pick, Machine.step, hb, Machine.after]
  by_cases hc : ∃ st, Confirmable sha256 slot v.machine.host es st
  · obtain ⟨st, hc⟩ := hc
    obtain ⟨hst, hpend, -⟩ := id hc
    have hact : st.activeSlot = slot := hok st hst slot hb hpend
    refine .stored hup (hrow.trans (confirm_ok hon hc).2) (fun p hp => by cases hp) fun _ _ => ?_
    change v.version st.activeSlot = some st.lastVersion
    rw [hact]
    exact hv.pending st slot hst hpend
  · have hsame := hrow.trans (confirm_not_ok hon (not_exists.mp hc)).2
    refine hv.sameRow hup hsame rfl ?_
    simp only [step, confirms, hsame, ne_eq, not_true_eq_false, decide_false, Bool.or_false]

theorem row_of_expire {m m' : Machine} {es : List Env}
    (h : Machine.Ran sha256 m (.act (.expire es)) m') : m'.host.osState = m.host.osState := by
  cases h with
  | idle => rfl
  | boot hb hx ht hd => cases hx
  | expire hb ht hd =>
    rcases ht.row_cases with hsame | ⟨g₁, st, hput, -, -⟩
    · exact hsame
    · exact absurd hput id

/-- The step lemma. -/
theorem Told.step (hv : v.Told) {x : Choice} (hok : v.Succeeds sha256 x)
    (hboot : v.BootsPending x) (hconf : v.ConfirmsRunning x) : (v.step sha256 x).Told := by
  have hup : (v.machine.pick sha256 x).Up := (Machine.ran_pick hv.up x).up hv.up
  cases x with
  | menu slot es => exact hv.boot slot es rfl hboot
  | act a =>
    cases a with
    | boot es => exact hv.boot v.machine.host.grubDefault es rfl hboot
    | push r es =>
      cases hb : v.machine.booted with
      | none =>
        refine hv.sameRow hup ?_ ?_ (Bool.or_false _)
        · simp only [Versioned.step, Machine.pick, Machine.step, hb]
        · simp only [Versioned.step, versionAfter, hb]
      | some slot => exact hv.push hb hok
    | confirm es =>
      cases hb : v.machine.booted with
      | none =>
        have hsame : (v.machine.pick sha256 (.act (.confirm es))).host.osState =
            v.machine.host.osState := by
          simp only [Machine.pick, Machine.step, hb]
        refine hv.sameRow hup hsame rfl ?_
        simp only [Versioned.step, confirms, hsame, ne_eq, not_true_eq_false, decide_false,
          Bool.or_false]
      | some slot => exact hv.confirm hb hconf
    | expire es =>
      have hran : Machine.Ran sha256 v.machine (.act (.expire es)) _ := Machine.ran_pick hv.up _
      exact hv.sameRow hup (row_of_expire hran) rfl (Bool.or_false _)
    | powerOff => exact hv.sameRow hup rfl rfl (Bool.or_false _)

end Step

theorem told_factory (h : Host) (version : Slot → Option Bytes) : (factory h version).Told where
  up hb := absurd rfl hb
  pending _ _ hst := by cases hst
  steady _ hst := by cases hst
  seeded hc := by cases hc

end Versioned

/-- In every run of successful pushes, boots of either slot, confirmations and expiries in which no
boot gives up a pending slot of another version than `LastGoodSlot` holds: with nothing pending and
a push confirmed, `LastVersion` is the version of the image in `LastGoodSlot`. -/
theorem lastVersion_kept (sha256 : Bytes → String) (h : Host) (version : Slot → Option Bytes)
    (w : List Choice)
    (hw : Along (Versioned.step sha256)
      (fun v x => v.Succeeds sha256 x ∧ v.BootsPending x ∧ v.ConfirmsRunning x)
      (.factory h version) w) :
    (w.foldl (Versioned.step sha256) (.factory h version)).Truthful :=
  (hw.invariant (fun _ _ hv hx => hv.step hx.1 hx.2.1 hx.2.2)
    (Versioned.told_factory h version)).steady

/-- Two updates, each confirmed. -/
def twoConfirmed : List Choice :=
  [.act (.boot quiet), .act (.push (bundle 1) quiet), .act .powerOff, .act (.boot quiet),
    .act (.confirm quiet), .act (.push (bundle 2) quiet), .act .powerOff, .act (.boot quiet),
    .act (.confirm quiet)]

theorem lastVersion_kept_twoConfirmed :
    (twoConfirmed.foldl (Versioned.step fun _ => "") (.factory bench fun _ => none)).Truthful :=
  lastVersion_kept _ bench _ _ (by decide +kernel)

/-- The second update is not confirmed in time. The capsule goes back to the first and reports the
version of the second. -/
theorem lastVersion_of_rolledBack :
    ¬ ∀ (sha256 : Bytes → String) (h : Host) (version : Slot → Option Bytes) (w : List Choice),
      Along (Versioned.step sha256) (fun v x => v.Succeeds sha256 x) (.factory h version) w →
      (w.foldl (Versioned.step sha256) (.factory h version)).Truthful := by
  intro hall
  have h := hall (fun _ => "") bench (fun _ => none)
    [.act (.boot quiet), .act (.push (bundle 1) quiet), .act .powerOff, .act (.boot quiet),
      .act (.confirm quiet), .act (.push (bundle 2) quiet), .act .powerOff, .act (.boot quiet),
      .act (.expire quiet), .act (.boot quiet)] (by decide +kernel)
  revert h
  decide +kernel

end Capsule.Update
