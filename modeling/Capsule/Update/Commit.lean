import Capsule.Atomic.Rely
import Capsule.Update.Menu
import Capsule.Update.Tentative

/-!
# Capsule.Update.Commit

Does `Confirm` commit the slot that is running?

`Confirm` compares the running slot with the row's `PendingSlot`, but commits and returns the
row's `ActiveSlot`. The two agree because `OnStartup` stores the running slot as `ActiveSlot`, when
its read and its write of the row succeed.

* `onStartup_marks`: the boot of a pending slot that the store answers stores it as `ActiveSlot`.
* `Marked`: the invariant. A row that is pending on the running slot has it as `ActiveSlot`.
* `confirm_commits`: in every run in which `OnStartup` can read and write the row on each boot of
  a slot that became pending, a successful `Confirm` commits the running slot. `LastGoodSlot`
  changes only so, or by the first seed.
-/

namespace Capsule.Update

open Atomic

def Op.isStopTimer : Op → Bool
  | .stopTimer => true
  | _ => false

/-- The store answers; stopping a timer cannot fail. -/
def Stored (o : Op) (e : Env) : Prop := o.isStopTimer = true ∨ e.fault = none

instance (o : Op) (e : Env) : Decidable (Stored o e) := inferInstanceAs (Decidable (_ ∨ _))

/-- The row `Confirm` stores over `st`. -/
def committedRow (st : OSState) : OSState :=
  { st with pendingSlot := none, pendingDeadlineUnix := 0, lastGoodSlot := st.activeSlot }

/-- What `Confirm` needs to succeed: the row `st`, pending on `slot`, and a store that answers. -/
def Confirmable (sha256 : Bytes → String) (slot : Slot) (h : Host) (es : List Env)
    (st : OSState) : Prop :=
  h.osState = some st ∧ st.pendingSlot = some slot ∧
    (confirm ⟨some slot, sha256⟩).Clean sem Stored es h

theorem Code.keeps_osState {α : Type} {p : Code α} (hp : p.Only fun o => ∀ st, o ≠ .statePut st)
    (es : List Env) {h : Host} : (p.exec sem es h).st.osState = h.osState :=
  hp.exec (J := fun h' => h'.osState = h.osState)
    (fun _ e h' ho hJ => (sem_osState ho e h').trans hJ) rfl es

section Confirm

variable {sha256 : Bytes → String} {slot : Slot} {h : Host} {es : List Env} {st : OSState}

theorem confirm_ok (hp : h.onPerm = true) (hc : Confirmable sha256 slot h es st) :
    ((confirm ⟨some slot, sha256⟩).exec sem es h).val = some (.ok (st.activeSlot, st.lastVersion)) ∧
      ((confirm ⟨some slot, sha256⟩).exec sem es h).st.osState = some (committedRow st) := by
  obtain ⟨hst, hpend, hc⟩ := hc
  simp only [confirm, stateGet, Prog.mapErr, Prog.thenOk, Prog.call_bind, Prog.ret_bind] at hc ⊢
  obtain ⟨e₁, es, rfl, h₁, hc⟩ := hc.uncons
  have h₁' : e₁.fault = none := h₁.resolve_left Bool.false_ne_true
  simp only [Prog.exec_call_cons, sem_stateGet hp, h₁', hst, Except.mapError, hpend, ne_eq,
    not_true_eq_false, if_false, stopTimer, statePut, Prog.call_bind, Prog.ret_bind] at hc ⊢
  obtain ⟨e₂, es, rfl, -, hc⟩ := hc.uncons
  obtain ⟨e₃, es, rfl, h₃, -⟩ := hc.uncons
  have h₃' : e₃.fault = none := h₃.resolve_left Bool.false_ne_true
  have hput := sem_statePut (h := { h with timer := none }) hp
    { st with pendingSlot := none, pendingDeadlineUnix := 0, lastGoodSlot := st.activeSlot } e₃
  simp only [h₃'] at hput
  simp only [Prog.exec_call_cons, sem] at hput ⊢
  simp only [hput]
  exact ⟨rfl, rfl⟩

theorem confirm_not_ok (hp : h.onPerm = true) (hc : ∀ st, ¬ Confirmable sha256 slot h es st) :
    (∀ r, ((confirm ⟨some slot, sha256⟩).exec sem es h).val ≠ some (.ok r)) ∧
      ((confirm ⟨some slot, sha256⟩).exec sem es h).st.osState = h.osState := by
  simp only [Confirmable, confirm, stateGet, Prog.mapErr, Prog.thenOk, Prog.call_bind,
    Prog.ret_bind] at hc ⊢
  rcases es with _ | ⟨e₁, es⟩
  · simp
  simp only [Prog.exec_call_cons, sem_stateGet hp, Prog.Clean] at hc ⊢
  cases h₁ : e₁.fault with
  | some msg => simp [Except.mapError]
  | none =>
    cases hst : h.osState with
    | none => simp [Except.mapError, hst]
    | some st =>
      simp only [h₁, hst, Except.mapError] at hc ⊢
      cases hpend : st.pendingSlot with
      | none => simp [hst]
      | some p =>
        by_cases hslot : slot = p
        · subst hslot
          simp only [ne_eq, not_true_eq_false, if_false, stopTimer, statePut, Prog.call_bind,
            Prog.ret_bind] at hc ⊢
          -- the timer is stopped, then the row is stored
          rcases es with _ | ⟨e₂, es⟩
          · simp [hst]
          rcases es with _ | ⟨e₃, es⟩
          · simp [Prog.exec_call_cons, sem, hst]
          cases h₃ : e₃.fault with
          | some msg => simp [Prog.exec_call_cons, sem, hp, h₃, hst]
          | none =>
            refine absurd ?_ (hc st)
            simp [hpend, Prog.Clean, Stored, h₁, h₃, Op.isStopTimer, sem, hp]
        · simp [hslot, hst]

end Confirm

namespace Machine

/-- What the `Confirm` of an act returns; `none` when it is cut or nothing is running. -/
def confirmReturns (sha256 : Bytes → String) (m : Machine) (es : List Env) :
    Option (Except Err (Slot × Bytes)) :=
  match m.booted with
  | none => none
  | some slot => ((confirm ⟨some slot, sha256⟩).exec sem es m.host).val

/-- A `Confirm` that returns success returns the running slot, and leaves it as last good with
nothing pending. -/
def CommitsRunning (sha256 : Bytes → String) (m : Machine) (x : Choice) : Prop :=
  ∀ es slot r, x = .act (.confirm es) → m.booted = some slot →
    m.confirmReturns sha256 es = some (.ok r) →
    r.1 = slot ∧ ∃ st ∈ (m.pick sha256 x).host.osState,
      st.lastGoodSlot = slot ∧ st.pendingSlot = none

/-- `LastGoodSlot` stays, unless a `Confirm` returns success or the first boot seeds the row. -/
def LastGoodByConfirm (sha256 : Bytes → String) (m : Machine) (x : Choice) : Prop :=
  (m.pick sha256 x).host.osState.map OSState.lastGoodSlot =
      m.host.osState.map OSState.lastGoodSlot ∨
    (∃ es r, x = .act (.confirm es) ∧ m.confirmReturns sha256 es = some (.ok r)) ∨
    (m.host.osState = none ∧ ∃ slot es, m.bootOf x = some (slot, es) ∧
      (m.pick sha256 x).host.osState = some (seed slot))

/-- On the boot of a slot that is pending but not yet the row's `ActiveSlot`, the first two
operations of `OnStartup` succeed: its read of the row and its write. -/
def Marks (m : Machine) (x : Choice) : Prop :=
  ∀ b ∈ m.bootOf x, ∀ st ∈ m.host.osState, st.pendingSlot = some b.1 → st.activeSlot ≠ b.1 →
    ∀ e ∈ b.2.take 2, e.fault = none

instance (m : Machine) (x : Choice) : Decidable (m.Marks x) :=
  inferInstanceAs (Decidable (∀ b ∈ m.bootOf x, ∀ st ∈ m.host.osState, _ → _ → _))

/-- A row that is pending on the running slot has it as its `ActiveSlot`. -/
structure Marked (m : Machine) : Prop where
  up : m.Up
  active : ∀ slot st, m.booted = some slot → m.host.osState = some st →
    st.pendingSlot = some slot → st.activeSlot = slot

section

variable {sha256 : Bytes → String} {m : Machine} {slot : Slot}

/-- `OnStartup` of a pending slot stores it as `ActiveSlot`, and nothing after that touches the
row. -/
theorem onStartup_marks {h : Host} {st : OSState} {es : List Env} (hp : h.onPerm = true)
    (hst : h.osState = some st) (hpend : st.pendingSlot = some slot)
    (hes : ∀ e ∈ es.take 2, e.fault = none)
    (hval : ((onStartup ⟨some slot, sha256⟩).exec sem es h).val.isSome) :
    ((onStartup ⟨some slot, sha256⟩).exec sem es h).st.osState =
      some { st with activeSlot := slot } := by
  rcases es with _ | ⟨e₁, es⟩
  · cases hval
  have h₁ : e₁.fault = none := hes e₁ (by simp)
  simp only [onStartup, stateGet, statePut, Prog.call_bind, Prog.ret_bind, Prog.exec_call_cons,
    sem_stateGet hp, h₁, hst, hpend, ne_eq, not_true_eq_false, if_false, Prog.thenOk] at hval ⊢
  rcases es with _ | ⟨e₂, es⟩
  · cases hval
  have h₂ : e₂.fault = none := hes e₂ (by simp)
  simp only [Prog.exec_call_cons, sem_statePut hp, h₂]
  -- what is left reads the clock, and rolls back or sets the timer
  refine (Code.keeps_osState ?_ es).trans (by simp only [hpend])
  simp only [now, Prog.call_bind, Prog.ret_bind, Prog.Only]
  refine ⟨by simp, ?_⟩
  intro t
  split
  · simp [rollbackToLastGood, withBootMount, findPartition, mountBoot, umountBoot,
      rewriteGrubDefault, reboot, Prog.mapErr, Prog.thenOk, Prog.Only, Prog.forall_except,
      Except.mapError]
  · simp [afterFunc, Prog.Only]

theorem Marked.after {α : Type} {R : Rights α} {g : Phase} {out : Prog.Outcome Op Host Env α}
    {commit : Bool} (hm : m.Marked) (hb : m.booted = some slot) {h₀ : Host}
    (ht : Track R h₀ g out.st) (hrow : h₀.osState = m.host.osState)
    (hput : ∀ g₁ st, R.put g₁ st → st.pendingSlot ≠ some slot) :
    (m.after slot out commit).Marked := by
  refine ⟨after_up ht.onPerm, ?_⟩
  intro slot' st hb' hst hpend
  cases booted_after hb'
  rcases ht.row_cases with hsame | ⟨g₁, st', hput', -, hst'⟩
  · exact hm.active slot st hb (hrow.symm.trans (hsame.symm.trans hst)) hpend
  · cases hst.symm.trans hst'
    exact absurd hpend (hput _ _ hput')

/-- The step lemma. -/
theorem Ran.marked {x : Choice} {m' : Machine} (h : Ran sha256 m x m') (hm : m.Marked)
    (hx : m.Marks x) : m'.Marked := by
  cases h with
  | idle => exact hm
  | off => exact ⟨fun h => absurd rfl h, fun _ _ h => by cases h⟩
  | @boot _ slot es _ out hb hboot ht hd hout =>
    refine ⟨after_up ht.onPerm, ?_⟩
    intro slot' st hb' hst hpend
    cases booted_after hb'
    rcases ht.row_cases with hsame | ⟨g₁, st', hput, -, hst'⟩
    · -- the row is as it was: were `ActiveSlot` another slot, `OnStartup` would have changed it
      by_contra hne
      have hst₀ : m.host.powerOn.osState = some st := hsame.symm.trans hst
      have hval : out.val.isSome := by
        by_contra hcut
        simp [Machine.after, hcut] at hb'
      subst hout
      have hmark := onStartup_marks rfl hst₀ hpend (hx _ hboot st hst₀ hpend hne) hval
      exact hne (congrArg OSState.activeSlot (Option.some.inj (hst.symm.trans hmark)))
    · cases hst.symm.trans hst'
      rcases hput with ⟨-, rfl⟩ | ⟨prev, -, ⟨-, rfl⟩ | ⟨-, rfl⟩⟩ <;> rfl
  | push hb ht =>
    refine hm.after hb ht rfl ?_
    rintro g₁ st ⟨prev, t, v, -, -, rfl⟩ hpend
    exact otherSlot_ne _ (Option.some.inj hpend)
  | confirm hb hout ht =>
    refine hm.after hb ht rfl ?_
    rintro g₁ st ⟨prev, -, -, rfl⟩ hpend
    cases hpend
  | expire hb ht hd => exact hm.after hb ht rfl fun _ _ hput => absurd hput id

theorem Marked.commits (hm : m.Marked) (x : Choice) : m.CommitsRunning sha256 x := by
  intro es slot r hx hb hret
  subst hx
  have hon := hm.up (by simp [hb])
  rw [confirmReturns, hb] at hret
  by_cases hc : ∃ st, Confirmable sha256 slot m.host es st
  · obtain ⟨st, hc⟩ := hc
    obtain ⟨hok, hrow⟩ := confirm_ok hon.1 hc
    have hact := hm.active slot st hb hc.1 hc.2.1
    cases hok.symm.trans hret
    refine ⟨hact, committedRow st, ?_, hact, rfl⟩
    simpa [Machine.pick, Machine.step, hb, Machine.after] using hrow
  · exact absurd hret ((confirm_not_ok hon.1 (not_exists.mp hc)).1 r)

theorem up_run (sha256 : Bytes → String) (h : Host) (acts : List Choice) :
    (acts.foldl (Machine.pick sha256) (factory h)).Up := by
  have hstart : (factory h).Up := fun hb => absurd rfl hb
  generalize factory h = m at hstart ⊢
  induction acts generalizing m with
  | nil => exact hstart
  | cons x acts ih => exact ih _ ((ran_pick hstart x).up hstart)

theorem Ran.lastGood {x : Choice} {m' : Machine} (h : Ran sha256 m x m') (hu : m.Up) :
    m'.host.osState.map OSState.lastGoodSlot = m.host.osState.map OSState.lastGoodSlot ∨
      (∃ es r, x = .act (.confirm es) ∧ m.confirmReturns sha256 es = some (.ok r)) ∨
      (m.host.osState = none ∧ ∃ slot es, m.bootOf x = some (slot, es) ∧
        m'.host.osState = some (seed slot)) := by
  cases h with
  | idle => exact .inl rfl
  | off => exact .inl rfl
  | @boot _ slot es _ _ hb hx ht hd =>
    simp only [Machine.after]
    rcases ht.row_cases with hsame | ⟨g₁, st, hput, hseen, hst⟩
    · exact .inl (congrArg _ hsame)
    · rcases hput with ⟨hr, rfl⟩ | ⟨prev, hr, hnew⟩
      · exact .inr (.inr ⟨hseen _ hr, slot, es, hx, hst⟩)
      · have hprev : m.host.osState = some prev := hseen _ hr
        left
        rw [hst, hprev]
        rcases hnew with ⟨-, rfl⟩ | ⟨-, rfl⟩ <;> rfl
  | push hb ht =>
    left
    simp only [Machine.after]
    rcases ht.row_cases with hsame | ⟨g₁, st, ⟨prev, t, v, hr, -, rfl⟩, hseen, hst⟩
    · exact congrArg _ hsame
    · have hprev : m.host.osState = some prev := hseen _ hr
      rw [hst, hprev]
      rfl
  | @confirm es slot hb _ _ hout ht =>
    have hon := hu (by simp [hb])
    by_cases hc : ∃ st, Confirmable sha256 slot m.host es st
    · obtain ⟨st, hc⟩ := hc
      refine .inr (.inl ⟨es, (st.activeSlot, st.lastVersion), rfl, ?_⟩)
      rw [confirmReturns, hb]
      exact (confirm_ok hon.1 hc).1
    · left; subst hout; exact congrArg _ (confirm_not_ok hon.1 (not_exists.mp hc)).2
  | expire hb ht hd =>
    left
    simp only [Machine.after]
    rcases ht.row_cases with hsame | ⟨g₁, st, hput, -, -⟩
    · exact congrArg _ hsame
    · exact absurd hput id

end

end Machine

/-- In every run in which `OnStartup` can read and write the row on each boot of a slot that became
pending, a `Confirm` that returns success commits the running slot. In every run at all
`LastGoodSlot` changes in no other way than by a successful `Confirm` or the first seed. -/
theorem confirm_commits (sha256 : Bytes → String) (h : Host) (acts : List Choice) (x : Choice) :
    (Along (Machine.pick sha256) Machine.Marks (.factory h) acts →
      (acts.foldl (Machine.pick sha256) (.factory h)).CommitsRunning sha256 x) ∧
    (acts.foldl (Machine.pick sha256) (.factory h)).LastGoodByConfirm sha256 x := by
  refine ⟨?_, ?_⟩
  · intro hw
    have hstart : (Machine.factory h).Marked := ⟨fun hb => absurd rfl hb, fun _ _ hb => by cases hb⟩
    exact (hw.invariant (fun _ _ hm hx => (Machine.ran_pick hm.up _).marked hm hx) hstart).commits x
  · have hu := Machine.up_run sha256 h acts
    exact (Machine.ran_pick hu x).lastGood hu

/-- A first boot, a push, and a boot of the new slot on which the store answers: `Confirm` commits
slot B. -/
theorem confirm_commits_pushed :
    ((([.act (.boot quiet), .act (.push (bundle 1) quiet), .act .powerOff, .act (.boot quiet)].foldl
      (Machine.pick fun _ => "") (.factory bench)).pick (fun _ => "")
        (.act (.confirm quiet))).host.osState.map fun st => (st.lastGoodSlot, st.pendingSlot)) =
      some (.b, none) := by
  obtain ⟨-, st, hst, hgood, hpend⟩ := (confirm_commits (fun _ => "") bench
    [.act (.boot quiet), .act (.push (bundle 1) quiet), .act .powerOff, .act (.boot quiet)]
    (.act (.confirm quiet))).1 (by decide) quiet .b (.b, [1]) rfl (by decide) (by decide)
  rw [Option.mem_def.mp hst, Option.map_some, hgood, hpend]

/-- `OnStartup` of slot B cannot store the row: `Confirm` answers with slot A and commits it. -/
theorem confirm_commits_other :
    ¬ ∀ (sha256 : Bytes → String) (h : Host) (acts : List Choice) (x : Choice),
      (acts.foldl (Machine.pick sha256) (.factory h)).CommitsRunning sha256 x ∧
        (acts.foldl (Machine.pick sha256) (.factory h)).LastGoodByConfirm sha256 x := by
  intro hall
  have h := (hall (fun _ => "") bench
    [.act (.boot quiet), .act (.push (bundle 1) quiet), .act .powerOff,
      .act (.boot [.ok, { fault := some "disk full" }])] (.act (.confirm quiet))).1 quiet .b
    (.a, [1]) rfl (by decide) (by decide)
  exact absurd h.1 (by decide)

end Capsule.Update
