import Capsule.Update.LastGood

/-!
# Capsule.Update.Menu

The A/B machine with an operator at the GRUB menu: a boot may follow the default or be the entry
they picked. What does a tentative boot that failed leave behind?

* `Calm`, `Calm.run`: with nothing pending, the default stays where it is until the next push.
* `rollback_settled`: a boot that abandons an update leaves the default on `LastGoodSlot` exactly if
  it was not a menu choice against the default.
* `rollback_converges`: an expired boot makes another slot the default, whose boot clears the
  pending record, and such boots do not repeat forever.
-/

namespace Capsule.Update

open Atomic

def Choice.isPush : Choice → Bool
  | .act (.push _ _) => true
  | _ => false

def Op.isClock : Op → Bool
  | .now => true
  | _ => false

namespace Machine

/-- What `OnStartup` returns when `slot` boots; `none` when power is lost before it does. -/
def startupReturns (sha256 : Bytes → String) (m : Machine) (slot : Slot) (es : List Env) :
    Option (Except Err Unit) :=
  ((onStartup ⟨some slot, sha256⟩).exec sem es m.host.powerOn).val

/-- A menu boot that finds the other slot pending is the default anyway. -/
def MenuFollows (m : Machine) : Choice → Prop
  | .act _ => True
  | .menu slot _ => ∀ st ∈ m.host.osState, st.pendingSlot = some (otherSlot slot) →
      slot = m.host.grubDefault

instance (m : Machine) : ∀ x, Decidable (m.MenuFollows x)
  | .act _ => .isTrue trivial
  | .menu _ _ => inferInstanceAs (Decidable (∀ st ∈ m.host.osState, _ → _))

/-- The update pending for `p` was abandoned: another slot boots and `OnStartup` returns nil. -/
def Abandons (sha256 : Bytes → String) (m : Machine) (x : Choice) (p : Slot) : Prop :=
  m.booted = none ∧ (∃ st ∈ m.host.osState, st.pendingSlot = some p) ∧
    ∃ slot es, m.bootOf x = some (slot, es) ∧ p ≠ slot ∧
      m.startupReturns sha256 slot es = some (.ok ())

/-- Nothing is pending and the default is `LastGoodSlot`; until the next push it stays another
slot than the abandoned one. -/
def Settled (sha256 : Bytes → String) (m : Machine) (p : Slot) : Prop :=
  (∃ st ∈ m.host.osState, st.pendingSlot = none ∧ m.host.grubDefault = st.lastGoodSlot) ∧
    ∀ later : List Choice, (∀ y ∈ later, y.isPush = false) →
      (later.foldl (pick sha256) m).host.grubDefault ≠ p

/-- Nothing is pending and the default is `d`. -/
structure Calm (d : Slot) (m : Machine) : Prop where
  up : m.Up
  default : m.host.grubDefault = d
  row : ∀ st, m.host.osState = some st → st.pendingSlot = none

section Calm

variable {sha256 : Bytes → String} {m : Machine} {slot d : Slot}

theorem Calm.after {α : Type} {R : Rights α} {g : Phase} {out : Prog.Outcome Op Host Env α}
    {commit : Bool} {h₀ : Host} (hc : m.Calm d) (ht : Track R h₀ g out.st)
    (hdef : h₀.grubDefault = m.host.grubDefault) (hrow : h₀.osState = m.host.osState)
    (hgrub : ∀ g₁ t, R.grub g₁ t → ∃ prev, g₁.read = some (some prev) ∧ prev.pendingSlot ≠ none)
    (hput : ∀ g₁ st, R.put g₁ st → st.pendingSlot = none ∨
      ∃ prev, g₁.read = some (some prev) ∧ prev.pendingSlot ≠ none) :
    (m.after slot out commit).Calm d := by
  have hread : ∀ g₁ prev, Seen h₀ g₁ → g₁.read = some (some prev) → prev.pendingSlot = none :=
    fun g₁ prev hs hr => hc.row prev (hrow.symm.trans (hs _ hr))
  refine ⟨after_up ht.onPerm, ?_, ?_⟩
  · rcases ht.grub_cases with ⟨-, hsame⟩ | ⟨g₁, -, hg, hs⟩
    · exact hsame.trans (hdef.trans hc.default)
    · obtain ⟨prev, hr, hp⟩ := hgrub _ _ hg; exact absurd (hread g₁ prev hs hr) hp
  · intro st hst
    rcases ht.row_cases with hsame | ⟨g₁, st', hput', hs, hst'⟩
    · exact hc.row st (hrow.symm.trans (hsame.symm.trans hst))
    · cases hst.symm.trans hst'
      rcases hput _ _ hput' with hnone | ⟨prev, hr, hp⟩
      · exact hnone
      · exact absurd (hread g₁ prev hs hr) hp

/-- The step lemma. -/
theorem Ran.calm {x : Choice} {m' : Machine} (h : Ran sha256 m x m') (hc : m.Calm d)
    (hx : x.isPush = false) : m'.Calm d := by
  cases h with
  | idle => exact hc
  | off => exact ⟨fun h => absurd rfl h, hc.default, hc.row⟩
  | push hb ht => cases hx
  | boot hb hboot ht hd =>
    refine hc.after ht rfl rfl ?_ ?_
    · rintro g₁ t ⟨prev, hr, hp, -⟩; exact ⟨prev, hr, by simp [hp]⟩
    · rintro g₁ st (⟨-, rfl⟩ | ⟨prev, hr, ⟨hp | hp, rfl⟩ | ⟨-, rfl⟩⟩)
      · exact .inl rfl
      · exact .inl hp
      · exact .inr ⟨prev, hr, by simp [hp]⟩
      · exact .inl rfl
  | confirm hb hout ht =>
    refine hc.after ht rfl rfl (fun _ _ h => absurd h id) ?_
    rintro g₁ st ⟨prev, -, -, rfl⟩
    exact .inl rfl
  | expire hb ht hd =>
    refine hc.after ht rfl rfl ?_ (fun _ _ h => absurd h id)
    rintro g₁ t ⟨prev, hr, hp, -⟩
    exact ⟨prev, hr, hp⟩

theorem Calm.run (hc : m.Calm d) {later : List Choice} (hl : ∀ y ∈ later, y.isPush = false) :
    (later.foldl (Machine.pick sha256) m).Calm d := by
  induction later generalizing m with
  | nil => exact hc
  | cons y later ih =>
    exact ih ((ran_pick hc.up y).calm hc (hl y List.mem_cons_self))
      fun z hz => hl z (List.mem_cons_of_mem _ hz)

theorem onStartup_abandons {h : Host} {st : OSState} {p : Slot} {es : List Env}
    (hp : h.onPerm = true) (hst : h.osState = some st) (hpend : st.pendingSlot = some p)
    (hne : p ≠ slot)
    (hval : ((onStartup ⟨some slot, sha256⟩).exec sem es h).val = some (.ok ())) :
    ((onStartup ⟨some slot, sha256⟩).exec sem es h).st =
      { h with osState := some { st with
          activeSlot := slot, pendingSlot := none, pendingDeadlineUnix := 0 } } := by
  cases es with
  | nil => cases hval
  | cons e es =>
    simp only [onStartup, stateGet, Prog.call_bind, Prog.ret_bind, Prog.exec_call_cons,
      sem_stateGet hp, hst] at hval ⊢
    cases he : e.fault with
    | some msg => simp [he, Err.is] at hval
    | none =>
      simp only [he, hpend, ne_eq, hne, not_false_eq_true, if_true] at hval ⊢
      cases es with
      | nil => simp at hval
      | cons e' es =>
        simp only [statePut, Prog.exec_call_cons, sem_statePut hp] at hval ⊢
        cases he' : e'.fault with
        | some msg => simp [he'] at hval
        | none => rfl

end Calm

/-- No operation fails, and the clock is read past the deadline `dl`. -/
def Late (dl : Int) (o : Op) (e : Env) : Prop :=
  e.fault = none ∧ (o.isClock = true → dl = 0 ∨ dl ≤ e.clock)

def NoFault (_ : Op) (e : Env) : Prop := e.fault = none

instance (dl : Int) (o : Op) (e : Env) : Decidable (Late dl o e) :=
  inferInstanceAs (Decidable (_ ∧ _))

instance (o : Op) (e : Env) : Decidable (NoFault o e) := inferInstanceAs (Decidable (_ = _))

/-- `slot` boots, is pending, and its deadline has passed; nothing fails. -/
def Expires (sha256 : Bytes → String) (m : Machine) (slot : Slot) (es : List Env) : Prop :=
  m.booted = none ∧ ∃ st ∈ m.host.osState, st.pendingSlot = some slot ∧
    (onStartup ⟨some slot, sha256⟩).Clean sem (Late st.pendingDeadlineUnix) es m.host.powerOn

/-- The machine after `n` boots through the default with the answers `f 0`, `f 1`, … -/
def reboots (sha256 : Bytes → String) (m : Machine) (f : Nat → List Env) : Nat → Machine
  | 0 => m
  | n + 1 => (reboots sha256 m f n).step sha256 (.boot (f n))

/-- The default is no longer the slot that expired, and the boot of the default clears the
pending record. -/
def RollsBack (sha256 : Bytes → String) (m : Machine) (slot : Slot) (es : List Env) : Prop :=
  (m.bootInto sha256 slot es).host.grubDefault ≠ slot ∧
    ∀ es', (onStartup ⟨some (m.bootInto sha256 slot es).host.grubDefault, sha256⟩).Clean sem NoFault
        es' (m.bootInto sha256 slot es).host.powerOn →
      ∃ st ∈ ((m.bootInto sha256 slot es).step sha256 (.boot es')).host.osState,
        st.pendingSlot = none

section Expired

variable {sha256 : Bytes → String} {m : Machine} {slot : Slot}

theorem rollback_reboot {good : Op → Env → Prop} (hgood : ∀ o e, good o e → e.fault = none)
    {h : Host} {lastGood : Slot} {es : List Env}
    (hc : (rollbackToLastGood lastGood >>= fun _ => reboot).Clean sem good es h) :
    ((rollbackToLastGood lastGood >>= fun _ => reboot).exec sem es h).st =
      { h with grubDefault := lastGood, down := true } := by
  simp only [rollbackToLastGood, withBootMount, findPartition, mountBoot, umountBoot,
    rewriteGrubDefault, reboot, Prog.mapErr, Prog.thenOk, Prog.call_bind, Prog.ret_bind,
    Prog.pure_eq_ret] at hc ⊢
  obtain ⟨e₁, es, rfl, h₁, hc⟩ := hc.uncons
  simp only [Prog.exec_call_cons, sem, Env.answer, hgood _ _ h₁, Except.mapError,
    Prog.call_bind] at hc ⊢
  obtain ⟨e₂, es, rfl, h₂, hc⟩ := hc.uncons
  simp only [Prog.exec_call_cons, sem, Env.answer, hgood _ _ h₂, Prog.call_bind] at hc ⊢
  obtain ⟨e₃, es, rfl, h₃, hc⟩ := hc.uncons
  simp only [Prog.exec_call_cons, sem, hgood _ _ h₃, Prog.ret_bind] at hc ⊢
  obtain ⟨e₄, es, rfl, -, hc⟩ := hc.uncons
  obtain ⟨e₅, es, rfl, -, -⟩ := hc.uncons
  rfl

theorem onStartup_expired {h : Host} {st : OSState} {es : List Env} (hp : h.onPerm = true)
    (hst : h.osState = some st) (hpend : st.pendingSlot = some slot)
    (hc : (onStartup ⟨some slot, sha256⟩).Clean sem (Late st.pendingDeadlineUnix) es h) :
    ((onStartup ⟨some slot, sha256⟩).exec sem es h).st =
      { h with osState := some { st with activeSlot := slot },
               grubDefault := st.lastGoodSlot, down := true } := by
  simp only [onStartup, stateGet, Prog.call_bind, Prog.ret_bind] at hc ⊢
  obtain ⟨e₁, es, rfl, h₁, hc⟩ := hc.uncons
  simp only [Prog.exec_call_cons, sem_stateGet hp, h₁.1, hst, hpend, ne_eq, not_true_eq_false,
    if_false, statePut, Prog.thenOk, Prog.call_bind, Prog.ret_bind, now] at hc ⊢
  obtain ⟨e₂, es, rfl, h₂, hc⟩ := hc.uncons
  simp only [Prog.exec_call_cons, sem_statePut hp, h₂.1] at hc ⊢
  obtain ⟨e₃, es, rfl, h₃, hc⟩ := hc.uncons
  have hdl : st.pendingDeadlineUnix = 0 ∨ st.pendingDeadlineUnix ≤ e₃.clock := h₃.2 rfl
  simp only [Prog.exec_call_cons, sem, hdl, if_true] at hc ⊢
  rw [rollback_reboot (fun _ _ h => h.1) hc, hpend]

theorem bootInto_expires {es : List Env} (hx : m.Expires sha256 slot es) :
    ∃ st ∈ m.host.osState, st.pendingSlot = some slot ∧
      (m.bootInto sha256 slot es).booted = none ∧
      (m.bootInto sha256 slot es).host.grubDefault = st.lastGoodSlot ∧
      (m.bootInto sha256 slot es).host.osState = some { st with activeSlot := slot } := by
  obtain ⟨hb, st, hst, hpend, hc⟩ := hx
  have hst₀ : m.host.powerOn.osState = some st := hst
  have hrun := onStartup_expired rfl hst₀ hpend hc
  refine ⟨st, hst, hpend, ?_⟩
  simp only [bootInto, hb, Machine.after, hrun, Bool.true_eq_false, and_false, if_false, and_self]

theorem onStartup_clears {h : Host} {st : OSState} {p : Slot} {es : List Env} (hp : h.onPerm = true)
    (hst : h.osState = some st) (hpend : st.pendingSlot = some p) (hne : p ≠ slot)
    (hc : (onStartup ⟨some slot, sha256⟩).Clean sem NoFault es h) :
    ((onStartup ⟨some slot, sha256⟩).exec sem es h).val = some (.ok ()) := by
  simp only [onStartup, stateGet, Prog.call_bind, Prog.ret_bind] at hc ⊢
  obtain ⟨e₁, es, rfl, h₁, hc⟩ := hc.uncons
  have h₁' : e₁.fault = none := h₁
  simp only [Prog.exec_call_cons, sem_stateGet hp, h₁', hst, hpend, ne_eq, hne, not_false_eq_true,
    if_true, statePut] at hc ⊢
  obtain ⟨e₂, es, rfl, h₂, -⟩ := hc.uncons
  have h₂' : e₂.fault = none := h₂
  simp only [Prog.exec_call_cons, sem_statePut hp, h₂', Prog.exec_ret]

theorem Kept.rollsBack (hk : m.Kept) {es : List Env} (hx : m.Expires sha256 slot es) :
    m.RollsBack sha256 slot es := by
  obtain ⟨st, hst, hpend, hb, hdef, hrow⟩ := bootInto_expires hx
  have hgood : st.lastGoodSlot = otherSlot slot := hk.pending st slot hst hpend
  have hne : slot ≠ (m.bootInto sha256 slot es).host.grubDefault := by
    rw [hdef, hgood]; exact (otherSlot_ne slot).symm
  refine ⟨hne.symm, ?_⟩
  intro es' hc
  have hrow' : (m.bootInto sha256 slot es).host.powerOn.osState =
    some { st with activeSlot := slot } := hrow
  have hrun := onStartup_abandons rfl hrow' hpend hne (onStartup_clears rfl hrow' hpend hne hc)
  refine ⟨{ st with activeSlot := (m.bootInto sha256 slot es).host.grubDefault,
                    pendingSlot := none, pendingDeadlineUnix := 0 }, ?_, rfl⟩
  rw [step_boot_eq, bootInto, hb]
  simp only [Machine.after, hrun, Option.mem_def]

theorem Kept.expires_once (hk : m.Kept) {f : Nat → List Env} :
    ¬ ∀ n, (m.reboots sha256 f n).Expires sha256 (m.reboots sha256 f n).host.grubDefault (f n) := by
  intro hall
  have h0 : m.Expires sha256 m.host.grubDefault (f 0) := hall 0
  obtain ⟨st, hst, hpend, -, hdef, hrow⟩ := bootInto_expires h0
  obtain ⟨-, st', hst', hpend', -⟩ := hall 1
  rw [reboots, reboots, step_boot_eq] at hst' hpend'
  cases hst'.symm.trans hrow
  rw [hdef, hk.pending st _ hst hpend, hpend] at hpend'
  exact otherSlot_ne _ (Option.some.inj hpend').symm

end Expired

section Settle

variable {sha256 : Bytes → String} {m : Machine} {x : Choice} {p : Slot}

theorem Abandons.row (h : m.Abandons sha256 x p) :
    ∃ st slot es, m.host.osState = some st ∧ st.pendingSlot = some p ∧ p ≠ slot ∧
      m.bootOf x = some (slot, es) ∧
      (m.pick sha256 x).host = { m.host.powerOn with osState := some { st with
        activeSlot := slot, pendingSlot := none, pendingDeadlineUnix := 0 } } := by
  obtain ⟨hb, ⟨st, hst, hpend⟩, slot, es, hx, hne, hval⟩ := h
  have hst₀ : m.host.powerOn.osState = some st := hst
  have hrun := onStartup_abandons rfl hst₀ hpend hne hval
  refine ⟨st, slot, es, hst, hpend, hne, hx, ?_⟩
  rw [pick_of_bootOf hx, bootInto, hb]
  exact hrun

theorem Abandons.menuFollows (ha : m.Abandons sha256 x p)
    (hs : (m.pick sha256 x).Settled sha256 p) : m.MenuFollows x := by
  obtain ⟨st, slot, es, -, -, hne, hboot, hhost⟩ := ha.row
  have hdef : m.host.grubDefault ≠ p := by
    have h := hs.2 [] (by simp)
    rwa [List.foldl_nil, hhost] at h
  cases x with
  | act a => trivial
  | menu t es' =>
    cases hboot
    intro _ _ _
    exact (eq_otherSlot_of_ne hne.symm).trans (eq_otherSlot_of_ne hdef).symm

theorem Kept.settled (hk : m.Kept) (hx : m.MenuFollows x) (ha : m.Abandons sha256 x p) :
    (m.pick sha256 x).Settled sha256 p := by
  obtain ⟨st, slot, es, hst, hpend, hne, hboot, hhost⟩ := ha.row
  have hslot : slot = otherSlot p := eq_otherSlot_of_ne hne.symm
  have hdef : m.host.grubDefault = slot := by
    cases x with
    | menu t es' =>
      cases hboot; exact (hx st hst (by rw [hpend, hslot, otherSlot_otherSlot])).symm
    | act a =>
      cases a with
      | boot es' => cases hboot; rfl
      | _ => cases hboot
  have hgood : st.lastGoodSlot = otherSlot p := hk.pending st p hst hpend
  have hcalm : (m.pick sha256 x).Calm slot := by
    refine ⟨?_, by rw [hhost]; exact hdef, ?_⟩
    · intro _; rw [hhost]; exact ⟨rfl, rfl⟩
    · intro st' hst'
      rw [hhost] at hst'
      cases hst'
      rfl
  refine ⟨?_, ?_⟩
  · rw [hhost]; exact ⟨_, rfl, rfl, hdef.trans (hslot.trans hgood.symm)⟩
  · intro later hl; rw [(hcalm.run hl).default]; exact hne.symm

end Settle

end Machine

/-- In every run in which each push ran from `LastGoodSlot`, a boot that abandons an update leaves
the GRUB default on `LastGoodSlot`, away from the abandoned slot until the next push, exactly when
it is not a menu choice against the default. -/
theorem rollback_settled (sha256 : Bytes → String) (h : Host) (acts : List Choice)
    (hw : Along (Machine.pick sha256) Machine.PushSafe (.factory h) acts) (x : Choice) (p : Slot)
    (ha : (acts.foldl (Machine.pick sha256) (.factory h)).Abandons sha256 x p) :
    ((acts.foldl (Machine.pick sha256) (.factory h)).pick sha256 x).Settled sha256 p ↔
      (acts.foldl (Machine.pick sha256) (.factory h)).MenuFollows x :=
  have hk := hw.invariant (fun _ _ hk hx => hk.pick hx) (Machine.kept_factory h)
  ⟨ha.menuFollows, fun hx => hk.settled hx ha⟩

/-- Answers without a fault, at a time past the deadline of a push at time 0. -/
def late : List Env := List.replicate 24 { clock := 601 }

/-- A push, a tentative boot that is switched off, and one past the deadline. -/
theorem rollback_settled_expired :
    (([.act (.boot quiet), .act (.push (bundle 1) quiet), .act .powerOff, .act (.boot late)].foldl
      (Machine.pick fun _ => "") (.factory bench)).pick (fun _ => "") (.act (.boot late))).Settled
        (fun _ => "") .b :=
  (rollback_settled _ bench _ (by decide) (.act (.boot late)) .b
    ⟨by decide, by decide, _, _, rfl, by decide, by decide⟩).mpr trivial

/-- The operator picks slot A in the menu after a push to slot B: nothing is pending any more and
slot B is still the default. -/
theorem abandoned_stays_default :
    ¬ ∀ (sha256 : Bytes → String) (h : Host) (acts : List Choice) (x : Choice) (p : Slot),
      (acts.foldl (Machine.pick sha256) (.factory h)).Abandons sha256 x p →
        ((acts.foldl (Machine.pick sha256) (.factory h)).pick sha256 x).Settled sha256 p := by
  intro hall
  have h := (hall (fun _ => "") bench
    [.act (.boot quiet), .act (.push (bundle 1) quiet), .act .powerOff] (.menu .a quiet) .b
    ⟨by decide, by decide, _, _, rfl, by decide, by decide⟩).1
  revert h
  decide

/-- In every run in which each push ran from `LastGoodSlot`: a tentative boot past its deadline
makes another slot the default, whose boot clears the pending record, and such boots do not
repeat forever. -/
theorem rollback_converges (sha256 : Bytes → String) (h : Host) (acts : List Choice)
    (hw : Along (Machine.pick sha256) Machine.PushSafe (.factory h) acts) :
    (∀ slot es, (acts.foldl (Machine.pick sha256) (.factory h)).Expires sha256 slot es →
      (acts.foldl (Machine.pick sha256) (.factory h)).RollsBack sha256 slot es) ∧
    ∀ f, ¬ ∀ n, ((acts.foldl (Machine.pick sha256) (.factory h)).reboots sha256 f n).Expires sha256
      ((acts.foldl (Machine.pick sha256) (.factory h)).reboots sha256 f n).host.grubDefault (f n) :=
  have hk := hw.invariant (fun _ _ hk hx => hk.pick hx) (Machine.kept_factory h)
  ⟨fun _ _ hx => hk.rollsBack hx, fun _ => hk.expires_once⟩

theorem rollback_converges_once :
    ([.act (.boot quiet), .act (.push (bundle 1) quiet), .act .powerOff].foldl
      (Machine.pick fun _ => "") (.factory bench)).RollsBack (fun _ => "") .b late :=
  (rollback_converges _ bench _ (by decide)).1 .b late
    ⟨by decide, by decide⟩

def pushTwice : List Choice :=
  [.act (.boot quiet), .act (.push (bundle 1) quiet), .act .powerOff, .act (.boot quiet),
    .act (.push (bundle 2) quiet), .act .powerOff]

theorem pushTwice_loops (n : Nat) :
    (pushTwice.foldl (Machine.pick fun _ => "") (.factory bench)).reboots (fun _ => "")
        (fun _ => late) (n + 1) =
      (pushTwice.foldl (Machine.pick fun _ => "") (.factory bench)).step (fun _ => "")
        (.boot late) := by
  induction n with
  | zero => rfl
  | succ n ih => rw [Machine.reboots, ih]; rfl

/-- A second push in tentative mode: it writes slot A, where the machine should return to, and
makes it pending. Once the deadline has passed the machine boots slot A forever. -/
theorem expired_forever :
    ¬ ∀ (sha256 : Bytes → String) (h : Host) (acts : List Choice),
      (∀ slot es, (acts.foldl (Machine.pick sha256) (.factory h)).Expires sha256 slot es →
        (acts.foldl (Machine.pick sha256) (.factory h)).RollsBack sha256 slot es) ∧
      ∀ f, ¬ ∀ n, ((acts.foldl (Machine.pick sha256) (.factory h)).reboots sha256 f n).Expires
        sha256 ((acts.foldl (Machine.pick sha256) (.factory h)).reboots sha256 f n).host.grubDefault
        (f n) := by
  intro hall
  refine (hall (fun _ => "") bench pushTwice).2 (fun _ => late) ?_
  intro n
  cases n with
  | zero => exact ⟨by decide, by decide⟩
  | succ n => rw [pushTwice_loops]; exact ⟨by decide, by decide⟩

end Capsule.Update
