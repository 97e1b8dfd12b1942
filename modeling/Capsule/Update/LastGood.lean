import Capsule.Update.Machine

/-!
# Capsule.Update.LastGood

Whether the slot that rollback returns to still holds a committed image, over all runs of the A/B
machine.

* `Kept`: the invariant. `LastGoodSlot` holds a committed image, and a pending slot is another one.
* `FromLastGood`: a push runs from the slot the row protects. `pushSpares_of_fromLastGood`: it then
  performs no operation on that slot.
* `Ran.kept`: each step keeps the invariant, by what the code has a right to do.
* `lastGood_kept`: so it holds in every run in which each push runs from `LastGoodSlot`.
-/

namespace Capsule.Update

open Atomic

namespace Machine

/-- The slot rollback would return to holds an image that was committed. -/
def LastGoodCommitted (m : Machine) : Prop :=
  ∀ st ∈ m.host.osState, m.host.image st.lastGoodSlot ∈ m.committed

instance (m : Machine) : Decidable m.LastGoodCommitted :=
  inferInstanceAs (Decidable (∀ st ∈ m.host.osState, _))

/-- The operations a push performs from this state. -/
def pushOps (sha256 : Bytes → String) (m : Machine) (r : Push) (es : List Env) : List Op :=
  match m.booted with
  | none => []
  | some slot => ((receiveBundle ⟨some slot, sha256⟩ r).exec sem es m.host).ops

/-- No operation of the push writes what `LastGoodSlot` boots. -/
def PushSpares (sha256 : Bytes → String) (m : Machine) (r : Push) (es : List Env) : Prop :=
  ∀ st ∈ m.host.osState, ∀ o ∈ m.pushOps sha256 r es, ¬ o.Writes st.lastGoodSlot

/-- A push runs from the slot the row protects; other acts are free. -/
def FromLastGood (m : Machine) : Act → Prop
  | .push _ _ => ∀ st ∈ m.host.osState, ∀ slot ∈ m.booted, slot = st.lastGoodSlot
  | _ => True

instance (m : Machine) : ∀ a, Decidable (m.FromLastGood a)
  | .push _ _ => inferInstanceAs (Decidable (∀ st ∈ m.host.osState, _))
  | .boot _ => .isTrue trivial
  | .confirm _ => .isTrue trivial
  | .expire _ => .isTrue trivial
  | .powerOff => .isTrue trivial

/-- Pushes run from `LastGoodSlot`, in runs with menu boots. -/
def PushSafe (m : Machine) : Choice → Prop
  | .act a => m.FromLastGood a
  | .menu _ _ => True

instance (m : Machine) : ∀ x, Decidable (m.PushSafe x)
  | .act a => inferInstanceAs (Decidable (m.FromLastGood a))
  | .menu _ _ => .isTrue trivial

structure Kept (m : Machine) : Prop where
  up : m.Up
  good : m.LastGoodCommitted
  pending : ∀ st p, m.host.osState = some st → st.pendingSlot = some p →
    st.lastGoodSlot = otherSlot p

variable {sha256 : Bytes → String} {m : Machine} {slot : Slot}

theorem Kept.after {α : Type} {out : Prog.Outcome Op Host Env α} {commit : Bool}
    (hp : out.st.onPerm = true)
    (hrow : ∀ st, out.st.osState = some st →
      out.st.image st.lastGoodSlot ∈ (m.after slot out commit).committed ∧
      ∀ p, st.pendingSlot = some p → st.lastGoodSlot = otherSlot p) :
    (m.after slot out commit).Kept where
  up := after_up hp
  good st hst := (hrow st hst).1
  pending st p hst := (hrow st hst).2 p

theorem mem_committed_after {α : Type} {out : Prog.Outcome Op Host Env α} {commit : Bool}
    {i : Image} (h : i ∈ m.committed) : i ∈ (m.after slot out commit).committed := by
  simp only [Machine.after]
  split
  · exact List.mem_cons_of_mem _ h
  · exact h

theorem Kept.sameRow {α : Type} {R : Rights α} {h₀ h : Host} {g : Phase} (hk : m.Kept)
    (ht : Track R h₀ g h) (himg : ∀ t, h₀.image t = m.host.image t) {st : OSState}
    (hst : m.host.osState = some st) (hw : ¬ R.write st.lastGoodSlot) :
    h.image st.lastGoodSlot ∈ m.committed := by
  rw [ht.image _ hw, himg]
  exact hk.good st hst

section Code

variable {g : Phase}

theorem Kept.boot (hk : m.Kept) {out : Prog.Outcome Op Host Env (Except Err Unit)}
    (ht : Track (startupRights slot) m.host.powerOn g out.st) :
    (m.after slot out (m.host.osState.isNone && out.st.osState.isSome)).Kept := by
  refine Kept.after ht.onPerm ?_
  intro st hst
  have himg : ∀ t, m.host.powerOn.image t = m.host.image t := fun _ => rfl
  rcases ht.row_cases with hsame | ⟨g₁, st', hput, hseen, hst'⟩
  · have hst₀ := hsame.symm.trans hst
    exact ⟨mem_committed_after (hk.sameRow ht himg hst₀ id), fun p => hk.pending st p hst₀⟩
  · cases hst.symm.trans hst'
    rcases hput with ⟨hr, rfl⟩ | ⟨prev, hr, hnew⟩
    · -- the row is seeded: the image just booted becomes the committed one
      have hnone : m.host.osState = none := hseen _ hr
      refine ⟨?_, fun p hp => by cases hp⟩
      rw [ht.image _ id, himg]
      simp [Machine.after, hnone, hst, seed]
    · have hprev : m.host.osState = some prev := hseen _ hr
      have himg' := hk.sameRow ht himg hprev id
      rcases hnew with ⟨-, rfl⟩ | ⟨-, rfl⟩
      · exact ⟨mem_committed_after himg', fun p => hk.pending prev p hprev⟩
      · exact ⟨mem_committed_after himg', fun p hp => by cases hp⟩

theorem Kept.push (hk : m.Kept) {out : Prog.Outcome Op Host Env (Except Err (Slot × Bytes))}
    (ht : Track (pushRights slot) m.host g out.st)
    (hfrom : ∀ st, m.host.osState = some st → slot = st.lastGoodSlot) :
    (m.after slot out false).Kept := by
  refine Kept.after ht.onPerm ?_
  intro st hst
  have hw : ∀ st, m.host.osState = some st → ¬ (pushRights slot).write st.lastGoodSlot :=
    fun st hst he => otherSlot_ne slot (he.symm.trans (hfrom st hst).symm)
  rcases ht.row_cases with hsame | ⟨g₁, st', ⟨prev, t, v, hr, -, rfl⟩, hseen, hst'⟩
  · have hst₀ := hsame.symm.trans hst
    exact ⟨mem_committed_after (hk.sameRow ht (fun _ => rfl) hst₀ (hw st hst₀)),
      fun p => hk.pending st p hst₀⟩
  · cases hst.symm.trans hst'
    have hprev : m.host.osState = some prev := hseen _ hr
    have himg := hk.sameRow ht (fun _ => rfl) hprev (hw prev hprev)
    refine ⟨mem_committed_after himg, ?_⟩
    rintro p hp
    cases hp
    simp [hfrom prev hprev]

theorem Kept.confirm (hk : m.Kept) {out : Prog.Outcome Op Host Env (Except Err (Slot × Bytes))}
    (ht : Track (confirmRights slot) m.host g out.st) :
    (m.after slot out (out.st.osState ≠ m.host.osState &&
      out.st.osState.map OSState.lastGoodSlot = some slot)).Kept := by
  refine Kept.after ht.onPerm ?_
  intro st hst
  rcases ht.row_cases with hsame | ⟨g₁, st', ⟨prev, hr, hpend, rfl⟩, hseen, hst'⟩
  · have hst₀ := hsame.symm.trans hst
    exact ⟨mem_committed_after (hk.sameRow ht (fun _ => rfl) hst₀ id),
      fun p => hk.pending st p hst₀⟩
  · cases hst.symm.trans hst'
    have hprev : m.host.osState = some prev := hseen _ hr
    refine ⟨?_, fun p hp => by cases hp⟩
    by_cases hact : prev.activeSlot = slot
    · -- the slot confirmed is the one running, and its image is committed by this call
      have hne : out.st.osState ≠ m.host.osState := by
        rw [hst, hprev]
        intro he
        cases hpend.symm.trans (congrArg OSState.pendingSlot (Option.some.inj he)).symm
      have hgood : out.st.osState.map OSState.lastGoodSlot = some slot := by rw [hst, ← hact]; rfl
      rw [ht.image _ id]
      simp [Machine.after, hne, hgood, hact]
    · -- `ActiveSlot` is stale: the row keeps the last good slot it had
      have hlast : prev.lastGoodSlot = prev.activeSlot :=
        (hk.pending prev slot hprev hpend).trans (eq_otherSlot_of_ne hact).symm
      have himg := hk.sameRow ht (fun _ => rfl) hprev id
      rw [hlast] at himg
      exact mem_committed_after himg

theorem Kept.expire (hk : m.Kept) {out : Prog.Outcome Op Host Env Unit}
    (ht : Track expireRights { m.host with timer := none } g out.st) :
    (m.after slot out false).Kept := by
  refine Kept.after ht.onPerm ?_
  intro st hst
  rcases ht.row_cases with hsame | ⟨g₁, st', hput, -, -⟩
  · have hst₀ := hsame.symm.trans hst
    exact ⟨mem_committed_after (hk.sameRow ht (fun _ => rfl) hst₀ id),
      fun p => hk.pending st p hst₀⟩
  · exact absurd hput id

end Code

/-- The step lemma. -/
theorem Ran.kept {x : Choice} {m' : Machine} (h : Ran sha256 m x m') (hk : m.Kept)
    (hx : m.PushSafe x) : m'.Kept := by
  cases h with
  | idle => exact hk
  | off => exact ⟨fun h => absurd rfl h, hk.good, hk.pending⟩
  | boot hb hboot ht hd => exact hk.boot ht
  | push hb ht => exact hk.push ht fun st hst => hx st hst _ hb
  | confirm hb hout ht => exact hk.confirm ht
  | expire hb ht hd => exact hk.expire ht

theorem Kept.pick (hk : m.Kept) {x : Choice} (hx : m.PushSafe x) : (m.pick sha256 x).Kept :=
  (ran_pick hk.up x).kept hk hx

theorem Kept.step (hk : m.Kept) {a : Act} (ha : m.FromLastGood a) : (m.step sha256 a).Kept :=
  hk.pick (x := .act a) ha

theorem kept_factory (h : Host) : (factory h).Kept where
  up hb := absurd rfl hb
  good _ hst := by cases hst
  pending _ _ hst := by cases hst

theorem pushSpares_of_fromLastGood (r : Push) (es : List Env)
    (hfrom : m.FromLastGood (.push r es)) : m.PushSpares sha256 r es := by
  intro st hst o ho hw
  cases hb : m.booted with
  | none => simp [pushOps, hb] at ho
  | some slot =>
    simp only [pushOps, hb] at ho
    obtain ⟨g, hok⟩ := (receiveBundle_obeys slot sha256 r).exec_ops es o ho
    have hslot := hfrom st hst slot hb
    have hne : st.lastGoodSlot ≠ otherSlot slot := hslot ▸ (otherSlot_ne slot).symm
    cases o with
    | writeBlockDevice t r => exact hne (hw.symm.trans hok)
    | writeBoot f t d => exact hne (hw.symm.trans hok)
    | _ => exact hw

end Machine

/-- In every run in which each push runs from `LastGoodSlot`, the image there is a committed
one, and no such push performs an operation on it. -/
theorem lastGood_kept (sha256 : Bytes → String) (h : Host) (acts : List Act)
    (hw : Along (Machine.step sha256) Machine.FromLastGood (.factory h) acts) :
    (acts.foldl (Machine.step sha256) (.factory h)).LastGoodCommitted ∧
      ∀ r es, (acts.foldl (Machine.step sha256) (.factory h)).FromLastGood (.push r es) →
        (acts.foldl (Machine.step sha256) (.factory h)).PushSpares sha256 r es :=
  ⟨(hw.invariant (fun _ _ hk ha => hk.step ha) (Machine.kept_factory h)).good,
    fun r es hfrom => Machine.pushSpares_of_fromLastGood r es hfrom⟩

/-- Two updates, each confirmed before the next one is pushed. -/
theorem lastGood_kept_twoUpdates :
    ([.boot quiet, .push (bundle 1) quiet, .powerOff, .boot quiet, .confirm quiet,
        .push (bundle 2) quiet].foldl (Machine.step fun _ => "")
          (.factory bench)).LastGoodCommitted :=
  (lastGood_kept _ bench _ (by decide)).1

/-- A second push before the first is confirmed: it runs from the pending slot and writes the
last good one. No file is there to be hashed, so the hash does not matter. -/
theorem lastGood_overwritten :
    ¬ ∀ (sha256 : Bytes → String) (h : Host) (acts : List Act),
      (acts.foldl (Machine.step sha256) (.factory h)).LastGoodCommitted ∧
        ∀ r es, (acts.foldl (Machine.step sha256) (.factory h)).PushSpares sha256 r es := by
  intro hall
  have h := (hall (fun _ => "") bench [.boot quiet, .push (bundle 1) quiet, .powerOff,
    .boot quiet, .push (bundle 2) quiet]).1
  revert h
  decide +kernel

end Capsule.Update
