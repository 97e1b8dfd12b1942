import Capsule.Update.LastGood

/-!
# Capsule.Update.Tentative

Whether an image nobody confirmed only ever boots in tentative mode, with power losses anywhere.

* `Guarded`: the invariant. The default slot boots the image the machine was delivered with or a
  committed one, or the row has it pending with a deadline.
* `Orderly`: a push runs from `LastGoodSlot` and nothing goes wrong between its flip and its return;
  a `Confirm` finds the row's `ActiveSlot` up to date.
* `push_undisturbed`: such a push stores the pending row whenever it has flipped the default.
* `Ran.guarded`, `tentative_boot`: so every run of orderly acts is guarded.
-/

namespace Capsule.Update

open Atomic

def Flips (o : Op) (e : Env) : Prop := o.isFlip = true ∧ e.fault = none

/-- The operation succeeds, and the clock does not make the deadline the zero that stands for
none. -/
def Undisturbed (_ : Op) (e : Env) : Prop := e.fault = none ∧ e.clock + defaultDeadline ≠ 0

instance (o : Op) (e : Env) : Decidable (Flips o e) := inferInstanceAs (Decidable (_ ∧ _))

instance (o : Op) (e : Env) : Decidable (Undisturbed o e) := inferInstanceAs (Decidable (_ ∧ _))

theorem flipped_next {g : Phase} {o : Op} {e : Env} {h : Host}
    (hf : (g.next o (sem o e h).2).flipped ≠ none) : g.flipped ≠ none ∨ Flips o e := by
  cases o with
  | rewriteGrubDefault t =>
    cases he : e.fault with
    | none => exact .inr ⟨rfl, he⟩
    | some m => simp only [sem, he] at hf; exact .inl hf
  | stateGet =>
    left
    simp only [sem] at hf
    split at hf <;> exact hf
  | statePut st =>
    left
    simp only [sem] at hf
    split at hf <;> exact hf
  | _ => exact .inl hf

theorem sem_osState {o : Op} (ho : ∀ st, o ≠ .statePut st) (e : Env) (h : Host) :
    (sem o e h).1.osState = h.osState := by
  cases o with
  | statePut st => exact absurd rfl (ho st)
  | _ =>
    simp only [sem]
    try split
    all_goals rfl

/-- The row sends the next boot of `slot` into tentative mode. -/
def Pending (h : Host) (slot : Slot) : Prop :=
  ∃ st ∈ h.osState, st.pendingSlot = some slot ∧ st.pendingDeadlineUnix ≠ 0

instance (h : Host) (slot : Slot) : Decidable (Pending h slot) :=
  inferInstanceAs (Decidable (∃ st ∈ h.osState, _))

/-- A push none of whose store calls has failed. -/
structure Sure (slot : Slot) (h₀ : Host) (g : Phase) (h : Host) : Prop where
  track : Track (pushRights slot) h₀ g h
  failed : g.failed = false
  clock : ∀ t, g.clock = some t → t + defaultDeadline ≠ 0
  order : g.put = true → g.flipped ≠ none
  stored : g.put = true → Pending h (otherSlot slot)

theorem Sure.step {slot : Slot} {h₀ h : Host} {g : Phase} (hrow : h₀.osState ≠ none)
    (hs : Sure slot h₀ g h) {o : Op} {e : Env} (hok : (pushRights slot).ok g o)
    (hgood : g.flipped ≠ none → Undisturbed o e) :
    Sure slot h₀ (g.next o (sem o e h).2) (sem o e h).1 := by
  have ht := hs.track.step o e hok
  cases o with
  | stateGet =>
    have he := (hgood hok.2).1
    obtain ⟨st, hst⟩ := Option.ne_none_iff_exists'.mp hrow
    have hcur := (hs.track.noPut hok.1).trans hst
    rw [sem_stateGet hs.track.onPerm, he, hcur] at ht ⊢
    exact ⟨ht, hs.failed, hs.clock, hs.order, hs.stored⟩
  | statePut st =>
    have he := (hgood hok.2.1).1
    rw [sem_statePut hs.track.onPerm, he] at ht ⊢
    obtain ⟨prev, t, v, -, hc, rfl⟩ := hok.2.2
    exact ⟨ht, hs.failed, hs.clock, fun _ => hok.2.1, fun _ => ⟨_, rfl, rfl, hs.clock t hc⟩⟩
  | now =>
    refine ⟨ht, hs.failed, ?_, hs.order, hs.stored⟩
    intro t hc
    cases hc
    exact (hgood hok).2
  | rewriteGrubDefault t =>
    simp only [sem] at ht ⊢
    split at ht
    · exact ⟨ht, hs.failed, hs.clock, fun _ => Option.some_ne_none t, hs.stored⟩
    · exact ⟨ht, hs.failed, hs.clock, hs.order, hs.stored⟩
  | _ =>
    refine ⟨ht, hs.failed, hs.clock, hs.order, fun hp => ?_⟩
    rw [Pending, sem_osState (by simp)]
    exact hs.stored hp

namespace Machine

/-- A push runs from `LastGoodSlot`, with nothing going wrong between the flip and its return;
a `Confirm` finds the row's `ActiveSlot` up to date. -/
def Orderly (sha256 : Bytes → String) (m : Machine) : Act → Prop
  | .push r es => ∀ slot ∈ m.booted, m.host.osState.map OSState.lastGoodSlot = some slot ∧
      (receiveBundle ⟨some slot, sha256⟩ r).CleanAfter sem Flips Undisturbed es m.host
  | .confirm _ => ∀ slot ∈ m.booted, ∀ st ∈ m.host.osState, st.pendingSlot = some slot →
      st.activeSlot = slot
  | _ => True

instance (sha256 : Bytes → String) (m : Machine) : ∀ a, Decidable (m.Orderly sha256 a)
  | .push _ _ => inferInstanceAs (Decidable (∀ slot ∈ m.booted, _ ∧ _))
  | .confirm _ => inferInstanceAs (Decidable (∀ slot ∈ m.booted, ∀ st ∈ m.host.osState, _ → _))
  | .boot _ => .isTrue trivial
  | .expire _ => .isTrue trivial
  | .powerOff => .isTrue trivial

/-- A default that boots neither the image `i₀` the machine was delivered with nor a committed
one is pending, with a deadline. -/
def BootsTentative (i₀ : Image) (m : Machine) : Prop :=
  m.host.image m.host.grubDefault ≠ i₀ → m.host.image m.host.grubDefault ∉ m.committed →
    Pending m.host m.host.grubDefault

instance (i₀ : Image) (m : Machine) : Decidable (m.BootsTentative i₀) :=
  inferInstanceAs (Decidable (_ → _ → _))

variable {sha256 : Bytes → String} {m : Machine} {slot : Slot} {i₀ : Image}

theorem Orderly.fromLastGood {a : Act} (ha : m.Orderly sha256 a) : m.FromLastGood a := by
  cases a with
  | push r es =>
    intro st hst slot hb
    have h := (ha slot hb).1
    rw [Option.mem_def.mp hst] at h
    exact (Option.some.inj h).symm
  | _ => trivial

/-- The default slot boots the image the machine was delivered with or a committed one. -/
def Vetted (i₀ : Image) (m : Machine) : Prop :=
  m.host.image m.host.grubDefault = i₀ ∨ m.host.image m.host.grubDefault ∈ m.committed

structure Guarded (i₀ : Image) (m : Machine) : Prop where
  kept : m.Kept
  default : m.Vetted i₀ ∨ Pending m.host m.host.grubDefault
  running : ∀ slot, m.booted = some slot →
    m.host.grubDefault = slot ∨ Pending m.host m.host.grubDefault

theorem push_undisturbed (hu : m.Up) (hb : m.booted = some slot) {r : Push} {es : List Env}
    (ha : m.Orderly sha256 (.push r es)) :
    ∃ g, Sure slot m.host g ((receiveBundle ⟨some slot, sha256⟩ r).exec sem es m.host).st ∧
      (g.flipped ≠ none → g.put = true) := by
  obtain ⟨hlast, hclean⟩ := ha slot hb
  have hon := hu (by simp [hb])
  have hrow : m.host.osState ≠ none := by
    intro hn; simp [hn] at hlast
  have hstart : Sure slot m.host {} m.host :=
    ⟨.start hon.1 hon.2, rfl, fun _ h => (by cases h), fun h => (by cases h),
      fun h => (by cases h)⟩
  obtain ⟨g, hs, hdone, hval⟩ := (receiveBundle_obeys slot sha256 r).exec_cleanAfter
    (fun _ _ _ _ => flipped_next) (fun _ _ _ _ hs hok hgood => hs.step hrow hok hgood) hstart
    (fun h => h rfl) hclean
  refine ⟨g, hs, ?_⟩
  intro hf
  obtain ⟨a, ha⟩ := Option.isSome_iff_exists.mp (hval hf)
  rcases hdone a ha hf with hput | hfail
  · exact hput
  · rw [hs.failed] at hfail; cases hfail

theorem vetted_after {α : Type} {out : Prog.Outcome Op Host Env α} {commit : Bool}
    (hv : m.Vetted i₀) (hd : out.st.grubDefault = m.host.grubDefault)
    (hi : out.st.image m.host.grubDefault = m.host.image m.host.grubDefault) :
    (m.after slot out commit).Vetted i₀ := by
  have : (m.after slot out commit).host.image (m.after slot out commit).host.grubDefault =
      m.host.image m.host.grubDefault := by
    simp only [Machine.after, hd, hi]
  rw [Vetted, this]
  exact hv.imp id mem_committed_after

theorem guarded_rollback {α : Type} {R : Rights α} {out : Prog.Outcome Op Host Env α}
    {commit : Bool} {g : Phase} {h₀ : Host} (hg : m.Guarded i₀) (ht : Track R h₀ g out.st)
    (hdone : ∀ a, out.val = some a → g.flipped ≠ none → g.rebooted = true)
    (himg : ∀ t, h₀.image t = m.host.image t) (hw : ∀ t, ¬ R.write t)
    {prev : OSState} (hprev : m.host.osState = some prev)
    (hdef : out.st.grubDefault = prev.lastGoodSlot) (hf : g.flipped ≠ none)
    (hk : (m.after slot out commit).Kept) : (m.after slot out commit).Guarded i₀ where
  kept := hk
  default := by
    left; right
    show out.st.image out.st.grubDefault ∈ _
    rw [hdef]
    exact mem_committed_after (hg.kept.sameRow ht himg hprev (hw _))
  running s hs := by
    have hup : (m.after slot out commit).booted ≠ none := by simp [hs]
    simp only [Machine.after] at hup
    split at hup
    · rename_i h
      obtain ⟨a, ha⟩ := Option.isSome_iff_exists.mp h.1
      have := hdone a ha hf
      rw [← ht.down, h.2] at this
      cases this
    · exact absurd rfl hup

theorem pending_startup {h₀ h : Host} {g : Phase} (ht : Track (startupRights slot) h₀ g h)
    (hp : Pending h₀ slot) : Pending h slot := by
  obtain ⟨st, hst, hpend, hdl⟩ := hp
  rcases ht.row_cases with hsame | ⟨g₁, st', hput, hseen, hst'⟩
  · exact ⟨st, hsame.trans hst, hpend, hdl⟩
  · rcases hput with ⟨hr, -⟩ | ⟨prev, hr, hnew⟩
    · cases hst.symm.trans (hseen _ hr)
    · cases hst.symm.trans (hseen _ hr)
      rcases hnew with ⟨-, rfl⟩ | ⟨hne, -⟩
      · exact ⟨_, hst', hpend, hdl⟩
      · exact absurd hpend hne

section Code

variable {g : Phase}

theorem Guarded.boot (hg : m.Guarded i₀) {out : Prog.Outcome Op Host Env (Except Err Unit)}
    (ht : Track (startupRights m.host.grubDefault) m.host.powerOn g out.st)
    (hdone : ∀ a, out.val = some a → (startupRights m.host.grubDefault).done g a) :
    (m.after m.host.grubDefault out
      (m.host.osState.isNone && out.st.osState.isSome)).Guarded i₀ := by
  have hk := hg.kept.boot ht
  rcases ht.grub_cases with ⟨-, hsame⟩ | ⟨g₁, hf, ⟨prev, hr, hpend, hdef⟩, hseen⟩
  · refine ⟨hk, ?_, fun s hs => .inl (hsame.trans (booted_after hs).symm)⟩
    rcases hg.default with hv | hp
    · exact .inl (vetted_after hv hsame (ht.image _ id))
    · right
      show Pending out.st out.st.grubDefault
      rw [hsame]
      exact pending_startup ht hp
  · exact guarded_rollback hg ht hdone (fun _ => rfl) (fun _ => id) (hseen _ hr) hdef hf hk

theorem Guarded.unchanged {α : Type} {out : Prog.Outcome Op Host Env α} {commit : Bool}
    (hg : m.Guarded i₀) (hb : m.booted = some slot)
    (hsame : out.st.grubDefault = m.host.grubDefault) (hrow : out.st.osState = m.host.osState)
    (himg : m.host.grubDefault = slot → out.st.image slot = m.host.image slot)
    (hk : (m.after slot out commit).Kept) : (m.after slot out commit).Guarded i₀ := by
  have hpend : Pending m.host m.host.grubDefault → Pending out.st out.st.grubDefault := by
    rw [hsame, Pending, Pending, hrow]; exact id
  refine ⟨hk, ?_, ?_⟩
  · rcases hg.running slot hb with hd | hp
    · refine hg.default.imp (vetted_after · hsame ?_) hpend
      rw [hd]
      exact himg hd
    · exact .inr (hpend hp)
  · intro s hs; rw [booted_after hs]; exact (hg.running slot hb).imp hsame.trans hpend

theorem Guarded.expire (hg : m.Guarded i₀) (hb : m.booted = some slot)
    {out : Prog.Outcome Op Host Env Unit}
    (ht : Track expireRights { m.host with timer := none } g out.st)
    (hdone : ∀ a, out.val = some a → expireRights.done g a) :
    (m.after slot out false).Guarded i₀ := by
  have hk : (m.after slot out false).Kept := hg.kept.expire ht
  rcases ht.grub_cases with ⟨-, hsame⟩ | ⟨g₁, hf, ⟨prev, hr, hpend, hdef⟩, hseen⟩
  · have hrow : out.st.osState = m.host.osState := by
      rcases ht.row_cases with h | ⟨_, _, hput, -, -⟩
      · exact h
      · exact absurd hput id
    exact hg.unchanged hb hsame hrow (fun _ => ht.image _ id) hk
  · exact guarded_rollback hg ht hdone (fun _ => rfl) (fun _ => id) (hseen _ hr) hdef hf hk

theorem Guarded.push (hg : m.Guarded i₀) (hb : m.booted = some slot)
    {out : Prog.Outcome Op Host Env (Except Err (Slot × Bytes))} (hs : Sure slot m.host g out.st)
    (hput : g.flipped ≠ none → g.put = true) (hk : (m.after slot out false).Kept) :
    (m.after slot out false).Guarded i₀ := by
  rcases hs.track.grub_cases with ⟨hf, hsame⟩ | ⟨g₁, hf, hdef, -⟩
  · -- not flipped, so nothing was stored either
    have hrow : out.st.osState = m.host.osState := by
      refine hs.track.noPut ?_
      by_contra hp
      exact hs.order (by simpa using hp) hf
    exact hg.unchanged hb hsame hrow
      (fun _ => hs.track.image _ (otherSlot_ne slot).symm) hk
  · have hp : Pending out.st out.st.grubDefault := by
      rw [show out.st.grubDefault = otherSlot slot from hdef]; exact hs.stored (hput hf)
    exact ⟨hk, .inr hp, fun _ _ => .inr hp⟩

theorem Guarded.confirm (hg : m.Guarded i₀) (hb : m.booted = some slot)
    {out : Prog.Outcome Op Host Env (Except Err (Slot × Bytes))}
    (ht : Track (confirmRights slot) m.host g out.st)
    (ha : ∀ st, m.host.osState = some st → st.pendingSlot = some slot → st.activeSlot = slot) :
    (m.after slot out (out.st.osState ≠ m.host.osState &&
      out.st.osState.map OSState.lastGoodSlot = some slot)).Guarded i₀ := by
  have hk := hg.kept.confirm ht
  obtain ⟨-, hsame⟩ : g.flipped = none ∧ out.st.grubDefault = m.host.grubDefault := by
    refine ht.grub_cases.resolve_right ?_
    rintro ⟨g₁, -, h, -⟩
    exact h
  rcases ht.row_cases with hrow | ⟨g₁, st', ⟨prev, hr, hpend, rfl⟩, hseen, hst'⟩
  · exact hg.unchanged hb hsame hrow (fun _ => ht.image _ id) hk
  · have hprev : m.host.osState = some prev := hseen _ hr
    have hdef : m.host.grubDefault = slot := by
      rcases hg.running slot hb with hd | ⟨st, hst, hp, -⟩
      · exact hd
      · cases hprev.symm.trans hst; exact Option.some.inj (hp.symm.trans hpend)
    have hact : prev.activeSlot = slot := ha prev hprev hpend
    refine ⟨hk, .inl (.inr ?_), fun s hs => .inl (hsame.trans (hdef.trans (booted_after hs).symm))⟩
    have hslot : out.st.grubDefault = prev.activeSlot := hsame.trans (hdef.trans hact.symm)
    show out.st.image out.st.grubDefault ∈ _
    rw [hslot]
    exact hk.good _ hst'

end Code

/-- The step lemma. -/
theorem Ran.guarded {a : Act} {m' : Machine} (h : Ran sha256 m (.act a) m') (hg : m.Guarded i₀)
    (ha : m.Orderly sha256 a) : m'.Guarded i₀ := by
  cases h with
  | idle => exact hg
  | off =>
    exact ⟨⟨fun h => absurd rfl h, hg.kept.good, hg.kept.pending⟩, hg.default,
      fun _ h => by cases h⟩
  | boot hb hx ht hd =>
    cases a with
    | boot es => cases hx; exact hg.boot ht hd
    | _ => cases hx
  | push hb ht =>
    obtain ⟨g, hs, hput⟩ := push_undisturbed hg.kept.up hb ha
    exact hg.push hb hs hput (hg.kept.push ht fun st hst => ha.fromLastGood st hst _ hb)
  | confirm hb hout ht => exact hg.confirm hb ht fun st => ha _ hb st
  | expire hb ht hd => exact hg.expire hb ht hd

theorem Guarded.step (hg : m.Guarded i₀) {a : Act} (ha : m.Orderly sha256 a) :
    (m.step sha256 a).Guarded i₀ :=
  (ran_pick hg.kept.up (.act a)).guarded hg ha

theorem guarded_factory (h : Host) : (factory h).Guarded (h.image h.grubDefault) where
  kept := kept_factory h
  default := .inl (.inl rfl)
  running _ hb := by cases hb

end Machine

/-- In every run of orderly acts, whatever the machine boots next is delivered, committed, or
pending with a deadline. -/
theorem tentative_boot (sha256 : Bytes → String) (h : Host) (acts : List Act)
    (hw : Along (Machine.step sha256) (Machine.Orderly sha256) (.factory h) acts) :
    (acts.foldl (Machine.step sha256) (.factory h)).BootsTentative (h.image h.grubDefault) := by
  intro hnew hunconfirmed
  have hg := hw.invariant (fun _ _ hg ha => hg.step ha) (Machine.guarded_factory h)
  exact hg.default.resolve_left fun hv => hv.elim hnew hunconfirmed

/-- An update that is pushed and loses power before it reboots by itself. -/
theorem tentative_boot_afterPush :
    ([.boot quiet, .push (bundle 1) quiet, .powerOff].foldl (Machine.step fun _ => "")
      (.factory bench)).BootsTentative (bench.image .a) :=
  tentative_boot _ bench _ (by decide)

/-- Power is lost right after the flip: the next boot runs the new image with nothing
pending. -/
theorem unconfirmed_boots_steady :
    ¬ ∀ (sha256 : Bytes → String) (h : Host) (acts : List Act),
      (acts.foldl (Machine.step sha256) (.factory h)).booted = none →
        (acts.foldl (Machine.step sha256) (.factory h)).BootsTentative (h.image h.grubDefault) := by
  intro hall
  have h := hall (fun _ => "") bench [.boot quiet, .push (bundle 1) (quiet.take 18)]
  revert h
  decide

end Capsule.Update
