import Mathlib.Data.List.Perm.Basic

/-!
# Capsule.Guest.Grace

Stopping a microVM, with a clock in milliseconds: `Driver.Remove` on the host against `agent.Stop`
in the guest. `Remove` allows its call three seconds, and the guest looks at the payload at fixed
times.

* `Timely`, `Mounts`: where the guest can be at what time, and what it has unmounted by then.
* `unmounted_first_iff`: the volumes are unmounted before the VM is shut down exactly if the payload
  exits by the guest's last look before the timeout.
-/

namespace Capsule.Guest

inductive StopPc where
  | idle
  | entry
  | term
  /-- The head of the loop, `time.Now().Before(deadline)`. -/
  | check
  | state
  | sleep (wake : Nat)
  | kill
  | delete
  | detach
  | umount (left : List String)
  | sync
  | done
  deriving DecidableEq

inductive HostPc where
  | remove
  | stopping (since : Nat)
  /-- `Shutdown` and `StopVMM` have been called. -/
  | shutdown
  deriving DecidableEq

structure Vm where
  now : Nat
  host : HostPc
  pc : StopPc
  started : Bool
  deadline : Nat
  volumeMounts : List String
  /-- What the guest kernel has mounted for the payload. -/
  mounted : List String
  termAt : Option Nat
  killed : Bool

/-- `GraceSeconds` of the request that `Remove` sends. -/
def graceSeconds : Int := 5

/-- The timeout of the call, in milliseconds. -/
def stopTimeout : Nat := 3000

/-- `grace` in `agent.Stop`, in milliseconds. -/
def grace (seconds : Int) : Nat := if seconds ≤ 0 then 10000 else seconds.toNat * 1000

/-- The payload has exited, for one that does so `d` milliseconds after SIGTERM. -/
def Vm.exited (d : Option Nat) (s : Vm) : Bool :=
  s.killed ||
    match s.termAt, d with
    | some t, some d => t + d ≤ s.now
    | _, _ => false

/-- The step `agent.Stop` takes now, if it takes one. -/
def guestStep (d : Option Nat) (s : Vm) : Option Vm :=
  match s.pc with
  | .idle | .done => none
  | .entry => some { s with pc := if s.started then .term else .done }
  | .term =>
    some { s with pc := .check, termAt := some s.now, deadline := s.now + grace graceSeconds }
  | .check => some { s with pc := if s.now < s.deadline then .state else .kill }
  | .state => some { s with pc := if s.exited d then .kill else .sleep (s.now + 200) }
  | .sleep wake => if wake ≤ s.now then some { s with pc := .check } else none
  | .kill => some { s with pc := .delete, killed := true }
  | .delete => some { s with pc := .detach }
  | .detach =>
    some { s with pc := .umount s.volumeMounts.reverse, volumeMounts := [], started := false }
  | .umount [] => some { s with pc := .sync }
  | .umount (m :: left) => some { s with pc := .umount left, mounted := s.mounted.erase m }
  | .sync => some { s with pc := .done }

/-- The step `Remove` takes now, if it takes one: the call ends with the guest's answer or at the
timeout, and either way the VM is shut down. -/
def hostStep (s : Vm) : Option Vm :=
  match s.host with
  | .remove => some { s with host := .stopping s.now, pc := .entry }
  | .stopping since =>
    if s.pc = .done ∨ since + stopTimeout ≤ s.now then some { s with host := .shutdown } else none
  | .shutdown => none

/-- Once the VM is shut down nothing happens in it. -/
inductive Step (d : Option Nat) : Vm → Vm → Prop where
  | guest {s s' : Vm} : s.host ≠ .shutdown → guestStep d s = some s' → Step d s s'
  | host {s s' : Vm} : hostStep s = some s' → Step d s s'
  | tick {s : Vm} : s.host ≠ .shutdown → guestStep d s = none →
      Step d s { s with now := s.now + 1 }

abbrev Reach (d : Option Nat) : Vm → Vm → Prop := Relation.ReflTransGen (Step d)

/-- A tracked image-mode VM whose payload runs, at the time `Remove` is called. -/
def Vm.tracked (now : Nat) (mounts : List String) : Vm where
  now := now
  host := .remove
  pc := .idle
  started := true
  deadline := 0
  volumeMounts := mounts
  mounted := mounts
  termAt := none
  killed := false

section InTime

variable {d t₀ : Nat} {mounts : List String} {s s' : Vm}

/-- Between the call and the answer: where the guest can be, at what time. A look that finds the
payload running is one before `d`. -/
def Timely (d t₀ : Nat) (s : Vm) : Prop :=
  match s.pc with
  | .idle => False
  | .entry | .term => s.now = t₀ ∧ s.started
  | .check | .state => ∃ k, s.now = t₀ + 200 * k ∧ 200 * k < d + 200 ∧ s.termAt = some t₀ ∧
      s.deadline = t₀ + 5000
  | .sleep wake => s.now ≤ wake ∧ ∃ k, wake = t₀ + 200 * (k + 1) ∧ 200 * k < d ∧
      s.termAt = some t₀ ∧ s.deadline = t₀ + 5000
  | .kill | .delete | .detach | .umount _ | .sync => s.now ≤ t₀ + 2800
  | .done => True

/-- What is mounted, by how far the guest has come. -/
def Mounts (s : Vm) : Prop :=
  match s.pc with
  | .umount left => s.mounted.Perm left
  | .sync | .done => s.mounted = []
  | _ => s.mounted = s.volumeMounts

/-- The invariant of a removal whose payload exits in time. -/
def Safe (d : Nat) (s : Vm) : Prop :=
  match s.host with
  | .remove => s.pc = .idle ∧ s.started ∧ s.mounted = s.volumeMounts
  | .stopping t₀ => Timely d t₀ s ∧ Mounts s
  | .shutdown => s.mounted = []

theorem Timely.before (hd : d ≤ 2800) (h : Timely d t₀ s) (hs : s.pc ≠ .done) :
    s.now < t₀ + stopTimeout := by
  unfold Timely at h
  unfold stopTimeout
  split at h
  · exact absurd h not_false
  · omega
  · omega
  · obtain ⟨k, hk, hlt, -⟩ := h; omega
  · obtain ⟨k, hk, hlt, -⟩ := h; omega
  · obtain ⟨hnow, k, hk, hlt, -⟩ := h; omega
  all_goals first | exact absurd ‹_› hs | omega

theorem guestStep_host {d : Option Nat} (hstep : guestStep d s = some s') : s'.host = s.host := by
  obtain ⟨now, host, pc, started, deadline, volumeMounts, mounted, termAt, killed⟩ := s
  cases pc with
  | idle | done => cases hstep
  | sleep wake =>
    simp only [guestStep] at hstep
    split at hstep
    · cases hstep; rfl
    · cases hstep
  | umount left => cases left <;> cases hstep <;> rfl
  | _ => cases hstep; rfl

theorem guestStep_timely (hd : d ≤ 2800) (h : Timely d t₀ s)
    (hstep : guestStep (some d) s = some s') : Timely d t₀ s' := by
  obtain ⟨now, host, pc, started, deadline, volumeMounts, mounted, termAt, killed⟩ := s
  cases pc with
  | idle | done => cases hstep
  | entry =>
    obtain ⟨hnow, hstarted⟩ := h
    dsimp only at hnow hstarted
    subst hnow hstarted
    cases hstep
    exact ⟨rfl, rfl⟩
  | term =>
    obtain ⟨hnow, -⟩ := h
    dsimp only at hnow
    subst hnow
    cases hstep
    exact ⟨0, rfl, by omega, rfl, rfl⟩
  | check =>
    obtain ⟨k, hnow, hk, hterm, hdeadline⟩ := h
    dsimp only at hnow hdeadline hterm
    have hlt : now < deadline := by omega
    simp only [guestStep, if_pos hlt] at hstep
    cases hstep
    exact ⟨k, hnow, hk, hterm, hdeadline⟩
  | state =>
    obtain ⟨k, hnow, hk, hterm, hdeadline⟩ := h
    dsimp only at hnow hdeadline hterm
    simp only [guestStep] at hstep
    split at hstep
    · cases hstep; exact (by omega : now ≤ t₀ + 2800)
    · rename_i hexited
      cases hstep
      have hlater : ¬ t₀ + d ≤ now := by
        intro hle; exact hexited (by simp [Vm.exited, hterm, hle])
      have hwake : now + 200 = t₀ + 200 * (k + 1) := by omega
      exact ⟨Nat.le_add_right _ _, k, hwake, by omega, hterm, hdeadline⟩
  | sleep wake =>
    obtain ⟨hle, k, hwake, hk, hterm, hdeadline⟩ := h
    dsimp only at hle hwake hdeadline hterm
    simp only [guestStep] at hstep
    split at hstep
    · rename_i hge
      cases hstep
      have hnow : now = t₀ + 200 * (k + 1) := by omega
      exact ⟨k + 1, hnow, by omega, hterm, hdeadline⟩
    · cases hstep
  | kill | delete | detach => cases hstep; exact h
  | umount left => cases left <;> cases hstep <;> exact h
  | sync => cases hstep; trivial

theorem guestStep_mounts {d : Option Nat} (hstarted : s.pc = .entry → s.started) (hm : Mounts s)
    (hstep : guestStep d s = some s') : Mounts s' := by
  obtain ⟨now, host, pc, started, deadline, volumeMounts, mounted, termAt, killed⟩ := s
  cases pc with
  | idle | done => cases hstep
  | entry => obtain rfl : started = true := hstarted rfl; cases hstep; exact hm
  | check | state =>
    simp only [guestStep] at hstep
    split at hstep <;> cases hstep <;> exact hm
  | sleep wake =>
    simp only [guestStep] at hstep
    split at hstep
    · cases hstep; exact hm
    · cases hstep
  | term | kill | delete | sync => cases hstep; exact hm
  | detach =>
    cases hstep
    have hm : mounted = volumeMounts := hm
    subst hm
    exact (List.reverse_perm _).symm
  | umount left =>
    cases left with
    | nil => cases hstep; exact List.Perm.eq_nil hm
    | cons m left =>
      cases hstep
      have herase : (mounted.erase m).Perm ((m :: left).erase m) := List.Perm.erase m hm
      rwa [List.erase_cons_head] at herase

theorem Timely.started (h : Timely d t₀ s) (hpc : s.pc = .entry) : s.started := by
  rw [Timely, hpc] at h; exact h.2

theorem tick_safe (h : Timely d t₀ s) (hm : Mounts s) (hstep : guestStep (some d) s = none) :
    Timely d t₀ { s with now := s.now + 1 } ∧ Mounts { s with now := s.now + 1 } := by
  obtain ⟨now, host, pc, started, deadline, volumeMounts, mounted, termAt, killed⟩ := s
  cases pc with
  | idle => exact absurd h not_false
  | done => exact ⟨trivial, hm⟩
  | sleep wake =>
    obtain ⟨hle, hrest⟩ := h
    simp only [guestStep] at hstep
    split at hstep
    · cases hstep
    · rename_i hlt; exact ⟨⟨Nat.lt_of_not_le hlt, hrest⟩, hm⟩
  | umount left => cases left <;> cases hstep
  | _ => cases hstep

theorem step_safe (hd : d ≤ 2800) (h : Safe d s) (hstep : Step (some d) s s') : Safe d s' := by
  unfold Safe at h
  cases hstep with
  | guest hup hstep =>
    split at h
    · rename_i hhost; rw [guestStep, h.1] at hstep; cases hstep
    · rename_i t₀ hhost
      rw [Safe, guestStep_host hstep, hhost]
      exact ⟨guestStep_timely hd h.1 hstep, guestStep_mounts h.1.started h.2 hstep⟩
    · exact absurd ‹_› hup
  | host hstep =>
    unfold hostStep at hstep
    split at hstep
    · rename_i hhost
      rw [hhost] at h
      cases hstep
      exact ⟨⟨rfl, h.2.1⟩, h.2.2⟩
    · rename_i t₀ hhost
      rw [hhost] at h
      split at hstep
      · rename_i hend
        cases hstep
        by_cases hdone : s.pc = .done
        · have hm := h.2
          rw [Mounts, hdone] at hm
          exact hm
        · have hbefore := h.1.before hd hdone
          rcases hend with hend | hend
          · exact absurd hend hdone
          · omega
      · cases hstep
    · cases hstep
  | tick hup hstep =>
    split at h
    · rename_i hhost
      rw [Safe]
      simp only [hhost]
      exact h
    · rename_i t₀ hhost
      rw [Safe]
      simp only [hhost]
      exact tick_safe h.1 h.2 hstep
    · exact absurd ‹_› hup

theorem reach_safe (hd : d ≤ 2800) (hs : Safe d s) (h : Reach (some d) s s') : Safe d s' := by
  induction h with
  | refl => exact hs
  | tail _ hstep ih => exact step_safe hd ih hstep

end InTime

/-! ## One that does not -/

section Late

variable {d : Option Nat} {t₀ : Nat} {mounts : List String}

/-- In the loop at time `now`, after a call at `t₀`. -/
def Vm.waiting (t₀ now : Nat) (pc : StopPc) (mounts : List String) : Vm where
  now := now
  host := .stopping t₀
  pc := pc
  started := true
  deadline := t₀ + 5000
  volumeMounts := mounts
  mounted := mounts
  termAt := some t₀
  killed := false

theorem waiting_up (t₀ now : Nat) (pc : StopPc) (mounts : List String) :
    (Vm.waiting t₀ now pc mounts).host ≠ .shutdown := fun h => by cases h

theorem reach_loop : Reach d (.tracked t₀ mounts) (.waiting t₀ t₀ .check mounts) := by
  refine .head (.host rfl) (.head (.guest ?_ rfl) (.head (.guest ?_ rfl) .refl)) <;>
    exact fun h => by cases h

theorem reach_sleep {now wake : Nat} :
    ∀ n, now + n ≤ wake →
      Reach d (.waiting t₀ now (.sleep wake) mounts)
        (.waiting t₀ (now + n) (.sleep wake) mounts) := by
  intro n
  induction n with
  | zero => exact fun _ => .refl
  | succ n ih =>
    intro hle
    refine (ih (by omega)).tail (.tick (waiting_up _ _ _ _) (if_neg ?_))
    exact Nat.not_le_of_lt hle

theorem reach_asleep {now : Nat} (hd : ∀ d', d = some d' → now < t₀ + d') (hnow : now < t₀ + 5000) :
    Reach d (.waiting t₀ now .check mounts)
      (.waiting t₀ (now + 200) (.sleep (now + 200)) mounts) := by
  have hexited : (Vm.waiting t₀ now .state mounts).exited d = false := by
    cases d with
    | none => rfl
    | some d' => exact decide_eq_false (Nat.not_le_of_lt (hd d' rfl))
  have hcheck : guestStep d (.waiting t₀ now .check mounts) =
      some (.waiting t₀ now .state mounts) :=
    congrArg (fun pc => some (Vm.waiting t₀ now pc mounts)) (if_pos hnow)
  have hstate : guestStep d (.waiting t₀ now .state mounts) =
      some (.waiting t₀ now (.sleep (now + 200)) mounts) :=
    congrArg (fun pc => some (Vm.waiting t₀ now pc mounts)) (if_neg (by rw [hexited]; decide))
  exact .head (.guest (waiting_up _ _ _ _) hcheck)
    (.head (.guest (waiting_up _ _ _ _) hstate) (reach_sleep 200 (Nat.le_refl _)))

theorem reach_look (hd : ∀ d', d = some d' → 2800 < d') :
    ∀ k ≤ 14, Reach d (.tracked t₀ mounts) (.waiting t₀ (t₀ + 200 * k) .check mounts) := by
  intro k
  induction k with
  | zero => exact fun _ => reach_loop
  | succ k ih =>
    intro hk
    have hlate : ∀ d', d = some d' → t₀ + 200 * k < t₀ + d' := by
      intro d' hd'
      have := hd d' hd'
      omega
    have hwake : ∀ now, guestStep d (.waiting t₀ now (.sleep now) mounts) =
        some (.waiting t₀ now .check mounts) := fun now => if_pos (Nat.le_refl now)
    rw [Nat.mul_succ, ← Nat.add_assoc]
    exact ((ih (by omega)).trans (reach_asleep hlate (by omega))).tail
      (.guest (waiting_up _ _ _ _) (hwake _))

theorem reach_shutdown (hd : ∀ d', d = some d' → 2800 < d') :
    ∃ s, Reach d (.tracked t₀ mounts) s ∧ s.host = .shutdown ∧ s.mounted = mounts := by
  have hlate : ∀ d', d = some d' → t₀ + 200 * 14 < t₀ + d' := by
    intro d' hd'
    have := hd d' hd'
    omega
  have htimeout : ∀ now pc, t₀ + stopTimeout ≤ now → hostStep (.waiting t₀ now pc mounts) =
      some { Vm.waiting t₀ now pc mounts with host := .shutdown } :=
    fun now pc hle => if_pos (.inr hle)
  have hlast : Reach d (.tracked t₀ mounts)
      (.waiting t₀ (t₀ + 200 * 14 + 200) (.sleep (t₀ + 200 * 14 + 200)) mounts) :=
    (reach_look hd 14 (by decide)).trans (reach_asleep hlate (by omega))
  exact ⟨_, hlast.tail (.host (htimeout _ _ (by simp only [stopTimeout]; omega))), rfl, rfl⟩

end Late

theorem unmounted_first_iff {d : Option Nat} {t₀ : Nat} {mounts : List String}
    (hm : mounts ≠ []) :
    (∀ s, Reach d (.tracked t₀ mounts) s → s.host = .shutdown → s.mounted = []) ↔
      ∃ d', d = some d' ∧ d' ≤ 2800 := by
  constructor
  · intro h
    by_contra hlate
    have hd : ∀ d', d = some d' → 2800 < d' :=
      fun d' hd' => Nat.lt_of_not_le fun hle => hlate ⟨d', hd', hle⟩
    obtain ⟨s, hs, hdown, hmounted⟩ := reach_shutdown hd
    exact hm (hmounted.symm.trans (h s hs hdown))
  · rintro ⟨d', rfl, hd'⟩ s hs hdown
    have hsafe : Safe d' (.tracked t₀ mounts) := ⟨rfl, rfl, rfl⟩
    have h := reach_safe hd' hsafe hs
    rw [Safe, hdown] at h
    exact h

theorem unmounted_first_last_look :
    ["/oci/data"] ≠ [] ∧ ((∀ s, Reach (some 2800) (.tracked 0 ["/oci/data"]) s →
      s.host = .shutdown → s.mounted = []) ↔ ∃ d', some 2800 = some d' ∧ d' ≤ 2800) :=
  ⟨by decide, unmounted_first_iff (by decide)⟩

/-- A payload that takes three seconds, and one that has to be killed. -/
theorem shutdown_with_volumes_mounted :
    (∃ s, Reach (some 3000) (.tracked 0 ["/oci/data"]) s ∧ s.host = .shutdown ∧
        s.mounted = ["/oci/data"]) ∧
      ∃ s, Reach none (.tracked 0 ["/oci/data"]) s ∧ s.host = .shutdown ∧
        s.mounted = ["/oci/data"] := by
  refine ⟨reach_shutdown fun d' h => ?_, reach_shutdown fun d' h => ?_⟩
  · cases h; decide
  · cases h

end Capsule.Guest
