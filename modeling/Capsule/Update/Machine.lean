import Capsule.Atomic.Steps
import Capsule.Update.Discipline

/-!
# Capsule.Update.Machine

The A/B machine: a host that boots the GRUB default, runs the update code and can lose power
at any operation. A run is a list of `Act`s (boot, push, confirm, expiry, power off), or of
`Choice`s, with boots of the entry picked in the GRUB menu.

* `step`, `pick`: one act, one choice. What is not on disk is lost between boots (`Host.cold`).
* `Ran`, `ran_pick`: what one step can do, said once: nothing, switch off, or run one piece of code
  within its rights.
-/

namespace Capsule.Update

open Atomic

structure Machine where
  host : Host
  /-- The slot that is running; `none` when powered off. -/
  booted : Option Slot
  committed : List Image

inductive Act where
  | boot (es : List Env)
  | push (r : Push) (es : List Env)
  | confirm (es : List Env)
  | expire (es : List Env)
  | powerOff

/-- An act of the machine, or a boot of the entry picked in the GRUB menu. -/
inductive Choice where
  | act (a : Act)
  | menu (slot : Slot) (es : List Env)

/-- A small disk for concrete runs: empty slots of eight bytes, slot A the default. -/
def bench : Host where
  rootfs _ := []
  boot _ _ := none
  staging _ := none
  slotBytes _ := 8
  devPath _ := ""
  grubDefault := .a
  osState := none
  memState := none
  onPerm := false
  timer := none
  down := true

/-- A complete bundle whose members hold the single byte `b`. -/
def bundle (b : UInt8) : Push where
  expectSize := 0
  expectSHA256Hex := "c0ffee"
  entries := [⟨"VERSION", 1, [b], none⟩, ⟨"vmlinuz", 1, [b], none⟩,
    ⟨"initramfs", 1, [b], none⟩, ⟨"rootfs.sqsh", 1, [b], none⟩]
  tarErr := none
  bytesIn := 4
  got := "c0ffee"
  streamErr := none

/-- Answers without a fault, enough for any one piece of code on `bundle`. -/
def quiet : List Env := List.replicate 24 .ok

/-- What is not on disk is lost between boots. -/
def Host.cold (h : Host) : Host :=
  { h with memState := none, onPerm := false, timer := none, down := false }

/-- The host once `/perm` is mounted and the store on it is open. -/
def Host.powerOn (h : Host) : Host := { h.cold with onPerm := true }

namespace Machine

/-- The machine after code that ran from `slot`: off when the run was cut or rebooted. -/
def after {α : Type} (m : Machine) (slot : Slot) (out : Prog.Outcome Op Host Env α)
    (commit : Bool) : Machine where
  host := out.st
  booted := if out.val.isSome ∧ out.st.down = false then some slot else none
  committed := if commit then m.host.image slot :: m.committed else m.committed

/-- A boot into `slot`, whoever chose it. -/
def bootInto (sha256 : Bytes → String) (m : Machine) (slot : Slot) (es : List Env) : Machine :=
  match m.booted with
  | some _ => m
  | none =>
    let out := (onStartup ⟨some slot, sha256⟩).exec sem es m.host.powerOn
    m.after slot out (m.host.osState.isNone && out.st.osState.isSome)

/-- An act that is not possible in the state changes nothing. -/
def step (sha256 : Bytes → String) (m : Machine) : Act → Machine
  | .boot es => m.bootInto sha256 m.host.grubDefault es
  | .push r es =>
    match m.booted with
    | none => m
    | some slot => m.after slot ((receiveBundle ⟨some slot, sha256⟩ r).exec sem es m.host) false
  | .confirm es =>
    match m.booted with
    | none => m
    | some slot =>
      let out := (confirm ⟨some slot, sha256⟩).exec sem es m.host
      m.after slot out (out.st.osState ≠ m.host.osState &&
        out.st.osState.map OSState.lastGoodSlot = some slot)
  | .expire es =>
    match m.booted, m.host.timer with
    | some slot, some _ =>
      m.after slot (deadlineExpired.exec sem es { m.host with timer := none }) false
    | _, _ => m
  | .powerOff => { m with booted := none }

theorem step_boot_eq (sha256 : Bytes → String) (m : Machine) (es : List Env) :
    m.step sha256 (.boot es) = m.bootInto sha256 m.host.grubDefault es := rfl

def pick (sha256 : Bytes → String) (m : Machine) : Choice → Machine
  | .act a => m.step sha256 a
  | .menu slot es => m.bootInto sha256 slot es

/-- The slot a boot goes to, and the answers its code gets. -/
def bootOf (m : Machine) : Choice → Option (Slot × List Env)
  | .act (.boot es) => some (m.host.grubDefault, es)
  | .menu slot es => some (slot, es)
  | _ => none

/-- A disk as it leaves the factory: no row yet, nothing committed. -/
def factory (h : Host) : Machine := ⟨{ h with osState := none }, none, []⟩

/-- A running machine holds the store on `/perm`. -/
def Up (m : Machine) : Prop := m.booted ≠ none → m.host.onPerm = true ∧ m.host.down = false

section Step

variable {m : Machine} {slot : Slot}

theorem after_up {α : Type} {out : Prog.Outcome Op Host Env α} {commit : Bool}
    (hp : out.st.onPerm = true) : (m.after slot out commit).Up := by
  intro hb
  simp only [after] at hb ⊢
  split at hb
  · exact ⟨hp, (‹_ ∧ _›).2⟩
  · exact absurd rfl hb

theorem booted_after {α : Type} {out : Prog.Outcome Op Host Env α} {commit : Bool} {s : Slot}
    (h : (m.after slot out commit).booted = some s) : s = slot := by
  simp only [Machine.after] at h
  split at h
  · exact (Option.some.inj h).symm
  · cases h

variable {sha256 : Bytes → String}

theorem pick_of_bootOf {x : Choice} {es : List Env} (h : m.bootOf x = some (slot, es)) :
    m.pick sha256 x = m.bootInto sha256 slot es := by
  cases x with
  | menu t es' => cases h; rfl
  | act a =>
    cases a with
    | boot es' => cases h; rfl
    | _ => cases h

/-- What one step can do: nothing, switch the machine off, or run one piece of code, which keeps
to its rights. -/
inductive Ran (sha256 : Bytes → String) (m : Machine) : Choice → Machine → Prop where
  | idle {x : Choice} : Ran sha256 m x m
  | off : Ran sha256 m (.act .powerOff) { m with booted := none }
  | boot {x : Choice} {slot : Slot} {es : List Env} {g : Phase}
      {out : Prog.Outcome Op Host Env (Except Err Unit)} (hb : m.booted = none)
      (hx : m.bootOf x = some (slot, es)) (ht : Track (startupRights slot) m.host.powerOn g out.st)
      (hd : ∀ a, out.val = some a → (startupRights slot).done g a)
      (hout : out = (onStartup ⟨some slot, sha256⟩).exec sem es m.host.powerOn) :
      Ran sha256 m x (m.after slot out (m.host.osState.isNone && out.st.osState.isSome))
  | push {r : Push} {es : List Env} {slot : Slot} (hb : m.booted = some slot) {g : Phase}
      (ht : Track (pushRights slot) m.host g
        ((receiveBundle ⟨some slot, sha256⟩ r).exec sem es m.host).st) :
      Ran sha256 m (.act (.push r es))
        (m.after slot ((receiveBundle ⟨some slot, sha256⟩ r).exec sem es m.host) false)
  | confirm {es : List Env} {slot : Slot} (hb : m.booted = some slot) {g : Phase}
      {out : Prog.Outcome Op Host Env (Except Err (Slot × Bytes))}
      (hout : out = (confirm ⟨some slot, sha256⟩).exec sem es m.host)
      (ht : Track (confirmRights slot) m.host g out.st) :
      Ran sha256 m (.act (.confirm es)) (m.after slot out (out.st.osState ≠ m.host.osState &&
        out.st.osState.map OSState.lastGoodSlot = some slot))
  | expire {es : List Env} {slot : Slot} (hb : m.booted = some slot) {g : Phase}
      {out : Prog.Outcome Op Host Env Unit}
      (ht : Track expireRights { m.host with timer := none } g out.st)
      (hd : ∀ a, out.val = some a → expireRights.done g a) :
      Ran sha256 m (.act (.expire es)) (m.after slot out false)

theorem ran_bootInto {x : Choice} {es : List Env} (hx : m.bootOf x = some (slot, es)) :
    Ran sha256 m x (m.bootInto sha256 slot es) := by
  cases hb : m.booted with
  | some t => simpa only [bootInto, hb] using Ran.idle
  | none =>
    obtain ⟨g, ht, hd⟩ := Track.exec (onStartup_obeys slot sha256) (h := m.host.powerOn) rfl rfl es
    simpa only [bootInto, hb] using Ran.boot hb hx ht hd rfl

theorem ran_pick (hu : m.Up) (x : Choice) : Ran sha256 m x (m.pick sha256 x) := by
  cases x with
  | menu slot es => exact ran_bootInto rfl
  | act a =>
    have hon : ∀ slot, m.booted = some slot → m.host.onPerm = true ∧ m.host.down = false :=
      fun slot hb => hu (by simp [hb])
    cases a with
    | boot es => exact ran_bootInto rfl
    | push r es =>
      cases hb : m.booted with
      | none => simpa only [pick, step, hb] using Ran.idle
      | some slot =>
        obtain ⟨g, ht, -⟩ := Track.exec (receiveBundle_obeys slot sha256 r) (hon slot hb).1
          (hon slot hb).2 es
        simpa only [pick, step, hb] using Ran.push hb ht
    | confirm es =>
      cases hb : m.booted with
      | none => simpa only [pick, step, hb] using Ran.idle
      | some slot =>
        obtain ⟨g, ht, -⟩ := Track.exec (confirm_obeys slot sha256) (hon slot hb).1
          (hon slot hb).2 es
        simpa only [pick, step, hb] using Ran.confirm hb rfl ht
    | expire es =>
      cases hb : m.booted with
      | none => simpa only [pick, step, hb] using Ran.idle
      | some slot =>
        cases htimer : m.host.timer with
        | none => simpa only [pick, step, hb, htimer] using Ran.idle
        | some d =>
          obtain ⟨g, ht, hd⟩ := Track.exec (h := { m.host with timer := none })
            deadlineExpired_obeys (hon slot hb).1 (hon slot hb).2 es
          simpa only [pick, step, hb, htimer] using Ran.expire hb ht hd
    | powerOff => exact Ran.off

/-- The step lemma. -/
theorem Ran.up {x : Choice} {m' : Machine} (h : Ran sha256 m x m') (hu : m.Up) : m'.Up := by
  cases h with
  | idle => exact hu
  | off => exact fun h => absurd rfl h
  | boot hb hx ht hd => exact after_up ht.onPerm
  | push hb ht => exact after_up ht.onPerm
  | confirm hb hout ht => exact after_up ht.onPerm
  | expire hb ht hd => exact after_up ht.onPerm

end Step

end Machine

end Capsule.Update
