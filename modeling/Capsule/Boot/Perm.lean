import Capsule.Atomic.Rely
import Capsule.Store.Types

/-!
# Capsule.Boot.Perm

The volume group behind `/perm`: `mountPerm` of `boot/boot_linux.go`, which makes it on a blank
partition, and `initTargetLVM` of `core/install/installer.go`. Any command may fail, with or without
its effect, and power may be lost between any two.

* `mountPerm_keeps`: on a physical volume `mountPerm` makes nothing, if `pvs` is truthful.
* `perm_kept`: so no boots change what is there, and the next one that works mounts it.
* `perm_mounts_iff`: a first boot cut between `pvcreate` and `mkfs` is never taken up again.
* `installed_has_no_pool`: after an install no boot makes the thin pool.
-/

namespace Capsule.Boot.Perm

open Atomic

/-- The PERM partition: the physical volume, the group `capsule`, its volume `meta` (with the
regular files on it once it is formatted) and its thin pool. -/
structure Disk where
  pv : Bool := false
  vg : Bool := false
  metaLV : Option (Option (List (String × Bytes))) := none
  pool : Bool := false

structure Host where
  disk : Disk
  mounted : Bool := false

inductive Op where
  | stat | isMounted | findPermPartition | pvs | pvcreate | vgcreate | vgs
  | lvcreateMeta (mib : Nat) | mkfs (bin : String) | lvcreatePool
  | vgscan | vgchange | waitForBlockDevice | mount | ensurePermDirs
  | writeLVMLocalConf | deactivate (vg : String) | vgremove (vg : String) | pvremove | dd
  deriving DecidableEq

/-- What a command needs to succeed. -/
def Op.ready (s : Host) : Op → Bool
  | .isMounted => s.mounted
  | .pvs => s.disk.pv
  | .vgcreate => s.disk.pv && !s.disk.vg
  | .vgs | .vgchange => s.disk.vg
  | .lvcreateMeta _ => s.disk.vg && s.disk.metaLV.isNone
  | .mkfs _ | .waitForBlockDevice => s.disk.metaLV.isSome
  | .lvcreatePool => s.disk.vg && !s.disk.pool
  | .mount => s.disk.vg && s.disk.metaLV.any Option.isSome
  | _ => true

def Op.after (s : Host) : Op → Host
  | .pvcreate => { s with disk := { pv := true } }
  | .vgcreate => { s with disk := { s.disk with vg := true } }
  | .lvcreateMeta _ => { s with disk := { s.disk with metaLV := some none } }
  | .mkfs _ => { s with disk := { s.disk with metaLV := some (some []) } }
  | .lvcreatePool => { s with disk := { s.disk with pool := true } }
  | .mount => { s with mounted := true }
  | .vgremove vg => if vg = "capsule" then { s with disk := { pv := s.disk.pv } } else s
  | .pvremove | .dd => { s with disk := {} }
  | _ => s

structure Answer where
  fault : Option Err := none
  /-- A command that fails has had its effect all the same. -/
  effect : Bool := false
  /-- What `vgs` prints, in MiB. -/
  vgMiB : Nat := 0

def sem : Sem Op (fun _ => Except Err Nat) Host (Op → Answer) := fun o a s =>
  (if o.ready s ∧ ((a o).fault = none ∨ (a o).effect) then o.after s else s,
    match (a o).fault with
    | none => if o.ready s then .ok (a o).vgMiB else .error (.text "exit status 5")
    | some e => .error e)

abbrev Code := Prog Op fun _ => Except Err Nat

def call (o : Op) : Code (Except Err Nat) := .call o .ret

/-- `computeMetaMiB` of the size of the group. -/
def computeMetaMiB (vgMiB : Nat) : Nat := min (max (vgMiB / 4) 1024) (32 * 1024)

def mkfsMeta : Code (Except Err Nat) :=
  .call (.mkfs "/usr/sbin/mkfs.ext4") fun
    | .ok n => .ret (.ok n)
    | .error e => (call (.mkfs "/sbin/mkfs.ext4")).mapErr fun e' =>
      .text ("mkfs.ext4 /dev/capsule/meta: " ++ e.msg ++ " / " ++ e'.msg)

def initializeCapsuleVG : Code (Except Err Nat) :=
  (call .pvcreate).thenOk fun _ =>
  (call .vgcreate).thenOk fun _ =>
  ((call .vgs).mapErr (.ctx "vgs capsule")).thenOk fun vgMiB =>
  (call (.lvcreateMeta (computeMetaMiB vgMiB))).thenOk fun _ =>
  mkfsMeta.thenOk fun _ =>
  call .lvcreatePool

/-- `mountPerm` from `activateVG` on. -/
def mountMeta : Code (Except Err Nat) :=
  ((call .vgscan >>= fun _ => call .vgchange).mapErr (.ctx "activate vg capsule")).thenOk fun _ =>
  ((call .waitForBlockDevice).mapErr (.ctx "waiting for /dev/capsule/meta")).thenOk fun _ =>
  ((call .mount).mapErr (.ctx "mount /dev/capsule/meta -> /perm")).thenOk fun _ =>
  call .ensurePermDirs

def mountPerm : Code (Except Err Nat) :=
  ((call .stat).mapErr (.ctx "mount point /perm missing (rootfs must pre-create it)")).thenOk
  fun _ => do
  if (← call .isMounted).isOk then call .ensurePermDirs
  else
    ((call .findPermPartition).mapErr (.ctx "locate PERM partition")).thenOk fun _ => do
    let pv ← call .pvs
    (if pv.isOk then .ret (.ok 0)
      else initializeCapsuleVG.mapErr (.ctx "initialize VG capsule")).thenOk fun _ =>
    mountMeta

def initTargetLVM (permDev : String) : Code (Except Err Nat) :=
  ((call .writeLVMLocalConf).mapErr (.ctx "lvm local conf")).thenOk fun _ => do
  let _ ← call (.deactivate "capsule-target")
  let _ ← call (.deactivate "capsule")
  let _ ← call (.vgremove "capsule-target")
  let _ ← call (.vgremove "capsule")
  let _ ← call .pvremove
  ((call .dd).mapErr (.ctx ("zero " ++ permDev))).thenOk fun _ =>
    (call .pvcreate).thenOk fun _ =>
    (call .vgcreate).thenOk fun _ =>
    (call (.lvcreateMeta 1024)).thenOk fun _ =>
    (call (.mkfs "/sbin/mkfs.ext4")).mapErr (.ctx "mkfs.ext4 /dev/mapper/capsule-meta")

/-- The answers to the commands of one boot; power is lost where they end. -/
abbrev Answers := List (Op → Answer)

def boot (d : Disk) (b : Answers) : Host := (mountPerm.exec sem b ⟨d, false⟩).st

def boots (d : Disk) (w : List Answers) : Disk := w.foldl (fun d b => (boot d b).disk) d

/-- `pvs` does not fail on a physical volume. -/
def Truthful (b : Answers) : Prop := ∀ a ∈ b, (a .pvs).fault = none

def Disk.Formatted (d : Disk) : Prop := d.vg = true ∧ d.metaLV.any Option.isSome = true

def Op.Quiet : Op → Prop
  | .pvcreate | .vgcreate | .lvcreateMeta _ | .mkfs _ | .lvcreatePool => False
  | .vgremove _ | .pvremove | .dd => False
  | _ => True

section Kept

variable {d : Disk} {s : Host} {o : Op} {a : Op → Answer} {p : Code (Except Err Nat)}

theorem sem_cases (o : Op) (a : Op → Answer) (s : Host) :
    (sem o a s).1 = s ∨ o.ready s = true ∧ (sem o a s).1 = o.after s := by
  by_cases h : o.ready s ∧ ((a o).fault = none ∨ (a o).effect)
  · exact .inr ⟨h.1, if_pos h⟩
  · exact .inl (if_neg h)

/-- The disk is `d`, and mounted only if it is formatted. -/
def Holds (d : Disk) (s : Host) : Prop := s.disk = d ∧ (s.mounted = true → d.Formatted)

theorem Op.Quiet.holds (ho : o.Quiet) (h : Holds d s) : Holds d (sem o a s).1 := by
  rcases sem_cases o a s with heq | ⟨hready, heq⟩
  · rw [heq]; exact h
  · rw [heq]
    cases o with
    | pvcreate | vgcreate | lvcreateMeta | mkfs | lvcreatePool | vgremove | pvremove | dd =>
      exact ho.elim
    | mount =>
      rw [Op.ready, Bool.and_eq_true, h.1] at hready
      exact ⟨h.1, fun _ => hready⟩
    | _ => exact h

/-- The code makes nothing on `d`, if `pvs` is truthful. -/
abbrev Keeps {α : Type} (d : Disk) (p : Code α) (s : Host) : Prop :=
  p.Safe (sem.given fun a => (a .pvs).fault = none) Eq (fun o _ => o.Quiet) (fun _ s => Holds d s) s

theorem keeps_of_only (hp : p.Only Op.Quiet) (h : Holds d s) : Keeps d p s :=
  hp.safe (fun _ _ heq h => heq ▸ h) (fun _ _ ho _ => ho) (fun _ _ _ ho h => ho.holds h) h

theorem keeps_thenOk {f : Nat → Code (Except Err Nat)} (hp : p.Only Op.Quiet) (h : Holds d s)
    (hf : ∀ n s, Holds d s → Keeps d (f n) s) : Keeps d (p.thenOk f) s := by
  refine .andThenOk ((keeps_of_only hp h).mono fun r s hs => ?_)
  cases r with
  | ok n => exact hf n s hs
  | error e => exact .ret hs

theorem only_call (o : Op) (ho : o.Quiet) : (call o).Only Op.Quiet := ⟨ho, fun _ => trivial⟩

theorem mountMeta_quiet : mountMeta.Only Op.Quiet :=
  .thenOk (.mapErr ⟨trivial, fun _ => only_call .vgchange trivial⟩) fun _ =>
    .thenOk (.mapErr (only_call .waitForBlockDevice trivial)) fun _ =>
    .thenOk (.mapErr (only_call .mount trivial)) fun _ => only_call .ensurePermDirs trivial

theorem mountPerm_keeps (hpv : d.pv = true) (h : Holds d s) : Keeps d mountPerm s := by
  refine keeps_thenOk (.mapErr (only_call .stat trivial)) h fun _ s h => ?_
  refine .andThen ((keeps_of_only (only_call .isMounted trivial) h).mono fun r s h => ?_)
  split
  · exact keeps_of_only (only_call .ensurePermDirs trivial) h
  · refine keeps_thenOk (.mapErr (only_call .findPermPartition trivial)) h fun _ s h => ?_
    refine .andThen (.call ⟨trivial, fun a => .ret ?_⟩)
    have hanswer : (sem .pvs a.1 s).2 = .ok (a.1 .pvs).vgMiB := by
      simp [sem, a.2, Op.ready, h.1, hpv]
    rw [Sem.given, hanswer]
    exact keeps_thenOk trivial (Op.Quiet.holds (o := .pvs) trivial h) fun _ s h =>
      keeps_of_only mountMeta_quiet h

theorem holds_off (d : Disk) : Holds d ⟨d, false⟩ := ⟨rfl, by rintro ⟨⟩⟩

theorem boot_holds (hpv : d.pv = true) {b : Answers} (hb : Truthful b) : Holds d (boot d b) :=
  (mountPerm_keeps hpv (holds_off d)).exec_given (fun _ _ _ ho h => ho.holds h) (holds_off d) hb

theorem boots_kept (hpv : d.pv = true) {w : List Answers} (hw : ∀ b ∈ w, Truthful b) :
    boots d w = d := by
  induction w with
  | nil => rfl
  | cons b w ih =>
    have hdisk := (boot_holds hpv (hw b List.mem_cons_self)).1
    exact (congrArg (boots · w) hdisk).trans (ih fun b' h => hw b' (List.mem_cons_of_mem b h))

end Kept

theorem mountPerm_mounts {d : Disk} (hpv : d.pv = true) (hd : d.Formatted)
    {es : Nat → Op → Answer} (hes : ∀ n o, (es n o).fault = none) :
    (mountPerm.complete sem es ⟨d, false⟩).1 = ⟨d, true⟩ := by
  obtain ⟨hvg, hfs⟩ := hd
  have hlv : d.metaLV.isSome = true := by
    cases hm : d.metaLV with
    | none => rw [hm] at hfs; cases hfs
    | some v => rfl
  simp [hpv, hvg, hlv, hfs, mountPerm, mountMeta, call, Prog.thenOk, Prog.mapErr,
    Prog.complete, sem, hes, Op.ready, Op.after, Except.mapError, Except.isOk, Except.toBool]

/-- Once the partition is a physical volume, no boot changes its volumes or a file on them, wherever
it fails or is cut; and if it was formatted, the next boot in which nothing fails mounts all that
was on it. -/
theorem perm_kept {d : Disk} (hpv : d.pv = true) {w : List Answers} (hw : ∀ b ∈ w, Truthful b) :
    boots d w = d ∧ (d.Formatted → ∀ es : Nat → Op → Answer, (∀ n o, (es n o).fault = none) →
      (mountPerm.complete sem es ⟨boots d w, false⟩).1 = ⟨d, true⟩) := by
  refine ⟨boots_kept hpv hw, fun hd es hes => ?_⟩
  rw [boots_kept hpv hw]
  exact mountPerm_mounts hpv hd hes

/-- A disk in use, after a whole boot, one on which the volume cannot be activated and one cut
behind `pvs`. -/
theorem perm_kept_inUse :
    let d : Disk := ⟨true, true, some (some [("state.db", [1])]), true⟩
    let failing (o : Op) : Answer := if o = .vgchange then { fault := some (.text "busy") } else {}
    (mountPerm.complete sem (fun _ _ => {})
      ⟨boots d [.replicate 9 fun _ => {}, .replicate 9 failing, .replicate 4 fun _ => {}],
        false⟩).1 = ⟨d, true⟩ :=
  (perm_kept rfl (by simp [Truthful])).2 ⟨rfl, rfl⟩ _ fun _ _ => rfl

theorem mountPerm_initializes {d : Disk} (hpv : d.pv = false) {es : Nat → Op → Answer}
    (hes : ∀ n o, (es n o).fault = none) :
    (mountPerm.complete sem es ⟨d, false⟩).1 =
      ⟨{ pv := true, vg := true, metaLV := some (some []), pool := true }, true⟩ := by
  simp [hpv, hes, mountPerm, mountMeta, initializeCapsuleVG, mkfsMeta, call, Prog.thenOk,
    Prog.mapErr, Prog.complete, sem, Op.ready, Op.after, Except.mapError, Except.isOk,
    Except.toBool]

section FirstBoot

variable {s : Host}

theorem blank_or_pv (o : Op) (a : Op → Answer) (h : s.disk = {} ∨ s.disk.pv = true) :
    (sem o a s).1.disk = {} ∨ (sem o a s).1.disk.pv = true := by
  rcases sem_cases o a s with heq | ⟨hready, heq⟩
  · rw [heq]; exact h
  · rw [heq]
    cases o with
    | vgremove vg =>
      simp only [Op.after]
      split
      · rcases h with h | h <;> simp [h]
      · exact h
    | _ => rcases h with h | h <;> simp_all [Op.ready, Op.after]

theorem boots_blank_or_pv (w : List Answers) {d : Disk} (h : d = {} ∨ d.pv = true) :
    boots d w = {} ∨ (boots d w).pv = true := by
  induction w generalizing d with
  | nil => exact h
  | cons b w ih =>
    exact ih (Prog.Only.exec (J := fun s : Host => s.disk = {} ∨ s.disk.pv = true)
      (Prog.only_true _) (fun o a _ _ h => blank_or_pv o a h) h b)

end FirstBoot

/-- After any boots of a blank partition, a boot in which nothing fails mounts it exactly if it is
still blank or was formatted: what was cut between `pvcreate` and `mkfs` is not taken up again. -/
theorem perm_mounts_iff (w : List Answers) {es : Nat → Op → Answer}
    (hes : ∀ n o, (es n o).fault = none) :
    (mountPerm.complete sem es ⟨boots {} w, false⟩).1.mounted = true ↔
      boots {} w = {} ∨ (boots {} w).Formatted := by
  rcases boots_blank_or_pv w (.inl rfl) with hd | hpv
  · rw [hd, mountPerm_initializes rfl hes]
    simp
  · generalize boots {} w = d at *
    constructor
    · intro h
      exact .inr (((mountPerm_keeps hpv (holds_off d)).complete_given fun n => hes n .pvs).2 h)
    · rintro (rfl | hd)
      · cases hpv
      · rw [mountPerm_mounts hpv hd hes]

/-- The first boot is cut behind `vgcreate`, and the next one has nothing to mount. -/
theorem perm_mounts_iff_cut :
    (mountPerm.complete sem (fun _ _ => {})
      ⟨boots {} [.replicate 6 fun _ => {}], false⟩).1.mounted ≠ true := by
  rw [Ne, perm_mounts_iff _ fun _ _ => rfl]
  rintro (hblank | hformatted)
  · exact absurd (congrArg Disk.vg hblank) (by decide)
  · exact absurd hformatted.2 (by decide)

theorem call_gives (o : Op) (s : Host) : (call o).Gives sem (fun _ s' => s' = o.after s) s := by
  refine .call ⟨trivial, fun a => .ret fun n hn => ?_⟩
  cases hf : (a o).fault with
  | some e => simp [sem, hf] at hn
  | none =>
    by_cases hready : o.ready s = true
    · simp [sem, hf, hready]
    · simp [sem, hf, hready] at hn

theorem initTargetLVM_gives (permDev : String) (s : Host) :
    (initTargetLVM permDev).Gives sem
      (fun _ s => s.disk = { pv := true, vg := true, metaLV := some (some []) }) s := by
  refine (Prog.gives_true _ s).mapErr.thenOk fun _ s _ => ?_
  refine .bind (Prog.safe_true _ s) fun _ s _ => .bind (Prog.safe_true _ s) fun _ s _ => ?_
  refine .bind (Prog.safe_true _ s) fun _ s _ => .bind (Prog.safe_true _ s) fun _ s _ => ?_
  refine .bind (Prog.safe_true _ s) fun _ s _ => ?_
  refine (Prog.gives_true _ s).mapErr.thenOk fun _ s _ => ?_
  refine (call_gives .pvcreate s).thenOk fun _ s₁ h₁ => ?_
  refine (call_gives .vgcreate s₁).thenOk fun _ s₂ h₂ => ?_
  refine (call_gives (.lvcreateMeta 1024) s₂).thenOk fun _ s₃ h₃ => ?_
  refine (Prog.Gives.mono (call_gives (.mkfs "/sbin/mkfs.ext4") s₃) fun _ s₄ h₄ => ?_).mapErr
  rw [h₄, h₃, h₂, h₁]; rfl

/-- An install that succeeds leaves a partition that can be mounted, and on which no boot ever makes
the thin pool that `createVolumeLV` takes its volumes from. -/
theorem installed_has_no_pool {permDev : String} {d : Disk} {b : Answers} {n : Nat}
    (hok : ((initTargetLVM permDev).exec sem b ⟨d, false⟩).val = some (.ok n))
    {w : List Answers} (hw : ∀ b ∈ w, Truthful b) :
    (boots ((initTargetLVM permDev).exec sem b ⟨d, false⟩).st.disk w).Formatted ∧
      (boots ((initTargetLVM permDev).exec sem b ⟨d, false⟩).st.disk w).pool = false := by
  rw [(initTargetLVM_gives permDev ⟨d, false⟩).exec_val hok n rfl, boots_kept rfl hw]
  exact ⟨⟨rfl, rfl⟩, rfl⟩

theorem installed_has_no_pool_fresh :
    (boots ((initTargetLVM "/dev/sda4").exec sem (.replicate 11 fun _ => {}) ⟨{}, false⟩).st.disk
      [.replicate 9 fun _ => {}]).pool = false :=
  (installed_has_no_pool (n := 0) rfl (by simp [Truthful])).2

end Capsule.Boot.Perm
