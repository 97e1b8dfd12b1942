import Capsule.Workloads.Containerd
import Capsule.Workloads.Firecracker

/-!
# Capsule.Volumes.Host

Both drivers on one host, and what each of them holds of a volume. A container has a volume through
a mount under `/run/capsule/mounts`, a VM through one of its drives: those of its mounts, and the
root drive when `rootfs_path` leads to the volume's device.

* `vmSem`: the VM driver's operations, with the drives that a started process gets.
* `Mentions`, `References`: what a row says of a volume. `usersFromWorkloads` looks at the mounts
  only.
* `mounted_of_step`, `attached_of_step`, `row_of_step`: where a mount, a drive or a row can come
  from in one operation.
-/

namespace Capsule.Volumes

open Atomic Keyed Workloads
open Containerd (VolumeMount)

structure Params where
  container : Containerd.Params
  vm : Firecracker.Params
  vmMounts : MicroVMSpec → List VolumeMount
  /-- The volume whose device a path on the host leads to. -/
  volumeAt : String → Option String

/-- The mounts of a workload's VM spec. -/
def Params.vmMountsOf (ps : Params) (w : Workload) : List VolumeMount :=
  (w.microVm.map ps.vmMounts).getD []

/-- The volume behind the root drive of a workload's VM: `rootfs_path` is attached read-write when
there is no image, and with one the shared rootfs is. -/
def Params.rootOf (ps : Params) (w : Workload) : Option String :=
  w.microVm.bind fun spec => if spec.image ≠ "" then none else ps.volumeAt spec.rootfsPath

/-- An operation of the VM driver, for a spec with these mounts and this volume as root drive. -/
structure VmOp where
  op : Firecracker.Op
  mounts : List VolumeMount
  root : Option String

structure Vm where
  host : Firecracker.Host
  /-- The volumes among a process's drives, by the name it was started for. -/
  drives : String → Nat → List String

/-- `prepareVolumeDrives`, the existence of the devices apart: the first mount that is not complete,
counted from `i`. -/
def prepareVolumeDrives (i : Nat) : List VolumeMount → Option String
  | [] => none
  | m :: ms =>
    if m.volumeName = "" ∨ m.mountPath = "" then
      some ("mount[" ++ toString i ++ "]: volume_name and mount_path are required")
    else prepareVolumeDrives (i + 1) ms

/-- What an operation of the VM driver fails with: what the environment says, or that the mounts are
refused. -/
def VmOp.fault (o : VmOp) (e : Containerd.Env) : Option String :=
  match e.fault, o.op with
  | some f, _ => some f.msg
  | none, .prepare _ .volumes => prepareVolumeDrives 0 o.mounts
  | none, _ => none

/-- The volumes among the drives: the root drive, then the mounts. -/
def VmOp.volumes (o : VmOp) : List String := o.root.toList ++ o.mounts.map VolumeMount.volumeName

def attach (drives : String → Nat → List String) (volumes : List String) :
    (o : Firecracker.Op) → Firecracker.Res o → String → Nat → List String
  | .start name, .ok pid =>
    Function.update drives name (Function.update (drives name) pid volumes)
  | _, _ => drives

def vmSem : Sem VmOp (fun o => Firecracker.Res o.op) Vm Containerd.Env := fun o e s =>
  let out := Firecracker.sem o.op (o.fault e) s.host
  (⟨out.1, attach s.drives o.volumes o.op out.2⟩, out.2)

/-- The code of a call for a spec with these mounts and this root drive. -/
def forDrives {α : Type} (mounts : List VolumeMount) (root : Option String)
    (p : Firecracker.Code α) : Prog VmOp (fun o => Firecracker.Res o.op) α :=
  p.lift (fun o => ⟨o, mounts, root⟩) fun _ r => r

def vmDriver (ps : Params) : Driver VmOp (fun o => Firecracker.Res o.op) where
  ensureRunning w :=
    forDrives (ps.vmMountsOf w) (ps.rootOf w) (Firecracker.ensureRunning ps.vm w)
  remove name := forDrives [] none (Firecracker.remove name)
  status name := forDrives [] none (Firecracker.status name)

@[reducible] def D : Side → Type
  | .container => Containerd.Op
  | .vm => VmOp

@[reducible] def DRes : (s : Side) → D s → Type
  | .container, o => Containerd.Res o
  | .vm, o => Firecracker.Res o.op

@[reducible] def Dev : Side → Type
  | .container => Containerd.Host
  | .vm => Vm

def dsem : (s : Side) → Sem (D s) (DRes s) (Dev s) Containerd.Env
  | .container => Containerd.sem
  | .vm => vmSem

def service (ps : Params) : Service DRes
  | .container => some (Containerd.driver ps.container)
  | .vm => some (vmDriver ps)

abbrev HostState := State Dev

abbrev HostEnv := Workloads.Env Containerd.Env

/-- The volume mounts `usersFromWorkloads` looks through. -/
def Params.mountsOf (ps : Params) (w : Workload) : List VolumeMount :=
  ps.container.mountsOf w ++ ps.vmMountsOf w

/-- The workload's specs have the volume among their mounts. -/
def Mentions (ps : Params) (v : String) (w : Workload) : Prop :=
  v ∈ (ps.mountsOf w).map VolumeMount.volumeName

instance (ps : Params) (v : String) (w : Workload) : Decidable (Mentions ps v w) :=
  inferInstanceAs (Decidable (_ ∈ _))

/-- The same, or as the root drive of a VM. -/
def References (ps : Params) (v : String) (w : Workload) : Prop :=
  Mentions ps v w ∨ ps.rootOf w = some v

instance (ps : Params) (v : String) (w : Workload) : Decidable (References ps v w) :=
  inferInstanceAs (Decidable (_ ∨ _))

/-- The volume is mounted for the containers of a name. -/
def Mounted (s : HostState) (v n : String) : Prop := v ∈ (s.dev .container).mounted n

/-- A running process of the name has the volume among its drives. -/
def Attached (s : HostState) (v n : String) : Prop :=
  ∃ pid ∈ (s.dev .vm).host.live n, v ∈ (s.dev .vm).drives n pid

instance (s : HostState) (v n : String) : Decidable (Mounted s v n) :=
  inferInstanceAs (Decidable (_ ∈ _))

instance (s : HostState) (v n : String) : Decidable (Attached s v n) :=
  inferInstanceAs (Decidable (∃ _ ∈ _, _))

/-- A host on which nothing was ever applied or started. -/
def fresh : HostState where
  rows := Table.empty
  dev
    | .container => ⟨fun _ => none, fun _ => [], fun _ => []⟩
    | .vm => ⟨⟨fun _ => none, fun _ => [], fun _ => none, 0⟩, fun _ _ => []⟩

/-- Specs that mount the volume `data`, unless they are empty otherwise. -/
def dataMounts (rest : Bytes) : List VolumeMount :=
  if rest = [] then [] else [⟨"data", "/data", false⟩]

def dataParams : Params where
  container := ⟨fun _ => .ok "1", fun spec => dataMounts spec.rest, fun _ => .host, fun _ => [], id⟩
  vm := ⟨fun _ => .ok "1", fun _ => "tap0"⟩
  vmMounts spec := dataMounts spec.rest
  volumeAt path := if path = "/dev/capsule/vol-data" then some "data" else none

theorem live_of_sem {o : Firecracker.Op} {f : Option String} {h : Firecracker.Host} {n : String}
    {pid : Nat} (hp : pid ∈ (Firecracker.sem o f h).1.live n) : pid ∈ h.live n ∨ o = .start n := by
  cases o with
  | start name =>
    cases f with
    | some m => exact .inl hp
    | none =>
      by_cases hn : n = name
      · exact .inr (hn ▸ rfl)
      · simp only [Firecracker.sem, Function.update_of_ne hn] at hp; exact .inl hp
  | stopMachine name p =>
    refine .inl ?_
    simp only [Firecracker.sem] at hp
    by_cases hn : n = name
    · subst hn; rw [Function.update_self] at hp; exact List.mem_of_mem_filter hp
    · rwa [Function.update_of_ne hn] at hp
  | readSpecHash name =>
    refine .inl ?_
    simp only [Firecracker.sem] at hp
    split at hp <;> exact hp
  | writeSpecHash name hash | removeStateDir name => cases f <;> exact .inl hp
  | _ => exact .inl hp

theorem attach_of_ne {drives : String → Nat → List String} {volumes : List String}
    {o : Firecracker.Op} {n : String} (h : o ≠ .start n) (r : Firecracker.Res o) :
    attach drives volumes o r n = drives n := by
  cases o with
  | start name =>
    have hn : n ≠ name := fun he => h (he ▸ rfl)
    cases r with
    | error e => rfl
    | ok pid => exact Function.update_of_ne hn _ _
  | _ => rfl

theorem attached_of_vmSem {o : VmOp} {e : Containerd.Env} {s : Vm} {n v : String} {pid : Nat}
    (hp : pid ∈ (vmSem o e s).1.host.live n) (hv : v ∈ (vmSem o e s).1.drives n pid) :
    (pid ∈ s.host.live n ∧ v ∈ s.drives n pid) ∨
      (o.op = .start n ∧ v ∈ o.volumes) := by
  obtain ⟨op, mounts, root⟩ := o
  by_cases hop : op = .start n
  · subst hop
    simp only [vmSem] at hp hv
    cases hf : VmOp.fault ⟨.start n, mounts, root⟩ e with
    | some m => rw [hf] at hp hv; exact .inl ⟨hp, hv⟩
    | none =>
      rw [hf] at hp hv
      simp only [Firecracker.sem, attach, Function.update_self] at hp hv
      by_cases hpid : pid = s.host.nextPid
      · subst hpid; rw [Function.update_self] at hv; exact .inr ⟨rfl, hv⟩
      · rw [Function.update_of_ne hpid] at hv
        exact .inl ⟨(List.mem_cons.mp hp).resolve_left hpid, hv⟩
  · refine .inl ⟨(live_of_sem hp).resolve_right hop, ?_⟩
    simp only [vmSem, attach_of_ne hop] at hv
    exact hv

theorem mounted_of_step {o : Workloads.Op D} {e : HostEnv} {s : HostState} {v n : String}
    (h : Mounted (sem dsem o e s).1 v n) :
    Mounted s v n ∨ ∃ readOnly, o = .drv .container (.mount n v readOnly) := by
  cases o with
  | get name | put w | delete name =>
    simp only [sem] at h
    split at h <;> exact .inl h
  | list => exact .inl h
  | drv side d =>
    cases side with
    | vm =>
      rw [Mounted, sem_drv_ne (by decide)] at h
      exact .inl h
    | container =>
      rw [Mounted, sem_drv_self] at h
      rcases Containerd.mounted_of_sem h with h | ⟨readOnly, rfl⟩
      · exact .inl h
      · exact .inr ⟨readOnly, rfl⟩

theorem attached_of_step {o : Workloads.Op D} {e : HostEnv} {s : HostState} {v n : String}
    (h : Attached (sem dsem o e s).1 v n) :
    Attached s v n ∨
      ∃ d : VmOp, o = .drv .vm d ∧ d.op = .start n ∧ v ∈ d.volumes := by
  cases o with
  | get name | put w | delete name =>
    simp only [sem] at h
    split at h <;> exact .inl h
  | list => exact .inl h
  | drv side d =>
    obtain ⟨pid, hp, hv⟩ := h
    cases side with
    | container =>
      rw [sem_drv_ne (by decide)] at hp hv
      exact .inl ⟨pid, hp, hv⟩
    | vm =>
      rw [sem_drv_self] at hp hv
      rcases attached_of_vmSem hp hv with ⟨hp, hv⟩ | hstart
      · exact .inl ⟨pid, hp, hv⟩
      · exact .inr ⟨d, rfl, hstart⟩

theorem row_of_step {o : Workloads.Op D} {e : HostEnv} {s : HostState} {w : Workload}
    (h : w ∈ (sem dsem o e s).1.rows.rows) : w ∈ s.rows.rows ∨ o = .put w := by
  cases o with
  | get name =>
    simp only [sem] at h
    split at h <;> exact .inl h
  | put w' =>
    simp only [sem] at h
    split at h
    · exact .inl h
    · rcases List.mem_cons.mp h with rfl | h
      · exact .inr rfl
      · exact .inl (Table.mem_del.mp h).1
  | list | drv side d => exact .inl h
  | delete name =>
    simp only [sem] at h
    split at h
    · exact .inl h
    · exact .inl (Table.mem_del.mp h).1

end Capsule.Volumes
