import Capsule.Workloads.Contract
import Capsule.Workloads.PortMap

/-!
# Capsule.Workloads.Containerd

The container driver, `runtime/container.Driver`: `EnsureRunning`, `Remove` and `Status`, with the
mounts under `/run/capsule/mounts`. Operations of containerd, CNI and the host may fail, and a task
may have exited whenever the driver looks.

`ensureRunning` is in the parts of the source: `settle` (is there a container that runs on this
spec?), `pullImage`, the mounts (`mountContainerVolumes`), and `createContainer` with its task and
its network.

* `Op.still`, `Op.creates`, `Op.aside`, `Op.tasks`: kinds of operations, by what they leave alone.
* `remove_only`, `settle_only`, ..: which of them a piece of code issues.
-/

namespace Capsule.Workloads.Containerd

open Atomic

structure VolumeMount where
  volumeName : String
  mountPath : String
  readOnly : Bool
  deriving DecidableEq

inductive NetworkMode where
  | unspecified
  | host
  | bridge
  deriving DecidableEq, Repr

def networkModeLabel : NetworkMode → String
  | .host => "host"
  | .bridge => "bridge"
  | .unspecified => "none"

/-- The labels the driver reads back: `SpecHashLabel`, `BridgeLabel` and `PortMapLabel`. -/
structure Labels where
  hash : String
  mode : String
  portmap : List UInt8
  deriving DecidableEq

inductive TaskState where
  | created
  | running
  | pausing
  | paused
  | stopped (exitStatus : Nat)
  | unknown
  deriving DecidableEq, Repr

structure Container where
  labels : Labels
  task : Option TaskState
  deriving DecidableEq

/-- An error of containerd or of the host; `notFound` is `errdefs.IsNotFound`. -/
structure Fault where
  notFound : Bool
  msg : String
  deriving DecidableEq

def Fault.err (f : Fault) : Err := .text f.msg

inductive Op where
  | loadContainer (name : String)
  | info (name : String)
  | task (name : String)
  | taskStatus (name : String)
  /-- `Kill` with `WithKillAll`, and the wait for the exit. -/
  | taskKill (name : String)
  | taskDelete (name : String)
  | deleteContainer (name : String)
  | getImage (name : String)
  | pull (name : String)
  | statDevice (name vol : String)
  | mkdirMount (name vol : String)
  | mount (name vol : String) (readOnly : Bool)
  | umount (name vol : String)
  /-- `os.Remove` of a mount point. -/
  | rmdir (name vol : String)
  /-- `os.Remove` of the workload's mount directory. -/
  | rmdirRoot (name : String)
  | readDir (name : String)
  | newContainer (name : String) (l : Labels)
  | mkdirLogs (name : String)
  | newTask (name : String)
  | cniTeardown (name : String) (pm : List CNIMapping)
  | cniSetup (name : String) (pm : List CNIMapping)
  | taskStart (name : String)

@[reducible] def Res : Op → Type
  | .info _ => Option Labels
  | .taskStatus _ => Except Fault TaskState
  | .readDir _ => Except Fault (List String)
  | _ => Except Fault Unit

structure Host where
  containers : String → Option Container
  /-- The entries of `/run/capsule/mounts/<workload>`. -/
  dirs : String → List String
  /-- The volumes mounted there. -/
  mounted : String → List String

structure Env where
  fault : Option Fault := none
  /-- The process has exited, with this status. -/
  exited : Option Nat := none

def Env.answer {α : Type} (e : Env) (a : α) : Except Fault α :=
  match e.fault with
  | none => .ok a
  | some f => .error f

def missing (what : String) : Fault := ⟨true, what ++ ": not found"⟩

/-- Change the container of a name, if there is one. -/
def Host.onContainer (h : Host) (name : String)
    (f : Container → Option Container × Except Fault Unit) : Host × Except Fault Unit :=
  match h.containers name with
  | none => (h, .error (missing name))
  | some c => ({ h with containers := Function.update h.containers name (f c).1 }, (f c).2)

def deleteTask (c : Container) : Option Container × Except Fault Unit :=
  match c.task with
  | none => (some c, .error (missing "task"))
  | some _ => (some { c with task := none }, .ok ())

/-- A container that has a task is not deleted. -/
def deleteTaskless (c : Container) : Option Container × Except Fault Unit :=
  match c.task with
  | none => (none, .ok ())
  | some _ => (some c, .error ⟨false, "cannot delete running task: failed precondition"⟩)

def addTask (c : Container) : Option Container × Except Fault Unit :=
  match c.task with
  | none => (some { c with task := some .created }, .ok ())
  | some _ => (some c, .error ⟨false, "task: already exists"⟩)

def runTask (c : Container) : Option Container × Except Fault Unit :=
  match c.task with
  | some .created => (some { c with task := some .running }, .ok ())
  | _ => (some c, .error ⟨false, "task: failed precondition"⟩)

def stopTask (exitStatus : Nat) (c : Container) : Option Container × Except Fault Unit :=
  (some { c with task := c.task.map fun _ => .stopped exitStatus }, .ok ())

/-- The host once the process of a name has exited, if the environment says so. -/
def Host.afterExit (h : Host) (name : String) : Option Nat → Host
  | none => h
  | some status => (h.onContainer name (stopTask status)).1

/-- The state of a name's task. -/
def Host.taskOf (h : Host) (name : String) : Except Fault TaskState :=
  match (h.containers name).bind Container.task with
  | none => .error (missing "task")
  | some st => .ok st

/-- Fail as the environment says, and otherwise do `act`. -/
def Env.guard {α : Type} (e : Env) (h : Host) (act : Host × Except Fault α) :
    Host × Except Fault α :=
  match e.fault with
  | some f => (h, .error f)
  | none => act

def sem : Sem Op Res Host Env
  | .loadContainer name, e, h =>
    e.guard h (h, if (h.containers name).isSome then .ok () else .error (missing name))
  | .info name, e, h =>
    match e.fault with
    | some _ => (h, none)
    | none => (h, (h.containers name).map Container.labels)
  | .task name, e, h => e.guard h (h, (h.taskOf name).map fun _ => ())
  | .taskStatus name, e, h =>
    let h := h.afterExit name e.exited
    e.guard h (h, h.taskOf name)
  | .taskKill name, e, h => e.guard h (h.onContainer name (stopTask 137))
  | .taskDelete name, e, h => e.guard h (h.onContainer name deleteTask)
  | .deleteContainer name, e, h => e.guard h (h.onContainer name deleteTaskless)
  | .mkdirMount name vol, e, h =>
    e.guard h ({ h with dirs := Function.update h.dirs name ((h.dirs name).insert vol) }, .ok ())
  | .mount name vol _, e, h =>
    e.guard h <|
      if vol ∈ h.mounted name then (h, .error ⟨false, "already mounted or mount point busy"⟩)
      else ({ h with mounted := Function.update h.mounted name (vol :: h.mounted name) }, .ok ())
  | .umount name vol, e, h =>
    e.guard h <|
      if vol ∈ h.mounted name then
        ({ h with mounted := Function.update h.mounted name ((h.mounted name).erase vol) }, .ok ())
      else (h, .error ⟨false, "not mounted"⟩)
  | .rmdir name vol, e, h =>
    e.guard h <|
      if vol ∈ h.mounted name then (h, .error ⟨false, "device or resource busy"⟩)
      else ({ h with dirs := Function.update h.dirs name ((h.dirs name).erase vol) }, .ok ())
  | .readDir name, e, h => (h, e.answer (h.dirs name))
  | .newContainer name l, e, h =>
    e.guard h <|
      if (h.containers name).isSome then (h, .error ⟨false, name ++ ": already exists"⟩)
      else ({ h with containers := Function.update h.containers name (some ⟨l, none⟩) }, .ok ())
  | .newTask name, e, h => e.guard h (h.onContainer name addTask)
  | .taskStart name, e, h => e.guard h (h.onContainer name runTask)
  | .getImage _, e, h | .pull _, e, h | .statDevice _ _, e, h | .rmdirRoot _, e, h
  | .mkdirLogs _, e, h | .cniTeardown _ _, e, h | .cniSetup _ _, e, h => (h, e.answer ())

abbrev Code := Prog Op Res

@[simp] def call (o : Op) : Code (Res o) := .call o .ret

/-- Unmount these volumes; every error is dropped. The source goes through a map, in any order. -/
def unmountEach (name : String) : List String → Code Unit
  | [] => return ()
  | v :: vs => do
    let _ ← call (.umount name v)
    let _ ← call (.rmdir name v)
    unmountEach name vs

/-- `unmountContainerVolumes`; without the mounts in hand, whatever the directory shows. -/
def unmountContainerVolumes (name : String) (mounted : List String) : Code Unit :=
  if mounted = [] then do
    match ← call (.readDir name) with
    | .error _ => return ()
    | .ok entries =>
      unmountEach name entries
      let _ ← call (.rmdirRoot name)
      return ()
  else do
    unmountEach name mounted
    let _ ← call (.rmdirRoot name)
    return ()

def deviceErr (vol : String) (e : Err) : Err :=
  .wrap ("volume " ++ GoString.quote vol ++ ": ") e
    (" (run `capsulectl volume create " ++ vol ++ "`)")

def volumeBlockDevice (vol : String) : String := "/dev/capsule/vol-" ++ vol

def mountPoint (name vol : String) : String := "/run/capsule/mounts/" ++ name ++ "/" ++ vol

/-- `mountContainerVolumes` from the volumes mounted so far: those mounted in the end, and the
error. -/
def mountContainerVolumes (name : String) :
    List VolumeMount → List String → Code (List String × Option Err)
  | [], mounted => return (mounted, none)
  | m :: ms, mounted =>
    if m.volumeName = "" then mountContainerVolumes name ms mounted
    else do
      match ← call (.statDevice name m.volumeName) with
      | .error e => return (mounted, some (deviceErr m.volumeName e.err))
      | .ok () =>
        match ← call (.mkdirMount name m.volumeName) with
        | .error e => return (mounted, some (e.err.ctx ("mkdir " ++ mountPoint name m.volumeName)))
        | .ok () =>
          match ← call (.mount name m.volumeName m.readOnly) with
          | .error e =>
            return (mounted, some (e.err.ctx ("mount " ++ volumeBlockDevice m.volumeName ++
              " at " ++ mountPoint name m.volumeName)))
          | .ok () => mountContainerVolumes name ms (mounted.insert m.volumeName)

/-! ## The driver -/

structure Params where
  specHash : Workload → Except Err String
  mounts : ContainerSpec → List VolumeMount
  networkMode : ContainerSpec → NetworkMode
  ports : ContainerSpec → List PortMapping
  toLower : List UInt8 → List UInt8

/-- `Remove` up to the container itself. -/
def removeTask (name : String) (needsCNI : Bool) (teardownPM : List CNIMapping) : Code Unit := do
  match ← call (.task name) with
  | .error _ => return ()
  | .ok () =>
    if needsCNI then
      let _ ← call (.cniTeardown name teardownPM)
    let _ ← call (.taskKill name)
    let _ ← call (.taskDelete name)
    return ()

/-- The end of `Remove`. -/
def removeContainer (name : String) : Code (Except Err Unit) := do
  match ← call (.deleteContainer name) with
  | .ok () =>
    unmountContainerVolumes name []
    return .ok ()
  | .error e =>
    if e.notFound then
      unmountContainerVolumes name []
      return .ok ()
    else return .error (e.err.ctx ("delete container " ++ GoString.quote name))

def remove (name : String) : Code (Except Err Unit) := do
  match ← call (.loadContainer name) with
  | .error e =>
    if e.notFound then return .ok ()
    else return .error (e.err.ctx ("load container " ++ GoString.quote name))
  | .ok () =>
    let info ← call (.info name)
    removeTask name (info.map Labels.mode = some "bridge")
      ((info.map fun l => decodePortMappings l.portmap).getD [])
    removeContainer name

def deleteStale (name : String) : Code (Except Err Bool) :=
  ((call (.deleteContainer name)).mapErr
    fun f => f.err.ctx ("delete stale container " ++ GoString.quote name)).thenOk
      fun _ => .ret (.ok false)

/-- The first part of `EnsureRunning`: whether the container runs on the desired spec. One that is
not running is deleted here without its volumes being unmounted. -/
def settle (name desiredHash : String) : Code (Except Err Bool) := do
  match ← call (.loadContainer name) with
  | .error e =>
    if e.notFound then return .ok false
    else return .error (e.err.ctx ("load container " ++ GoString.quote name))
  | .ok () =>
    let info ← call (.info name)
    let runningHash := (info.map Labels.hash).getD ""
    match ← call (.task name) with
    | .error _ => deleteStale name
    | .ok () =>
      match ← call (.taskStatus name) with
      | .ok .running =>
        if runningHash ≠ "" ∧ runningHash ≠ desiredHash then
          ((remove name).mapErr
            (Err.ctx ("remove stale container " ++ GoString.quote name))).thenOk
              fun _ => .ret (.ok false)
        else return .ok true
      | _ =>
        let _ ← call (.taskDelete name)
        deleteStale name

def pullImage (name image : String) : Code (Except Err Unit) := do
  match ← call (.getImage name) with
  | .ok () => return .ok ()
  | .error e =>
    if e.notFound then
      (call (.pull name)).mapErr fun f => f.err.ctx ("pull image " ++ GoString.quote image)
    else return .error (e.err.ctx ("get image " ++ GoString.quote image))

/-- Give the container up: what was created is deleted, the mounts are not. -/
def giveUp (name : String) (e : Err) : Code (Except Err Unit) := do
  let _ ← call (.deleteContainer name)
  return .error e

def giveUpTask (name : String) (e : Err) : Code (Except Err Unit) := do
  let _ ← call (.taskDelete name)
  giveUp name e

/-- `EnsureRunning` once the task is there. -/
def startTask (name : String) (mode : NetworkMode) (pm : List CNIMapping) :
    Code (Except Err Unit) := do
  match ← call (.taskStart name) with
  | .ok () => return .ok ()
  | .error e =>
    if mode = .bridge then
      let _ ← call (.cniTeardown name pm)
    giveUpTask name (e.err.ctx ("start task " ++ GoString.quote name))

def connectTask (name : String) (mode : NetworkMode) (pm : List CNIMapping) :
    Code (Except Err Unit) :=
  if mode = .bridge then do
    let _ ← call (.cniTeardown name pm)
    match ← call (.cniSetup name pm) with
    | .error e => giveUpTask name (e.err.ctx ("cni setup " ++ GoString.quote name))
    | .ok () => startTask name mode pm
  else startTask name mode pm

/-- The labels a container of the spec is created with. -/
def Params.labels (ps : Params) (desiredHash : String) (spec : ContainerSpec) : Labels where
  hash := desiredHash
  mode := networkModeLabel (ps.networkMode spec)
  portmap := encodePortMappings ps.toLower (ps.ports spec)

/-- `EnsureRunning` once the volumes are mounted. -/
def createContainer (ps : Params) (name : String) (spec : ContainerSpec) (desiredHash : String) :
    Code (Except Err Unit) :=
  ((call (.newContainer name (ps.labels desiredHash spec))).mapErr
    fun f => f.err.ctx ("create container " ++ GoString.quote name)).thenOk fun _ => do
    match ← call (.mkdirLogs name) with
    | .error e => giveUp name (e.err.ctx ("mkdir logs " ++ GoString.quote
        ("/run/capsule/workloads/" ++ name)))
    | .ok () =>
      match ← call (.newTask name) with
      | .error e => giveUp name (e.err.ctx ("new task " ++ GoString.quote name))
      | .ok () =>
        connectTask name (ps.networkMode spec) (gocniPortMappings ps.toLower (ps.ports spec))

def mountAndCreate (ps : Params) (name : String) (spec : ContainerSpec) (desiredHash : String) :
    Code (Except Err Unit) := do
  match ← mountContainerVolumes name (ps.mounts spec) [] with
  | (mounted, some e) =>
    unmountContainerVolumes name mounted
    return .error (e.ctx "mount volumes")
  | (_, none) => createContainer ps name spec desiredHash

def ensureRunning (ps : Params) (w : Workload) : Code (Except Err Unit) :=
  match w.container with
  | none =>
    .ret (.error (.text ("workload " ++ GoString.quote w.name ++ " has no container spec")))
  | some spec =>
    (Prog.ret (ps.specHash w) : Code _).thenOk fun desiredHash =>
    (settle w.name desiredHash).thenOk fun running =>
    if running then .ret (.ok ())
    else (pullImage w.name spec.image).thenOk fun _ => mountAndCreate ps w.name spec desiredHash

def taskPhase : TaskState → RuntimeStatus
  | .running => ⟨.running, ""⟩
  | .created => ⟨.pending, "created"⟩
  | .pausing => ⟨.pending, "pausing"⟩
  | .paused => ⟨.pending, "paused"⟩
  | .stopped exitStatus =>
    ⟨if exitStatus ≠ 0 then .failed else .stopped, "exited " ++ toString exitStatus⟩
  | .unknown => ⟨.unknown, "unknown"⟩

def status (name : String) : Code (Except Err RuntimeStatus) := do
  match ← call (.loadContainer name) with
  | .error e => if e.notFound then return .ok ⟨.unknown, ""⟩ else return .error e.err
  | .ok () =>
    match ← call (.task name) with
    | .error e => if e.notFound then return .ok ⟨.stopped, "no task"⟩ else return .error e.err
    | .ok () =>
      match ← call (.taskStatus name) with
      | .error e => return .error e.err
      | .ok st => return .ok (taskPhase st)

def driver (ps : Params) : Driver Op Res where
  ensureRunning := ensureRunning ps
  remove := remove
  status := status

/-! ## Mounts -/

theorem onContainer_mounted (h : Host) (name : String)
    (f : Container → Option Container × Except Fault Unit) :
    (h.onContainer name f).1.mounted = h.mounted := by
  unfold Host.onContainer
  split <;> rfl

theorem afterExit_mounted (h : Host) (name : String) (exited : Option Nat) :
    (h.afterExit name exited).mounted = h.mounted := by
  cases exited with
  | none => rfl
  | some status => exact onContainer_mounted _ _ _

/-- The operation mounts and unmounts nothing. -/
def Op.still : Op → Bool
  | .mount _ _ _ | .umount _ _ => false
  | _ => true

theorem guard_mounted {α : Type} {e : Env} {h : Host} {act : Host × Except Fault α}
    (hact : act.1.mounted = h.mounted) : (e.guard h act).1.mounted = h.mounted := by
  unfold Env.guard
  split
  · rfl
  · exact hact

theorem mounted_of_still {o : Op} (ho : o.still = true) (e : Env) (h : Host) :
    (sem o e h).1.mounted = h.mounted := by
  cases o with
  | mount name vol readOnly | umount name vol => cases ho
  | info name =>
    simp only [sem]
    split <;> rfl
  | taskStatus name =>
    refine Eq.trans ?_ (afterExit_mounted h name e.exited)
    exact guard_mounted rfl
  | taskKill name | taskDelete name | deleteContainer name | newTask name | taskStart name =>
    exact guard_mounted (onContainer_mounted _ _ _)
  | rmdir name vol | newContainer name l =>
    refine guard_mounted ?_
    split <;> rfl
  | loadContainer name | task name | mkdirMount name vol => exact guard_mounted rfl
  | getImage name | pull name | statDevice name vol | rmdirRoot name | readDir name
  | mkdirLogs name | cniTeardown name pm | cniSetup name pm => rfl

/-- A mount takes place, or fails and changes nothing. -/
theorem sem_mount (name v : String) (readOnly : Bool) (e : Env) (h : Host) :
    (∃ f, (sem (.mount name v readOnly) e h).2 = .error f ∧
      (sem (.mount name v readOnly) e h).1 = h) ∨
    ((sem (.mount name v readOnly) e h).2 = .ok () ∧ v ∉ h.mounted name ∧
      (sem (.mount name v readOnly) e h).1.mounted =
        Function.update h.mounted name (v :: h.mounted name)) := by
  simp only [sem, Env.guard]
  cases e.fault with
  | some f => exact .inl ⟨f, rfl, rfl⟩
  | none =>
    dsimp only
    by_cases hv : v ∈ h.mounted name
    · rw [if_pos hv]; exact .inl ⟨_, rfl, rfl⟩
    · rw [if_neg hv]; exact .inr ⟨rfl, hv, rfl⟩

/-- And so does an unmount. -/
theorem sem_umount (name v : String) (e : Env) (h : Host) :
    (∃ f, (sem (.umount name v) e h).2 = .error f ∧ (sem (.umount name v) e h).1 = h) ∨
    ((sem (.umount name v) e h).2 = .ok () ∧ (sem (.umount name v) e h).1.mounted =
      Function.update h.mounted name ((h.mounted name).erase v)) := by
  simp only [sem, Env.guard]
  cases e.fault with
  | some f => exact .inl ⟨f, rfl, rfl⟩
  | none =>
    dsimp only
    by_cases hv : v ∈ h.mounted name
    · rw [if_pos hv]; exact .inr ⟨rfl, rfl⟩
    · rw [if_neg hv]; exact .inl ⟨_, rfl, rfl⟩

theorem mounted_of_sem {o : Op} {e : Env} {h : Host} {n v : String}
    (hv : v ∈ (sem o e h).1.mounted n) :
    v ∈ h.mounted n ∨ ∃ readOnly, o = .mount n v readOnly := by
  cases o with
  | mount name vol readOnly =>
    rcases sem_mount name vol readOnly e h with ⟨-, -, hhost⟩ | ⟨-, -, hhost⟩
    · rw [hhost] at hv; exact .inl hv
    · rw [hhost] at hv
      by_cases hn : n = name
      · subst hn
        rw [Function.update_self] at hv
        rcases List.mem_cons.mp hv with rfl | hv
        · exact .inr ⟨readOnly, rfl⟩
        · exact .inl hv
      · rw [Function.update_of_ne hn] at hv; exact .inl hv
  | umount name vol =>
    rcases sem_umount name vol e h with ⟨-, -, hhost⟩ | ⟨-, hhost⟩
    · rw [hhost] at hv; exact .inl hv
    · rw [hhost] at hv
      by_cases hn : n = name
      · subst hn; rw [Function.update_self] at hv; exact .inl (List.mem_of_mem_erase hv)
      · rw [Function.update_of_ne hn] at hv; exact .inl hv
  | _ => rw [mounted_of_still rfl] at hv; exact .inl hv

/-! ## Operations

Which operations the driver's code issues: beside those that create nothing, the mounts of the spec,
a container and its network. -/

/-- The operation mounts a volume, or makes a container or its network. -/
def Op.creates : Op → Bool
  | .mount _ _ _ | .newContainer _ _ | .cniSetup _ _ => true
  | _ => false

/-- The operation is about images, devices and mount points, and mounts nothing. -/
def Op.aside : Op → Bool
  | .getImage _ | .pull _ | .statDevice _ _ | .mkdirMount _ _ | .umount _ _ | .rmdir _ _
  | .rmdirRoot _ | .readDir _ => true
  | _ => false

theorem Op.creates_of_aside {o : Op} (h : o.aside = true) : o.creates = false := by
  cases o with
  | mount m vol readOnly | newContainer m l | cniSetup m pm => cases h
  | _ => rfl

section Aside

variable {P : Op → Prop} (hP : ∀ o, o.aside = true → P o) (name : String)

include hP

theorem unmountEach_only (vs : List String) : (unmountEach name vs).Only P := by
  induction vs with
  | nil => trivial
  | cons v vs ih => exact ⟨hP _ rfl, fun _ => ⟨hP _ rfl, fun _ => ih⟩⟩

theorem unmountContainerVolumes_only (mounted : List String) :
    (unmountContainerVolumes name mounted).Only P := by
  have hroot : ∀ vs, (do
      unmountEach name vs
      let _ ← call (.rmdirRoot name)
      return () : Code Unit).Only P :=
    fun vs => (unmountEach_only hP name vs).bind fun _ => ⟨hP _ rfl, fun _ => trivial⟩
  refine .ite ⟨hP _ rfl, ?_⟩ (hroot mounted)
  intro r
  cases r with
  | error e => trivial
  | ok entries => exact hroot entries

theorem pullImage_only (image : String) : (pullImage name image).Only P := by
  refine ⟨hP _ rfl, ?_⟩
  intro r
  cases r with
  | ok _ => trivial
  | error e => exact .ite (.mapErr ⟨hP _ rfl, fun _ => trivial⟩) trivial

theorem mountContainerVolumes_only {ms : List VolumeMount}
    (h : ∀ m ∈ ms, P (.mount name m.volumeName m.readOnly)) (mounted : List String) :
    (mountContainerVolumes name ms mounted).Only P := by
  induction ms generalizing mounted with
  | nil => trivial
  | cons m ms ih =>
    have hrest := ih fun m' hm => h m' (List.mem_cons_of_mem m hm)
    refine .ite (hrest mounted) ⟨hP _ rfl, ?_⟩
    intro r
    cases r with
    | error e => trivial
    | ok _ =>
      refine ⟨hP _ rfl, ?_⟩
      intro r
      cases r with
      | error e => trivial
      | ok _ =>
        refine ⟨h m List.mem_cons_self, ?_⟩
        intro r
        cases r with
        | error e => trivial
        | ok _ => exact hrest _

end Aside

/-- The operation is about the container and its task. -/
def Op.tasks : Op → Bool
  | .info _ | .task _ | .taskKill _ | .taskDelete _ | .deleteContainer _ | .cniTeardown _ _
  | .mkdirLogs _ | .newTask _ | .taskStart _ => true
  | _ => false

theorem Op.of_tasks {o : Op} (h : o.tasks = true) : o.creates = false ∧ o.still = true := by
  cases o <;> first | exact ⟨rfl, rfl⟩ | cases h

section Tasks

variable {P : Op → Prop} (hP : ∀ o, o.tasks = true → P o) (name : String)

include hP

theorem removeTask_only (needsCNI : Bool) (pm : List CNIMapping) :
    (removeTask name needsCNI pm).Only P := by
  have hkill : (do
      let _ ← call (.taskKill name)
      let _ ← call (.taskDelete name)
      return () : Code Unit).Only P :=
    ⟨hP _ rfl, fun _ => ⟨hP _ rfl, fun _ => trivial⟩⟩
  refine ⟨hP _ rfl, ?_⟩
  intro r
  cases r with
  | error e => trivial
  | ok _ =>
    cases needsCNI with
    | false => exact hkill
    | true => exact ⟨hP _ rfl, fun _ => hkill⟩

theorem deleteStale_only : (deleteStale name).Only P :=
  Prog.Only.thenOk (.mapErr ⟨hP _ rfl, fun _ => trivial⟩) fun _ => trivial

theorem giveUp_only (e : Err) : (giveUp name e).Only P := ⟨hP _ rfl, fun _ => trivial⟩

theorem giveUpTask_only (e : Err) : (giveUpTask name e).Only P :=
  ⟨hP _ rfl, fun _ => giveUp_only hP name e⟩

theorem startTask_only (mode : NetworkMode) (pm : List CNIMapping) :
    (startTask name mode pm).Only P := by
  refine ⟨hP _ rfl, ?_⟩
  intro r
  cases r with
  | ok _ => trivial
  | error e =>
    cases mode with
    | bridge => exact ⟨hP _ rfl, fun _ => giveUpTask_only hP name _⟩
    | unspecified | host => exact giveUpTask_only hP name _

end Tasks

section Only

variable {P : Op → Prop} (hP : ∀ o, o.creates = false → P o) (name : String)

include hP

theorem removeContainer_only : (removeContainer name).Only P := by
  have hunmount : (do
      unmountContainerVolumes name []
      return .ok () : Code (Except Err Unit)).Only P := by
    have hall := unmountContainerVolumes_only (fun _ h => hP _ (Op.creates_of_aside h)) name []
    exact hall.bind fun _ => trivial
  refine ⟨hP _ rfl, ?_⟩
  intro r
  cases r with
  | ok _ => exact hunmount
  | error e => exact .ite hunmount trivial

theorem remove_only : (remove name).Only P := by
  refine ⟨hP _ rfl, ?_⟩
  intro r
  cases r with
  | error e => exact .ite trivial trivial
  | ok _ =>
    exact ⟨hP _ rfl, fun info =>
      (removeTask_only (fun _ h => hP _ (Op.of_tasks h).1) name _ _).bind fun _ =>
      removeContainer_only hP name⟩

theorem settle_only (desiredHash : String) : (settle name desiredHash).Only P := by
  have hdelete := deleteStale_only (fun _ h => hP _ (Op.of_tasks h).1) name
  have hstale : (do
      let _ ← call (.taskDelete name)
      deleteStale name : Code (Except Err Bool)).Only P :=
    ⟨hP _ rfl, fun _ => hdelete⟩
  refine ⟨hP _ rfl, ?_⟩
  intro r
  cases r with
  | error e => exact .ite trivial trivial
  | ok _ =>
    refine ⟨hP _ rfl, fun info => ⟨hP _ rfl, ?_⟩⟩
    intro r
    cases r with
    | error e => exact hdelete
    | ok _ =>
      refine ⟨hP _ rfl, ?_⟩
      intro r
      cases r with
      | error e => exact hstale
      | ok st =>
        cases st with
        | running =>
          exact .ite ((remove_only hP name).mapErr.thenOk fun _ => trivial) trivial
        | created | pausing | paused | stopped _ | unknown => exact hstale

end Only

/-- The mounts of a workload's container spec. -/
def Params.mountsOf (ps : Params) (w : Workload) : List VolumeMount :=
  (w.container.map ps.mounts).getD []

end Capsule.Workloads.Containerd
