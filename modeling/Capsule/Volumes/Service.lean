import Capsule.Volumes.Host

/-!
# Capsule.Volumes.Service

`core/volume.Service`: `Create`, `Delete` and `Resize`, over the store, the LVM commands and the
e2fsprogs tools, beside the workload service and the drivers.

The operations (`Op`) are the rows of volumes, the commands with what they print when they fail
(`CmdErr`), and those of the workload service on the same host (`Op.wl`). `usersFromWorkloads` is
how the service finds out whether a volume is in use; `resizeVolumeLV` is the whole of a resize on
the host, with the check of the filesystem before and its growth after.
-/

namespace Capsule.Volumes.Maintenance

open Atomic Keyed Workloads
open Containerd (VolumeMount)

structure Volume where
  name : String
  hostPath : String
  mountedBy : List String := []
  sizeBytes : Nat := 0
  deriving DecidableEq

inductive Ext4Bin where
  | e2fsck
  | resize2fs
  deriving DecidableEq, Repr

/-- Where `runExt4Bin` looks for a tool. -/
inductive SbinDir where
  | usrSbin
  | sbin
  deriving DecidableEq, Repr

/-- A failed command: its error, the exit code if it ran, and its output without the space around
it. -/
structure CmdErr where
  err : String
  exitCode : Option Nat
  out : String

inductive Op where
  /-- An operation of the workload service, the reconciler or a driver. -/
  | wl (o : Workloads.Op D)
  | getVolume (name : String)
  | putVolume (v : Volume)
  | deleteVolume (name : String)
  | blockDeviceSize (name path : String)
  | lvcreate (name : String) (sizeMiB : Nat)
  | mkfs (dir : SbinDir) (name : String)
  | lvremove (name : String)
  | lvresize (name : String) (sizeMiB : Nat)
  | ext4 (bin : Ext4Bin) (dir : SbinDir) (name : String)
  | populateDerived (name path : String)

@[reducible] def Res : Op → Type
  | .wl o => Workloads.Res DRes o
  | .getVolume _ => Except Err Volume
  | .putVolume _ | .deleteVolume _ => Except Err Unit
  | .blockDeviceSize _ _ => Nat
  | .lvcreate _ _ | .mkfs _ _ | .lvremove _ | .lvresize _ _ | .ext4 _ _ _ => Except CmdErr Unit
  | .populateDerived _ _ => List Workload × Nat

structure State where
  host : HostState
  volumes : Table Volume.name
  /-- The logical volumes, with their sizes in bytes. -/
  lvs : String → Option Nat

structure Env where
  host : HostEnv
  cmd : Option CmdErr

/-- The outcome of a command that leaves `s` when it succeeds. -/
def Env.command (e : Env) (before after : State) : State × Except CmdErr Unit :=
  match e.cmd with
  | some c => (before, .error c)
  | none => (after, .ok ())

def hostPath (name : String) : String := "/dev/capsule/vol-" ++ name

def lvPath (name : String) : String := "capsule/vol-" ++ name

/-- LVM's complaint about a volume that is not there, or that is. -/
def lvmErr (text name : String) : CmdErr := ⟨"exit status 5", some 5, text ++ lvPath name⟩

/-- The same for a command on the volume of a name, which fails without one. -/
def Env.onVolume (e : Env) (s : State) (name : String) (after : State) :
    State × Except CmdErr Unit :=
  match s.lvs name with
  | some _ => e.command s after
  | none => (s, .error (e.cmd.getD (lvmErr "Failed to find logical volume " name)))

def getVolumeRow (s : State) (name : String) : Except Err Volume :=
  match s.volumes.get name with
  | some v => .ok v
  | none => .error (.sentinel .notFound)

/-- `blockDeviceSize` of a volume: zero on any error. -/
def sizeOf (e : Env) (s : State) (name : String) : Nat :=
  match e.cmd with
  | some _ => 0
  | none => (s.lvs name).getD 0

def sem : Sem Op Res State Env
  | .wl o, e, s =>
    let out := Workloads.sem dsem o e.host s.host
    ({ s with host := out.1 }, out.2)
  | .getVolume name, e, s =>
    match e.host.fault with
    | some m => (s, .error (.text m))
    | none => (s, getVolumeRow s name)
  | .putVolume v, e, s =>
    match e.host.fault with
    | some m => (s, .error (.text m))
    | none => ({ s with volumes := s.volumes.put v }, .ok ())
  | .deleteVolume name, e, s =>
    match e.host.fault with
    | some m => (s, .error (.text m))
    | none => ({ s with volumes := s.volumes.del name }, .ok ())
  | .blockDeviceSize name _, e, s => (s, sizeOf e s name)
  | .lvcreate name sizeMiB, e, s =>
    match s.lvs name with
    | some _ => (s, .error (e.cmd.getD (lvmErr "Logical Volume already exists: " name)))
    | none =>
      e.command s { s with lvs := Function.update s.lvs name (some (sizeMiB * 1024 * 1024)) }
  | .lvremove name, e, s => e.onVolume s name { s with lvs := Function.update s.lvs name none }
  | .lvresize name sizeMiB, e, s =>
    e.onVolume s name { s with lvs := Function.update s.lvs name (some (sizeMiB * 1024 * 1024)) }
  | .mkfs _ _, e, s | .ext4 _ _ _, e, s => e.command s s
  | .populateDerived name _, e, s =>
    match e.host.fault with
    | some _ => (s, ([], sizeOf e s name))
    | none => (s, (s.host.rows.list, sizeOf e s name))

abbrev Code := Prog Op Res

@[simp] def call (o : Op) : Code (Res o) := .call o .ret

/-- Code of the workload service and the reconciler. -/
def onWorkloads {α : Type} (p : Workloads.Code DRes α) : Code α := p.lift .wl fun _ r => r

def usersFromWorkloads (ps : Params) (ws : List Workload) (volume : String) : List String :=
  (ws.filter fun w => Mentions ps volume w).map Workload.name

def refsTo (ps : Params) (name : String) : Code (Except Err (List String)) :=
  (call (.wl .list)).thenOk fun ws => .ret (.ok (usersFromWorkloads ps ws name))

/-- `ErrInUse` with the users. -/
def inUse (users : List String) : Err :=
  .text ("volume in use by one or more workloads: [" ++ String.intercalate " " users ++ "]")

def lvName (name : String) : String := "vol-" ++ name

def mkfsErr (name : String) (c c' : CmdErr) : Err :=
  .text ("mkfs.ext4 " ++ hostPath name ++ ": " ++ c.err ++ " / " ++ c'.err ++ ": " ++ c.out ++
    " / " ++ c'.out)

def createVolumeLV (name : String) (sizeMiB : Nat) : Code (Except Err Unit) := do
  match ← call (.lvcreate name sizeMiB) with
  | .error c => return .error (.text ("lvcreate " ++ lvName name ++ ": " ++ c.err ++ ": " ++ c.out))
  | .ok () =>
    match ← call (.mkfs .usrSbin name) with
    | .ok () => return .ok ()
    | .error c =>
      match ← call (.mkfs .sbin name) with
      | .ok () => return .ok ()
      | .error c' =>
        let _ ← call (.lvremove name)
        return .error (mkfsErr name c c')

/-- What `removeVolumeLV` takes for a volume that is already gone. -/
def CmdErr.saysGone (c : CmdErr) : Bool :=
  GoString.contains c.out "not found" || GoString.contains c.out "Failed to find"

def removeVolumeLV (name : String) : Code (Except Err Unit) := do
  match ← call (.lvremove name) with
  | .ok () => return .ok ()
  | .error c =>
    if c.saysGone then return .ok ()
    else return .error (.text ("lvremove " ++ lvPath name ++ ": " ++ c.err ++ ": " ++ c.out))

def Ext4Bin.text : Ext4Bin → String
  | .e2fsck => "e2fsck"
  | .resize2fs => "resize2fs"

def Ext4Bin.args (name : String) : Ext4Bin → String
  | .e2fsck => "[-f -y " ++ hostPath name ++ "]"
  | .resize2fs => "[" ++ hostPath name ++ "]"

def SbinDir.text : SbinDir → String
  | .usrSbin => "/usr/sbin/"
  | .sbin => "/sbin/"

/-- What `runExt4Bin` fails with; the exit code is what `errors.As` finds. -/
structure BinErr where
  exitCode : Option Nat
  err : Err

def runExt4BinIn (bin : Ext4Bin) (name : String) : List SbinDir → Code (Except BinErr Unit)
  | [] => .ret (.error ⟨none, .text (bin.text ++ " not found in /usr/sbin or /sbin")⟩)
  | dir :: dirs => do
    match ← call (.ext4 bin dir name) with
    | .ok () => return .ok ()
    | .error c =>
      if GoString.contains c.err "no such file" then runExt4BinIn bin name dirs
      else return .error ⟨c.exitCode, .text (dir.text ++ bin.text ++ " " ++ bin.args name ++ ": " ++
        c.err ++ ": " ++ c.out)⟩

def runExt4Bin (bin : Ext4Bin) (name : String) : Code (Except BinErr Unit) :=
  runExt4BinIn bin name [.usrSbin, .sbin]

def growFilesystem (name : String) : Code (Except Err Unit) :=
  (runExt4Bin .resize2fs name).mapErr fun b => b.err.ctx ("resize2fs " ++ hostPath name)

/-- `resizeVolumeLV` once the volume has its new size. -/
def checkAndGrow (name : String) : Code (Except Err Unit) := do
  match ← runExt4Bin .e2fsck name with
  | .ok () => growFilesystem name
  | .error b =>
    -- errors were found and corrected
    if b.exitCode = some 1 then growFilesystem name
    else return .error (b.err.ctx ("e2fsck " ++ hostPath name))

def resizeVolumeLV (name : String) (newSizeMiB : Nat) : Code (Except Err Unit) := do
  match ← call (.lvresize name newSizeMiB) with
  | .error c => return .error (.text ("lvresize " ++ lvPath name ++ ": " ++ c.err ++ ": " ++ c.out))
  | .ok () => checkAndGrow name

def validateName (name : String) : Except Err Unit :=
  if name = "" then .error (.text "volume name is required")
  else if name.length > 63 ∨ !nameMatches name then
    .error (.text ("volume name " ++ GoString.quote name ++
      " is invalid (DNS-1123 label, <=63 chars)"))
  else .ok ()

theorem nameMatches_of_validateName {name : String} (h : validateName name = .ok ()) :
    nameMatches name = true := by
  unfold validateName at h
  split at h
  · cases h
  · split at h
    · cases h
    · simp_all

def minSizeMiB : Nat := 32

def maxSizeMiB : Nat := 1024 * 1024

def validateSize (sizeMiB : Nat) : Except Err Unit :=
  if sizeMiB < minSizeMiB then
    .error (.text ("size " ++ toString sizeMiB ++ " MiB below minimum " ++ toString minSizeMiB ++
      " MiB"))
  else if sizeMiB > maxSizeMiB then
    .error (.text ("size " ++ toString sizeMiB ++ " MiB above maximum " ++ toString maxSizeMiB ++
      " MiB"))
  else .ok ()

theorem le_of_validateSize {sizeMiB : Nat} (h : validateSize sizeMiB = .ok ()) :
    minSizeMiB ≤ sizeMiB ∧ sizeMiB ≤ maxSizeMiB := by
  unfold validateSize at h
  split at h
  · cases h
  · split at h
    · cases h
    · omega

def defaultSizeMiB : Nat := 512

/-- The row `Create` stores. -/
def newVolume (name : String) : Volume := ⟨name, hostPath name, [], 0⟩

def storeNew (name : String) : Code (Except Err Volume) := do
  match ← call (.putVolume (newVolume name)) with
  | .ok () => return .ok (newVolume name)
  | .error e =>
    let _ ← removeVolumeLV name
    return .error e

/-- `Create` once the size is known to be good. -/
def createSized (name : String) (sizeMiB : Nat) : Code (Except Err Volume) := do
  match ← call (.getVolume name) with
  | .ok _ => return .error (.text ("volume " ++ GoString.quote name ++ " already exists"))
  | .error e =>
    if e.is .notFound then (createVolumeLV name sizeMiB).thenOk fun _ => storeNew name
    else return .error e

/-- The size `Create` takes for a request. -/
def sizeFor (sizeMiB : Nat) : Nat := if sizeMiB = 0 then defaultSizeMiB else sizeMiB

def create (name : String) (sizeMiB : Nat) : Code (Except Err Volume) :=
  (Prog.ret (validateName name) : Code _).thenOk fun _ =>
  (Prog.ret (validateSize (sizeFor sizeMiB)) : Code _).thenOk fun _ =>
    createSized name (sizeFor sizeMiB)

def delete (ps : Params) (name : String) (force : Bool) : Code (Except Err Unit) := do
  match ← call (.getVolume name) with
  | .error e => if e.is .notFound then return .ok () else return .error e
  | .ok v =>
    (refsTo ps name).thenOk fun users =>
      if users ≠ [] ∧ force = false then .ret (.error (inUse users))
      else
        ((removeVolumeLV name).mapErr (Err.ctx ("lvremove " ++ v.hostPath))).thenOk
          fun _ => call (.deleteVolume name)

/-- The answer of `Resize`. -/
def answerDerived (ps : Params) (name : String) (v : Volume) : Code (Except Err Volume) := do
  let (ws, size) ← call (.populateDerived name v.hostPath)
  return .ok { v with mountedBy := usersFromWorkloads ps ws v.name, sizeBytes := size }

def shrinkErr (current newSizeMiB : Nat) : Err :=
  .text ("cannot shrink volume (grow-only): current=" ++ toString (current / 1024 / 1024) ++
    " MiB, requested=" ++ toString newSizeMiB ++ " MiB")

/-- `Resize` of a volume that nothing references. -/
def resizeUnused (ps : Params) (name : String) (newSizeMiB : Nat) (v : Volume) :
    Code (Except Err Volume) := do
  let current ← call (.blockDeviceSize name v.hostPath)
  let want := newSizeMiB * 1024 * 1024
  if want < current then return .error (shrinkErr current newSizeMiB)
  else if want = current then answerDerived ps name v
  else (resizeVolumeLV name newSizeMiB).thenOk fun _ => answerDerived ps name v

def resize (ps : Params) (name : String) (newSizeMiB : Nat) : Code (Except Err Volume) :=
  (Prog.ret (validateName name) : Code _).thenOk fun _ =>
  (Prog.ret (validateSize newSizeMiB) : Code _).thenOk fun _ =>
  (call (.getVolume name)).thenOk fun v =>
  (refsTo ps name).thenOk fun users =>
    if users ≠ [] then .ret (.error (inUse users)) else resizeUnused ps name newSizeMiB v

section Resize

variable {P : Op → Prop} {name : String} {sizeMiB : Nat}

theorem runExt4BinIn_only {bin : Ext4Bin} (hbin : ∀ dir, P (.ext4 bin dir name))
    (dirs : List SbinDir) : (runExt4BinIn bin name dirs).Only P := by
  induction dirs with
  | nil => trivial
  | cons dir dirs ih =>
    refine ⟨hbin dir, ?_⟩
    intro r
    cases r with
    | ok _ => trivial
    | error c => exact .ite ih trivial

theorem resizeVolumeLV_only (hlv : P (.lvresize name sizeMiB))
    (hbin : ∀ bin dir, P (.ext4 bin dir name)) : (resizeVolumeLV name sizeMiB).Only P := by
  have hgrow : (growFilesystem name).Only P :=
    (runExt4BinIn_only (hbin .resize2fs) _).bind fun _ => trivial
  refine ⟨hlv, ?_⟩
  intro r
  cases r with
  | error c => trivial
  | ok _ =>
    refine (runExt4BinIn_only (hbin .e2fsck) _).bind ?_
    intro r
    cases r with
    | ok _ => exact hgrow
    | error b => exact .ite hgrow trivial

theorem resizeUnused_only (hsize : ∀ path, P (.blockDeviceSize name path))
    (hlv : P (.lvresize name sizeMiB)) (hbin : ∀ bin dir, P (.ext4 bin dir name))
    (hderive : ∀ path, P (.populateDerived name path)) (ps : Params) (u : Volume) :
    (resizeUnused ps name sizeMiB u).Only P := by
  have hanswer : (answerDerived ps name u).Only P := ⟨hderive _, fun _ => trivial⟩
  refine ⟨hsize _, fun current => ?_⟩
  exact .ite trivial (.ite hanswer
    ((resizeVolumeLV_only hlv hbin).thenOk fun _ => hanswer))

end Resize

end Capsule.Volumes.Maintenance
