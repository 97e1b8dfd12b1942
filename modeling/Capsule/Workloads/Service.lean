import Mathlib.Data.String.Basic
import Capsule.Atomic.Prog
import Capsule.GoString
import Capsule.Keyed.Table
import Capsule.Store.Types

/-!
# Capsule.Workloads.Service

`core/workload.Service` and `core/reconciler`: the calls that change a workload's row, and the
reconcile pass that drives the runtime to it.
-/

namespace Capsule.Workloads

open Atomic Keyed

inductive Kind where
  | unspecified
  | container
  | microVm
  deriving DecidableEq, Repr

inductive DesiredState where
  | unspecified
  | running
  | stopped
  | deleting
  deriving DecidableEq, Repr

inductive WorkloadPhase where
  | unspecified
  | pending
  | running
  | failed
  | stopped
  deriving DecidableEq, Repr

structure WorkloadStatus where
  phase : WorkloadPhase
  message : String
  restartCount : Nat := 0
  deriving DecidableEq

structure ContainerSpec where
  image : String
  rest : Bytes
  deriving DecidableEq

structure MicroVMSpec where
  image : String
  kernelPath : String
  rootfsPath : String
  rest : Bytes
  deriving DecidableEq

structure Workload where
  name : String
  kind : Kind
  container : Option ContainerSpec
  microVm : Option MicroVMSpec
  status : Option WorkloadStatus
  desiredState : DesiredState
  deriving DecidableEq

/-- `^[a-z0-9]([-a-z0-9]*[a-z0-9])?$` -/
def nameMatches (s : String) : Bool :=
  let letter (c : Char) : Bool := c.isLower || c.isDigit
  match s.toList with
  | [] => false
  | c :: cs =>
    letter c && cs.all (fun d => letter d || d = '-') && letter (cs.getLastD c)

theorem char_of_nameMatches {s : String} (h : nameMatches s = true) {c : Char}
    (hc : c ∈ s.toList) : c.isLower = true ∨ c.isDigit = true ∨ c = '-' := by
  unfold nameMatches at h
  cases hs : s.toList with
  | nil => rw [hs] at hc; cases hc
  | cons d ds =>
    rw [hs] at h hc
    simp only [Bool.and_eq_true, Bool.or_eq_true, List.all_eq_true, decide_eq_true_eq] at h
    rcases List.mem_cons.mp hc with rfl | hc
    · exact h.1.1.imp_right .inl
    · exact or_assoc.mp (h.1.2 c hc)

/-- `validate` of a workload that is not nil. The length is that of a name the pattern accepts,
so characters and bytes agree. -/
def validate (w : Workload) : Except Err Unit :=
  if w.name = "" then .error (.text "workload.name is required")
  else if w.name.length > 63 ∨ !nameMatches w.name then
    .error (.text ("workload.name " ++ GoString.quote w.name ++
      " is invalid (expect DNS-1123 label, <=63 chars)"))
  else
    match w.kind with
    | .container =>
      match w.container with
      | none => .error (.text "kind=Container requires container spec")
      | some c =>
        if c.image = "" then .error (.text "container.image is required") else .ok ()
    | .microVm =>
      match w.microVm with
      | none => .error (.text "kind=MicroVM requires micro_vm spec")
      | some v =>
        if v.image ≠ "" then .ok ()
        else if v.kernelPath = "" then
          .error (.text "micro_vm: either image or kernel_path is required")
        else if v.rootfsPath = "" then
          .error (.text "micro_vm.rootfs_path is required when image is not set")
        else .ok ()
    | .unspecified => .error (.text "workload.kind is required (Container or MicroVM)")

inductive Side where
  | container
  | vm
  deriving DecidableEq, Repr

inductive RuntimePhase where
  | unknown
  | pending
  | running
  | stopped
  | failed
  deriving DecidableEq, Repr

structure RuntimeStatus where
  phase : RuntimePhase
  message : String

inductive Op (D : Side → Type) where
  | get (name : String)
  | put (w : Workload)
  | list
  | delete (name : String)
  | drv (s : Side) (d : D s)

@[reducible] def Res {D : Side → Type} (DRes : (s : Side) → D s → Type) : Op D → Type
  | .get _ => Except Err Workload
  | .put _ => Except Err Unit
  | .list => Except Err (List Workload)
  | .delete _ => Except Err Unit
  | .drv s d => DRes s d

/-- A driver: the code of its three calls. -/
structure Driver (D : Type) (DRes : D → Type) where
  ensureRunning : Workload → Prog D DRes (Except Err Unit)
  remove : String → Prog D DRes (Except Err Unit)
  status : String → Prog D DRes (Except Err RuntimeStatus)

structure State (δ : Side → Type) where
  rows : Table Workload.name
  dev : (s : Side) → δ s

structure Env (ε : Type) where
  fault : Option String
  drv : ε

def Env.answer {ε α : Type} (e : Env ε) (a : α) : Except Err α :=
  match e.fault with
  | none => .ok a
  | some m => .error (.text m)

def getRow {δ : Side → Type} (s : State δ) (name : String) : Except Err Workload :=
  match s.rows.get name with
  | some w => .ok w
  | none => .error (.sentinel .notFound)

section

variable {D : Side → Type} {DRes : (s : Side) → D s → Type} {δ : Side → Type} {ε : Type}

def sem (dsem : (s : Side) → Sem (D s) (DRes s) (δ s) ε) :
    Sem (Op D) (Res DRes) (State δ) (Env ε)
  | .get name, e, s =>
    match e.fault with
    | some m => (s, .error (.text m))
    | none => (s, getRow s name)
  | .put w, e, s =>
    match e.fault with
    | some m => (s, .error (.text m))
    | none => ({ s with rows := s.rows.put w }, .ok ())
  | .list, e, s => (s, e.answer s.rows.list)
  | .delete name, e, s =>
    match e.fault with
    | some m => (s, .error (.text m))
    | none => ({ s with rows := s.rows.del name }, .ok ())
  | .drv side d, e, s =>
    ({ s with dev := Function.update s.dev side (dsem side d e.drv (s.dev side)).1 },
      (dsem side d e.drv (s.dev side)).2)

/-- Code of the service and the reconciler. -/
abbrev Code (DRes : (s : Side) → D s → Type) := Prog (Op D) (Res DRes)

@[simp] def get (name : String) : Code DRes (Except Err Workload) := .call (.get name) .ret
@[simp] def put (w : Workload) : Code DRes (Except Err Unit) := .call (.put w) .ret
@[simp] def list : Code DRes (Except Err (List Workload)) := .call .list .ret
@[simp] def deleteRow (name : String) : Code DRes (Except Err Unit) := .call (.delete name) .ret

def onDriver {α : Type} (s : Side) (p : Prog (D s) (DRes s) α) : Code DRes α :=
  p.lift (.drv s) fun _ r => r

/-- The wired drivers; a side without one is `none`. -/
abbrev Service (DRes : (s : Side) → D s → Type) := (s : Side) → Option (Driver (D s) (DRes s))

/-- The driver that `Delete` and `Stop` call for a kind. -/
def sideOf : Kind → Side
  | .microVm => .vm
  | _ => .container

/-- What `Apply` stores: the status is that of the existing row. -/
def merge (w : Workload) : Option Workload → Workload
  | none => w
  | some existing => { w with status := existing.status }

def applyMerged (w : Workload) (existing : Option Workload) : Code DRes (Except Err Workload) :=
  (put (merge w existing)).thenOk fun _ => .ret (.ok (merge w existing))

/-- `Apply`; `none` is the nil workload that `validate` refuses first. -/
def apply : Option Workload → Code DRes (Except Err Workload)
  | none => .ret (.error (.text "workload is nil"))
  | some w =>
    match validate w with
    | .error e => .ret (.error e)
    | .ok () => do
      match ← get w.name with
      | .ok existing => applyMerged w (some existing)
      | .error e => if e.is .notFound then applyMerged w none else return .error e

/-- `Delete` up to its tombstone: the kind it found, `unspecified` when it found no row. -/
def markDeleting (name : String) : Code DRes (Except Err Kind) := do
  match ← get name with
  | .error _ => return .ok .unspecified
  | .ok w =>
    if w.desiredState = .deleting then return .ok w.kind
    else
      ((put { w with desiredState := .deleting }).mapErr
        (Err.ctx ("mark workload " ++ GoString.quote name ++ " deleting"))).thenOk
          fun _ => .ret (.ok w.kind)

def removeText : Side → String
  | .vm => "runtime vm remove "
  | .container => "runtime remove "

/-- The driver call of `Delete`. -/
def removeRuntime (svc : Service DRes) (kind : Kind) (name : String) :
    Code DRes (Except Err Unit) :=
  match svc (sideOf kind) with
  | none => .ret (.ok ())
  | some d => (onDriver (sideOf kind) (d.remove name)).mapErr
      (Err.ctx (removeText (sideOf kind) ++ GoString.quote name))

def delete (svc : Service DRes) (name : String) : Code DRes (Except Err Unit) :=
  (markDeleting name).thenOk fun kind =>
    (removeRuntime svc kind name).thenOk fun _ => deleteRow name

def stop (svc : Service DRes) (name : String) : Code DRes (Except Err Unit) :=
  (get name).thenOk fun w =>
    (put { w with desiredState := .stopped }).thenOk fun _ => do
      let _ ← removeRuntime svc w.kind name
      return .ok ()

def start (name : String) : Code DRes (Except Err Unit) :=
  (get name).thenOk fun w =>
    put { w with desiredState := .running, status := some ⟨.pending, "starting", 0⟩ }

/-- `Restart`; without a driver there is nothing to restart with. -/
def restart (svc : Service DRes) (name : String) : Code DRes (Except Err Unit) :=
  (get name).thenOk fun w =>
    match svc (sideOf w.kind) with
    | none => .ret (.error (.sentinel .noRuntime))
    | some d => onDriver (sideOf w.kind) (d.remove name)

def setStatus (name : String) (status : WorkloadStatus) : Code DRes (Except Err Unit) :=
  (get name).thenOk fun w =>
    if w.status = some status then .ret (.ok ()) else put { w with status := some status }

/-! ## The reconciler -/

def toProtoPhase : RuntimePhase → WorkloadPhase
  | .running => .running
  | .pending => .pending
  | .stopped => .stopped
  | .failed => .failed
  | .unknown => .unspecified

/-- `writeStatus`: the error is only logged. -/
def writeStatus (name : String) (phase : WorkloadPhase) (msg : String) : Code DRes Unit := do
  let _ ← setStatus name ⟨phase, msg, 0⟩
  return ()

/-- The side of a kind the reconciler supports. -/
def side? : Kind → Option Side
  | .container => some .container
  | .microVm => some .vm
  | .unspecified => none

def noRuntimeText : Side → String
  | .container => "no container runtime"
  | .vm => "no vm runtime"

def reconcileStopped (svc : Service DRes) (w : Workload) : Code DRes Unit := do
  match (side? w.kind).bind fun s => (svc s).map fun d => onDriver s (d.remove w.name) with
  | some remove =>
    let _ ← remove
    writeStatus w.name .stopped "stopped by operator"
  | none => writeStatus w.name .stopped "stopped by operator"

def reconcileRunning (svc : Service DRes) (w : Workload) : Code DRes Unit :=
  match side? w.kind with
  | none => writeStatus w.name .failed "unsupported kind"
  | some s =>
    match svc s with
    | none => writeStatus w.name .failed (noRuntimeText s)
    | some d => do
      match ← onDriver s (d.ensureRunning w) with
      | .error e => writeStatus w.name .failed e.msg
      | .ok () =>
        match ← onDriver s (d.status w.name) with
        | .error _ => return ()
        | .ok st => writeStatus w.name (toProtoPhase st.phase) st.message

def reconcileOne (svc : Service DRes) (w : Workload) : Code DRes Unit :=
  match w.desiredState with
  | .deleting => .ret ()
  | .stopped => reconcileStopped svc w
  | _ => reconcileRunning svc w

/-- The loop of `Tick` over its snapshot. -/
def reconcileAll (svc : Service DRes) : List Workload → Code DRes Unit
  | [] => return ()
  | w :: ws => do
    reconcileOne svc w
    reconcileAll svc ws

def tick (svc : Service DRes) : Code DRes Unit := do
  match ← list with
  | .error _ => return ()
  | .ok ws => reconcileAll svc ws

/-- `Run` for a number of ticks. -/
def ticks (svc : Service DRes) : Nat → Code DRes Unit
  | 0 => return ()
  | n + 1 => do
    tick svc
    ticks svc n

end

end Capsule.Workloads
