import Capsule.Atomic.Prog
import Capsule.Store.Types

/-!
# Capsule.Update.Host

What the update service acts on: the slot partitions, the files on the boot partition, the
staging directory, the GRUB default, the `os_state` row and the deadline timer, with one
operation for each effect the service has on them.
-/

namespace Capsule.Update

open Atomic

inductive BootFile where
  | vmlinuz
  | initramfs
  deriving DecidableEq, Repr

/-- What a reader delivers: some bytes, then `io.EOF` (`none`) or an error. -/
structure Reader where
  data : Bytes
  err : Option Err
  deriving DecidableEq

inductive Op where
  | sqliteOpen
  | removeStaging
  | mkdirStaging
  | findPartition (n : Nat)
  | blockDeviceSize (slot : Slot)
  | writeStaging (f : BootFile) (r : Reader)
  | writeBlockDevice (slot : Slot) (r : Reader)
  | mountBoot
  | umountBoot
  | readStaging (f : BootFile)
  | readBoot (f : BootFile) (slot : Slot)
  | writeBoot (f : BootFile) (slot : Slot) (data : Bytes)
  | rewriteGrubDefault (slot : Slot)
  | stateGet
  | statePut (st : OSState)
  | now
  | afterFunc (d : Int)
  | stopTimer
  | reboot

def Op.isFlip : Op → Bool
  | .rewriteGrubDefault _ => true
  | _ => false

@[reducible] def Res : Op → Type
  | .findPartition _ => Except Err String
  | .blockDeviceSize _ => Except Err Int
  | .readStaging _ => Except Err Bytes
  | .readBoot _ _ => Except Err Bytes
  | .stateGet => Except Err OSState
  | .now => Int
  | .umountBoot => Unit
  | .afterFunc _ => Unit
  | .stopTimer => Unit
  | _ => Except Err Unit

structure Host where
  rootfs : Slot → Bytes
  boot : BootFile → Slot → Option Bytes
  staging : BootFile → Option Bytes
  /-- Capacity of the slot partitions. -/
  slotBytes : Slot → Int
  /-- Device path of each partition of the boot disk. -/
  devPath : Nat → String
  grubDefault : Slot
  /-- The row in `/perm/capsule/state.db`. -/
  osState : Option OSState
  /-- The row in the in-memory store. -/
  memState : Option OSState
  /-- The service holds the store on `/perm`, not the in-memory one. -/
  onPerm : Bool
  /-- Time left on the armed deadline timer. -/
  timer : Option Int
  down : Bool

structure Env where
  fault : Option String := none
  written : Option Nat := none
  clock : Int := 0
  deriving DecidableEq, Inhabited

def Env.ok : Env := {}

def Env.answer {α : Type} (e : Env) (a : α) : Except Err α :=
  match e.fault with
  | none => .ok a
  | some m => .error (.text m)

/-- `new` written over the start of `old`. -/
def overwrite (old new : Bytes) : Bytes := new ++ old.drop new.length

namespace Host

/-- What the update service's store answers to `Get`. -/
def row (h : Host) : Option OSState := if h.onPerm then h.osState else h.memState

def setRow (h : Host) (st : OSState) : Host :=
  if h.onPerm then { h with osState := some st } else { h with memState := some st }

def setRootfs (h : Host) (slot : Slot) (d : Bytes) : Host :=
  { h with rootfs := Function.update h.rootfs slot d }

def setBoot (h : Host) (f : BootFile) (slot : Slot) (d : Bytes) : Host :=
  { h with boot := Function.update h.boot f (Function.update (h.boot f) slot (some d)) }

def setStaging (h : Host) (f : BootFile) (d : Bytes) : Host :=
  { h with staging := Function.update h.staging f (some d) }

end Host

/-- A missing file, as `os.Open` reports it. -/
def errNotExist : Err := .text "no such file or directory"

def readFile (e : Env) : Option Bytes → Except Err Bytes
  | some d => e.answer d
  | none => .error errNotExist

def Reader.result (r : Reader) : Except Err Unit :=
  match r.err with
  | none => .ok ()
  | some x => .error x

def sem : Sem Op Res Host Env
  | .sqliteOpen, e, h =>
    match e.fault with
    | none => ({ h with onPerm := true }, .ok ())
    | some m => (h, .error (.text m))
  | .removeStaging, e, h =>
    match e.fault with
    | none => ({ h with staging := fun _ => none }, .ok ())
    | some m => (h, .error (.text m))
  | .mkdirStaging, e, h => (h, e.answer ())
  | .findPartition n, e, h => (h, e.answer (h.devPath n))
  | .blockDeviceSize slot, e, h => (h, e.answer (h.slotBytes slot))
  | .writeStaging f r, e, h =>
    match e.fault, e.written with
    | none, _ => (h.setStaging f r.data, r.result)
    | some m, some n => (h.setStaging f (r.data.take n), .error (.text m))
    | some m, none => (h, .error (.text m))
  | .writeBlockDevice slot r, e, h =>
    match e.fault, e.written with
    | none, _ => (h.setRootfs slot (overwrite (h.rootfs slot) r.data), r.result)
    | some m, some n =>
      (h.setRootfs slot (overwrite (h.rootfs slot) (r.data.take n)), .error (.text m))
    | some m, none => (h, .error (.text m))
  | .mountBoot, e, h => (h, e.answer ())
  | .umountBoot, _, h => (h, ())
  | .readStaging f, e, h => (h, readFile e (h.staging f))
  | .readBoot f slot, e, h => (h, readFile e (h.boot f slot))
  | .writeBoot f slot data, e, h =>
    match e.fault, e.written with
    | none, _ => (h.setBoot f slot data, .ok ())
    | some m, some n => (h.setBoot f slot (data.take n), .error (.text m))
    | some m, none => (h, .error (.text m))
  | .rewriteGrubDefault slot, e, h =>
    match e.fault with
    | none => ({ h with grubDefault := slot }, .ok ())
    | some m => (h, .error (.text m))
  | .stateGet, e, h =>
    match h.onPerm, e.fault, h.row with
    | true, some m, _ => (h, .error (.text m))
    | _, _, some st => (h, .ok st)
    | _, _, none => (h, .error (.sentinel .notFound))
  | .statePut st, e, h =>
    match h.onPerm, e.fault with
    | true, some m => (h, .error (.text m))
    | _, _ => (h.setRow st, .ok ())
  | .now, e, h => (h, e.clock)
  | .afterFunc d, _, h => ({ h with timer := some d }, ())
  | .stopTimer, _, h => ({ h with timer := none }, ())
  | .reboot, _, h => ({ h with down := true }, .ok ())

abbrev Code := Prog Op Res

@[simp] def sqliteOpen : Code (Except Err Unit) := .call .sqliteOpen .ret
@[simp] def removeStaging : Code (Except Err Unit) := .call .removeStaging .ret
@[simp] def mkdirStaging : Code (Except Err Unit) := .call .mkdirStaging .ret
@[simp] def findPartition (n : Nat) : Code (Except Err String) := .call (.findPartition n) .ret
@[simp] def blockDeviceSize (slot : Slot) : Code (Except Err Int) :=
  .call (.blockDeviceSize slot) .ret
@[simp] def writeStaging (f : BootFile) (r : Reader) : Code (Except Err Unit) :=
  .call (.writeStaging f r) .ret
@[simp] def writeBlockDevice (slot : Slot) (r : Reader) : Code (Except Err Unit) :=
  .call (.writeBlockDevice slot r) .ret
@[simp] def mountBoot : Code (Except Err Unit) := .call .mountBoot .ret
@[simp] def umountBoot : Code Unit := .call .umountBoot .ret
@[simp] def readStaging (f : BootFile) : Code (Except Err Bytes) := .call (.readStaging f) .ret
@[simp] def readBoot (f : BootFile) (slot : Slot) : Code (Except Err Bytes) :=
  .call (.readBoot f slot) .ret
@[simp] def writeBoot (f : BootFile) (slot : Slot) (data : Bytes) : Code (Except Err Unit) :=
  .call (.writeBoot f slot data) .ret
@[simp] def rewriteGrubDefault (slot : Slot) : Code (Except Err Unit) :=
  .call (.rewriteGrubDefault slot) .ret
@[simp] def stateGet : Code (Except Err OSState) := .call .stateGet .ret
@[simp] def statePut (st : OSState) : Code (Except Err Unit) := .call (.statePut st) .ret
@[simp] def now : Code Int := .call .now .ret
@[simp] def afterFunc (d : Int) : Code Unit := .call (.afterFunc d) .ret
@[simp] def stopTimer : Code Unit := .call .stopTimer .ret
@[simp] def reboot : Code (Except Err Unit) := .call .reboot .ret

end Capsule.Update
