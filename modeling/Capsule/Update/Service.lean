import Capsule.GoString
import Capsule.Update.Host

/-!
# Capsule.Update.Service

The code of `core/update/service.go`: `OnStartup`, the deadline callback it arms,
`ReceiveBundle` and `Confirm`, and the part of `cmd/capsuled` that picks the store and calls
`OnStartup`.

`receiveBundle` is in the parts of the source: the tar loop (`tarLoop`, `takeMember`), the checks
(`checkBundle`), the copies to the boot partition with the flip (`armBoot`), and the row
(`persistPending`). What the tar reader finds is part of the `Push`.
-/

namespace Capsule.Update

open Atomic

/-- `DefaultDeadline`, in seconds. -/
def defaultDeadline : Int := 600

structure Service where
  /-- `none` in dev mode and on images without slots. -/
  activeSlot : Option Slot
  sha256 : Bytes → String

def otherSlot : Slot → Slot
  | .a => .b
  | .b => .a

@[simp] theorem otherSlot_ne (s : Slot) : otherSlot s ≠ s := by cases s <;> decide

@[simp] theorem otherSlot_otherSlot (s : Slot) : otherSlot (otherSlot s) = s := by
  cases s <;> rfl

theorem eq_otherSlot_of_ne {s t : Slot} (h : s ≠ t) : s = otherSlot t := by
  revert h; cases s <;> cases t <;> decide

def slotPartitionNumber : Slot → Nat
  | .a => 2
  | .b => 3

/-- `withBootMount`: the umount's error is only logged. -/
def withBootMount {α : Type} (fn : Code (Except Err α)) : Code (Except Err α) :=
  mountBoot.thenOk fun _ => do
    let r ← fn
    umountBoot
    return r

def rollbackToLastGood (lastGood : Slot) : Code (Except Err Unit) :=
  ((findPartition 1).mapErr (Err.ctx "find boot partition")).thenOk fun _ =>
    withBootMount (rewriteGrubDefault lastGood)

/-- `copyIfChanged` of a staged file to the boot partition: skipped when the digests agree. -/
def copyIfChanged (s : Service) (f : BootFile) (slot : Slot) : Code (Except Err Unit) :=
  ((readStaging f).mapErr (Err.ctx "hash src")).thenOk fun src => do
    let dst ← readBoot f slot
    match dst with
    | .ok d =>
      if s.sha256 d = s.sha256 src then return .ok ()
      else (readStaging f).thenOk fun src => writeBoot f slot src
    | .error _ => (readStaging f).thenOk fun src => writeBoot f slot src

/-- The row a first boot stores. -/
def seed (active : Slot) : OSState where
  activeSlot := active
  pendingSlot := none
  pendingDeadlineUnix := 0
  lastGoodSlot := active
  lastVersion := []

/-- `OnStartup`. The last branch arms the timer whose callback is `deadlineExpired`. -/
def onStartup (s : Service) : Code (Except Err Unit) :=
  match s.activeSlot with
  | none => .ret (.ok ())
  | some active => do
    let got ← stateGet
    match got with
    | .error e =>
      if e.is .notFound then (statePut (seed active)).mapErr (Err.ctx "seed os_state")
      else return .error (e.ctx "read os_state")
    | .ok st =>
      match st.pendingSlot with
      | none => statePut { st with activeSlot := active }
      | some p =>
        if p ≠ active then
          -- the bootloader rolled back: asked for `p`, ended up on `active`
          statePut { st with activeSlot := active, pendingSlot := none, pendingDeadlineUnix := 0 }
        else
          (statePut { st with activeSlot := active }).thenOk fun _ => do
            let t ← now
            if st.pendingDeadlineUnix = 0 ∨ st.pendingDeadlineUnix ≤ t then
              let _ ← rollbackToLastGood st.lastGoodSlot
              reboot
            else
              let t ← now
              afterFunc (st.pendingDeadlineUnix - t)
              return .ok ()

/-- The callback of the deadline timer. -/
def deadlineExpired : Code Unit := do
  let got ← stateGet
  match got with
  | .error _ => return ()
  | .ok cur =>
    match cur.pendingSlot with
    | none => return ()
    | some _ =>
      let _ ← rollbackToLastGood cur.lastGoodSlot
      let _ ← reboot
      return ()

def confirm (s : Service) : Code (Except Err (Slot × Bytes)) :=
  (stateGet.mapErr (Err.ctx "read os_state")).thenOk fun st =>
    match st.pendingSlot with
    | none => .ret (.error (.sentinel .noPending))
    | some p =>
      if s.activeSlot ≠ some p then .ret (.error (.sentinel .slotMismatch))
      else do
        stopTimer
        ((statePut { st with pendingSlot := none, pendingDeadlineUnix := 0,
                             lastGoodSlot := st.activeSlot }).mapErr
            (Err.ctx "write os_state")).thenOk fun _ =>
          .ret (.ok (st.activeSlot, st.lastVersion))

inductive Member where
  | version
  | vmlinuz
  | initramfs
  | rootfs
  deriving DecidableEq, Repr

def Member.name : Member → String
  | .version => "VERSION"
  | .vmlinuz => "vmlinuz"
  | .initramfs => "initramfs"
  | .rootfs => "rootfs.sqsh"

/-- One entry as the tar reader presents it: its header's name and size, and its content. -/
structure TarEntry where
  name : String
  size : Int
  body : Reader

/-- A push: what the caller announced and what its stream delivers. -/
structure Push where
  expectSize : Nat
  expectSHA256Hex : String
  entries : List TarEntry
  /-- What `tr.Next` returns after the entries: `none` is `io.EOF`. -/
  tarErr : Option Err
  bytesIn : Nat
  /-- Hex digest of everything received. -/
  got : String
  /-- The error the producer ended with, if any. -/
  streamErr : Option Err

/-- `strings.EqualFold` for the digests compared here: hex digits fold as ASCII. -/
def equalFold (s t : String) : Bool := s.toList.map Char.toLower = t.toList.map Char.toLower

/-- `rootfs.sqsh`: refused when the header announces more than the slot holds. -/
def streamRootfs (slot : Slot) (dev : String) (hdr : TarEntry) : Code (Except Err Unit) :=
  ((blockDeviceSize slot).mapErr (Err.ctx ("size of " ++ dev))).thenOk fun slotBytes =>
    if slotBytes < hdr.size then
      .ret (.error (.wrap "" (.sentinel .bundleTooLarge)
        (": rootfs.sqsh " ++ toString hdr.size ++ " bytes > slot " ++ dev ++ " capacity " ++
          toString slotBytes ++
          " bytes; bump SLOT_SIZE_MIB and reinstall to apply this update")))
    else (writeBlockDevice slot hdr.body).mapErr (Err.ctx ("stream rootfs to " ++ dev))

/-- What the tar loop does with one wanted entry: the bundle's version after it. -/
def takeMember (slot : Slot) (dev : String) (hdr : TarEntry) (version : Bytes) :
    Member → Code (Except Err Bytes)
  | .version =>
    .ret (match hdr.body.err with
      | some e => .error e
      | none => .ok (GoString.trimSpace hdr.body.data))
  | .vmlinuz => (writeStaging .vmlinuz hdr.body).thenOk fun _ => .ret (.ok version)
  | .initramfs => (writeStaging .initramfs hdr.body).thenOk fun _ => .ret (.ok version)
  | .rootfs => (streamRootfs slot dev hdr).thenOk fun _ => .ret (.ok version)

/-- The tar loop. A member is wanted once: a second entry of its name, like an entry of any
other name, is read through and dropped. Returns the members still missing and the version. -/
def tarLoop (slot : Slot) (dev : String) (tarErr : Option Err) :
    List TarEntry → List Member → Bytes → Code (Except Err (List Member × Bytes))
  | [], want, version =>
    .ret (match tarErr with
      | some e => .error (e.ctx "read tar")
      | none => .ok (want, version))
  | hdr :: rest, want, version =>
    match want.find? (·.name = hdr.name) with
    | none =>
      match hdr.body.err with
      | some e => .ret (.error e)
      | none => tarLoop slot dev tarErr rest want version
    | some m =>
      (takeMember slot dev hdr version m).thenOk fun version =>
        tarLoop slot dev tarErr rest (want.filter (· ≠ m)) version

/-- The checks once the stream is drained, in the source's order. -/
def checkBundle (r : Push) (missing : List Member) : Except Err Unit :=
  match r.streamErr with
  | some e => .error (e.ctx "stream")
  | none =>
    if missing ≠ [] then
      .error (.text ("bundle missing required members: [" ++
        String.intercalate " " (missing.map Member.name) ++ "]"))
    else if r.expectSize ≠ 0 ∧ r.bytesIn ≠ r.expectSize then
      .error (.text ("size mismatch: expected " ++ toString r.expectSize ++ " got " ++
        toString r.bytesIn))
    else if !equalFold r.got r.expectSHA256Hex then
      .error (.wrap "" (.sentinel .checksumMismatch)
        (": expected " ++ r.expectSHA256Hex ++ " got " ++ r.got))
    else .ok ()

/-- Copy kernel and initramfs, then flip the GRUB default. -/
def armBoot (s : Service) (slot : Slot) : Code (Except Err Unit) :=
  ((findPartition 1).mapErr (Err.ctx "find boot partition")).thenOk fun _ =>
    withBootMount ((copyIfChanged s .vmlinuz slot).thenOk fun _ =>
      (copyIfChanged s .initramfs slot).thenOk fun _ => rewriteGrubDefault slot)

/-- Persist pending slot, deadline and version. -/
def persistPending (slot : Slot) (version : Bytes) : Code (Except Err (Slot × Bytes)) :=
  (stateGet.mapErr (Err.ctx "read os_state")).thenOk fun st => do
    let t ← now
    ((statePut { st with pendingSlot := some slot, pendingDeadlineUnix := t + defaultDeadline,
                         lastVersion := version }).mapErr (Err.ctx "write os_state")).thenOk
      fun _ => .ret (.ok (slot, version))

def receiveBundle (s : Service) (r : Push) : Code (Except Err (Slot × Bytes)) :=
  match s.activeSlot with
  | none => .ret (.error (.text "update service: ActiveSlot not set"))
  | some active =>
    let nextSlot := otherSlot active
    (removeStaging.mapErr (Err.ctx "clean staging")).thenOk fun _ =>
    (mkdirStaging.mapErr (Err.ctx "mkdir staging")).thenOk fun _ =>
    ((findPartition (slotPartitionNumber nextSlot)).mapErr
        (Err.ctx "find slot partition")).thenOk fun dev =>
    (tarLoop nextSlot dev r.tarErr r.entries
        [.version, .vmlinuz, .initramfs, .rootfs] []).thenOk fun (missing, version) =>
    match checkBundle r missing with
    | .error e => .ret (.error e)
    | .ok () => (armBoot s nextSlot).thenOk fun _ => persistPending nextSlot version

/-- The fields of `boot.Result` that store selection and the update check read. -/
structure BootResult where
  activeSlot : Option Slot
  mountedPerm : Bool
  installerMode : Bool

/-- Store selection: the service keeps the in-memory store unless `/perm` is mounted and
SQLite opens. -/
def openStore (isPID1 : Bool) (r : BootResult) : Code Unit :=
  if isPID1 ∧ r.activeSlot ≠ none ∧ r.mountedPerm = false ∧ r.installerMode = false then
    return ()
  else if r.mountedPerm then do
    let _ ← sqliteOpen
    return ()
  else return ()

/-- From store selection to the update check; the error is only logged. -/
def startup (isPID1 : Bool) (sha256 : Bytes → String) (r : BootResult) : Code Unit := do
  openStore isPID1 r
  if isPID1 ∧ r.activeSlot ≠ none then
    let _ ← onStartup ⟨r.activeSlot, sha256⟩
    return ()
  else return ()

end Capsule.Update
