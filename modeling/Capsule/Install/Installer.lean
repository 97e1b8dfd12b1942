import Capsule.Atomic.Rely
import Capsule.Atomic.Wire
import Capsule.Auth.Token
import Capsule.Install.DiskLayout

/-!
# Capsule.Install.Installer

The server's side of an install: `InstallController.Install` and `Installer.Run`, which writes the
partition table, copies the boot partition and a slot, makes the LVM volume and, when a key is to be
sealed, writes `firstboot.json`. Every operation may fail.

* `copyLoop_chunks`: the loop of `CopyPartition` has fuel for every chunk of the source.
* `Op.early`, `Op.late`: what comes before the bundle is written and what comes after it.
* `duty`, `install_duty`: the monitor of a call that carries a key. It writes one bundle at most,
  for that key, and a call that has written one sends the result before it returns.
-/

namespace Capsule.Install

open Atomic Auth

/-- `boot.TargetDisk`, as far as an install reads it. -/
structure TargetDisk where
  path : String
  sizeBytes : UInt64

structure Request where
  targetDisk : String
  operatorPubkey : Bytes
  operatorName : String
  sealKey : Bool

/-- `install.Result`, and `InstallResult` on the wire. -/
structure Result where
  capsuleID : String := ""
  shortID : String := ""
  tlsFingerprintSha256 : String := ""
  kid : String := ""

inductive Phase where
  | verify
  | partition
  | writeBoot
  | patchBoot
  | writeSlotA
  | writeSlotB
  | initLVM
  | sealFirstboot
  | sync
  | done
  deriving DecidableEq

structure InstallProgress where
  phase : Phase
  percent : Nat
  message : String
  result : Option Result := none

/-- A command that failed, with what it printed. -/
structure ExecErr where
  err : Err
  out : String

/-- How `io.ReadFull` ends: with all it was asked for, or short with an error. -/
inductive Read where
  | full
  | eof (n : Nat)
  | failed (n : Nat) (e : Err)

/-- The first four calls of `CopyPartition`. -/
inductive CopySetup where
  | openSrc (dev : String)
  | openDst (dev : String)
  | seekSrc
  | seekDst

def CopySetup.what : CopySetup → String
  | .openSrc dev => "open src " ++ dev
  | .openDst dev => "open dst " ++ dev
  | .seekSrc => "seek src"
  | .seekDst => "seek dst"

inductive Op where
  | send (m : InstallProgress)
  | writeMBR (devPath : String) (l : Layout)
  /-- A command that leaves `firstboot.json` alone. -/
  | exec (argv : List String)
  | waitForPath (path : String)
  | copySetup (x : CopySetup)
  | readChunk (want : Nat)
  | writeChunk (n : Nat)
  | syncCopy
  | patchBootGrubCfg (tgtBoot : String)
  | initTargetLVM (permDev : String)
  | newUUID
  /-- The certificate and the key of `GenerateCertPEM`, not yet encoded. -/
  | generateCert (capsuleID : String)
  | mkdirAll (path : String)
  | writeBundle (b : FirstBootBundle)

@[reducible] def Res : Op → Type
  | .exec _ => Except ExecErr Unit
  | .readChunk _ => Read
  | .newUUID => String
  | .generateCert _ => Except Err (Bytes × Bytes)
  | _ => Except Err Unit

/-- `firstboot.json` on the target disk. -/
inductive BundleFile where
  | absent
  /-- It does not parse. -/
  | torn
  | whole (b : FirstBootBundle)

/-- What a handler returns as its error. -/
inductive Failure where
  | status (st : Status)
  | send (e : Err)

structure Host where
  perm : BundleFile
  stream : Wire InstallProgress (Except Failure Unit)

/-- What a `WriteFile` that fails leaves. -/
inductive Left where
  | nothing
  | part
  | all
  deriving DecidableEq

structure Env where
  fault : Option String := none
  out : String := ""
  read : Read := .full
  uuid : String := ""
  der : Bytes := []
  key : Bytes := []
  left : Left := .nothing
  /-- An `initTargetLVM` that fails has not got to the old volume. -/
  kept : Bool := false

def Env.answer {α : Type} (e : Env) (a : α) : Except Err α :=
  match e.fault with
  | none => .ok a
  | some m => .error (.text m)

def sem : Sem Op Res Host Env
  | .send m, _, s =>
    if s.stream.broken then (s, .error (.text "transport is closing"))
    else ({ s with stream := s.stream.send m }, .ok ())
  | .exec _, e, s => (s, (e.answer ()).mapError fun x => ⟨x, e.out⟩)
  | .readChunk _, e, s => (s, e.read)
  | .newUUID, e, s => (s, e.uuid)
  | .generateCert _, e, s => (s, e.answer (e.der, e.key))
  | .initTargetLVM _, e, s =>
    match e.fault with
    | none => ({ s with perm := .absent }, .ok ())
    | some m => ({ s with perm := if e.kept then s.perm else .absent }, .error (.text m))
  | .writeBundle b, e, s =>
    match e.fault with
    | none => ({ s with perm := .whole b }, .ok ())
    | some m =>
      match e.left with
      | .nothing => (s, .error (.text m))
      | .part => ({ s with perm := .torn }, .error (.text m))
      | .all => ({ s with perm := .whole b }, .error (.text m))
  | .writeMBR _ _, e, s | .waitForPath _, e, s | .copySetup _, e, s | .writeChunk _, e, s
  | .syncCopy, e, s | .patchBootGrubCfg _, e, s | .mkdirAll _, e, s => (s, e.answer ())

abbrev Code := Prog Op Res

@[simp] def perform (o : Op) : Code (Res o) := .call o .ret

structure Params where
  codec : Codec
  b64stdEncode : Bytes → String
  b64std_encode : ∀ x, codec.b64std (b64stdEncode x) = some x
  /-- `pem.EncodeToMemory` of a `CERTIFICATE` block. -/
  certPEM : Bytes → String
  /-- The first block `pem.Decode` finds, if it is a `CERTIFICATE`. -/
  certBlock : String → Option Bytes
  certBlock_certPEM : ∀ der, certBlock (certPEM der) = some der
  keyPEM : Bytes → String
  fingerprintRaw : Bytes → String
  /-- The public key of an Ed25519 private key. -/
  pub : Bytes → Bytes

/-- `fn`: the error of the stream is dropped. -/
def report (phase : Phase) (percent : Nat) (message : String) : Code Unit := do
  let _ ← perform (.send ⟨phase, percent, message, none⟩)
  return ()

def copyProgress (phase : Phase) (done total : Nat) : Code Unit :=
  if total = 0 then report phase 0 ""
  else report phase (min (done * 100 / total) 100)
    (toString (done / (1024 * 1024)) ++ " / " ++ toString (total / (1024 * 1024)) ++ " MiB")

def chunkBytes : Nat := 4 * 1024 * 1024

/-- The copy went to `dst`: tell how far it is, if it is time to. -/
def tell (onProgress : Nat → Nat → Code Unit) (total copied tick : Nat) : Code Nat :=
  if 16 * 1024 * 1024 ≤ copied - tick then do
    onProgress copied total
    return copied
  else return tick

/-- `n` bytes were read, to be added to what is copied; the position of the last report. -/
def copied (onProgress : Nat → Nat → Code Unit) (total done tick n : Nat) :
    Code (Except Err Nat) :=
  if 0 < n then
    ((perform (.writeChunk n)).mapErr (Err.ctx "write dst")).thenOk fun _ => do
      return .ok (← tell onProgress total (done + n) tick)
  else return .ok tick

/-- The loop of `CopyPartition`, for at most so many chunks. -/
def copyLoop (onProgress : Nat → Nat → Code Unit) (total : Nat) :
    Nat → Nat → Nat → Code (Except Err Nat)
  | 0, done, _ => return .ok done
  | chunks + 1, done, tick =>
    if done < total then do
      let want := min chunkBytes (total - done)
      match ← perform (.readChunk want) with
      | .full =>
        (copied onProgress total done tick want).thenOk
          (copyLoop onProgress total chunks (done + want))
      | .eof n => (copied onProgress total done tick n).thenOk fun _ => return .ok (done + n)
      | .failed n e =>
        (copied onProgress total done tick n).thenOk fun _ => return .error (e.ctx "read src")
    else return .ok done

theorem copyLoop_succ (onProgress : Nat → Nat → Code Unit) (total chunks done tick : Nat)
    (h : total - done ≤ chunks * chunkBytes) :
    copyLoop onProgress total (chunks + 1) done tick =
      copyLoop onProgress total chunks done tick := by
  induction chunks generalizing done tick with
  | zero =>
    have hdone : ¬ done < total := by omega
    exact if_neg hdone
  | succ chunks ih =>
    rw [copyLoop, copyLoop.eq_2 onProgress total done tick chunks]
    split
    · refine congrArg (perform (.readChunk _) >>= ·) (funext fun r => ?_)
      cases r with
      | full =>
        refine congrArg (Prog.thenOk _) (funext fun tick => ih _ _ ?_)
        rw [Nat.succ_mul] at h
        omega
      | eof | failed => rfl
    · rfl

theorem copyLoop_chunks (onProgress : Nat → Nat → Code Unit) (total k tick : Nat) :
    copyLoop onProgress total (total / chunkBytes + 1 + k) 0 tick =
      copyLoop onProgress total (total / chunkBytes + 1) 0 tick := by
  induction k with
  | zero => rfl
  | succ k ih =>
    rw [← ih]
    refine copyLoop_succ onProgress total (total / chunkBytes + 1 + k) 0 tick ?_
    have hlt := Nat.lt_div_mul_add (a := total) (b := chunkBytes) (by decide)
    rw [Nat.add_mul, Nat.add_mul, Nat.one_mul]
    omega

def setup (x : CopySetup) : Code (Except Err Unit) :=
  (perform (.copySetup x)).mapErr (Err.ctx x.what)

def copyPartition (srcDev dstDev : String) (count : UInt32) (onProgress : Nat → Nat → Code Unit) :
    Code (Except Err Unit) :=
  let total := count.toNat * sectorSize
  (setup (.openSrc srcDev)).thenOk fun _ => (setup (.openDst dstDev)).thenOk fun _ =>
    (setup .seekSrc).thenOk fun _ => (setup .seekDst).thenOk fun _ =>
      (copyLoop onProgress total (total / chunkBytes + 1) 0 0).thenOk fun done =>
        ((perform .syncCopy).mapErr (Err.ctx "sync dst")).thenOk fun _ => do
          onProgress done total
          return .ok ()

def partitionPath (disk : String) (n : Nat) : String :=
  match disk.toList.getLast? with
  | none => ""
  | some last => if last.isDigit then disk ++ "p" ++ toString n else disk ++ toString n

def rereadPartitions (disk : String) : Code (Except Err Unit) := do
  match ← perform (.exec ["/sbin/blockdev", "--rereadpt", disk]) with
  | .error x => return .error (.wrap ("blockdev --rereadpt " ++ disk ++ ": ") x.err (": " ++ x.out))
  | .ok () => return .ok ()

def partition (disk : String) (l : Layout) : Code (Except Err Unit) := do
  report .partition 0 "writing MBR"
  (perform (.writeMBR disk l)).thenOk fun _ => do
    -- best effort: the steps that mount fail loudly
    match ← rereadPartitions disk with
    | .error e => report .partition 100 ("warning: kernel re-read failed: " ++ e.msg)
    | .ok () => report .partition 100 "partition table written"
    return .ok ()

/-- `waitForPath`, then `CopyPartition`, as for the boot partition and the two slots. -/
def writePartition (phase : Phase) (what src dst : String) (sectors : UInt32) :
    Code (Except Err Unit) :=
  ((perform (.waitForPath dst)).mapErr (Err.ctx ("waiting for " ++ dst))).thenOk fun _ =>
    (copyPartition src dst sectors (copyProgress phase)).mapErr (Err.ctx ("copy " ++ what))

def patchBoot (tgtBoot : String) : Code (Except Err Unit) := do
  report .patchBoot 0 "patching grub.cfg for runtime disk + seeding slot_b kernel"
  ((perform (.patchBootGrubCfg tgtBoot)).mapErr (Err.ctx "patch boot")).thenOk fun _ => do
    report .patchBoot 100 "grub.cfg patched"
    return .ok ()

def initLVM (tgtPerm : String) : Code (Except Err Unit) := do
  report .initLVM 0 ("creating PV + VG + meta LV on " ++ tgtPerm)
  ((perform (.waitForPath tgtPerm)).mapErr (Err.ctx ("waiting for " ++ tgtPerm))).thenOk fun _ =>
    ((perform (.initTargetLVM tgtPerm)).mapErr (Err.ctx "init lvm")).thenOk fun _ => do
      report .initLVM 100 "PV + VG + meta + thinpool created"
      return .ok ()

section

variable (ps : Params)

def deriveShortID (capsuleID : String) : String :=
  match ps.codec.uuidHead capsuleID with
  | none => ""
  | some x => "capsule-" ++ x

def buildFirstBootBundle (req : Request) : Code (Except Err FirstBootBundle) := do
  let capsuleID ← perform .newUUID
  ((perform (.generateCert capsuleID)).mapErr (Err.ctx "generate tls")).thenOk fun x =>
    return .ok ⟨capsuleID, deriveShortID ps capsuleID, ps.certPEM x.1, ps.keyPEM x.2,
      ps.b64stdEncode req.operatorPubkey, req.operatorName⟩

def fingerprintFromPEM (certPEM : String) : Except Err String :=
  match ps.certBlock certPEM with
  | none => .error (.text "no CERTIFICATE block in PEM")
  | some der => .ok (ps.fingerprintRaw der)

end

def mountTarget : String := "/mnt/perm-target"

def umount : Code Unit := do
  let _ ← perform (.exec ["/bin/umount", mountTarget])
  return ()

/-- What follows the write, errors dropped: the directories the disk expects, and `sync`. -/
def settle : Code Unit := do
  let _ ← perform (.mkdirAll (mountTarget ++ "/capsule"))
  let _ ← perform (.mkdirAll (mountTarget ++ "/containerd"))
  let _ ← perform (.mkdirAll (mountTarget ++ "/containerd/root"))
  let _ ← perform (.mkdirAll (mountTarget ++ "/tls"))
  let _ ← perform (.exec ["/bin/sync"])
  return ()

def writeFirstBootBundle (b : FirstBootBundle) : Code (Except Err Unit) :=
  ((perform (.mkdirAll mountTarget)).mapErr (Err.ctx ("mkdir " ++ mountTarget))).thenOk fun _ => do
    let _ ← perform (.exec ["/sbin/modprobe", "ext4"])
    match ← perform (.exec ["/bin/mount", "-t", "ext4", "/dev/mapper/capsule-meta",
      mountTarget]) with
    | .error x => return .error (.wrap "mount /dev/mapper/capsule-meta: " x.err (": " ++ x.out))
    | .ok () =>
      match ← perform (.writeBundle b) with
      | .error e =>
        umount
        return .error (e.ctx ("write " ++ mountTarget ++ "/firstboot.json"))
      | .ok () =>
        settle
        umount
        return .ok ()

def sealFirstboot (ps : Params) (req : Request) : Code (Except Err Result) :=
  if req.sealKey = true ∧ 0 < req.operatorPubkey.length then do
    report .sealFirstboot 0 "generating disk identity + sealing operator key"
    (buildFirstBootBundle ps req).thenOk fun b =>
      ((writeFirstBootBundle b).mapErr (Err.ctx "write firstboot bundle")).thenOk fun _ =>
        match fingerprintFromPEM ps b.tlsCertPEM with
        | .error e => return .error e
        | .ok fp => do
          report .sealFirstboot 100 "firstboot.json written"
          return .ok ⟨b.capsuleID, b.shortID, fp, kidFromPubkey ps.codec req.operatorPubkey⟩
  else do
    report .sealFirstboot 100 "seal=false; disk will open a claim window on first boot"
    return .ok {}

def sync : Code Unit := do
  report .sync 0 "flushing buffers"
  let _ ← perform (.exec ["/bin/sync"])
  match ← perform (.exec ["/sbin/vgchange", "-an", "capsule"]) with
  | .error x => report .sync 50 ("warning: vgchange -an failed: " ++ x.err.msg)
  | .ok () => pure ()
  report .sync 100 ""

/-! ## `Run` and the handler -/

structure Installer where
  usbBootDisk : String
  targets : List TargetDisk

def Installer.resolveTarget (i : Installer) (req : String) : Except Err TargetDisk :=
  match i.targets with
  | [] => .error (.text "no candidate target disks")
  | first :: _ =>
    if req = "" then .ok first
    else
      match i.targets.find? fun t => t.path = req with
      | some t => .ok t
      | none => .error (.text ("target " ++ req ++ " not a viable candidate (available: " ++
          ", ".intercalate (i.targets.map TargetDisk.path) ++ ")"))

/-- From the partition table to the empty PERM volume. -/
def Installer.flash (i : Installer) (target : TargetDisk) (l : Layout) : Code (Except Err Unit) :=
  let part := partitionPath target.path
  let usb := partitionPath i.usbBootDisk
  (partition target.path l).thenOk fun _ =>
    (writePartition .writeBoot "boot" (usb 1) (part 1) l.bootSectors).thenOk fun _ =>
      (patchBoot (part 1)).thenOk fun _ =>
        (writePartition .writeSlotA "slot_a" (usb 2) (part 2) l.slotASectors).thenOk fun _ =>
          (writePartition .writeSlotB "slot_b" (usb 2) (part 3) l.slotBSectors).thenOk fun _ =>
            initLVM (part 4)

/-- The checks of `Run` before it writes. -/
def Installer.verify (i : Installer) (req : Request) : Code (Except Err (TargetDisk × Layout)) := do
  report .verify 0 "checking target disk"
  match i.resolveTarget req.targetDisk with
  | .error e => return .error e
  | .ok target =>
    if i.usbBootDisk = "" then return .error (.text "installer has no source boot disk")
    else if i.usbBootDisk = target.path then
      return .error (.text ("refusing to install onto the boot disk " ++ target.path))
    else
      report .verify 100
        ("target=" ++ target.path ++ " (" ++ toString target.sizeBytes.toNat ++ " bytes)")
      match layoutForDisk target.sizeBytes with
      | .error e => return .error (e.ctx "layout")
      | .ok l => return .ok (target, l)

def Installer.run (ps : Params) (i : Installer) (req : Request) : Code (Except Err Result) :=
  (i.verify req).thenOk fun x => (i.flash x.1 x.2).thenOk fun _ =>
    (sealFirstboot ps req).thenOk fun result => do
      sync
      return .ok result

structure InstallRequest where
  targetDisk : String
  operatorPubkey : Bytes
  operatorName : String
  sealKey : Bool

structure InstallController where
  usbBootDisk : String
  targets : List TargetDisk

/-- `Install`. A request that carries a key is sealed, whatever it asks for. -/
def InstallController.install (ps : Params) (c : InstallController) (req : InstallRequest) :
    Code (Except Failure Unit) :=
  if c.usbBootDisk = "" then
    .ret (.error (.status ⟨.failedPrecondition, "installer has no source disk; cannot flash"⟩))
  else if c.targets.isEmpty then
    .ret (.error (.status ⟨.failedPrecondition, "no candidate target disks"⟩))
  else do
    match ← Installer.run ps ⟨c.usbBootDisk, c.targets⟩ ⟨req.targetDisk, req.operatorPubkey,
        req.operatorName, req.sealKey || 0 < req.operatorPubkey.length⟩ with
    | .error e => return .error (.status ⟨.internal, "install failed: " ++ e.msg⟩)
    | .ok result =>
      match ← perform (.send ⟨.done, 100, "install complete; remove USB and power-cycle",
        some result⟩) with
      | .error e => return .error (.send e)
      | .ok () => return .ok ()

/-- The operation neither writes `firstboot.json` nor sends the result. -/
def Op.early : Op → Bool
  | .writeBundle _ => false
  | .send m => m.result.isNone
  | _ => true

/-- What is left to do once `firstboot.json` is written, the result apart. -/
def Op.late : Op → Bool
  | .send m => m.result.isNone
  | .exec _ | .mkdirAll _ => true
  | _ => false

theorem Op.early_of_late {o : Op} (h : o.late = true) : o.early = true := by
  cases o with
  | send m => exact h
  | exec | mkdirAll => rfl
  | _ => cases h

inductive Stage where
  | before
  | failed
  | written
  | told
  | unheard

def Stage.afterSend (g : Stage) (m : InstallProgress) : Except Err Unit → Stage
  | .ok _ => if m.result.isNone then g else .told
  | .error _ => if m.result.isNone then g else .unheard

/-- The monitor of a call that carries the key `P`. -/
def duty (ps : Params) (P : Bytes) : Monitor Op Res (Except Failure Unit) Stage where
  ok
    | .before, .writeBundle b => ps.codec.b64std b.operatorPubkey = some P
    | .before, _ => True
    | .failed, o => o.late = true
    | .written, .send _ => True
    | .written, o => o.late = true
    | _, _ => False
  next
    | .before, .writeBundle _, .ok _ => .written
    | .before, .writeBundle _, .error _ => .failed
    | g, .send m, r => g.afterSend m r
    | g, _, _ => g
  fin
    | .written, _ => False
    | .told, r => r = .ok ()
    | _, r => ∃ x, r = .error x

section Duty

variable {ps : Params} {P : Bytes} {α : Type} {p : Code α}

theorem early_stays (h : p.Only fun o => o.early = true) :
    p.Obeys ((duty ps P).post fun g _ => g = .before) .before := by
  refine h.obeys ?_ ?_ fun _ => rfl
  · intro o ho
    cases o with
    | writeBundle b => cases ho
    | _ => trivial
  · intro o r ho
    cases o with
    | writeBundle b => cases ho
    | send m =>
      have hm : m.result.isNone = true := ho
      cases r <;> simp only [Monitor.post_next, duty, Stage.afterSend, hm, if_true]
    | _ => rfl

theorem late_stays {g : Stage} (hg : g = .failed ∨ g = .written)
    (h : p.Only fun o => o.late = true) : p.Obeys ((duty ps P).post fun g' _ => g' = g) g := by
  refine h.obeys ?_ ?_ fun _ => rfl
  · intro o ho
    rcases hg with rfl | rfl <;> cases o <;> first | exact ho | trivial
  · intro o r ho
    cases o with
    | send m =>
      have hm : m.result.isNone = true := ho
      rcases hg with rfl | rfl <;> cases r <;>
        simp only [Monitor.post_next, duty, Stage.afterSend, hm, if_true]
    | exec | mkdirAll => rcases hg with rfl | rfl <;> rfl
    | _ => cases ho

end Duty

theorem report_late (phase : Phase) (percent : Nat) (message : String) :
    (report phase percent message).Only fun o => o.late = true :=
  ⟨rfl, fun _ => trivial⟩

theorem umount_late : umount.Only fun o => o.late = true := ⟨rfl, fun _ => trivial⟩

theorem settle_late : settle.Only fun o => o.late = true :=
  ⟨rfl, fun _ => ⟨rfl, fun _ => ⟨rfl, fun _ => ⟨rfl, fun _ => ⟨rfl, fun _ => trivial⟩⟩⟩⟩⟩

theorem sync_late : sync.Only fun o => o.late = true := by
  refine (report_late _ _ _).bind fun _ => ⟨rfl, fun _ => ⟨rfl, fun r => ?_⟩⟩
  cases r with
  | ok _ => exact report_late _ _ _
  | error x => exact (report_late _ _ _).bind fun _ => report_late _ _ _

section Early

theorem perform_early {o : Op} (h : o.early = true) :
    (perform o).Only fun o => o.early = true := ⟨h, fun _ => trivial⟩

theorem late_early {α : Type} {p : Code α} (h : p.Only fun o => o.late = true) :
    p.Only fun o => o.early = true := h.mono fun _ => Op.early_of_late

theorem report_early (phase : Phase) (percent : Nat) (message : String) :
    (report phase percent message).Only fun o => o.early = true :=
  late_early (report_late phase percent message)

theorem copyProgress_early (phase : Phase) (done total : Nat) :
    (copyProgress phase done total).Only fun o => o.early = true :=
  Prog.Only.ite (report_early _ _ _) (report_early _ _ _)

theorem copied_early (phase : Phase) (total done tick n : Nat) :
    (copied (copyProgress phase) total done tick n).Only fun o => o.early = true := by
  refine .ite ((perform_early rfl).mapErr.thenOk fun _ => Prog.Only.bind ?_ ?_) trivial
  · exact .ite ((copyProgress_early _ _ _).bind fun _ => trivial) trivial
  · exact fun _ => trivial

theorem copyLoop_early (phase : Phase) (total chunks done tick : Nat) :
    (copyLoop (copyProgress phase) total chunks done tick).Only fun o => o.early = true := by
  induction chunks generalizing done tick with
  | zero => trivial
  | succ chunks ih =>
    refine .ite ⟨rfl, fun r => ?_⟩ trivial
    cases r with
    | full => exact (copied_early _ _ _ _ _).thenOk fun _ => ih _ _
    | eof n => exact (copied_early _ _ _ _ _).thenOk fun _ => trivial
    | failed n e => exact (copied_early _ _ _ _ _).thenOk fun _ => trivial

theorem writePartition_early (phase : Phase) (what src dst : String) (sectors : UInt32) :
    (writePartition phase what src dst sectors).Only fun o => o.early = true := by
  have hsetup : ∀ x, (setup x).Only fun o => o.early = true :=
    fun x => (perform_early rfl).mapErr
  refine (perform_early rfl).mapErr.thenOk fun _ => Prog.Only.mapErr ?_
  refine (hsetup _).thenOk fun _ => (hsetup _).thenOk fun _ => (hsetup _).thenOk fun _ =>
    (hsetup _).thenOk fun _ => (copyLoop_early _ _ _ _ _).thenOk fun done => ?_
  exact (perform_early rfl).mapErr.thenOk fun _ =>
    (copyProgress_early _ _ _).bind fun _ => trivial

theorem partition_early (disk : String) (l : Layout) :
    (partition disk l).Only fun o => o.early = true := by
  refine (report_early _ _ _).bind fun _ => (perform_early rfl).thenOk fun _ => ⟨rfl, fun r => ?_⟩
  cases r with
  | ok _ => exact (report_early _ _ _).bind fun _ => trivial
  | error x => exact (report_early _ _ _).bind fun _ => trivial

theorem flash_early (i : Installer) (target : TargetDisk) (l : Layout) :
    (i.flash target l).Only fun o => o.early = true := by
  refine (partition_early _ _).thenOk fun _ => (writePartition_early _ _ _ _ _).thenOk fun _ => ?_
  refine .thenOk ?_ fun _ => ?_
  · exact (report_early _ _ _).bind fun _ => (perform_early rfl).mapErr.thenOk fun _ =>
      (report_early _ _ _).bind fun _ => trivial
  refine (writePartition_early _ _ _ _ _).thenOk fun _ =>
    (writePartition_early _ _ _ _ _).thenOk fun _ => ?_
  exact (report_early _ _ _).bind fun _ => (perform_early rfl).mapErr.thenOk fun _ =>
    (perform_early rfl).mapErr.thenOk fun _ => (report_early _ _ _).bind fun _ => trivial

theorem verify_early (i : Installer) (req : Request) :
    (i.verify req).Only fun o => o.early = true := by
  refine (report_early _ _ _).bind fun _ => ?_
  cases i.resolveTarget req.targetDisk with
  | error e => trivial
  | ok target =>
    refine .ite trivial (.ite trivial ((report_early _ _ _).bind fun _ => ?_))
    cases layoutForDisk target.sizeBytes <;> trivial

end Early

/-! ### The call as a whole -/

section Handler

variable {ps : Params} {P : Bytes} {α : Type}

/-- A piece of the call that succeeds leaves it in one of the stages `good`; one that fails has not
written the bundle. -/
def Ends (good : Stage → Prop) (g : Stage) : Except Err α → Prop
  | .ok _ => good g
  | .error _ => g = .before ∨ g = .failed

theorem early_ends {p : Code (Except Err α)} (h : p.Only fun o => o.early = true) :
    p.Obeys ((duty ps P).post (Ends (· = .before))) .before := by
  refine (early_stays h).mono ?_
  rintro g (e | a) hg
  · exact .inl hg
  · exact hg

/-- The rule for the phases of `Run`. -/
theorem ends_thenOk {β : Type} {good good' : Stage → Prop} {g : Stage} {p : Code (Except Err α)}
    {f : α → Code (Except Err β)} (h : p.Obeys ((duty ps P).post (Ends good)) g)
    (hf : ∀ a g', good g' → (f a).Obeys ((duty ps P).post (Ends good')) g') :
    (p.thenOk f).Obeys ((duty ps P).post (Ends good')) g := by
  refine Prog.obeys_thenOk.mpr (h.mono ?_)
  rintro g' (e | a) hg
  · exact hg
  · exact hf a g' hg

theorem ends_mapErr {good : Stage → Prop} {g : Stage} {p : Code (Except Err α)} {k : Err → Err}
    (h : p.Obeys ((duty ps P).post (Ends good)) g) :
    (p.mapErr k).Obeys ((duty ps P).post (Ends good)) g := by
  refine Prog.obeys_mapErr.mpr (h.mono ?_)
  rintro g' (e | a) hg <;> exact hg

theorem early_bind {β : Type} {Q : Stage → β → Prop} {p : Code α} {f : α → Code β}
    (h : p.Only fun o => o.early = true)
    (hf : ∀ a, (f a).Obeys ((duty ps P).post Q) .before) :
    (p >>= f).Obeys ((duty ps P).post Q) .before := by
  refine Prog.obeys_bind.mpr ((early_stays h).mono ?_)
  rintro _ a rfl
  exact hf a

theorem late_bind {β : Type} {Q : Stage → β → Prop} {p : Code α} {f : α → Code β} {g : Stage}
    (hg : g = .failed ∨ g = .written) (h : p.Only fun o => o.late = true)
    (hf : ∀ a, (f a).Obeys ((duty ps P).post Q) g) :
    (p >>= f).Obeys ((duty ps P).post Q) g := by
  refine Prog.obeys_bind.mpr ((late_stays hg h).mono ?_)
  rintro _ a rfl
  exact hf a

theorem writeFirstBootBundle_ends {b : FirstBootBundle}
    (hb : ps.codec.b64std b.operatorPubkey = some P) :
    (writeFirstBootBundle b).Obeys ((duty ps P).post (Ends (· = .written))) .before := by
  refine ends_thenOk (early_ends (perform_early rfl).mapErr) ?_
  rintro _ _ rfl
  refine ⟨trivial, fun _ => ⟨trivial, fun r => ?_⟩⟩
  cases r with
  | error x => exact .inl rfl
  | ok _ =>
    refine ⟨hb, fun r => ?_⟩
    cases r with
    | error e =>
      change (umount >>= fun _ => _).Obeys ((duty ps P).post (Ends (· = .written))) .failed
      exact late_bind (.inl rfl) umount_late fun _ => .inr rfl
    | ok _ =>
      change (settle >>= fun _ => umount >>= fun _ => _).Obeys
        ((duty ps P).post (Ends (· = .written))) .written
      exact late_bind (.inr rfl) settle_late fun _ => late_bind (.inr rfl) umount_late fun _ => rfl

theorem buildFirstBootBundle_made (req : Request) (hkey : req.operatorPubkey = P) :
    (buildFirstBootBundle ps req).Obeys ((duty ps P).post fun g r => g = .before ∧
      ∀ b, r = .ok b → ps.codec.b64std b.operatorPubkey = some P ∧
        ∃ der, b.tlsCertPEM = ps.certPEM der) .before := by
  refine ⟨trivial, fun id => ⟨trivial, fun r => ?_⟩⟩
  cases r with
  | error e => exact ⟨rfl, fun b h => by cases h⟩
  | ok x =>
    refine ⟨rfl, ?_⟩
    rintro b ⟨⟩
    exact ⟨hkey ▸ ps.b64std_encode _, x.1, rfl⟩

theorem sealFirstboot_ends (req : Request) (hkey : req.operatorPubkey = P) :
    (sealFirstboot ps req).Obeys
      ((duty ps P).post (Ends fun g => g = .before ∨ g = .written)) .before := by
  unfold sealFirstboot
  split
  · refine early_bind (report_early _ _ _) fun _ => ?_
    refine Prog.obeys_thenOk.mpr ((buildFirstBootBundle_made req hkey).mono ?_)
    rintro _ (e | b) ⟨rfl, hmade⟩
    · exact .inl rfl
    obtain ⟨hb, der, hcert⟩ := hmade b rfl
    refine ends_thenOk (ends_mapErr (writeFirstBootBundle_ends hb)) ?_
    rintro _ _ rfl
    -- so the fingerprint cannot fail
    rw [hcert, fingerprintFromPEM, ps.certBlock_certPEM]
    exact late_bind (.inr rfl) (report_late _ _ _) fun _ => .inr rfl
  · exact early_bind (report_early _ _ _) fun _ => .inl rfl

theorem run_ends (i : Installer) (req : Request) (hkey : req.operatorPubkey = P) :
    (i.run ps req).Obeys ((duty ps P).post (Ends fun g => g = .before ∨ g = .written)) .before := by
  refine ends_thenOk (early_ends (verify_early i req)) ?_
  rintro x _ rfl
  refine ends_thenOk (early_ends (flash_early i x.1 x.2)) ?_
  rintro _ _ rfl
  refine ends_thenOk (sealFirstboot_ends req hkey) ?_
  rintro result g (rfl | rfl)
  · exact early_bind (late_early sync_late) fun _ => .inl rfl
  · exact late_bind (.inr rfl) sync_late fun _ => .inr rfl

theorem install_duty (ps : Params) (c : InstallController) (req : InstallRequest) :
    (c.install ps req).Obeys (duty ps req.operatorPubkey) .before := by
  refine .ite (fun _ => ⟨_, rfl⟩) fun _ => Prog.Obeys.ite (fun _ => ⟨_, rfl⟩) fun _ => ?_
  refine Prog.obeys_bind.mpr (Prog.Obeys.mono (run_ends _ _ ?_) ?_)
  · rfl
  rintro g (e | result) hg
  · rcases hg with rfl | rfl <;> exact ⟨_, rfl⟩
  · rcases hg with rfl | rfl
    all_goals
      refine ⟨trivial, fun r => ?_⟩
      cases r with
      | error e => exact ⟨_, rfl⟩
      | ok _ => rfl

end Handler

end Capsule.Install
