import Capsule.Install.Installer

/-!
# Capsule.Boot.InstallerMode

How capsuled comes to be an installer, and onto which disks: `DetectInstallerMode` of
`boot/install_linux.go`, with the choice that `Installer.Run` makes among its candidates.

* `Viable`: what the scan of `/sys/class/block` takes for a disk to install on.
* `scan_finds_boot_disk_iff`: the scan leaves the boot disk out only when it is told to.
* `candidates_leave_out_boot_disk_iff`: so it is a candidate exactly if the command line has the
  installer's flag and the disk itself is viable; and an install without a target is onto another
  disk whenever it is none.
-/

namespace Capsule.Boot

open GoPath GoString

/-- A machine with what the scan reads of each device. -/
structure Hardware extends Machine where
  /-- The content of `/sys/block/<name>/removable`. -/
  removable : Text → Option Text
  /-- The content of `/sys/block/<name>/size`. -/
  size : Text → Option Text
  /-- The entries of a directory have the names of files. -/
  legal : ∀ listed, entries = some listed → ∀ e ∈ listed, e.name ≠ [] ∧ slash ∉ e.name

structure TargetDisk where
  path : Text
  sizeBytes : UInt64
  reinstall : Bool
  deriving DecidableEq

def minTargetSizeBytes : UInt64 := 16 * 1024 * 1024 * 1024

def cmdlineHasInstallerFlag (m : Machine) : Bool :=
  match m.cmdline with
  | none => false
  | some cmdline => (fields cmdline).any fun tok => tok = utf8 "capsule.mode=installer"

def isVirtualBlock (e : Entry) : Bool :=
  match e.target with
  | none => false
  | some target => utf8 "/devices/virtual/" <:+: target.text

section Scan

variable (toLower : Text → Text) (h : Hardware)

def isRemovableBlock (name : Text) : Bool :=
  match h.removable name with
  | none => false
  | some b => trimSpace b = utf8 "1"

/-- The product wraps around. -/
def blockSizeBytes (name : Text) : Option UInt64 :=
  match h.size name with
  | none => none
  | some b => (parseUint (trimSpace b)).toOption.map fun n => .ofNat (n * 512)

/-- The body of the loop of `scanTargetDisks`. -/
def targetDisk? (bootBase : Text) (e : Entry) : Option TargetDisk :=
  if e.name = bootBase then none
  else if e.isPartition then none
  else if isVirtualBlock e then none
  else if isRemovableBlock h e.name then none
  else
    match blockSizeBytes h e.name with
    | none => none
    | some size =>
      if size < minTargetSizeBytes then none
      else some ⟨devPath e.name, size, hasCapsuleMBR (h.read (devPath e.name))⟩

def scanTargetDisks (skipBootDisk : Bool) : List TargetDisk :=
  let bootBase :=
    if skipBootDisk then
      match bootDisk toLower h.toMachine with
      | .ok dev => base dev
      | .error _ => []
    else []
  match h.entries with
  | none => []
  | some entries => entries.filterMap (targetDisk? h bootBase)

def detectInstallerMode : Bool × List TargetDisk :=
  if cmdlineHasInstallerFlag h.toMachine then (true, scanTargetDisks toLower h false)
  else
    match bootDisk toLower h.toMachine with
    | .error _ => (false, [])
    | .ok bootDev =>
      if !isRemovableBlock h (base bootDev) then (false, [])
      else
        let targets := scanTargetDisks toLower h true
        if targets.length = 0 then (false, []) else (true, targets)

end Scan

section Candidates

variable {toLower : Text → Text} {h : Hardware} {disk bootBase : Text} {e : Entry} {t : TargetDisk}

/-- A device that the scan takes for a disk to install on. -/
structure Viable (h : Hardware) (e : Entry) : Prop where
  whole : e.isPartition = false
  physical : isVirtualBlock e = false
  fixed : isRemovableBlock h e.name = false
  large : ∃ size, blockSizeBytes h e.name = some size ∧ minTargetSizeBytes ≤ size

/-- The disk of this name is listed, and viable. -/
def ViableDisk (h : Hardware) (disk : Text) : Prop :=
  ∃ entries, h.entries = some entries ∧ ∃ e ∈ entries, e.name = disk ∧ Viable h e

theorem targetDisk?_eq_some_iff :
    targetDisk? h bootBase e = some t ↔ e.name ≠ bootBase ∧ Viable h e ∧ t.path = devPath e.name ∧
      blockSizeBytes h e.name = some t.sizeBytes ∧
      t.reinstall = hasCapsuleMBR (h.read (devPath e.name)) := by
  unfold targetDisk?
  constructor
  · intro ht
    split at ht
    · cases ht
    · rename_i hname
      split at ht
      · cases ht
      · rename_i hpart
        split at ht
        · cases ht
        · rename_i hvirtual
          split at ht
          · cases ht
          · rename_i hremovable
            split at ht
            · cases ht
            · rename_i size hsize
              split at ht
              · cases ht
              · rename_i hlarge
                cases ht
                refine ⟨hname, ⟨?_, ?_, ?_, size, hsize, UInt64.not_lt.mp hlarge⟩, rfl, hsize, rfl⟩
                · exact Bool.eq_false_iff.mpr hpart
                · exact Bool.eq_false_iff.mpr hvirtual
                · exact Bool.eq_false_iff.mpr hremovable
  · rintro ⟨hname, ⟨hwhole, hphysical, hfixed, size, hsize, hlarge⟩, hpath, hsize', hre⟩
    rw [hsize] at hsize'
    rw [if_neg hname, hwhole, hphysical, hfixed, hsize]
    have hnot : ¬ size < minTargetSizeBytes := UInt64.not_lt.mpr hlarge
    simp only [Bool.false_eq_true, if_false, if_neg hnot, Option.some.injEq]
    obtain ⟨path, sizeBytes, reinstall⟩ := t
    cases hsize'
    cases hpath
    cases hre
    rfl

theorem base_devPath {entries : List Entry} (hentries : h.entries = some entries)
    (he : e ∈ entries) : base (devPath e.name) = e.name := by
  obtain ⟨hne, hslash⟩ := h.legal entries hentries e he
  exact base_append (a := utf8 "/dev") hne hslash

theorem exists_mem_filterMap_iff {entries : List Entry} :
    (∃ t ∈ entries.filterMap (targetDisk? h bootBase), t.path = devPath disk) ↔
      disk ≠ bootBase ∧ ∃ e ∈ entries, e.name = disk ∧ Viable h e := by
  constructor
  · rintro ⟨t, ht, hpath⟩
    obtain ⟨e, he, het⟩ := List.mem_filterMap.mp ht
    obtain ⟨hname, hviable, hdev, -⟩ := targetDisk?_eq_some_iff.mp het
    have hdisk : e.name = disk := devPath_inj (hdev.symm.trans hpath)
    exact ⟨hdisk ▸ hname, e, he, hdisk, hviable⟩
  · rintro ⟨hname, e, he, rfl, hviable⟩
    obtain ⟨size, hsize, -⟩ := hviable.large
    exact ⟨⟨devPath e.name, size, hasCapsuleMBR (h.read (devPath e.name))⟩,
      List.mem_filterMap.mpr ⟨e, he, targetDisk?_eq_some_iff.mpr
        ⟨hname, hviable, rfl, hsize, rfl⟩⟩, rfl⟩

theorem bootDisk_listed (hboot : bootDisk toLower h.toMachine = .ok (devPath disk)) :
    ∃ entries, h.entries = some entries ∧ ∃ e ∈ entries, e.name = disk := by
  unfold bootDisk at hboot
  split at hboot
  · cases hboot
  · split at hboot
    · cases hboot
    · rename_i entries hentries
      split at hboot
      · rename_i e hfind
        exact ⟨entries, hentries, e, List.mem_of_find?_eq_some hfind,
          devPath_inj (Except.ok.inj hboot)⟩
      · cases hboot

theorem scan_finds_boot_disk_iff (hboot : bootDisk toLower h.toMachine = .ok (devPath disk))
    (skipBootDisk : Bool) :
    (∃ t ∈ scanTargetDisks toLower h skipBootDisk, t.path = devPath disk) ↔
      skipBootDisk = false ∧ ViableDisk h disk := by
  obtain ⟨entries, hentries, e, he, rfl⟩ := bootDisk_listed hboot
  have hviable : ViableDisk h e.name ↔ ∃ e' ∈ entries, e'.name = e.name ∧ Viable h e' := by
    unfold ViableDisk; rw [hentries]; simp only [Option.some.injEq, exists_eq_left']
  rw [hviable]
  cases skipBootDisk with
  | true =>
    simp only [scanTargetDisks, hboot, hentries, if_true, base_devPath hentries he,
      exists_mem_filterMap_iff]
    simp
  | false =>
    simp only [scanTargetDisks, hentries, Bool.false_eq_true, if_false, exists_mem_filterMap_iff]
    have hne := (h.legal entries hentries e he).1
    simp [hne]

theorem detect_finds_boot_disk_iff (hboot : bootDisk toLower h.toMachine = .ok (devPath disk)) :
    (∃ t ∈ (detectInstallerMode toLower h).2, t.path = devPath disk) ↔
      cmdlineHasInstallerFlag h.toMachine ∧ ViableDisk h disk := by
  unfold detectInstallerMode
  split
  · rename_i hflag; rw [scan_finds_boot_disk_iff hboot]; simp [hflag]
  · rename_i hflag
    have hscan := scan_finds_boot_disk_iff hboot true
    refine iff_of_false ?_ fun hc => hflag hc.1
    rintro ⟨t, ht, hpath⟩
    simp only [hboot] at ht
    split at ht
    · cases ht
    · split at ht
      · cases ht
      · exact absurd (hscan.mp ⟨t, ht, hpath⟩).1 (by decide)

end Candidates

open Install (Installer)

/-- The installer that is run with the candidates found. -/
def installer (usbBootDisk : Text) (targets : List TargetDisk) : Installer :=
  ⟨ofBytes usbBootDisk, targets.map fun t => ⟨ofBytes t.path, t.sizeBytes⟩⟩

theorem resolveTarget_installer {usb : Text} {targets : List TargetDisk} {t : Install.TargetDisk}
    (ht : (installer usb targets).resolveTarget "" = .ok t) :
    ∃ x ∈ targets, ⟨ofBytes x.path, x.sizeBytes⟩ = t := by
  cases targets with
  | nil => cases ht
  | cons x targets => exact ⟨x, List.mem_cons_self, Except.ok.inj ht⟩

theorem ofBytes_inj {a b : Bytes} (hab : ofBytes a = ofBytes b) : a = b := by
  rw [← toBytes_ofBytes a, hab, toBytes_ofBytes]

/-- The boot disk is not among the candidates exactly if it was looked for or is none itself: the
command line does not carry the installer's flag, or the boot disk is not viable. Then an install
that names no target is not onto it. -/
theorem candidates_leave_out_boot_disk_iff (toLower : Text → Text) (h : Hardware) (disk : Text)
    (hboot : bootDisk toLower h.toMachine = .ok (devPath disk)) :
    ((∀ t ∈ (detectInstallerMode toLower h).2, t.path ≠ devPath disk) ↔
        ¬ (cmdlineHasInstallerFlag h.toMachine ∧ ViableDisk h disk)) ∧
      (¬ (cmdlineHasInstallerFlag h.toMachine ∧ ViableDisk h disk) →
        ∀ t, (installer (devPath disk) (detectInstallerMode toLower h).2).resolveTarget "" = .ok t →
          t.path ≠ ofBytes (devPath disk)) := by
  have hiff := detect_finds_boot_disk_iff hboot
  have hnone : ¬ (cmdlineHasInstallerFlag h.toMachine ∧ ViableDisk h disk) →
      ∀ t ∈ (detectInstallerMode toLower h).2, t.path ≠ devPath disk :=
    fun hcond t ht hpath => hcond (hiff.mp ⟨t, ht, hpath⟩)
  refine ⟨⟨?_, hnone⟩, ?_⟩
  · intro hall hcond; obtain ⟨t, ht, hpath⟩ := hiff.mpr hcond; exact hall t ht hpath
  · intro hcond t ht hpath
    obtain ⟨x, hx, rfl⟩ := resolveTarget_installer ht
    exact hnone hcond x hx (ofBytes_inj hpath)

/-- Booted from the stick `sda`, with the disk `sdb` attached, both of 32 GiB; `options` go on the
command line, and the firmware says `removable` of the stick. -/
def stickAndDisk (options removable : String) : Hardware where
  cmdline := some (utf8 ("root=PARTUUID=b1a570ff-02 ro " ++ options ++ "\n"))
  entries := some [wholeDisk "sda", partitionEntry "sda" "sda2" "2", wholeDisk "sdb"]
  read path := if path = utf8 "/dev/sda" then some installed else none
  removable name := some (utf8 (if name = utf8 "sda" then removable else "0\n"))
  size _ := some (utf8 "67108864\n")
  legal := by
    intro listed hlisted; cases hlisted; decide +kernel

theorem candidates_leave_out_removable_stick :
    let h := stickAndDisk "capsule.slot=a" "1\n"
    detectInstallerMode (List.map lower) h =
        (true, [⟨utf8 "/dev/sdb", 34359738368, false⟩]) ∧
      ∀ t ∈ (detectInstallerMode (List.map lower) h).2, t.path ≠ devPath (utf8 "sda") := by
  intro h
  refine ⟨by decide +kernel, ?_⟩
  refine (candidates_leave_out_boot_disk_iff (List.map lower) h (utf8 "sda")
    (by decide +kernel)).1.mpr ?_
  rintro ⟨hflag, -⟩
  revert hflag
  decide +kernel

/-- A stick that does not say it is removable, with the installer's image on it. It comes first, so
an install without a target is onto it, and is refused, with `sdb` there. -/
theorem stick_is_candidate :
    let h := stickAndDisk "capsule.slot=a capsule.mode=installer" "0\n"
    bootDisk (List.map lower) h.toMachine = .ok (devPath (utf8 "sda")) ∧
      detectInstallerMode (List.map lower) h =
        (true, [⟨devPath (utf8 "sda"), 34359738368, true⟩,
          ⟨devPath (utf8 "sdb"), 34359738368, false⟩]) ∧
      (installer (devPath (utf8 "sda")) (detectInstallerMode (List.map lower) h).2).resolveTarget
        "" = .ok ⟨ofBytes (devPath (utf8 "sda")), 34359738368⟩ := by
  intro h
  have hdetect : detectInstallerMode (List.map lower) h =
      (true, [⟨devPath (utf8 "sda"), 34359738368, true⟩,
        ⟨devPath (utf8 "sdb"), 34359738368, false⟩]) := by
    decide +kernel
  refine ⟨by decide +kernel, hdetect, ?_⟩
  rw [hdetect]
  rfl

end Capsule.Boot
