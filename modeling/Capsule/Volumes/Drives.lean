import Capsule.Volumes.Service

/-!
# Capsule.Volumes.Drives

The drives a microVM is started with, and the devices that the guest is told to mount: the drive
list of `EnsureRunning` and `prepareVolumeDrives` of the firecracker driver. The guest's kernel
names a disk by its place in that list (`diskName`), while the driver counts a letter of its own.

* `attachVolumes_ok`: what the loop over the mounts makes of them.
* `sanitizeID_inj`: two volumes never share a drive id.
* `device_eq_iff`: the driver's letter is the kernel's name up to `z`.
* `devices_lineUp_iff`: so the devices line up exactly for at most 24 mounts.
-/

namespace Capsule.Volumes.Drives

open Workloads
open Containerd (VolumeMount)
open Maintenance (hostPath validateName nameMatches_of_validateName)

structure Drive where
  driveID : String
  pathOnHost : String
  isRootDevice : Bool
  isReadOnly : Bool
  deriving DecidableEq

structure GuestVolumeMount where
  device : String
  mountPath : String
  fstype : String
  readOnly : Bool
  deriving DecidableEq

/-- A character that Firecracker allows in an id. -/
def idChar (c : Char) : Bool :=
  ('a' ≤ c ∧ c ≤ 'z') ∨ ('A' ≤ c ∧ c ≤ 'Z') ∨ ('0' ≤ c ∧ c ≤ '9') ∨ c = '_'

/-- `sanitizeID` goes through the bytes: one underscore for each that another character has. -/
def sanitizeID (s : String) : String :=
  String.ofList (s.toList.flatMap fun c => if idChar c then [c] else List.replicate c.utf8Size '_')

def volumeDrive (m : VolumeMount) : Drive where
  driveID := "vol_" ++ sanitizeID m.volumeName
  pathOnHost := hostPath m.volumeName
  isRootDevice := false
  isReadOnly := m.readOnly

/-- `string(letter)` is the character with that number. -/
def guestMount (letter : UInt8) (m : VolumeMount) : GuestVolumeMount where
  device := "/dev/vd" ++ String.singleton (Char.ofNat letter.toNat)
  mountPath := m.mountPath
  fstype := "ext4"
  readOnly := m.readOnly

/-- The loop of `prepareVolumeDrives`; `stat` is the error of `os.Stat` for a path. -/
def attachVolumes (stat : String → Option Err) :
    Nat → UInt8 → List VolumeMount → List Drive → List GuestVolumeMount →
      Except Err (List Drive × List GuestVolumeMount)
  | _, _, [], drives, out => .ok (drives, out)
  | i, letter, m :: ms, drives, out =>
    if m.volumeName = "" ∨ m.mountPath = "" then
      .error (.text ("mount[" ++ toString i ++ "]: volume_name and mount_path are required"))
    else
      match stat (hostPath m.volumeName) with
      | some e => .error (.wrap ("volume " ++ GoString.quote m.volumeName ++ ": ") e
          (" (run `capsulectl volume create " ++ m.volumeName ++ "`)"))
      | none =>
        attachVolumes stat (i + 1) (letter + 1) ms (drives ++ [volumeDrive m])
          (out ++ [guestMount letter m])

/-- `prepareVolumeDrives`: the drives with those of the volumes, and the mounts for the guest. -/
def prepareVolumeDrives (stat : String → Option Err) (mounts : List VolumeMount)
    (drives : List Drive) : Except Err (List Drive × List GuestVolumeMount) :=
  if mounts = [] then .ok (drives, []) else attachVolumes stat 0 99 mounts drives []

/-- The drives that `EnsureRunning` starts from. -/
def baseDrives (imageMode : Bool) (rootfsPath payloadDisk : String) : List Drive :=
  [⟨"rootfs", rootfsPath, true, imageMode⟩] ++
    if payloadDisk ≠ "" then [⟨"payload", payloadDisk, false, false⟩] else []

/-- The same in image mode, where `preparePayloadDisk` has made a disk in the VM's directory. -/
def imageDrives (vmDir : String) : List Drive :=
  baseDrives true "/usr/share/capsule/vm-shared.ext4" (vmDir ++ "/payload.ext4")

/-- The letters of a number, `a` to `z`, `aa`, `ab` and so on; `fuel` bounds how many there are. -/
def diskLetters : (fuel k : Nat) → List Char
  | 0, _ => []
  | fuel + 1, k =>
    (if k < 26 then [] else diskLetters fuel (k / 26 - 1)) ++ [Char.ofNat (97 + k % 26)]

/-- The kernel's name for the virtio disk at place `k`. -/
def diskName (k : Nat) : String := "vd" ++ String.ofList (diskLetters (k + 1) k)

theorem diskName_of_lt {k : Nat} (hk : k < 26) :
    diskName k = "vd" ++ String.singleton (Char.ofNat (97 + k)) := by
  rw [diskName, diskLetters, if_pos hk, Nat.mod_eq_of_lt hk]
  rfl

theorem two_le_length_diskLetters {fuel k : Nat} (hk : 26 ≤ k) (hfuel : k < fuel) :
    2 ≤ (diskLetters fuel k).length := by
  obtain ⟨fuel, rfl⟩ : ∃ n, fuel = n + 1 := ⟨fuel - 1, by omega⟩
  obtain ⟨fuel, rfl⟩ : ∃ n, fuel = n + 1 := ⟨fuel - 1, by omega⟩
  rw [diskLetters, if_neg (by omega), diskLetters]
  simp

/-- The character that an id has for one of a volume's name. -/
def idOf (c : Char) : Char := if c = '-' then '_' else c

theorem sanitize_char {c : Char} (h : c.isLower = true ∨ c.isDigit = true ∨ c = '-') :
    (if idChar c then [c] else List.replicate c.utf8Size '_') = [idOf c] ∧ c ≠ '_' := by
  rcases h with h | h | rfl
  · have hid : idChar c = true := by
      change (decide _ && decide _) = true at h
      simp only [Bool.and_eq_true, decide_eq_true_eq] at h
      simp only [idChar, decide_eq_true_eq]
      exact .inl h
    have hne : c ≠ '-' ∧ c ≠ '_' := by
      constructor <;> rintro rfl <;> revert h <;> decide
    simp [hid, idOf, hne]
  · have hid : idChar c = true := by
      simp only [Char.isDigit, Bool.and_eq_true, decide_eq_true_eq] at h
      simp only [idChar, decide_eq_true_eq]
      exact .inr (.inr (.inl h))
    have hne : c ≠ '-' ∧ c ≠ '_' := by
      constructor <;> rintro rfl <;> revert h <;> decide
    simp [hid, idOf, hne]
  · decide

theorem sanitizeID_of_nameMatches {s : String} (h : nameMatches s = true) :
    sanitizeID s = String.ofList (s.toList.map idOf) := by
  rw [sanitizeID, List.map_eq_flatMap]
  refine congrArg String.ofList ?_
  exact List.flatMap_congr fun c hc => (sanitize_char (char_of_nameMatches h hc)).1

theorem sanitizeID_inj {s t : String} (hs : nameMatches s = true) (ht : nameMatches t = true)
    (h : sanitizeID s = sanitizeID t) : s = t := by
  have hback : ∀ {u : String}, nameMatches u = true →
      (u.toList.map idOf).map (fun c => if c = '_' then '-' else c) = u.toList := by
    intro u hu
    rw [List.map_map, List.map_congr_left, List.map_id]
    intro c hc
    have hne := (sanitize_char (char_of_nameMatches hu hc)).2
    by_cases hdash : c = '-'
    · simp [idOf, hdash]
    · simp [idOf, hdash, hne]
  rw [sanitizeID_of_nameMatches hs, sanitizeID_of_nameMatches ht] at h
  have hlist := congrArg String.toList h
  simp only [String.toList_ofList] at hlist
  exact String.toList_inj.mp ((hback hs).symm.trans ((congrArg _ hlist).trans (hback ht)))

theorem attachVolumes_ok {stat : String → Option Err} {i : Nat} {letter : UInt8}
    {ms : List VolumeMount} {drives drives' : List Drive} {out out' : List GuestVolumeMount}
    (h : attachVolumes stat i letter ms drives out = .ok (drives', out')) :
    drives' = drives ++ ms.map volumeDrive ∧
      out' = out ++ ms.mapIdx fun j m => guestMount (letter + .ofNat j) m := by
  induction ms generalizing i letter drives out with
  | nil => cases h; simp
  | cons m ms ih =>
    rw [attachVolumes] at h
    split at h
    · cases h
    · split at h
      · cases h
      · obtain ⟨hdrives, hout⟩ := ih h
        have hletter : ∀ j : Nat, letter + 1 + UInt8.ofNat j = letter + UInt8.ofNat (j + 1) := by
          intro j; rw [UInt8.ofNat_add, UInt8.add_assoc, UInt8.add_comm 1]; rfl
        simp only [hletter] at hout
        exact ⟨by simp [hdrives], by simp [hout, List.mapIdx_cons]⟩

theorem exists_attachVolumes {stat : String → Option Err} {ms : List VolumeMount}
    (hms : ∀ m ∈ ms, m.volumeName ≠ "" ∧ m.mountPath ≠ "" ∧ stat (hostPath m.volumeName) = none)
    (i : Nat) (letter : UInt8) (drives : List Drive) (out : List GuestVolumeMount) :
    ∃ drives' out', attachVolumes stat i letter ms drives out = .ok (drives', out') := by
  induction ms generalizing i letter drives out with
  | nil => exact ⟨drives, out, rfl⟩
  | cons m ms ih =>
    obtain ⟨hname, hpath, hstat⟩ := hms m List.mem_cons_self
    rw [attachVolumes, if_neg (by simp [hname, hpath]), hstat]
    exact ih (fun m' hm' => hms m' (List.mem_cons_of_mem m hm')) _ _ _ _

theorem prepareVolumeDrives_ok {stat : String → Option Err} {mounts : List VolumeMount}
    {drives drives' : List Drive} {guest : List GuestVolumeMount}
    (h : prepareVolumeDrives stat mounts drives = .ok (drives', guest)) :
    drives' = drives ++ mounts.map volumeDrive ∧
      guest = mounts.mapIdx fun j m => guestMount (99 + .ofNat j) m := by
  rw [prepareVolumeDrives] at h
  split at h
  · rename_i hnil; cases h; simp [hnil]
  · simpa using attachVolumes_ok h

theorem device_eq_iff (j : Nat) (m : VolumeMount) :
    (guestMount (99 + .ofNat j) m).device = "/dev/" ++ diskName (j + 2) ↔ j < 24 := by
  constructor
  · intro h
    by_contra hj
    have htwo : 2 ≤ (diskLetters (j + 2 + 1) (j + 2)).length :=
      two_le_length_diskLetters (by omega) (by omega)
    have hlits : "/dev/vd".length = 7 ∧ "/dev/".length = 5 ∧ "vd".length = 2 := by decide
    have hlen := congrArg String.length h
    simp only [guestMount, diskName, String.length_append, String.length_singleton,
      String.length_ofList, hlits] at hlen
    omega
  · intro hj
    have hletter : (99 + UInt8.ofNat j).toNat = 97 + (j + 2) := by
      simp; omega
    rw [diskName_of_lt (by omega), guestMount, hletter, ← String.append_assoc]
    rfl

theorem imageDrives_length (vmDir : String) : (imageDrives vmDir).length = 2 := by
  have hne : vmDir ++ "/payload.ext4" ≠ "" := by
    intro h
    have hlen := congrArg String.length h
    simp at hlen
  simp [imageDrives, baseDrives, hne]

theorem drive_getElem? {mounts : List VolumeMount} {i : Nat} {m : VolumeMount} (vmDir : String)
    (hm : mounts[i]? = some m) :
    (imageDrives vmDir ++ mounts.map volumeDrive)[i + 2]? = some (volumeDrive m) := by
  have hlen := imageDrives_length vmDir
  rw [List.getElem?_append_right (by omega), hlen, Nat.add_sub_cancel, List.getElem?_map, hm]
  rfl

theorem guest_getElem? {mounts : List VolumeMount} {i : Nat} {m : VolumeMount}
    (hm : mounts[i]? = some m) :
    (mounts.mapIdx fun j m => guestMount (99 + .ofNat j) m)[i]? =
      some (guestMount (99 + .ofNat i) m) := by
  rw [List.getElem?_mapIdx, hm, Option.map_some]

/-- Every mount has its drive, and the guest is told to mount that disk as the spec says. -/
structure LinesUp (mounts : List VolumeMount) (drives : List Drive)
    (guest : List GuestVolumeMount) : Prop where
  mounted : ∀ i m, mounts[i]? = some m → drives[i + 2]? = some (volumeDrive m) ∧
    ∃ g, guest[i]? = some g ∧ g.device = "/dev/" ++ diskName (i + 2) ∧
      g.mountPath = m.mountPath ∧ g.readOnly = m.readOnly
  ids : ∀ m ∈ mounts, ∀ m' ∈ mounts, m.volumeName ≠ m'.volumeName →
    (volumeDrive m).driveID ≠ (volumeDrive m').driveID

section LineUp

variable {stat : String → Option Err} {vmDir : String} {mounts : List VolumeMount}
  {drives : List Drive} {guest : List GuestVolumeMount}
  (h : prepareVolumeDrives stat mounts (imageDrives vmDir) = .ok (drives, guest))

include h

theorem not_linesUp_of_long (hlong : 24 < mounts.length) : ¬ LinesUp mounts drives guest := by
  obtain ⟨rfl, rfl⟩ := prepareVolumeDrives_ok h
  rintro ⟨hmounted, -⟩
  have h24 : mounts[24]? = some mounts[24] := List.getElem?_eq_getElem hlong
  obtain ⟨-, g, hg, hdev, -⟩ := hmounted 24 _ h24
  obtain rfl := Option.some.inj ((guest_getElem? h24).symm.trans hg)
  exact absurd ((device_eq_iff 24 _).mp hdev) (by decide)

theorem linesUp_of_short (hnames : ∀ m ∈ mounts, validateName m.volumeName = .ok ())
    (hshort : mounts.length ≤ 24) : LinesUp mounts drives guest := by
  obtain ⟨rfl, rfl⟩ := prepareVolumeDrives_ok h
  refine ⟨?_, ?_⟩
  · intro i m hm
    obtain ⟨hlt, -⟩ := List.getElem?_eq_some_iff.mp hm
    exact ⟨drive_getElem? vmDir hm, _, guest_getElem? hm, (device_eq_iff i m).mpr (by omega), rfl,
      rfl⟩
  · intro m hm m' hm' hne hid
    have hsame := (String.append_right_inj _).mp hid
    exact hne (sanitizeID_inj (nameMatches_of_validateName (hnames m hm))
      (nameMatches_of_validateName (hnames m' hm')) hsame)

end LineUp

/-- For the mounts of an image-mode VM, over volumes with names the service accepts. -/
theorem devices_lineUp_iff (stat : String → Option Err) (vmDir : String)
    (mounts : List VolumeMount) (hnames : ∀ m ∈ mounts, validateName m.volumeName = .ok ())
    {drives : List Drive} {guest : List GuestVolumeMount}
    (h : prepareVolumeDrives stat mounts (imageDrives vmDir) = .ok (drives, guest)) :
    LinesUp mounts drives guest ↔ mounts.length ≤ 24 := by
  refine ⟨?_, linesUp_of_short h hnames⟩
  intro hup
  by_contra hlong
  exact not_linesUp_of_long h (by omega) hup

/-- Volumes `va`, `vb` and so on, mounted at the root. -/
def sampleMounts (n : Nat) : List VolumeMount :=
  (List.range n).map fun i =>
    let name := "v" ++ String.singleton (Char.ofNat (97 + i))
    ⟨name, "/" ++ name, false⟩

theorem sampleMounts_attached (n : Nat) :
    ∃ drives guest, prepareVolumeDrives (fun _ => none) (sampleMounts n)
      (imageDrives "/run/capsule/vms/web") = .ok (drives, guest) := by
  rw [prepareVolumeDrives]
  split
  · exact ⟨_, _, rfl⟩
  · refine exists_attachVolumes ?_ _ _ _ _
    intro m hm
    obtain ⟨i, -, rfl⟩ := List.mem_map.mp hm
    exact ⟨by simp, by simp, rfl⟩

theorem devices_lineUp_two :
    ∃ drives guest, prepareVolumeDrives (fun _ => none) (sampleMounts 2)
        (imageDrives "/run/capsule/vms/web") = .ok (drives, guest) ∧
      LinesUp (sampleMounts 2) drives guest := by
  obtain ⟨drives, guest, h⟩ := sampleMounts_attached 2
  exact ⟨drives, guest, h, (devices_lineUp_iff _ _ _ (by decide) h).mpr (by decide)⟩

/-- The 25th of these has the drive `vdaa`, and the guest looks for `vd` with a brace. -/
theorem devices_past_z :
    ¬ ∀ (stat : String → Option Err) (vmDir : String) (mounts : List VolumeMount)
      (drives : List Drive) (guest : List GuestVolumeMount),
      (∀ m ∈ mounts, validateName m.volumeName = .ok ()) →
      prepareVolumeDrives stat mounts (imageDrives vmDir) = .ok (drives, guest) →
        LinesUp mounts drives guest := by
  intro hall
  obtain ⟨drives, guest, h⟩ := sampleMounts_attached 25
  exact not_linesUp_of_long h (by decide) (hall _ _ _ drives guest (by decide) h)

end Capsule.Volumes.Drives
