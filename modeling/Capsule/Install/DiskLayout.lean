import Capsule.Boot.Partitions

/-!
# Capsule.Install.DiskLayout

The partition table an install writes: `LayoutForDisk` and `WriteMBR` of
`core/install/disklayout.go`.

* `layoutForDisk_sound_complete`: a layout is found exactly on disks with room for 2 GiB of PERM;
  it has no gap and no wrap-around, and a larger disk changes only PERM.
* `written_mbr_decodes`: decoding the entries gives the layout back, and nothing behind the first
  sector has changed.
-/

namespace Capsule.Install

open Buffer Boot

/-- `CapsuleMBRSig` of package `install`. -/
def capsuleMBRSig : UInt32 := 0xb1a570ff

def sectorSize : Nat := 512
def bootPartStart : UInt32 := 2048
def bootPartSizeMiB : Nat := 256
def slotPartSizeMiB : Nat := 2048
def minPermSizeMiB : Nat := 2048
def bootPartSectors : UInt32 := .ofNat (bootPartSizeMiB * 1024 * 2)
def slotPartSectors : UInt32 := .ofNat (slotPartSizeMiB * 1024 * 2)

def partTypeESP : UInt8 := 0xEF
def partTypeLinux : UInt8 := 0x83
def partTypeLVM : UInt8 := 0x8E

structure Layout where
  bootStart : UInt32
  bootSectors : UInt32
  slotAStart : UInt32
  slotASectors : UInt32
  slotBStart : UInt32
  slotBSectors : UInt32
  permStart : UInt32
  permSectors : UInt32
  deriving DecidableEq

/-- `LayoutForDisk`. What lies beyond the 32-bit sector numbers of an MBR is not used. -/
def layoutForDisk (sizeBytes : UInt64) : Except Err Layout :=
  let totalSectors := min (sizeBytes.toNat / sectorSize) 0xFFFFFFFF
  let slotAStart := bootPartStart + bootPartSectors
  let slotBStart := slotAStart + slotPartSectors
  let permStart := slotBStart + slotPartSectors
  if totalSectors ≤ permStart.toNat then
    .error (.text ("target too small for capsule layout (need at least " ++
      toString (bootPartSizeMiB + 2 * slotPartSizeMiB + minPermSizeMiB + 8) ++ " MiB)"))
  else
    let permSectors := totalSectors - permStart.toNat
    if permSectors < minPermSizeMiB * 1024 * 2 then
      .error (.text ("target too small: " ++ toString (permSectors / (1024 * 2)) ++
        " MiB PERM would be available, need >= " ++ toString minPermSizeMiB ++ " MiB"))
    else
      .ok { bootStart := bootPartStart, bootSectors := bootPartSectors,
            slotAStart, slotASectors := slotPartSectors,
            slotBStart, slotBSectors := slotPartSectors,
            permStart, permSectors := .ofNat permSectors }

/-- The sectors of a disk of this size that an MBR can address. -/
def usableSectors (sizeBytes : UInt64) : Nat := min (sizeBytes.toNat / 512) (2 ^ 32 - 1)

/-- The layout whose PERM ends in front of sector `total`. -/
def Layout.upTo (total : Nat) : Layout where
  bootStart := bootPartStart
  bootSectors := bootPartSectors
  slotAStart := bootPartStart + bootPartSectors
  slotASectors := slotPartSectors
  slotBStart := bootPartStart + bootPartSectors + slotPartSectors
  slotBSectors := slotPartSectors
  permStart := bootPartStart + bootPartSectors + slotPartSectors + slotPartSectors
  permSectors := .ofNat (total - 8914944)

theorem Layout.permStart_upTo (total : Nat) : (Layout.upTo total).permStart.toNat = 8914944 := by
  dsimp only [Layout.upTo]; decide

theorem layoutForDisk_ok_iff {sizeBytes : UInt64} {l : Layout} :
    layoutForDisk sizeBytes = .ok l ↔
      8914944 + 4194304 ≤ usableSectors sizeBytes ∧ l = Layout.upTo (usableSectors sizeBytes) := by
  have hperm : (bootPartStart + bootPartSectors + slotPartSectors + slotPartSectors).toNat =
      8914944 := Layout.permStart_upTo 0
  have hmin : minPermSizeMiB * 1024 * 2 = 4194304 := by decide
  have htotal : min (sizeBytes.toNat / sectorSize) 0xFFFFFFFF = usableSectors sizeBytes := rfl
  simp only [layoutForDisk, hperm, hmin, htotal]
  clear hperm hmin htotal
  split
  · constructor
    · intro h; cases h
    · intro h; omega
  · split
    · constructor
      · intro h; cases h
      · intro h; omega
    · constructor
      · intro h; cases h; exact ⟨by omega, rfl⟩
      · rintro ⟨_, rfl⟩; rfl

theorem Layout.permEnd_upTo (sizeBytes : UInt64) (h : 8914944 ≤ usableSectors sizeBytes) :
    (Layout.upTo (usableSectors sizeBytes)).permStart.toNat +
      (Layout.upTo (usableSectors sizeBytes)).permSectors.toNat = usableSectors sizeBytes := by
  have hlt : usableSectors sizeBytes < 2 ^ 32 := by
    unfold usableSectors; omega
  have hperm : (Layout.upTo (usableSectors sizeBytes)).permSectors.toNat =
      usableSectors sizeBytes - 8914944 :=
    UInt32.toNat_ofNat_of_lt' (by simp only [UInt32.size]; omega)
  have hstart := Layout.permStart_upTo (usableSectors sizeBytes)
  omega

theorem usableSectors_mul_le (sizeBytes : UInt64) :
    usableSectors sizeBytes * 512 ≤ sizeBytes.toNat := by
  unfold usableSectors
  omega

theorem usableSectors_mono {a b : UInt64} (h : a ≤ b) : usableSectors a ≤ usableSectors b := by
  have hab : a.toNat ≤ b.toNat := h
  unfold usableSectors
  omega

/-- The partitions lie one behind the other, in sector numbers that do not wrap. -/
def Layout.Contiguous (l : Layout) : Prop :=
  l.slotAStart.toNat = l.bootStart.toNat + l.bootSectors.toNat ∧
    l.slotBStart.toNat = l.slotAStart.toNat + l.slotASectors.toNat ∧
    l.permStart.toNat = l.slotBStart.toNat + l.slotBSectors.toNat

theorem Layout.contiguous_upTo (total : Nat) : (Layout.upTo total).Contiguous := by
  dsimp only [Layout.Contiguous, Layout.upTo]; decide

/-- A layout is found exactly on the disks with room for it. It starts at sector 2048 and leaves no
gap up to the last sector an MBR can address; a larger disk gives the same first three partitions
and no smaller PERM. -/
theorem layoutForDisk_sound_complete (sizeBytes : UInt64) :
    ((∃ l, layoutForDisk sizeBytes = .ok l) ↔
        (Layout.upTo 0).permStart.toNat + 4194304 ≤ usableSectors sizeBytes) ∧
      ∀ l, layoutForDisk sizeBytes = .ok l →
        l.bootStart = 2048 ∧ l.Contiguous ∧
          0 < l.bootSectors ∧ 0 < l.slotASectors ∧ 0 < l.slotBSectors ∧ 0 < l.permSectors ∧
          l.permStart.toNat + l.permSectors.toNat = usableSectors sizeBytes ∧
          (l.permStart.toNat + l.permSectors.toNat) * 512 ≤ sizeBytes.toNat ∧
          l = { Layout.upTo 0 with permSectors := l.permSectors } ∧
          ∀ larger l', sizeBytes ≤ larger → layoutForDisk larger = .ok l' →
            l.permSectors ≤ l'.permSectors := by
  refine ⟨?_, ?_⟩
  · rw [Layout.permStart_upTo]
    constructor
    · rintro ⟨l, h⟩; exact (layoutForDisk_ok_iff.mp h).1
    · intro h; exact ⟨_, layoutForDisk_ok_iff.mpr ⟨h, rfl⟩⟩
  · intro l h
    obtain ⟨hbig, rfl⟩ := layoutForDisk_ok_iff.mp h
    have hend := Layout.permEnd_upTo sizeBytes (by omega)
    have hperm := Layout.permStart_upTo (usableSectors sizeBytes)
    have hboot : 0 < bootPartSectors := by decide
    have hslot : 0 < slotPartSectors := by decide
    refine ⟨rfl, Layout.contiguous_upTo _, hboot, hslot, hslot, ?_, hend, ?_, rfl, ?_⟩
    · rw [UInt32.lt_iff_toNat_lt]; change 0 < _; omega
    · rw [hend]; exact usableSectors_mul_le sizeBytes
    · intro larger l' hle h'
      obtain ⟨hbig', rfl⟩ := layoutForDisk_ok_iff.mp h'
      have hend' := Layout.permEnd_upTo larger (by omega)
      have hperm' := Layout.permStart_upTo (usableSectors larger)
      have hmono := usableSectors_mono hle
      rw [UInt32.le_iff_toNat_le]
      omega

structure Part where
  typ : UInt8
  start : UInt32
  size : UInt32
  bootable : Bool

def parts (l : Layout) : List Part :=
  [⟨partTypeESP, l.bootStart, l.bootSectors, true⟩,
   ⟨partTypeLinux, l.slotAStart, l.slotASectors, false⟩,
   ⟨partTypeLinux, l.slotBStart, l.slotBSectors, false⟩,
   ⟨partTypeLVM, l.permStart, l.permSectors, false⟩]

/-- The body of the loop over the partitions. Only a bootable one writes its flag. -/
def putPart (mbr : Bytes) (offset : Nat) (p : Part) : Bytes :=
  let mbr := if p.bootable then put mbr offset [0x80] else mbr
  let mbr := put mbr (offset + 1) [0xFE, 0xFF, 0xFF]
  let mbr := put mbr (offset + 4) [p.typ]
  let mbr := put mbr (offset + 5) [0xFE, 0xFF, 0xFF]
  let mbr := put mbr (offset + 8) (putUint32 p.start)
  put mbr (offset + 12) (putUint32 p.size)

def putParts (mbr : Bytes) (offset : Nat) : List Part → Bytes
  | [] => mbr
  | p :: ps => putParts (putPart mbr offset p) (offset + 16) ps

/-- The zeroed sector with the disk signature in it. -/
def stamped : Bytes := put (List.replicate sectorSize 0) 0x1B8 (putUint32 capsuleMBRSig)

/-- The sector `WriteMBR` builds. -/
def mbr (l : Layout) : Bytes :=
  put (put (putParts stamped 0x1BE (parts l)) 0x1FE [0x55]) 0x1FF [0xAA]

/-- What may fail while the sector is written; a failing write has written some of it. -/
structure WriteEnv where
  openErr : Option Err := none
  writeErr : Option (Nat × Err) := none
  syncErr : Option Err := none

/-- `WriteMBR`: the disk after it, and its result. -/
def writeMBR (e : WriteEnv) (devPath : String) (l : Layout) (disk : Bytes) :
    Bytes × Except Err Unit :=
  match e.openErr with
  | some x => (disk, .error (x.ctx ("open " ++ devPath)))
  | none =>
    match e.writeErr with
    | some (n, x) =>
      (put disk 0 ((mbr l).take n), .error (x.ctx ("write MBR to " ++ devPath)))
    | none =>
      match e.syncErr with
      | some x => (put disk 0 (mbr l), .error (x.ctx ("sync MBR on " ++ devPath)))
      | none => (put disk 0 (mbr l), .ok ())

/-- A partition table entry as it is read. -/
structure PartEntry where
  flag : UInt8
  typ : UInt8
  start : UInt32
  size : UInt32
  deriving DecidableEq

def decodePart : Bytes → Option PartEntry
  | [flag, _, _, _, typ, _, _, _, a0, a1, a2, a3, n0, n1, n2, n3] =>
    some ⟨flag, typ, uint32 a0 a1 a2 a3, uint32 n0 n1 n2 n3⟩
  | _ => none

/-- The four entries from `0x1BE` on. -/
def partitionTable (disk : Bytes) : List (Option PartEntry) :=
  (List.range 4).map fun i => decodePart (slice disk (0x1BE + 16 * i) 16)

/-- The table that says what the layout says. -/
def Layout.table (l : Layout) : List PartEntry :=
  [⟨0x80, 0xEF, l.bootStart, l.bootSectors⟩, ⟨0x00, 0x83, l.slotAStart, l.slotASectors⟩,
   ⟨0x00, 0x83, l.slotBStart, l.slotBSectors⟩, ⟨0x00, 0x8E, l.permStart, l.permSectors⟩]

def Part.bytes (p : Part) : Bytes :=
  [if p.bootable then 0x80 else 0x00, 0xFE, 0xFF, 0xFF, p.typ, 0xFE, 0xFF, 0xFF] ++
    (putUint32 p.start ++ putUint32 p.size)

theorem decodePart_bytes (p : Part) :
    decodePart p.bytes = some ⟨if p.bootable then 0x80 else 0x00, p.typ, p.start, p.size⟩ := by
  simp only [Part.bytes, putUint32, List.cons_append, List.nil_append, decodePart,
    uint32_putUint32]

theorem putPart_eq {b : Bytes} {off : Nat} (p : Part) (hzero : b[off]? = some 0)
    (hb : off + 16 ≤ b.length) : putPart b off p = put b off p.bytes := by
  -- from the flag on, each field begins where the one before it ended
  have hflag : put (if p.bootable then put b off [0x80] else b) (off + 1) [0xFE, 0xFF, 0xFF] =
      put b off [if p.bootable then 0x80 else 0x00, 0xFE, 0xFF, 0xFF] := by
    cases p.bootable with
    | true => exact put_put_append (by simp only [List.length_singleton]; omega)
    | false => exact put_succ hzero
  have hnext : ∀ (n : Nat) (d e : Bytes), d.length = n → n ≤ 16 →
      put (put b off d) (off + n) e = put b off (d ++ e) := by
    intro n d e hd hn
    rw [← hd, put_put_append (by omega)]
  simp only [putPart, hflag]
  rw [hnext 4 _ _ rfl (by decide), hnext 5 _ _ rfl (by decide), hnext 8 _ _ rfl (by decide),
    hnext 12 _ _ rfl (by decide)]
  rfl

@[simp] theorem length_bytes (p : Part) : p.bytes.length = 16 := rfl

theorem putParts_eq {ps : List Part} :
    ∀ {b : Bytes} {off : Nat}, (∀ i < 16 * ps.length, b[off + i]? = some 0) →
      off + 16 * ps.length ≤ b.length → putParts b off ps = put b off (ps.flatMap Part.bytes) := by
  induction ps with
  | nil => intro b off _ _; simp [putParts, put]
  | cons p ps ih =>
    intro b off hzero hb
    rw [List.length_cons] at hzero hb
    have hfirst : putPart b off p = put b off p.bytes :=
      putPart_eq p (hzero 0 (by omega)) (by omega)
    rw [putParts, hfirst, ih, ← length_bytes p, put_put_append, List.flatMap_cons]
    · rw [length_bytes]; omega
    · intro i hi
      rw [getElem?_put_after (by rw [length_bytes]; omega) (by omega), Nat.add_assoc]
      exact hzero (16 + i) (by omega)
    · rw [length_put (by rw [length_bytes]; omega)]
      omega

theorem sig_inside : 0x1B8 + (putUint32 capsuleMBRSig).length ≤
    (List.replicate sectorSize (0 : UInt8)).length := by
  rw [List.length_replicate]
  decide

theorem length_stamped : stamped.length = 512 := by
  rw [stamped, length_put sig_inside, List.length_replicate, sectorSize]

theorem stamped_zero {i : Nat} (h : 0x1BC ≤ i) (hi : i < 512) : stamped[i]? = some 0 := by
  have hsig := sig_inside
  rw [stamped, getElem?_put_after h (by omega)]
  exact List.getElem?_replicate_of_lt hi

/-- The entries with the boot signature behind them. -/
def Layout.tail (l : Layout) : Bytes := (parts l).flatMap Part.bytes ++ [0x55, 0xAA]

theorem mbr_eq (l : Layout) : mbr l = put stamped 0x1BE l.tail := by
  have hlen := length_stamped
  have hentries : ((parts l).flatMap Part.bytes).length = 64 := rfl
  have hparts : putParts stamped 0x1BE (parts l) =
      put stamped 0x1BE ((parts l).flatMap Part.bytes) := by
    refine putParts_eq (fun i hi => ?_) (by rw [hlen]; exact Nat.le_of_ble_eq_true rfl)
    have hi : i < 64 := hi
    exact stamped_zero (by omega) (by omega)
  have h55 : put (put stamped 0x1BE ((parts l).flatMap Part.bytes)) 0x1FE [0x55] =
      put stamped 0x1BE ((parts l).flatMap Part.bytes ++ [0x55]) :=
    put_put_append (by omega)
  have hAA : put (put stamped 0x1BE ((parts l).flatMap Part.bytes ++ [0x55])) 0x1FF [0xAA] =
      put stamped 0x1BE ((parts l).flatMap Part.bytes ++ [0x55] ++ [0xAA]) :=
    put_put_append (by rw [List.length_append, hentries, hlen]; decide)
  rw [mbr, hparts, h55, hAA, List.append_assoc]
  rfl

theorem length_tail (l : Layout) : l.tail.length = 66 := rfl

theorem length_mbr (l : Layout) : (mbr l).length = 512 := by
  rw [mbr_eq, length_put (by rw [length_stamped, length_tail]), length_stamped]

theorem slice_mbr {o n : Nat} (l : Layout) (h : o + n ≤ 66) :
    slice (mbr l) (0x1BE + o) n = slice l.tail o n := by
  rw [mbr_eq, slice_put_inside (by rw [length_stamped]; decide) (by rw [length_tail]; exact h)]

theorem slice_mbr_sig (l : Layout) : slice (mbr l) 0x1B8 4 = putUint32 capsuleMBRSig := by
  have hsig := sig_inside
  rw [mbr_eq, slice_put_ne (by rw [length_stamped]; decide) (.inl (by decide)), stamped]
  exact slice_put_inside (o := 0) (n := 4) (by omega) (by decide)

theorem decodePart_tail (l : Layout) :
    (List.range 4).map (fun i => decodePart (slice l.tail (16 * i) 16)) = l.table.map some := by
  change (parts l).map (fun p => decodePart p.bytes) = _
  simp only [decodePart_bytes]
  rfl

theorem mbr_decodes (l : Layout) (disk : Bytes) :
    partitionTable (put disk 0 (mbr l)) = l.table.map some ∧
      slice (put disk 0 (mbr l)) 510 2 = [0x55, 0xAA] ∧
      readMBRDiskSig (some (put disk 0 (mbr l))) = some Boot.capsuleMBRSig := by
  have hread : ∀ o n, o + n ≤ 512 → slice (put disk 0 (mbr l)) o n = slice (mbr l) o n := by
    intro o n h
    have hin := slice_put_inside (b := disk) (o := o) (Nat.zero_le _)
      (h.trans_eq (length_mbr l).symm)
    rwa [Nat.zero_add] at hin
  refine ⟨?_, ?_, ?_⟩
  · rw [← decodePart_tail, partitionTable]
    refine List.map_congr_left fun i hi => ?_
    have hi : i < 4 := List.mem_range.mp hi
    rw [hread _ _ (by omega), slice_mbr l (by omega)]
  · rw [hread _ _ (by decide)]
    exact slice_mbr (o := 64) (n := 2) l (by decide)
  · rw [readMBRDiskSig, Option.map_some, hread _ _ (by decide), slice_mbr_sig]
    decide

theorem written_mbr_decodes {e : WriteEnv} {devPath : String} {l : Layout} {disk disk' : Bytes}
    {r : Except Err Unit} (h : writeMBR e devPath l disk = (disk', r)) :
    (∀ i, 512 ≤ i → disk'[i]? = disk[i]?) ∧
      (r = .ok () →
        partitionTable disk' = l.table.map some ∧ slice disk' 510 2 = [0x55, 0xAA] ∧
          readMBRDiskSig (some disk') = some (GoString.utf8 "b1a570ff") ∧
          hasCapsuleMBR (some disk')) := by
  have hframe : ∀ n i, 512 ≤ i → (put disk 0 ((mbr l).take n))[i]? = disk[i]? := by
    intro n i hi
    refine getElem?_put_after ?_ (Nat.zero_le _)
    have hlen := length_mbr l
    rw [List.length_take]
    omega
  have hfull : ∀ i, 512 ≤ i → (put disk 0 (mbr l))[i]? = disk[i]? := by
    intro i hi
    have hall := hframe (mbr l).length i hi
    rwa [List.take_length] at hall
  unfold writeMBR at h
  split at h
  · obtain ⟨rfl, rfl⟩ := Prod.mk.inj h; exact ⟨fun _ _ => rfl, fun h => by cases h⟩
  · split at h
    · obtain ⟨rfl, rfl⟩ := Prod.mk.inj h; exact ⟨hframe _, fun h => by cases h⟩
    · split at h
      · obtain ⟨rfl, rfl⟩ := Prod.mk.inj h; exact ⟨hfull, fun h => by cases h⟩
      · obtain ⟨rfl, rfl⟩ := Prod.mk.inj h
        obtain ⟨htable, hboot, hsig⟩ := mbr_decodes l disk
        exact ⟨hfull, fun _ => ⟨htable, hboot, hsig, decide_eq_true hsig⟩⟩

/-- The layout of a disk of 6 GiB and a little more, on which nothing was written before. -/
theorem written_mbr_decodes_fresh :
    ∃ l disk', layoutForDisk 6711934976 = .ok l ∧
      writeMBR {} "/dev/sda" l [] = (disk', .ok ()) ∧ partitionTable disk' = l.table.map some := by
  have hwrite : ∀ l, writeMBR {} "/dev/sda" l [] = (put [] 0 (mbr l), .ok ()) := fun l => rfl
  refine ⟨⟨2048, 524288, 526336, 4194304, 4720640, 4194304, 8914944, 4194304⟩, _, ?_, hwrite _,
    ((written_mbr_decodes (hwrite _)).2 rfl).1⟩
  decide

end Capsule.Install
