import Capsule.Buffer
import Capsule.GoPath
import Capsule.GoString
import Capsule.Store.Types

/-!
# Capsule.Boot.Partitions

How capsuled finds the disk it booted from: `BootDisk`, `FindPartitionByNumber` and the signature
reader of `boot/boot_linux.go`, with `hasCapsuleMBR` of `boot/install_linux.go`. Every install is
stamped with the same signature, so that several disks may carry it.

* `BootedFrom`: the command line names the signature of a disk that is listed.
* `find_own_iff`: a search finds the disk's own entry exactly if its twins' are listed after it.
* `lookups_on_boot_disk_iff`: so both lookups stay on the boot disk exactly if every disk with its
  signature comes after it in the listing, partition by partition (`TwinsAfter`).
-/

namespace Capsule.Boot

open Buffer GoPath GoString

/-- `CapsuleMBRSig` of package `boot`. -/
def capsuleMBRSig : Text := utf8 "b1a570ff"

/-- An entry of `/sys/class/block`. -/
structure Entry where
  name : Text
  /-- `os.Stat` finds its file `partition`. -/
  isPartition : Bool
  /-- What the file `partition` holds, if it can be read. -/
  partition : Option Text
  /-- Where its symlink leads, if that can be resolved. -/
  target : Option Path

structure Machine where
  cmdline : Option Text
  /-- `os.ReadDir("/sys/class/block")`. -/
  entries : Option (List Entry)
  /-- The content of the device at a path, if it can be opened and read. -/
  read : Text → Option Bytes

inductive LookupErr where
  | cmdline
  | noRoot (cmdline : Text)
  | malformed (partuuid : Text)
  | readDir
  | noPartition (n : Int) (sig : Text)
  | noDisk (sig : Text)
  deriving DecidableEq

/-- The four bytes at `0x1B8`, last one first. A shorter device is an error. -/
def readMBRDiskSig (dev : Option Bytes) : Option Text :=
  match dev.map (slice · 0x1B8 4) with
  | some [s0, s1, s2, s3] => some (hexByte s3 ++ hexByte s2 ++ hexByte s1 ++ hexByte s0)
  | _ => none

def hasCapsuleMBR (dev : Option Bytes) : Bool := readMBRDiskSig dev = some capsuleMBRSig

def bootDiskSignature (toLower : Text → Text) (m : Machine) : Except LookupErr Text :=
  match m.cmdline with
  | none => .error .cmdline
  | some cmdline =>
    match (fields cmdline).findSome? (cutPrefix (utf8 "root=PARTUUID=")) with
    | none => .error (.noRoot (trimSpace cmdline))
    | some pu =>
      match cut 45 pu with
      | none => .error (.malformed pu)
      | some (sig, _) => .ok (toLower sig)

def devPath (name : Text) : Text := utf8 "/dev/" ++ name

/-- The disk a partition's symlink puts it on. -/
def Entry.diskName (e : Entry) : Option Text := e.target.map fun t => t.dir.base

/-- The signature read from the disk of this name. -/
def Machine.sigOf (m : Machine) (disk : Text) : Option Text :=
  readMBRDiskSig (m.read (devPath disk))

/-- The entry at which the loop of `FindPartitionByNumber` returns. -/
def Machine.isPartitionWanted (m : Machine) (want sig : Text) (e : Entry) : Bool :=
  match e.partition, e.diskName with
  | some number, some disk => trimSpace number = want ∧ m.sigOf disk = some sig
  | _, _ => false

/-- The entry at which the loop of `BootDisk` returns. -/
def Machine.isDiskWanted (m : Machine) (sig : Text) (e : Entry) : Bool :=
  !e.isPartition && m.sigOf e.name = some sig

def findPartitionByNumber (toLower : Text → Text) (m : Machine) (partNum : Int) :
    Except LookupErr Text :=
  match bootDiskSignature toLower m with
  | .error e => .error e
  | .ok wantSig =>
    match m.entries with
    | none => .error .readDir
    | some entries =>
      match entries.find? (m.isPartitionWanted (itoa partNum) wantSig) with
      | some e => .ok (devPath e.name)
      | none => .error (.noPartition partNum wantSig)

def bootDisk (toLower : Text → Text) (m : Machine) : Except LookupErr Text :=
  match bootDiskSignature toLower m with
  | .error e => .error e
  | .ok wantSig =>
    match m.entries with
    | none => .error .readDir
    | some entries =>
      match entries.find? (m.isDiskWanted wantSig) with
      | some e => .ok (devPath e.name)
      | none => .error (.noDisk wantSig)

section BootDisk

variable {toLower : Text → Text} {m : Machine} {disk : Text}

/-- The entry is a whole disk, of this name. -/
def Entry.IsDisk (e : Entry) (disk : Text) : Prop := e.isPartition = false ∧ e.name = disk

/-- capsuled booted from `disk`: the command line names its signature, and it is listed as a whole
disk whose signature can be read. A directory holds a name once. -/
def BootedFrom (toLower : Text → Text) (m : Machine) (disk : Text) : Prop :=
  ∃ sig entries, bootDiskSignature toLower m = .ok sig ∧ m.sigOf disk = some sig ∧
    m.entries = some entries ∧ (entries.map Entry.name).Nodup ∧
    ∃ e ∈ entries, e.IsDisk disk

/-- The entry is partition `n` of a disk. -/
def Entry.IsPart (e : Entry) (n : Int) (disk : Text) : Prop :=
  (∃ number, e.partition = some number ∧ trimSpace number = itoa n) ∧ e.diskName = some disk

/-- A disk with the signature of `disk`, and each partition of such a disk, is listed only after
`disk` itself and its partition of that number. -/
def TwinsAfter (m : Machine) (disk : Text) : Prop :=
  ∀ before e after twin, m.entries = some (before ++ e :: after) →
    m.sigOf twin = m.sigOf disk → twin ≠ disk →
      (e.IsDisk twin → ∃ e' ∈ before, e'.IsDisk disk) ∧
      ∀ n, e.IsPart n twin → ∃ e' ∈ before, e'.IsPart n disk

/-- The path is that of a partition of `disk`. -/
def PartitionOf (m : Machine) (disk path : Text) : Prop :=
  ∃ entries, m.entries = some entries ∧ ∃ e ∈ entries,
    path = devPath e.name ∧ e.partition.isSome ∧ e.diskName = some disk

theorem devPath_inj {a b : Text} (hab : devPath a = devPath b) : a = b :=
  List.append_cancel_left hab

theorem isPartitionWanted_iff {n : Int} {sig : Text} {e : Entry} :
    m.isPartitionWanted (itoa n) sig e ↔ ∃ d, e.IsPart n d ∧ m.sigOf d = some sig := by
  unfold Machine.isPartitionWanted
  split
  · rename_i number d hp hd; simp [Entry.IsPart, hp, hd, and_assoc]
  · rename_i h
    refine Iff.intro (fun h => by cases h) ?_
    rintro ⟨d, ⟨⟨number, hp, -⟩, hd⟩, -⟩
    exact absurd hd (h number d hp)

theorem isDiskWanted_iff {sig : Text} {e : Entry} :
    m.isDiskWanted sig e ↔ ∃ d, e.IsDisk d ∧ m.sigOf d = some sig := by
  simp [Machine.isDiskWanted, Entry.IsDisk, and_assoc]

/-- A search for a disk's own entry among those of all its twins finds it exactly if each twin's is
listed after an own one. `Is` says whose an entry is. -/
theorem find_own_iff (entries : List Entry) {wanted : Entry → Bool} (Is : Entry → Text → Prop)
    (hone : ∀ {e d d'}, Is e d → Is e d' → d = d') {sig : Text} (hdisk : m.sigOf disk = some sig)
    (hwanted : ∀ e, wanted e ↔ ∃ d, Is e d ∧ m.sigOf d = some sig) :
    (∀ e, entries.find? wanted = some e → Is e disk) ↔
      ∀ before e after twin, entries = before ++ e :: after → m.sigOf twin = m.sigOf disk →
        twin ≠ disk → Is e twin → ∃ e' ∈ before, Is e' disk := by
  constructor
  · rintro hfind before e after twin rfl hsig hne he
    have hw : wanted e := (hwanted e).mpr ⟨twin, he, hsig.trans hdisk⟩
    cases hb : before.find? wanted with
    | some e' =>
      refine ⟨e', List.mem_of_find?_eq_some hb, hfind e' ?_⟩
      rw [List.find?_append, hb]; rfl
    | none =>
      refine absurd (hone he (hfind e ?_)) hne
      rw [List.find?_append, hb, List.find?_cons_of_pos hw]; rfl
  · intro hafter e hfind
    obtain ⟨hw, before, after, hsplit, hbefore⟩ := List.find?_eq_some_iff_append.mp hfind
    obtain ⟨d, hd, hsig⟩ := (hwanted e).mp hw
    by_contra hnot
    have hne : d ≠ disk := fun h => hnot (h ▸ hd)
    obtain ⟨e', he', hown⟩ := hafter before e after d hsplit (hsig.trans hdisk.symm) hne hd
    have := hbefore e' he'
    rw [(hwanted e').mpr ⟨disk, hown, hdisk⟩] at this
    cases this

theorem bootDisk_iff {sig : Text} {entries : List Entry}
    (hsig : bootDiskSignature toLower m = .ok sig) (hentries : m.entries = some entries)
    (hdisk : m.sigOf disk = some sig) (hin : ∃ e ∈ entries, e.IsDisk disk) :
    bootDisk toLower m = .ok (devPath disk) ↔
      ∀ e, entries.find? (m.isDiskWanted sig) = some e → e.IsDisk disk := by
  obtain ⟨e, he, hown⟩ := hin
  have hwanted : m.isDiskWanted sig e := isDiskWanted_iff.mpr ⟨disk, hown, hdisk⟩
  obtain ⟨e', hfind⟩ := Option.isSome_iff_exists.mp (List.find?_isSome.mpr ⟨e, he, hwanted⟩)
  obtain ⟨d, hd, -⟩ := isDiskWanted_iff.mp (List.find?_some hfind)
  simp only [bootDisk, hsig, hentries, hfind, Except.ok.injEq, Option.some.injEq, forall_eq']
  exact ⟨fun h => ⟨hd.1, devPath_inj h⟩, fun h => congrArg devPath h.2⟩

theorem findPartitionByNumber_iff {sig : Text} {entries : List Entry}
    (hsig : bootDiskSignature toLower m = .ok sig) (hentries : m.entries = some entries)
    (hnames : (entries.map Entry.name).Nodup) (n : Int) :
    (∀ path, findPartitionByNumber toLower m n = .ok path → PartitionOf m disk path) ↔
      ∀ e, entries.find? (m.isPartitionWanted (itoa n) sig) = some e → e.IsPart n disk := by
  simp only [findPartitionByNumber, hsig, hentries]
  cases hfind : entries.find? (m.isPartitionWanted (itoa n) sig) with
  | none => simp
  | some e =>
    have he : e ∈ entries := List.mem_of_find?_eq_some hfind
    obtain ⟨d, ⟨hnumber, hd⟩, -⟩ := isPartitionWanted_iff.mp (List.find?_some hfind)
    simp only [Except.ok.injEq, forall_eq', Option.some.injEq]
    constructor
    · rintro ⟨entries', hentries', e', he', hname, -, hdisk⟩
      rw [hentries] at hentries'
      cases hentries'
      rw [List.inj_on_of_nodup_map hnames he he' (devPath_inj hname)] at hnumber ⊢
      exact ⟨hnumber, hdisk⟩
    · rintro ⟨⟨number, hp, -⟩, hdisk⟩
      exact ⟨entries, hentries, e, he, rfl, by rw [hp]; rfl, hdisk⟩

/-- The lookups stay on the boot disk exactly if every disk with its signature is listed after it,
partition by partition. -/
theorem lookups_on_boot_disk_iff (hb : BootedFrom toLower m disk) :
    (bootDisk toLower m = .ok (devPath disk) ∧
        ∀ n path, findPartitionByNumber toLower m n = .ok path → PartitionOf m disk path) ↔
      TwinsAfter m disk := by
  obtain ⟨sig, entries, hsig, hdisk, hentries, hnames, hin⟩ := hb
  have hwhole := find_own_iff entries Entry.IsDisk
    (fun h h' => h.2.symm.trans h'.2) hdisk fun _ => isDiskWanted_iff
  have hparts := fun n => find_own_iff entries (Entry.IsPart · n)
    (fun h h' => Option.some.inj (h.2.symm.trans h'.2)) hdisk fun _ => isPartitionWanted_iff
  rw [bootDisk_iff hsig hentries hdisk hin, hwhole]
  simp only [findPartitionByNumber_iff hsig hentries hnames, hparts, TwinsAfter, hentries,
    Option.some.injEq]
  constructor
  · rintro ⟨hw, hp⟩ before e after twin hsplit htwin hne
    exact ⟨hw before e after twin hsplit htwin hne,
      fun n => hp n before e after twin hsplit htwin hne⟩
  · intro h
    exact ⟨fun before e after twin hsplit htwin hne => (h before e after twin hsplit htwin hne).1,
      fun n before e after twin hsplit htwin hne => (h before e after twin hsplit htwin hne).2 n⟩

end BootDisk

section Twins

/-- The start of an installed disk. -/
def installed : Bytes := List.replicate 0x1B8 0 ++ putUint32 0xb1a570ff

def wholeDisk (name : String) : Entry := ⟨utf8 name, false, none, none⟩

def partitionEntry (disk name number : String) : Entry :=
  ⟨utf8 name, true, some (utf8 (number ++ "\n")),
    some ⟨true, [utf8 name, utf8 disk, utf8 "block", utf8 "devices", utf8 "sys"]⟩⟩

/-- A machine with these devices, booted with the signature every install has. -/
def machine (entries : List Entry) (read : Text → Option Bytes) : Machine where
  cmdline := some (utf8 "root=PARTUUID=b1a570ff-02 rootfstype=squashfs ro capsule.slot=a\n")
  entries := some entries
  read := read

/-- Two installed disks, booted from the one that is listed first. -/
theorem lookups_on_boot_disk_twins :
    let m := machine [wholeDisk "sda", partitionEntry "sda" "sda1" "1", wholeDisk "sdb",
        partitionEntry "sdb" "sdb1" "1"] fun _ => some installed
    TwinsAfter m (utf8 "sda") ∧ bootDisk (List.map lower) m = .ok (utf8 "/dev/sda") ∧
      PartitionOf m (utf8 "sda") (utf8 "/dev/sda1") := by
  intro m
  have hb : BootedFrom (List.map lower) m (utf8 "sda") :=
    ⟨capsuleMBRSig, _, by decide +kernel, by decide +kernel, rfl, by decide +kernel,
      wholeDisk "sda", List.mem_cons_self, rfl, rfl⟩
  have hafter : TwinsAfter m (utf8 "sda") := by
    intro before e after twin hentries hsig hne
    rcases before with _ | ⟨x, before⟩
    · cases hentries
      exact ⟨fun h => absurd h.2.symm hne, fun n h => by obtain ⟨⟨_, ⟨⟩, _⟩, _⟩ := h⟩
    · obtain ⟨rfl, hrest⟩ := List.cons.inj (Option.some.inj hentries)
      refine ⟨fun _ => ⟨_, List.mem_cons_self, rfl, rfl⟩, fun n hpart => ?_⟩
      rcases before with _ | ⟨y, before⟩
      · cases hrest
        exact absurd (Option.some.inj hpart.2).symm hne
      · obtain ⟨rfl, hlast⟩ := List.cons.inj hrest
        have he : e ∈ [wholeDisk "sdb", partitionEntry "sdb" "sdb1" "1"] := by simp [hlast]
        obtain ⟨⟨number, hnumber, hn⟩, -⟩ := hpart
        obtain rfl | rfl := List.mem_pair.mp he
        · cases hnumber
        · exact ⟨_, List.mem_cons_of_mem _ List.mem_cons_self, ⟨number, hnumber, hn⟩, rfl⟩
  obtain ⟨hdisk, hparts⟩ := (lookups_on_boot_disk_iff hb).mpr hafter
  exact ⟨hafter, hdisk, hparts 1 _ (by decide +kernel)⟩

/-- Booted from `sdb`, with another installed disk listed first: the slot that an update writes and
the partition `/perm` is mounted from are those of `sda`. -/
theorem lookups_follow_the_listing :
    let m := machine [wholeDisk "sda", partitionEntry "sda" "sda2" "2",
        partitionEntry "sda" "sda4" "4", wholeDisk "sdb", partitionEntry "sdb" "sdb2" "2",
        partitionEntry "sdb" "sdb4" "4"]
      fun path => if path = utf8 "/dev/sda" ∨ path = utf8 "/dev/sdb" then some installed else none
    BootedFrom (List.map lower) m (utf8 "sdb") ∧
      bootDisk (List.map lower) m = .ok (utf8 "/dev/sda") ∧
      findPartitionByNumber (List.map lower) m 2 = .ok (utf8 "/dev/sda2") ∧
      ¬ PartitionOf m (utf8 "sdb") (utf8 "/dev/sda2") ∧
      findPartitionByNumber (List.map lower) m 4 = .ok (utf8 "/dev/sda4") ∧
      ¬ PartitionOf m (utf8 "sdb") (utf8 "/dev/sda4") := by
  intro m
  have hother : ∀ path, (∀ entries, m.entries = some entries →
      ∀ e ∈ entries, path = devPath e.name → e.diskName ≠ some (utf8 "sdb")) →
      ¬ PartitionOf m (utf8 "sdb") path := by
    rintro path h ⟨entries, hentries, e, he, hpath, -, hdisk⟩
    exact h entries hentries e he hpath hdisk
  refine ⟨⟨capsuleMBRSig, _, by decide +kernel, by decide +kernel, rfl, by decide +kernel,
    wholeDisk "sdb", by simp, rfl, rfl⟩, by decide +kernel, by decide +kernel, hother _ ?_,
    by decide +kernel, hother _ ?_⟩
  all_goals
    intro entries hentries
    cases hentries
    decide +kernel

end Twins

end Capsule.Boot
