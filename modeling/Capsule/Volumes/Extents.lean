import Capsule.Volumes.Service

/-!
# Capsule.Volumes.Extents

The volume service on a host whose LVM allocates whole extents of 4 MiB, and the probe by which it
learns the size of a volume: `blockDeviceSize` opens the device, asks the kernel, and falls back to
`lvs`, with zero for everything that fails.

* `Probe`, `blockDeviceSize_eq`: how a probe of a volume turns out, text of `lvs` included.
* `allocated`, `sem`: what LVM makes of a request, and the semantics with such commands and probes.
* `resize_growOnly_iff`: a `Resize` never asks for less than the volume has, exactly if the probe
  finds the size or no less is wanted.
-/

namespace Capsule.Volumes.Extents

open Atomic Keyed Workloads
open Maintenance (Op Res State Volume Code call hostPath validateName validateSize
  usersFromWorkloads resize resizeUnused nameMatches_of_validateName le_of_validateSize)

/-- What `open`, the ioctl `BLKGETSIZE64` and the command `lvs` return to one probe; nothing where
they fail. -/
structure Syscalls where
  opens : Bool
  ioctl : Option UInt64
  lvs : Option Bytes

def lvmReportedSize (sys : Syscalls) (path : String) : Option Nat :=
  match path.toList.splitOn '/' with
  | [root, dev, _, _] =>
    if root = [] ∧ dev = "dev".toList then
      sys.lvs.bind fun out => (GoString.parseUint (GoString.trimSpace out)).toOption
    else none
  | _ => none

def blockDeviceSize (sys : Syscalls) (path : String) : Nat :=
  if path = "" then 0
  else if sys.opens = false then 0
  else
    match sys.ioctl with
    | some n => n.toNat
    | none => (lvmReportedSize sys path).getD 0

/-- How a probe of a device that is there turns out. -/
inductive Probe where
  | openFails
  | ioctl
  /-- The ioctl fails and `lvs` does not. -/
  | lvs
  | lvsFails
  deriving DecidableEq, Repr

/-- The probe finds the size. -/
def Probe.Reads (p : Probe) : Prop := p = .ioctl ∨ p = .lvs

instance (p : Probe) : Decidable p.Reads := inferInstanceAs (Decidable (_ ∨ _))

/-- `lvs --units b --nosuffix --noheadings` prints the size between blanks and a newline. -/
def lvsOutput (n : Nat) : Bytes := 32 :: 32 :: (GoString.digits n ++ [10])

/-- What the calls return for a volume of this size. -/
def Probe.syscalls (p : Probe) : Option Nat → Syscalls
  | none => ⟨false, none, none⟩
  | some n =>
    { opens := p ≠ .openFails
      ioctl := if p = .ioctl then some (.ofNat n) else none
      lvs := if p = .lvs then some (lvsOutput n) else none }

structure Env where
  base : Maintenance.Env
  probe : Probe

/-- The MiB that LVM allocates for a request: whole extents. -/
def allocated (sizeMiB : Nat) : Nat := (sizeMiB + 3) / 4 * 4

def probed (e : Env) (s : State) (name path : String) : Nat :=
  blockDeviceSize (e.probe.syscalls (s.lvs name)) path

def sem : Sem Op Res State Env
  | .blockDeviceSize name path, e, s => (s, probed e s name path)
  | .populateDerived name path, e, s =>
    (s, if e.base.host.fault = none then s.host.rows.list else [], probed e s name path)
  | .lvcreate name sizeMiB, e, s => Maintenance.sem (.lvcreate name (allocated sizeMiB)) e.base s
  | .lvresize name sizeMiB, e, s => Maintenance.sem (.lvresize name (allocated sizeMiB)) e.base s
  | o, e, s => Maintenance.sem o e.base s

theorem trimSpace_lvsOutput (n : Nat) : GoString.trimSpace (lvsOutput n) = GoString.digits n := by
  have hdigits : ∀ b ∈ GoString.digits n, GoString.Visible b := fun b hb =>
    GoString.visible_of_isDigit (GoString.isDigit_of_mem_digits hb)
  have hne := GoString.digits_ne_nil n
  rw [lvsOutput]
  generalize GoString.digits n = ds at hdigits hne ⊢
  obtain ⟨b, t, rfl⟩ := List.exists_cons_of_ne_nil hne
  have hfront : GoString.dropSpaces GoString.spaces ((b :: t ++ [10]).length + 2)
      (32 :: 32 :: (b :: t ++ [10])) = b :: t ++ [10] :=
    GoString.dropSpaces_eq_self
      (GoString.hidden_spaces.not_prefix_cons (hdigits b List.mem_cons_self)) _
  have hback : GoString.dropSpaces (GoString.spaces.map List.reverse) ((b :: t).length + 1)
      (10 :: (b :: t).reverse) = (b :: t).reverse :=
    GoString.dropSpaces_of_visible GoString.hidden_spaces_reverse
      (fun c hc => hdigits c (List.mem_reverse.mp hc)) (b :: t).length
  have hlen : (b :: t ++ [10]).length = (b :: t).length + 1 := by simp
  have hrev : (b :: t ++ [10]).reverse = 10 :: (b :: t).reverse := by simp
  calc GoString.trimSpace (32 :: 32 :: (b :: t ++ [10]))
      = (GoString.dropSpaces (GoString.spaces.map List.reverse) (b :: t ++ [10]).length
          (b :: t ++ [10]).reverse).reverse := by
        simp only [GoString.trimSpace]
        rw [show (32 :: 32 :: (b :: t ++ [10])).length = (b :: t ++ [10]).length + 2 from rfl,
          hfront]
    _ = b :: t := by rw [hlen, hrev, hback, List.reverse_reverse]

theorem splitOn_path {a b c : List Char} (ha : '/' ∉ a) (hb : '/' ∉ b) (hc : '/' ∉ c) :
    ('/' :: (a ++ '/' :: (b ++ '/' :: c))).splitOn '/' = [[], a, b, c] := by
  rw [← List.nil_append ('/' :: _), List.splitOn_append_cons_self_of_not_mem List.not_mem_nil,
    List.splitOn_append_cons_self_of_not_mem ha, List.splitOn_append_cons_self_of_not_mem hb,
    List.splitOn_eq_singleton hc]

theorem toList_hostPath (name : String) : (hostPath name).toList =
    '/' :: ("dev".toList ++
      '/' :: ("capsule".toList ++ '/' :: ("vol-".toList ++ name.toList))) := by
  have hroot : "/dev/capsule/vol-".toList =
      '/' :: ("dev".toList ++ '/' :: ("capsule".toList ++ '/' :: "vol-".toList)) := by decide
  have hpath : (hostPath name).toList = "/dev/capsule/vol-".toList ++ name.toList :=
    String.toList_append
  generalize "dev".toList = a at hroot ⊢
  generalize "capsule".toList = b at hroot ⊢
  generalize "vol-".toList = c at hroot ⊢
  rw [hpath, hroot, List.cons_append, List.append_assoc, List.cons_append, List.append_assoc,
    List.cons_append]

theorem splitOn_hostPath {name : String} (h : '/' ∉ name.toList) :
    (hostPath name).toList.splitOn '/' =
      [[], "dev".toList, "capsule".toList, "vol-".toList ++ name.toList] := by
  have hlast : '/' ∉ "vol-".toList ++ name.toList := by
    rw [List.mem_append, not_or]; exact ⟨by decide, h⟩
  rw [toList_hostPath]
  exact splitOn_path (by decide) (by decide) hlast

theorem slash_not_mem {name : String} (h : nameMatches name = true) : '/' ∉ name.toList := by
  intro hslash
  rcases char_of_nameMatches h hslash with h | h | h <;> revert h <;> decide

theorem blockDeviceSize_eq {name : String} (hname : nameMatches name = true) (p : Probe)
    (n : UInt64) : blockDeviceSize (p.syscalls (some n.toNat)) (hostPath name) =
      if p.Reads then n.toNat else 0 := by
  have hne : hostPath name ≠ "" := by
    intro h; cases (toList_hostPath name).symm.trans (congrArg String.toList h)
  rw [blockDeviceSize, if_neg hne]
  cases p with
  | openFails => rfl
  | ioctl => exact congrArg UInt64.toNat UInt64.ofNat_toNat
  | lvsFails =>
    change (lvmReportedSize ⟨true, none, none⟩ (hostPath name)).getD 0 = 0
    rw [lvmReportedSize, splitOn_hostPath (slash_not_mem hname)]
    rfl
  | lvs =>
    change (lvmReportedSize ⟨true, none, some (lvsOutput n.toNat)⟩ (hostPath name)).getD 0 = n.toNat
    rw [lvmReportedSize, splitOn_hostPath (slash_not_mem hname)]
    change (GoString.parseUint (GoString.trimSpace (lvsOutput n.toNat))).toOption.getD 0 = n.toNat
    rw [trimSpace_lvsOutput, GoString.parseUint_digits n.toNat_lt]
    rfl

theorem lvresize_mem_resizeUnused {ps : Params} {name : String} {newSizeMiB k : Nat} {v : Volume}
    {es : Nat → Env} {s : State} :
    Op.lvresize name k ∈ (resizeUnused ps name newSizeMiB v).performed sem es s ↔
      k = newSizeMiB ∧ probed (es 0) s name v.hostPath < newSizeMiB * 1024 * 1024 := by
  have honly : (resizeUnused ps name newSizeMiB v).Only fun o =>
      ∀ k, o = Op.lvresize name k → k = newSizeMiB :=
    Maintenance.resizeUnused_only (fun _ _ h => by cases h) (fun _ h => by cases h; rfl)
      (fun _ _ _ h => by cases h) (fun _ _ h => by cases h) ps v
  constructor
  · intro h
    refine ⟨honly.performed es _ h k rfl, ?_⟩
    by_contra hle
    simp only [resizeUnused, call, Prog.call_bind, Prog.ret_bind, Prog.performed, List.mem_cons,
      reduceCtorEq, false_or] at h
    by_cases hlt : newSizeMiB * 1024 * 1024 < probed (es 0) s name v.hostPath
    · rw [if_pos (by exact hlt)] at h
      cases h
    · rw [if_neg (by exact hlt), if_pos (by change _ = probed (es 0) s name v.hostPath; omega)] at h
      cases h with
      | tail _ h => cases h
  · rintro ⟨rfl, hlt⟩
    simp only [resizeUnused, call, Prog.call_bind, Prog.ret_bind, Prog.performed, List.mem_cons,
      reduceCtorEq, false_or]
    rw [if_neg (by change ¬ _ < probed (es 0) s name v.hostPath; omega),
      if_neg (by change ¬ _ = probed (es 0) s name v.hostPath; omega)]
    exact List.mem_cons_self

theorem sem_getVolume {e : Env} {s : State} {name : String} {v : Volume}
    (he : e.base.host.fault = none) (hv : s.volumes.get name = some v) :
    sem (.getVolume name) e s = (s, .ok v) := by
  simp [sem, Maintenance.sem, he, Maintenance.getVolumeRow, hv]

theorem sem_list {e : Env} {s : State} (he : e.base.host.fault = none) :
    sem (.wl .list) e s = (s, .ok s.host.rows.list) := by
  simp [sem, Maintenance.sem, Workloads.sem, Workloads.Env.answer, he]

section Resize

variable {ps : Params} {name : String} {newSizeMiB : Nat} {es : Nat → Env} {s : State} {v : Volume}

theorem performed_resize (hname : validateName name = .ok ())
    (hsize : validateSize newSizeMiB = .ok ())
    (hstore : (es 0).base.host.fault = none ∧ (es 1).base.host.fault = none)
    (hrow : s.volumes.get name = some v)
    (hunused : usersFromWorkloads ps s.host.rows.list name = []) :
    (resize ps name newSizeMiB).performed sem es s = .getVolume name :: .wl .list ::
      (resizeUnused ps name newSizeMiB v).performed sem (fun n => es (n + 2)) s := by
  simp only [resize, Maintenance.refsTo, hname, hsize, Prog.thenOk, call, Prog.ret_bind,
    Prog.call_bind, Prog.performed, sem_getVolume hstore.1 hrow, sem_list hstore.2, hunused]
  rfl

end Resize

/-- A `Resize` of a volume that is there and not in use, with a store that answers: it never asks
for less than the volume has, exactly if the probe finds the size or no less is wanted. -/
theorem resize_growOnly_iff (ps : Params) (name : String) (newSizeMiB : Nat) (es : Nat → Env)
    (s : State) (v : Volume) (actual : UInt64) (hname : validateName name = .ok ())
    (hsize : validateSize newSizeMiB = .ok ())
    (hstore : (es 0).base.host.fault = none ∧ (es 1).base.host.fault = none)
    (hrow : s.volumes.get name = some v) (hpath : v.hostPath = hostPath name)
    (hunused : usersFromWorkloads ps s.host.rows.list name = [])
    (hlv : s.lvs name = some actual.toNat) :
    (∀ k, Op.lvresize name k ∈ (resize ps name newSizeMiB).performed sem es s →
      actual.toNat ≤ k * 1024 * 1024) ↔
      (es 2).probe.Reads ∨ actual.toNat ≤ newSizeMiB * 1024 * 1024 := by
  have hruns : ∀ k, Op.lvresize name k ∈ (resize ps name newSizeMiB).performed sem es s ↔
      k = newSizeMiB ∧ probed (es 2) s name v.hostPath < newSizeMiB * 1024 * 1024 := by
    intro k
    simp only [performed_resize hname hsize hstore hrow hunused, List.mem_cons, reduceCtorEq,
      false_or, lvresize_mem_resizeUnused]
  have hpos : 0 < newSizeMiB * 1024 * 1024 := by
    have hmin := (le_of_validateSize hsize).1
    simp only [Maintenance.minSizeMiB] at hmin
    omega
  have hprobed : probed (es 2) s name v.hostPath =
      if (es 2).probe.Reads then actual.toNat else 0 := by
    rw [probed, hlv, hpath, blockDeviceSize_eq (nameMatches_of_validateName hname)]
  simp only [hruns, hprobed]
  by_cases hreads : (es 2).probe.Reads
  · simp only [hreads, if_true, true_or, iff_true]
    rintro k ⟨rfl, hlt⟩
    exact Nat.le_of_lt hlt
  · simp only [hreads, if_false, false_or]
    constructor
    · intro h; exact h newSizeMiB ⟨rfl, hpos⟩
    · rintro h k ⟨rfl, -⟩; exact h

/-- Nothing fails but, perhaps, the probe. -/
def steady (p : Probe) : Env := ⟨⟨⟨none, {}⟩, none⟩, p⟩

/-- A host with the one volume `data`, of 64 MiB. -/
def oneVolume : State where
  host := fresh
  volumes := Table.empty.put (Maintenance.newVolume "data")
  lvs name := if name = "data" then some (64 * 1024 * 1024) else none

theorem resize_growOnly_lvs :
    oneVolume.lvs "data" = some 67108864 ∧ ∀ k, Op.lvresize "data" k ∈
      (resize dataParams "data" 32).performed sem (fun _ => steady .lvs) oneVolume →
        67108864 ≤ k * 1024 * 1024 :=
  ⟨rfl, (resize_growOnly_iff dataParams "data" 32 (fun _ => steady .lvs) oneVolume
    (Maintenance.newVolume "data") 67108864 (by decide) (by decide) ⟨rfl, rfl⟩ rfl rfl rfl rfl).mpr
    (.inl (by decide))⟩

/-- The device cannot be opened, and a volume of 64 MiB is to be resized to 32. -/
theorem resize_shrinks :
    ¬ ∀ (ps : Params) (name : String) (newSizeMiB : Nat) (es : Nat → Env) (s : State)
      (actual : UInt64), validateSize newSizeMiB = .ok () → s.lvs name = some actual.toNat →
      ∀ k, Op.lvresize name k ∈ (resize ps name newSizeMiB).performed sem es s →
        actual.toNat ≤ k * 1024 * 1024 := by
  intro hall
  have hruns : Op.lvresize "data" 32 ∈ (resize dataParams "data" 32).performed sem
      (fun _ => steady .openFails) oneVolume := by
    rw [performed_resize (v := Maintenance.newVolume "data") (by decide) (by decide) ⟨rfl, rfl⟩ rfl
      rfl]
    refine List.mem_cons_of_mem _ (List.mem_cons_of_mem _ (lvresize_mem_resizeUnused.mpr ?_))
    exact ⟨rfl, by decide⟩
  exact absurd (hall dataParams "data" 32 _ oneVolume 67108864 (by decide) rfl 32 hruns) (by decide)

end Capsule.Volumes.Extents
