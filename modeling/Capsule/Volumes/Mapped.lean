import Capsule.Atomic.Steps
import Capsule.Volumes.Extents

/-!
# Capsule.Volumes.Mapped

The volume service as a map from names to sizes: `Map` is the abstract service, `step` a call on the
host of `Volumes.Extents` without faults, and `abs` the map that a host stands for.

* `Synced`: the invariant. A volume has its row exactly if it has its logical volume, which is of
  whole extents.
* `step_refines`: a call keeps `Synced`, does what the map does, and answers as it.
* `service_refines_map`: so does every sequence of calls from a host without volumes.
-/

namespace Capsule.Volumes.Mapped

open Atomic Keyed Extents
open Workloads (Workload)
open Maintenance (Op Res State Volume Code call hostPath newVolume sizeFor validateName validateSize
  usersFromWorkloads answerDerived)

def get (ps : Params) (name : String) : Code (Except Err Volume) :=
  (call (.getVolume name)).thenOk fun v => answerDerived ps name v

/-- `List` also reads all the rows. -/
inductive ListOp where
  | listVolumes
  | one (o : Op)

@[reducible] def ListRes : ListOp → Type
  | .listVolumes => Except Err (List Volume)
  | .one o => Res o

def listSem : Sem ListOp ListRes State Env
  | .listVolumes, e, s => (s, e.base.host.answer s.volumes.list)
  | .one o, e, s => sem o e s

/-- The loop of `List`. -/
def deriveAll (ps : Params) (ws : List Workload) : List Volume → Prog ListOp ListRes (List Volume)
  | [] => .ret []
  | v :: vs =>
    .call (.one (.blockDeviceSize v.name v.hostPath)) fun size =>
      deriveAll ps ws vs >>= fun rest =>
        .ret ({ v with mountedBy := usersFromWorkloads ps ws v.name, sizeBytes := size } :: rest)

def list (ps : Params) : Prog ListOp ListRes (Except Err (List Volume)) :=
  (Prog.call .listVolumes .ret : Prog ListOp ListRes (Except Err (List Volume))).thenOk fun vs =>
    .call (.one (.wl .list)) fun ws =>
      deriveAll ps (ws.toOption.getD []) vs >>= fun vs => .ret (.ok vs)

/-- A call, or a change of the workloads' rows. -/
inductive Req where
  | create (name : String) (sizeMiB : Nat)
  | resize (name : String) (newSizeMiB : Nat)
  | delete (name : String) (force : Bool)
  | get (name : String)
  | list
  | workloads (rows : Table Workload.name)

inductive Reply where
  | created (r : Except Err Volume)
  | volume (r : Except Err Volume)
  | deleted (r : Except Err Unit)
  | volumes (r : Except Err (List Volume))
  | changed

/-- A call that runs alone and meets no failure. -/
def run {α : Type} (q : Probe) (p : Code α) (s : State) : State × α :=
  p.complete sem (fun _ => steady q) s

def step (ps : Params) (q : Probe) (s : State) : Req → State × Reply
  | .create name sizeMiB =>
    let out := run q (Maintenance.create name sizeMiB) s
    (out.1, .created out.2)
  | .resize name newSizeMiB =>
    let out := run q (Maintenance.resize ps name newSizeMiB) s
    (out.1, .volume out.2)
  | .delete name force =>
    let out := run q (Maintenance.delete ps name force) s
    (out.1, .deleted out.2)
  | .get name =>
    let out := run q (get ps name) s
    (out.1, .volume out.2)
  | .list =>
    let out := (list ps).complete listSem (fun _ => steady q) s
    (out.1, .volumes out.2)
  | .workloads rows => ({ s with host := { s.host with rows := rows } }, .changed)

/-- The sizes of the volumes in bytes, and the workloads. -/
structure Map where
  vols : String → Option Nat
  workloads : List Workload

inductive Answer where
  | failed
  | created
  | volume (mountedBy : List String) (size : Nat)
  | deleted
  | listed (entries : String → Option (List String × Nat))
  | changed

def mib (n : Nat) : Nat := n * 1024 * 1024

def Map.users (ps : Params) (m : Map) (name : String) : List String :=
  usersFromWorkloads ps m.workloads name

def Map.set (m : Map) (name : String) (size : Option Nat) : Map :=
  { m with vols := Function.update m.vols name size }

def Map.step (ps : Params) (m : Map) : Req → Map × Answer
  | .create name sizeMiB =>
    if validateName name = .ok () ∧ validateSize (sizeFor sizeMiB) = .ok () ∧
        m.vols name = none then
      (m.set name (some (mib (allocated (sizeFor sizeMiB)))), .created)
    else (m, .failed)
  | .resize name newSizeMiB =>
    match m.vols name with
    | none => (m, .failed)
    | some size =>
      if m.users ps name = [] ∧ validateSize newSizeMiB = .ok () ∧ size ≤ mib newSizeMiB then
        (m.set name (some (mib (allocated newSizeMiB))), .volume [] (mib (allocated newSizeMiB)))
      else (m, .failed)
  | .delete name force =>
    if m.vols name ≠ none ∧ m.users ps name ≠ [] ∧ force = false then (m, .failed)
    else (m.set name none, .deleted)
  | .get name =>
    match m.vols name with
    | none => (m, .failed)
    | some size => (m, .volume (m.users ps name) size)
  | .list => (m, .listed fun name => (m.vols name).map fun size => (m.users ps name, size))
  | .workloads rows => ({ m with workloads := rows.list }, .changed)

def Reply.answer : Reply → Answer
  | .created (.ok _) => .created
  | .volume (.ok v) => .volume v.mountedBy v.sizeBytes
  | .deleted (.ok _) => .deleted
  | .volumes (.ok vs) =>
    .listed fun name => (vs.find? (·.name = name)).map fun v => (v.mountedBy, v.sizeBytes)
  | .changed => .changed
  | _ => .failed

/-- The row of a volume tells of its logical volume, which has whole extents and a name that was
checked. -/
structure SyncedAt (s : State) (name : String) : Prop where
  row : s.volumes.get name = (s.lvs name).map fun _ => newVolume name
  named : s.lvs name ≠ none → validateName name = .ok ()
  sized : ∀ size, s.lvs name = some size →
    ∃ sizeMiB, sizeMiB ≤ Maintenance.maxSizeMiB ∧ size = mib (allocated sizeMiB)

def Synced (s : State) : Prop := ∀ name, SyncedAt s name

def abs (s : State) : Map := ⟨s.lvs, s.host.rows.list⟩

/-- The host after a command has made, resized or removed a logical volume. -/
def setLV (s : State) (name : String) (size : Option Nat) : State :=
  { s with lvs := Function.update s.lvs name size }

theorem allocated_le (n : Nat) : n ≤ allocated n ∧ allocated n < n + 4 := by
  simp only [allocated]; omega

theorem allocated_of_eq {n k : Nat} (h : n = allocated k) : allocated n = n := by
  simp only [allocated] at h ⊢; omega

variable {ps : Params} {q : Probe} {s : State} {name : String}

theorem SyncedAt.probed (hs : SyncedAt s name) (hq : q.Reads) {size : Nat}
    (hsize : s.lvs name = some size) : probed (steady q) s name (hostPath name) = size := by
  obtain ⟨k, hk, rfl⟩ := hs.sized size hsize
  have hlt : mib (allocated k) < 2 ^ 64 := by
    have h4 := (allocated_le k).2
    simp only [mib, Maintenance.maxSizeMiB] at hk ⊢
    omega
  have hnum : (UInt64.ofNat (mib (allocated k))).toNat = mib (allocated k) := by
    rw [UInt64.toNat_ofNat', Nat.mod_eq_of_lt hlt]
  have hname := Maintenance.nameMatches_of_validateName (hs.named (by simp [hsize]))
  have hread := blockDeviceSize_eq hname q (UInt64.ofNat (mib (allocated k)))
  rw [hnum, if_pos hq] at hread
  rw [Extents.probed, hsize]
  exact hread

theorem run_create_ok {sizeMiB : Nat} (hname : validateName name = .ok ())
    (hsize : validateSize (sizeFor sizeMiB) = .ok ()) (hrow : s.volumes.get name = none)
    (hnone : s.lvs name = none) :
    run q (Maintenance.create name sizeMiB) s =
      ({ setLV s name (some (mib (allocated (sizeFor sizeMiB)))) with
          volumes := s.volumes.put (newVolume name) }, .ok (newVolume name)) := by
  simp [run, Maintenance.create, hname, hsize, Prog.thenOk, Maintenance.createSized, Prog.complete,
    sem, Maintenance.sem, steady, Maintenance.getVolumeRow, hrow, Err.is,
    Maintenance.createVolumeLV, hnone, Maintenance.Env.command, Maintenance.storeNew, mib, setLV]

theorem run_create_failed {sizeMiB : Nat}
    (h : ¬ (validateName name = .ok () ∧ validateSize (sizeFor sizeMiB) = .ok () ∧
      s.volumes.get name = none ∧ s.lvs name = none)) :
    ∃ e, run q (Maintenance.create name sizeMiB) s = (s, .error e) := by
  unfold Maintenance.create
  cases hname : validateName name with
  | error e => exact ⟨e, rfl⟩
  | ok _ =>
    cases hsize : validateSize (sizeFor sizeMiB) with
    | error e => exact ⟨e, rfl⟩
    | ok _ =>
      cases hrow : s.volumes.get name with
      | some v =>
        refine ⟨.text ("volume " ++ GoString.quote name ++ " already exists"), ?_⟩
        simp [run, Prog.thenOk, Maintenance.createSized, Prog.complete, sem, Maintenance.sem,
          steady, Maintenance.getVolumeRow, hrow]
      | none =>
        obtain ⟨size, hlv⟩ := Option.ne_none_iff_exists'.mp fun hlv => h ⟨hname, hsize, hrow, hlv⟩
        simp [run, Prog.thenOk, Maintenance.createSized, Prog.complete, sem, Maintenance.sem,
          steady, Maintenance.getVolumeRow, hrow, Err.is, Maintenance.createVolumeLV, hlv]

theorem SyncedAt.get_of_some (hs : SyncedAt s name) {size : Nat} (hsize : s.lvs name = some size) :
    s.volumes.get name = some (newVolume name) := by
  rw [hs.row, hsize]
  rfl

theorem SyncedAt.get_of_none (hs : SyncedAt s name) (hnone : s.lvs name = none) :
    s.volumes.get name = none := by
  rw [hs.row, hnone]
  rfl

/-- The volume as `Get` and `Resize` return it. -/
def derived (ps : Params) (s : State) (name : String) (size : Nat) : Volume :=
  { newVolume name with
    mountedBy := usersFromWorkloads ps s.host.rows.list name
    sizeBytes := size }

theorem run_answerDerived (hs : SyncedAt s name) (hq : q.Reads) {size : Nat}
    (hsize : s.lvs name = some size) :
    run q (answerDerived ps name (newVolume name)) s = (s, .ok (derived ps s name size)) := by
  rw [derived, ← hs.probed hq hsize]
  rfl

theorem run_get_ok (hs : SyncedAt s name) (hq : q.Reads) {size : Nat}
    (hsize : s.lvs name = some size) :
    run q (get ps name) s = (s, .ok (derived ps s name size)) := by
  rw [← run_answerDerived hs hq hsize]
  simp [run, get, Prog.thenOk, Prog.complete, sem, Maintenance.sem, steady,
    Maintenance.getVolumeRow, hs.get_of_some hsize]

theorem run_get_failed (hrow : s.volumes.get name = none) :
    run q (get ps name) s = (s, .error (.sentinel .notFound)) := by
  simp [run, get, Prog.thenOk, Prog.complete, sem, Maintenance.sem, steady,
    Maintenance.getVolumeRow, hrow]

theorem SyncedAt.of_some {sizeMiB : Nat} (hlv : s.lvs name = some (mib (allocated sizeMiB)))
    (hrow : s.volumes.get name = some (newVolume name)) (hname : validateName name = .ok ())
    (hmax : sizeMiB ≤ Maintenance.maxSizeMiB) : SyncedAt s name where
  row := by rw [hrow, hlv]; rfl
  named _ := hname
  sized size hsize := by
    rw [hlv] at hsize; cases hsize; exact ⟨sizeMiB, hmax, rfl⟩

theorem SyncedAt.of_none (hlv : s.lvs name = none) (hrow : s.volumes.get name = none) :
    SyncedAt s name where
  row := by rw [hrow, hlv]; rfl
  named h := absurd hlv h
  sized size hsize := by
    rw [hlv] at hsize; cases hsize

theorem Synced.update (hs : Synced s) (name : String) {t : State} (ht : SyncedAt t name)
    (hothers : ∀ other, other ≠ name →
      t.lvs other = s.lvs other ∧ t.volumes.get other = s.volumes.get other) : Synced t := by
  intro other
  by_cases ho : other = name
  · exact ho ▸ ht
  · obtain ⟨hlvs, hrow⟩ := hothers other ho
    obtain ⟨row, named, sized⟩ := hs other
    rw [← hlvs] at row named sized
    exact ⟨hrow.trans row, named, sized⟩

theorem SyncedAt.resized (hs : SyncedAt s name) {size newSizeMiB : Nat}
    (hsize : s.lvs name = some size) (hmax : newSizeMiB ≤ Maintenance.maxSizeMiB) :
    SyncedAt (setLV s name (some (mib (allocated newSizeMiB)))) name :=
  .of_some (Function.update_self _ _ _) (hs.get_of_some hsize) (hs.named (by simp [hsize])) hmax

theorem run_resizeVolumeLV {size newSizeMiB : Nat} (hsize : s.lvs name = some size) :
    run q (Maintenance.resizeVolumeLV name newSizeMiB) s =
      (setLV s name (some (mib (allocated newSizeMiB))), .ok ()) := by
  simp [run, Maintenance.resizeVolumeLV, Prog.complete, sem, Maintenance.sem, steady,
    Maintenance.Env.onVolume, hsize, Maintenance.Env.command, Maintenance.checkAndGrow,
    Maintenance.runExt4Bin, Maintenance.runExt4BinIn, Maintenance.growFilesystem, Prog.mapErr, mib,
    Except.mapError, setLV]

theorem run_bind {α β : Type} (p : Code α) (f : α → Code β) (s : State) :
    run q (p >>= f) s = run q (f (run q p s).2) (run q p s).1 := Prog.complete_bind p f s

theorem run_thenOk {α β : Type} {p : Code (Except Err α)} {f : α → Code (Except Err β)}
    {s s' : State} {a : α} (h : run q p s = (s', .ok a)) :
    run q (p.thenOk f) s = run q (f a) s' := by
  rw [Prog.thenOk, run_bind, h]

theorem run_resizeUnused {size newSizeMiB : Nat} (hs : SyncedAt s name) (hq : q.Reads)
    (hsize : s.lvs name = some size) :
    run q (Maintenance.resizeUnused ps name newSizeMiB (newVolume name)) s =
      run q (if mib newSizeMiB < size then .ret (.error (Maintenance.shrinkErr size newSizeMiB))
        else if mib newSizeMiB = size then answerDerived ps name (newVolume name)
        else (Maintenance.resizeVolumeLV name newSizeMiB).thenOk fun _ =>
          answerDerived ps name (newVolume name)) s := by
  have hprobe : run q (call (.blockDeviceSize name (newVolume name).hostPath)) s = (s, size) :=
    congrArg (Prod.mk s) (hs.probed hq hsize)
  rw [Maintenance.resizeUnused, run_bind, hprobe]
  rfl

theorem run_resizeUnused_ok {size newSizeMiB : Nat} (hs : SyncedAt s name) (hq : q.Reads)
    (hsize : s.lvs name = some size) (hmax : newSizeMiB ≤ Maintenance.maxSizeMiB)
    (hle : size ≤ mib newSizeMiB) :
    run q (Maintenance.resizeUnused ps name newSizeMiB (newVolume name)) s =
      (setLV s name (some (mib (allocated newSizeMiB))),
        .ok (derived ps s name (mib (allocated newSizeMiB)))) := by
  rw [run_resizeUnused hs hq hsize, if_neg (by omega)]
  by_cases heq : mib newSizeMiB = size
  · -- the size is that of whole extents already
    obtain ⟨k, -, hk⟩ := hs.sized size hsize
    have hsame : mib (allocated newSizeMiB) = size := by
      rw [allocated_of_eq (k := k) (by simp only [mib] at heq hk; omega), heq]
    rw [if_pos heq, run_answerDerived hs hq hsize, hsame, setLV, ← hsize, Function.update_eq_self]
  · rw [if_neg heq, run_thenOk (run_resizeVolumeLV hsize),
      run_answerDerived (hs.resized hsize hmax) hq (Function.update_self _ _ _)]
    rfl

theorem run_refsTo : run q (Maintenance.refsTo ps name) s =
    (s, .ok (usersFromWorkloads ps s.host.rows.list name)) := rfl

theorem run_getVolume_ok (hs : SyncedAt s name) {size : Nat} (hsize : s.lvs name = some size) :
    run q (call (.getVolume name)) s = (s, .ok (newVolume name)) := by
  have hrow : Maintenance.getVolumeRow s name = .ok (newVolume name) := by
    rw [Maintenance.getVolumeRow, hs.get_of_some hsize]
  exact congrArg (Prod.mk s) hrow

theorem run_getVolume_failed (hs : SyncedAt s name) (hnone : s.lvs name = none) :
    run q (call (.getVolume name)) s = (s, .error (.sentinel .notFound)) := by
  have hrow : Maintenance.getVolumeRow s name = .error (.sentinel .notFound) := by
    rw [Maintenance.getVolumeRow, hs.get_of_none hnone]
  exact congrArg (Prod.mk s) hrow

theorem run_thenOk_error {α β : Type} {p : Code (Except Err α)} {f : α → Code (Except Err β)}
    {s s' : State} {e : Err} (h : run q p s = (s', .error e)) :
    run q (p.thenOk f) s = (s', .error e) := by
  rw [Prog.thenOk, run_bind, h]
  rfl

theorem run_resize_ok {size newSizeMiB : Nat} (hs : SyncedAt s name) (hq : q.Reads)
    (hsize : s.lvs name = some size) (hvalid : validateSize newSizeMiB = .ok ())
    (hunused : usersFromWorkloads ps s.host.rows.list name = []) (hle : size ≤ mib newSizeMiB) :
    run q (Maintenance.resize ps name newSizeMiB) s =
      (setLV s name (some (mib (allocated newSizeMiB))),
        .ok (derived ps s name (mib (allocated newSizeMiB)))) := by
  have hname := hs.named (by simp [hsize])
  have hmax := (Maintenance.le_of_validateSize hvalid).2
  rw [Maintenance.resize, hname, hvalid]
  change run q ((call (.getVolume name)).thenOk _) s = _
  rw [run_thenOk (run_getVolume_ok hs hsize), run_thenOk run_refsTo, hunused]
  exact run_resizeUnused_ok hs hq hsize hmax hle

theorem run_resize_failed {newSizeMiB : Nat} (hs : SyncedAt s name) (hq : q.Reads)
    (h : ∀ size, s.lvs name = some size →
      ¬ (usersFromWorkloads ps s.host.rows.list name = [] ∧ validateSize newSizeMiB = .ok () ∧
        size ≤ mib newSizeMiB)) :
    ∃ e, run q (Maintenance.resize ps name newSizeMiB) s = (s, .error e) := by
  unfold Maintenance.resize
  cases validateName name with
  | error e => exact ⟨e, rfl⟩
  | ok _ =>
    cases hvalid : validateSize newSizeMiB with
    | error e => exact ⟨e, rfl⟩
    | ok _ =>
      change ∃ e, run q ((call (.getVolume name)).thenOk _) s = (s, .error e)
      cases hlv : s.lvs name with
      | none => exact ⟨_, run_thenOk_error (run_getVolume_failed hs hlv)⟩
      | some size =>
        rw [run_thenOk (run_getVolume_ok hs hlv), run_thenOk run_refsTo]
        by_cases hunused : usersFromWorkloads ps s.host.rows.list name = []
        · have hlt : mib newSizeMiB < size := by
            by_contra hle
            exact h size hlv ⟨hunused, hvalid, by omega⟩
          rw [if_neg (not_not.mpr hunused), run_resizeUnused hs hq hlv, if_pos hlt]
          exact ⟨_, rfl⟩
        · rw [if_pos hunused]; exact ⟨_, rfl⟩

theorem run_removeVolumeLV {size : Nat} (hsize : s.lvs name = some size) :
    run q (Maintenance.removeVolumeLV name) s =
      (setLV s name none, .ok ()) := by
  simp [run, Maintenance.removeVolumeLV, Prog.complete, sem, Maintenance.sem, steady,
    Maintenance.Env.onVolume, hsize, Maintenance.Env.command, setLV]

theorem run_delete_absent (hs : SyncedAt s name) (hnone : s.lvs name = none) (force : Bool) :
    run q (Maintenance.delete ps name force) s = (s, .ok ()) := by
  rw [Maintenance.delete, run_bind, run_getVolume_failed hs hnone]
  rfl

theorem run_delete_failed {size : Nat} (hs : SyncedAt s name) (hsize : s.lvs name = some size)
    (hused : usersFromWorkloads ps s.host.rows.list name ≠ []) :
    ∃ e, run q (Maintenance.delete ps name false) s = (s, .error e) := by
  refine ⟨Maintenance.inUse (usersFromWorkloads ps s.host.rows.list name), ?_⟩
  rw [Maintenance.delete, run_bind, run_getVolume_ok hs hsize]
  refine (run_thenOk run_refsTo).trans ?_
  rw [if_pos ⟨hused, rfl⟩]
  rfl

theorem run_delete_ok {size : Nat} {force : Bool} (hs : SyncedAt s name)
    (hsize : s.lvs name = some size)
    (h : ¬ (usersFromWorkloads ps s.host.rows.list name ≠ [] ∧ force = false)) :
    run q (Maintenance.delete ps name force) s =
      ({ setLV s name none with volumes := s.volumes.del name },
        .ok ()) := by
  rw [Maintenance.delete, run_bind, run_getVolume_ok hs hsize]
  refine (run_thenOk run_refsTo).trans ?_
  rw [if_neg h]
  have hremove : run q (Prog.mapErr (Err.ctx ("lvremove " ++ (newVolume name).hostPath))
      (Maintenance.removeVolumeLV name)) s =
      (setLV s name none, .ok ()) := by
    rw [Prog.mapErr, run_bind, run_removeVolumeLV hsize]
    rfl
  rw [run_thenOk hremove]
  rfl

theorem complete_deriveAll (ps : Params) (q : Probe) (ws : List Workload) (vs : List Volume)
    (s : State) :
    (deriveAll ps ws vs).complete listSem (fun _ => steady q) s =
      (s, vs.map fun v => { v with
        mountedBy := usersFromWorkloads ps ws v.name
        sizeBytes := probed (steady q) s v.name v.hostPath }) := by
  induction vs with
  | nil => rfl
  | cons v vs ih =>
    refine (Prog.complete_bind (deriveAll ps ws vs) _ s).trans ?_
    rw [ih]
    rfl

theorem complete_list : (list ps).complete listSem (fun _ => steady q) s =
    (s, .ok (s.volumes.list.map fun v => { v with
      mountedBy := usersFromWorkloads ps s.host.rows.list v.name
      sizeBytes := probed (steady q) s v.name v.hostPath })) := by
  have hloop := complete_deriveAll ps q s.host.rows.list s.volumes.list s
  refine (Prog.complete_bind (deriveAll ps s.host.rows.list s.volumes.list) _ s).trans ?_
  exact congrArg (fun out : State × List Volume => (out.1, Except.ok out.2)) hloop

/-! ## One call -/

theorem find?_derived (hs : Synced s) (hq : q.Reads) (name : String) :
    ((s.volumes.list.map fun v => { v with
        mountedBy := usersFromWorkloads ps s.host.rows.list v.name
        sizeBytes := probed (steady q) s v.name v.hostPath }).find? (·.name = name)).map
      (fun v => (v.mountedBy, v.sizeBytes)) =
    (s.lvs name).map fun size => (usersFromWorkloads ps s.host.rows.list name, size) := by
  rw [List.find?_map]
  change (((s.volumes.list.find? fun v => v.name = name).map _).map _) = _
  rw [Table.find?_list _ name fun v => decide_eq_true_iff, (hs name).row, Option.map_map,
    Option.map_map]
  cases hsize : s.lvs name with
  | none => rfl
  | some size => rw [← (hs name).probed hq hsize]; rfl

theorem step_create (hs : Synced s) (name : String) (sizeMiB : Nat) :
    Synced (step ps q s (.create name sizeMiB)).1 ∧
      (abs (step ps q s (.create name sizeMiB)).1, (step ps q s (.create name sizeMiB)).2.answer) =
        Map.step ps (abs s) (.create name sizeMiB) := by
  by_cases h : validateName name = .ok () ∧ validateSize (sizeFor sizeMiB) = .ok () ∧
      s.lvs name = none
  · have hmap : Map.step ps (abs s) (.create name sizeMiB) = _ := if_pos h
    obtain ⟨hname, hsize, hnone⟩ := h
    rw [hmap, step, run_create_ok hname hsize ((hs name).get_of_none hnone) hnone]
    refine ⟨hs.update name (.of_some (Function.update_self _ _ _) (Table.get_put_self _ _)
      hname (Maintenance.le_of_validateSize hsize).2) ?_, rfl⟩
    intro other ho
    exact ⟨Function.update_of_ne ho _ _, Table.get_put_ne _ ho⟩
  · obtain ⟨e, he⟩ : ∃ e, run q (Maintenance.create name sizeMiB) s = (s, .error e) :=
      run_create_failed fun hall => h ⟨hall.1, hall.2.1, hall.2.2.2⟩
    have hmap : Map.step ps (abs s) (.create name sizeMiB) = _ := if_neg h
    rw [hmap, step, he]
    exact ⟨hs, rfl⟩

theorem step_resize (hs : Synced s) (hq : q.Reads) (name : String) (newSizeMiB : Nat) :
    Synced (step ps q s (.resize name newSizeMiB)).1 ∧
      (abs (step ps q s (.resize name newSizeMiB)).1,
        (step ps q s (.resize name newSizeMiB)).2.answer) =
        Map.step ps (abs s) (.resize name newSizeMiB) := by
  by_cases h : ∃ size, s.lvs name = some size ∧
      (usersFromWorkloads ps s.host.rows.list name = [] ∧ validateSize newSizeMiB = .ok () ∧
        size ≤ mib newSizeMiB)
  · obtain ⟨size, hsize, hunused, hvalid, hle⟩ := h
    have hmap : Map.step ps (abs s) (.resize name newSizeMiB) =
        ((abs s).set name (some (mib (allocated newSizeMiB))),
          .volume [] (mib (allocated newSizeMiB))) := by
      rw [Map.step, show (abs s).vols name = some size from hsize]
      exact if_pos ⟨hunused, hvalid, hle⟩
    rw [hmap, step, run_resize_ok (hs name) hq hsize hvalid hunused hle]
    constructor
    · refine hs.update name ((hs name).resized hsize (Maintenance.le_of_validateSize hvalid).2) ?_
      intro other ho
      exact ⟨Function.update_of_ne ho _ _, rfl⟩
    · rw [derived, hunused]; rfl
  · have hnot : ∀ size, s.lvs name = some size →
        ¬ (usersFromWorkloads ps s.host.rows.list name = [] ∧ validateSize newSizeMiB = .ok () ∧
          size ≤ mib newSizeMiB) := by
      intro size hsize hall
      exact h ⟨size, hsize, hall⟩
    have hmap : Map.step ps (abs s) (.resize name newSizeMiB) = (abs s, .failed) := by
      rw [Map.step]
      cases hsize : s.lvs name with
      | none => rw [show (abs s).vols name = none from hsize]
      | some size =>
        rw [show (abs s).vols name = some size from hsize]; exact if_neg (hnot size hsize)
    obtain ⟨e, he⟩ := run_resize_failed (hs name) hq hnot
    rw [hmap, step, he]
    exact ⟨hs, rfl⟩

theorem step_delete (hs : Synced s) (name : String) (force : Bool) :
    Synced (step ps q s (.delete name force)).1 ∧
      (abs (step ps q s (.delete name force)).1, (step ps q s (.delete name force)).2.answer) =
        Map.step ps (abs s) (.delete name force) := by
  by_cases h : s.lvs name ≠ none ∧ usersFromWorkloads ps s.host.rows.list name ≠ [] ∧ force = false
  · have hmap : Map.step ps (abs s) (.delete name force) = _ := if_pos h
    obtain ⟨size, hsize⟩ := Option.ne_none_iff_exists'.mp h.1
    obtain ⟨e, he⟩ := run_delete_failed (q := q) (hs name) hsize h.2.1
    rw [hmap, step, h.2.2, he]
    exact ⟨hs, rfl⟩
  · have hmap : Map.step ps (abs s) (.delete name force) = _ := if_neg h
    rw [hmap, step]
    cases hsize : s.lvs name with
    | none =>
      rw [run_delete_absent (hs name) hsize]
      refine ⟨hs, ?_⟩
      rw [Map.set, show (abs s).vols = s.lvs from rfl, ← hsize, Function.update_eq_self]
      rfl
    | some size =>
      rw [run_delete_ok (hs name) hsize fun hu => h ⟨by simp [hsize], hu⟩]
      refine ⟨hs.update name (.of_none (Function.update_self _ _ _)
        (Table.get_del_self _ _)) ?_, rfl⟩
      intro other ho
      exact ⟨Function.update_of_ne ho _ _, Table.get_del_ne _ ho⟩

theorem step_refines (ps : Params) (hs : Synced s) (hq : q.Reads) (x : Req) :
    Synced (step ps q s x).1 ∧
      (abs (step ps q s x).1, (step ps q s x).2.answer) = Map.step ps (abs s) x := by
  cases x with
  | create name sizeMiB => exact step_create hs name sizeMiB
  | resize name newSizeMiB => exact step_resize hs hq name newSizeMiB
  | delete name force => exact step_delete hs name force
  | get name =>
    rw [step, Map.step]
    cases hsize : s.lvs name with
    | none =>
      rw [run_get_failed ((hs name).get_of_none hsize), show (abs s).vols name = none from hsize]
      exact ⟨hs, rfl⟩
    | some size =>
      rw [run_get_ok (hs name) hq hsize, show (abs s).vols name = some size from hsize]
      exact ⟨hs, rfl⟩
  | list =>
    rw [step, complete_list]
    exact ⟨hs, congrArg (fun f => (abs s, Answer.listed f)) (funext (find?_derived hs hq))⟩
  | workloads rows =>
    refine ⟨fun name => ?_, rfl⟩
    exact ⟨(hs name).row, (hs name).named, (hs name).sized⟩

/-- From a host without volumes: each call is answered as the map answers it, and after any number
of them the logical volumes are those of the map, each with its row. -/
theorem service_refines_map (ps : Params) (q : Probe) (s : State) (w : List Req) (hq : q.Reads)
    (hvols : s.volumes = Table.empty) (hlvs : ∀ name, s.lvs name = none) :
    outputs (fun s x => ((step ps q s x).1, (step ps q s x).2.answer)) s w =
        outputs (Map.step ps) (abs s) w ∧
      (w.foldl (fun s x => (step ps q s x).1) s).lvs =
        (w.foldl (fun m x => (Map.step ps m x).1) (abs s)).vols ∧
      ∀ name, (w.foldl (fun s x => (step ps q s x).1) s).volumes.get name =
        ((w.foldl (fun s x => (step ps q s x).1) s).lvs name).map fun _ => newVolume name := by
  have hs : Synced s := fun name => .of_none (hlvs name) (by rw [hvols]; rfl)
  clear hvols hlvs
  induction w generalizing s with
  | nil => exact ⟨rfl, rfl, fun name => (hs name).row⟩
  | cons x w ih =>
    obtain ⟨hs', hstep⟩ := step_refines ps hs hq x
    obtain ⟨hout, hvols, hrows⟩ := ih (step ps q s x).1 hs'
    have hnext : abs (step ps q s x).1 = (Map.step ps (abs s) x).1 := congrArg Prod.fst hstep
    have hsame : (step ps q s x).2.answer = (Map.step ps (abs s) x).2 := congrArg Prod.snd hstep
    rw [hnext] at hout hvols
    exact ⟨by rw [outputs, outputs, hsame, hout], hvols, hrows⟩

def noVolumes : State := ⟨fresh, Table.empty, fun _ => none⟩

/-- 33 MiB are 36, and 40 are 40. -/
theorem service_refines_map_grown :
    ([Req.create "data" 33, .resize "data" 40].foldl
      (fun s x => (step dataParams .lvs s x).1) noVolumes).lvs "data" = some 41943040 := by
  rw [(service_refines_map dataParams .lvs noVolumes _ (by decide) rfl fun _ => rfl).2.1]
  decide

end Capsule.Volumes.Mapped
