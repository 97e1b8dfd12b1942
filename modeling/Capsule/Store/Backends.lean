import Capsule.Atomic.Steps
import Capsule.Keyed.Table
import Capsule.Store.Types
import Mathlib.Data.Prod.Lex
import Mathlib.Data.String.Basic

/-!
# Capsule.Store.Backends

The two implementations of `store.Store`: the maps of `store/memory` and the tables of
`store/sqlite`, call by call (`Memory.step`, `Sqlite.step`).

* `encode`: the database that holds what the memory store holds.
* `Alike`: the calls that the two treat alike.
* `step_encode`: such a call has the same reply, and leaves databases that correspond again.
* `stores_agree`: so every sequence of such calls is answered alike. `stores_differ` has calls that
  are not.
-/

namespace Capsule.Store

open Atomic Keyed

/-- A message `ω` that is marshalled to a blob `β` and read back. -/
structure Proto (ω β : Type) where
  name : ω → String
  marshal : ω → β
  unmarshal : β → Option ω
  unmarshal_marshal : ∀ w, unmarshal (marshal w) = some w

structure Volume where
  name : String
  sizeBytes : UInt64
  hostPath : String
  mountedBy : List String
  createdAtUnix : Int64
  deriving DecidableEq

/-- `store.OSState`, its slots being any strings. -/
structure OSState where
  activeSlot : String
  pendingSlot : String
  pendingDeadlineUnix : Int64
  lastGoodSlot : String
  lastVersion : String
  deriving DecidableEq

/-- The argument of `AuthorizedKeyStore.Add`, whose slice may be nil. -/
structure NewKey where
  kid : String
  pubkey : Option Bytes
  name : String
  addedByKid : String
  addedAtUnix : Int64
  deriving DecidableEq

inductive Call (ω : Type) where
  | workloadPut (w : ω)
  | workloadGet (name : String)
  | workloadList
  | workloadDelete (name : String)
  | volumePut (v : Volume)
  | volumeGet (name : String)
  | volumeList
  | volumeDelete (name : String)
  | osStateGet
  | osStatePut (st : OSState)
  | identityGet
  | identityPut (id : CapsuleIdentity)
  | keyAdd (k : NewKey)
  | keyGet (kid : String)
  | keyList
  | keyDelete (kid : String)
  | keyCount
  | keyDeleteAll

/-- What a call returns: an error, or a value. -/
inductive Reply (ω : Type) where
  | err (e : Err)
  | done
  | workload (w : ω)
  | workloads (ws : List ω)
  | volume (v : Volume)
  | volumes (vs : List Volume)
  | osState (st : OSState)
  | identity (id : CapsuleIdentity)
  | key (k : AuthorizedKey)
  | keys (ks : List AuthorizedKey)
  | count (n : Nat)
  deriving DecidableEq

variable {ω β : Type}

def Reply.notFound : Reply ω := .err (.sentinel .notFound)

def Reply.conflict : Reply ω := .err (.sentinel .conflict)

/-- The value found, or `ErrNotFound`. -/
def Reply.found {α : Type} (f : α → Reply ω) : Option α → Reply ω
  | none => .notFound
  | some a => f a

/-- A time that was not given is the current one. -/
def orNow (now t : Int64) : Int64 := if t = 0 then now else t

/-- `ORDER BY added_at_unix, kid`, and the comparison of the memory store. -/
def keyRank (addedAt : Int64) (kid : String) : Int ×ₗ String := toLex (addedAt.toInt, kid)

namespace Memory

structure State (P : Proto ω β) where
  workloads : Table P.name
  volumes : Table Volume.name
  osState : Option OSState
  identity : Option CapsuleIdentity
  keys : Table AuthorizedKey.kid

def State.new (P : Proto ω β) : State P := ⟨.empty, .empty, none, none, .empty⟩

def stampKey (now : Int64) (k : NewKey) : AuthorizedKey :=
  ⟨k.kid, k.pubkey.getD [], k.name, k.addedByKid, orNow now k.addedAtUnix⟩

def rank (k : AuthorizedKey) : Int ×ₗ String := keyRank k.addedAtUnix k.kid

def step {P : Proto ω β} (s : State P) (x : Call ω × Int64) : State P × Reply ω :=
  match x.1 with
  | .workloadPut w =>
    if P.name w = "" then (s, .notFound) else ({ s with workloads := s.workloads.put w }, .done)
  | .workloadGet name => (s, .found .workload (s.workloads.get name))
  | .workloadList => (s, .workloads s.workloads.list)
  | .workloadDelete name => ({ s with workloads := s.workloads.del name }, .done)
  | .volumePut v =>
    if v.name = "" then (s, .notFound) else ({ s with volumes := s.volumes.put v }, .done)
  | .volumeGet name => (s, .found .volume (s.volumes.get name))
  | .volumeList => (s, .volumes s.volumes.list)
  | .volumeDelete name => ({ s with volumes := s.volumes.del name }, .done)
  | .osStateGet => (s, .found .osState s.osState)
  | .osStatePut st => ({ s with osState := some st }, .done)
  | .identityGet => (s, .found .identity s.identity)
  | .identityPut id =>
    ({ s with identity := some { id with createdAtUnix := orNow x.2 id.createdAtUnix } }, .done)
  | .keyAdd k =>
    match s.keys.add (stampKey x.2 k) with
    | none => (s, .conflict)
    | some keys => ({ s with keys }, .done)
  | .keyGet kid => (s, .found .key (s.keys.get kid))
  | .keyList => (s, .keys (s.keys.listBy rank))
  | .keyDelete kid => ({ s with keys := s.keys.del kid }, .done)
  | .keyCount => (s, .count s.keys.count)
  | .keyDeleteAll => ({ s with keys := .empty }, .done)

end Memory

namespace Sqlite

structure WorkloadRow (β : Type) where
  name : String
  spec : β

structure VolumeRow where
  name : String
  hostPath : String
  createdAt : Int64

structure OSStateRow where
  activeSlot : String
  pendingSlot : Option String
  pendingDeadlineUnix : Option Int64
  lastGoodSlot : String
  lastVersion : Option String

structure IdentityRow where
  capsuleID : String
  shortID : Option String
  createdAtUnix : Int64
  adoptedAtUnix : Option Int64
  adoptedByKid : Option String

structure KeyRow where
  kid : String
  pubkey : Bytes
  name : String
  addedByKid : Option String
  addedAtUnix : Int64

structure State (β : Type) where
  workloads : Table (WorkloadRow.name (β := β))
  volumes : Table VolumeRow.name
  osState : Option OSStateRow
  identity : Option IdentityRow
  keys : Table KeyRow.kid

def State.new (β : Type) : State β := ⟨.empty, .empty, none, none, .empty⟩

/-- An empty string is stored as NULL. -/
def nullString (s : String) : Option String := if s = "" then none else some s

/-- Zero is stored as NULL. -/
def nullInt (n : Int64) : Option Int64 := if n = 0 then none else some n

def workloadRow (P : Proto ω β) (w : ω) : WorkloadRow β := ⟨P.name w, P.marshal w⟩

def osStateRow (st : OSState) : OSStateRow :=
  ⟨st.activeSlot, nullString st.pendingSlot, nullInt st.pendingDeadlineUnix, st.lastGoodSlot,
    nullString st.lastVersion⟩

def OSStateRow.scan (r : OSStateRow) : OSState :=
  ⟨r.activeSlot, r.pendingSlot.getD "", r.pendingDeadlineUnix.getD 0, r.lastGoodSlot,
    r.lastVersion.getD ""⟩

def identityRow (id : CapsuleIdentity) : IdentityRow :=
  ⟨id.capsuleID, nullString id.shortID, id.createdAtUnix, nullInt id.adoptedAtUnix,
    nullString id.adoptedByKid⟩

def IdentityRow.scan (r : IdentityRow) : CapsuleIdentity :=
  ⟨r.capsuleID, r.shortID.getD "", r.createdAtUnix, r.adoptedAtUnix.getD 0,
    r.adoptedByKid.getD ""⟩

def VolumeRow.scan (r : VolumeRow) : Volume := ⟨r.name, 0, r.hostPath, [], r.createdAt⟩

def KeyRow.scan (r : KeyRow) : AuthorizedKey :=
  ⟨r.kid, r.pubkey, r.name, r.addedByKid.getD "", r.addedAtUnix⟩

/-- The blob of a row, read back; no text tells the two errors apart. -/
def WorkloadRow.scan (P : Proto ω β) (r : WorkloadRow β) : Except Err ω :=
  match P.unmarshal r.spec with
  | some w => .ok w
  | none => .error ((Err.text "proto: cannot parse").ctx ("unmarshal workload " ++ r.name))

def scanAll (P : Proto ω β) : List (WorkloadRow β) → Except Err (List ω)
  | [] => .ok []
  | r :: rs =>
    match r.scan P, scanAll P rs with
    | .ok w, .ok ws => .ok (w :: ws)
    | .error e, _ => .error e
    | .ok _, .error e => .error e

def KeyRow.rank (r : KeyRow) : Int ×ₗ String := keyRank r.addedAtUnix r.kid

def step (P : Proto ω β) (s : State β) (x : Call ω × Int64) : State β × Reply ω :=
  match x.1 with
  | .workloadPut w =>
    let row := workloadRow P w
    ({ s with workloads := s.workloads.upsert row fun old => { old with spec := row.spec } },
      .done)
  | .workloadGet name =>
    match s.workloads.get name with
    | none => (s, .notFound)
    | some r =>
      match r.scan P with
      | .ok w => (s, .workload w)
      | .error e => (s, .err e)
  | .workloadList =>
    match scanAll P s.workloads.list with
    | .ok ws => (s, .workloads ws)
    | .error e => (s, .err e)
  | .workloadDelete name => ({ s with workloads := s.workloads.del name }, .done)
  | .volumePut v =>
    let row : VolumeRow := ⟨v.name, v.hostPath, orNow x.2 v.createdAtUnix⟩
    -- on a conflict the time stays the one of the row that is there
    ({ s with volumes := s.volumes.upsert row fun old => { old with hostPath := row.hostPath } },
      .done)
  | .volumeGet name => (s, .found .volume ((s.volumes.get name).map VolumeRow.scan))
  | .volumeList => (s, .volumes (s.volumes.list.map VolumeRow.scan))
  | .volumeDelete name => ({ s with volumes := s.volumes.del name }, .done)
  | .osStateGet => (s, .found .osState (s.osState.map OSStateRow.scan))
  | .osStatePut st => ({ s with osState := some (osStateRow st) }, .done)
  | .identityGet => (s, .found .identity (s.identity.map IdentityRow.scan))
  | .identityPut id =>
    let row := identityRow { id with createdAtUnix := orNow x.2 id.createdAtUnix }
    ({ s with identity := some row }, .done)
  | .keyAdd k =>
    match k.pubkey with
    | none => (s, .conflict)  -- `NOT NULL constraint failed`
    | some pubkey =>
      match s.keys.add ⟨k.kid, pubkey, k.name, nullString k.addedByKid,
        orNow x.2 k.addedAtUnix⟩ with
      | none => (s, .conflict)
      | some keys => ({ s with keys }, .done)
  | .keyGet kid => (s, .found .key ((s.keys.get kid).map KeyRow.scan))
  | .keyList => (s, .keys ((s.keys.listBy KeyRow.rank).map KeyRow.scan))
  | .keyDelete kid => ({ s with keys := s.keys.del kid }, .done)
  | .keyCount => (s, .count s.keys.count)
  | .keyDeleteAll => ({ s with keys := .empty }, .done)

/-! ## The same store -/

def volumeRow (v : Volume) : VolumeRow := ⟨v.name, v.hostPath, v.createdAtUnix⟩

def keyRow (k : AuthorizedKey) : KeyRow :=
  ⟨k.kid, k.pubkey, k.name, nullString k.addedByKid, k.addedAtUnix⟩

theorem name_workloadRow (P : Proto ω β) (w : ω) : (workloadRow P w).name = P.name w := rfl

theorem name_volumeRow (v : Volume) : (volumeRow v).name = v.name := rfl

theorem kid_keyRow (k : AuthorizedKey) : (keyRow k).kid = k.kid := rfl

theorem rank_keyRow (k : AuthorizedKey) : (keyRow k).rank = Memory.rank k := rfl

/-- The database that holds what the memory store holds. -/
def encode {P : Proto ω β} (m : Memory.State P) : State β where
  workloads := m.workloads.map (workloadRow P) (name_workloadRow P)
  volumes := m.volumes.map volumeRow name_volumeRow
  osState := m.osState.map osStateRow
  identity := m.identity.map identityRow
  keys := m.keys.map keyRow kid_keyRow

@[simp] theorem getD_nullString (s : String) : (nullString s).getD "" = s := by
  unfold nullString
  split
  · exact (‹s = ""›).symm
  · rfl

@[simp] theorem getD_nullInt (n : Int64) : (nullInt n).getD 0 = n := by
  unfold nullInt
  split
  · exact (‹n = 0›).symm
  · rfl

@[simp] theorem scan_osStateRow (st : OSState) : (osStateRow st).scan = st := by
  simp only [osStateRow, OSStateRow.scan, getD_nullString, getD_nullInt]

@[simp] theorem scan_identityRow (id : CapsuleIdentity) : (identityRow id).scan = id := by
  simp only [identityRow, IdentityRow.scan, getD_nullString, getD_nullInt]

@[simp] theorem scan_keyRow (k : AuthorizedKey) : (keyRow k).scan = k := by
  simp only [keyRow, KeyRow.scan, getD_nullString]

@[simp] theorem scan_workloadRow (P : Proto ω β) (w : ω) : (workloadRow P w).scan P = .ok w := by
  simp only [workloadRow, WorkloadRow.scan, P.unmarshal_marshal]

theorem scanAll_map (P : Proto ω β) (ws : List ω) :
    scanAll P (ws.map (workloadRow P)) = .ok ws := by
  induction ws with
  | nil => rfl
  | cons w ws ih => simp only [List.map_cons, scanAll, scan_workloadRow, ih]

end Sqlite

/-- The volume has no field that is not a column. -/
def Volume.Whole (v : Volume) : Prop := v.sizeBytes = 0 ∧ v.mountedBy = []

theorem Volume.Whole.scan {v : Volume} (h : v.Whole) : (Sqlite.volumeRow v).scan = v := by
  obtain ⟨name, sizeBytes, hostPath, mountedBy, createdAtUnix⟩ := v
  obtain ⟨rfl, rfl⟩ := h
  rfl

section Agreement

variable {P : Proto ω β} {m : Memory.State P} {x : Call ω × Int64}

/-- The two backends treat the call alike: what is stored has a name, a volume has only the fields
that are columns and the time it was created at, and a key has bytes. -/
def Alike (m : Memory.State P) (x : Call ω × Int64) : Prop :=
  match x.1 with
  | .workloadPut w => P.name w ≠ ""
  | .volumePut v => v.name ≠ "" ∧ v.Whole ∧ v.createdAtUnix ≠ 0 ∧
      ∀ old, m.volumes.get v.name = some old → old.createdAtUnix = v.createdAtUnix
  | .keyAdd k => k.pubkey ≠ none
  | _ => True

def AllWhole (m : Memory.State P) : Prop := ∀ v ∈ m.volumes.rows, v.Whole

theorem allWhole_step (hm : AllWhole m) (hx : Alike m x) : AllWhole (Memory.step m x).1 := by
  obtain ⟨c, now⟩ := x
  cases c with
  | volumePut v =>
    obtain ⟨hname, hv, -⟩ := hx
    simp only [Memory.step, if_neg hname]
    intro v' hv'
    rcases List.mem_cons.mp hv' with rfl | hv'
    · exact hv
    · exact hm v' (Table.mem_del.mp hv').1
  | volumeDelete name => exact fun v hv => hm v (Table.mem_del.mp hv).1
  | workloadPut w =>
    simp only [Memory.step]
    split <;> exact hm
  | keyAdd k =>
    simp only [Memory.step]
    split <;> exact hm
  | _ => exact hm

theorem scan_get (hm : AllWhole m) (name : String) :
    ((Sqlite.encode m).volumes.get name).map Sqlite.VolumeRow.scan = m.volumes.get name := by
  simp only [Sqlite.encode, Table.get_map, Option.map_map]
  cases h : m.volumes.get name with
  | none => rfl
  | some v => exact congrArg some (hm v (Table.mem_of_get h)).scan

theorem scan_list (hm : AllWhole m) :
    (Sqlite.encode m).volumes.list.map Sqlite.VolumeRow.scan = m.volumes.list := by
  simp only [Sqlite.encode, Table.list_map, List.map_map]
  refine (List.map_congr_left fun v hv => ?_).trans (List.map_id' _)
  exact (hm v (Table.mem_list.mp hv)).scan

theorem volumePut_encode {v : Volume} {now : Int64} (hx : Alike m (.volumePut v, now)) :
    Sqlite.step P (Sqlite.encode m) (.volumePut v, now) =
      (Sqlite.encode (Memory.step m (.volumePut v, now)).1,
        (Memory.step m (.volumePut v, now)).2) := by
  obtain ⟨hname, -, htime, hsame⟩ := hx
  simp only [Sqlite.step, Memory.step, if_neg hname, Sqlite.encode, orNow, if_neg htime]
  have hrow : (⟨v.name, v.hostPath, v.createdAtUnix⟩ : Sqlite.VolumeRow) = Sqlite.volumeRow v :=
    rfl
  rw [hrow, Table.upsert_eq_put, Table.put_map]
  intro old hold
  rw [Table.get_map] at hold
  obtain ⟨v', hv', rfl⟩ := Option.map_eq_some_iff.mp hold
  have hkey : v'.name = v.name := Table.get_some_key hv'
  simp only [Sqlite.volumeRow, hkey, hsame v' hv']

theorem keyAdd_encode {k : NewKey} {now : Int64} (hx : Alike m (.keyAdd k, now)) :
    Sqlite.step P (Sqlite.encode m) (.keyAdd k, now) =
      (Sqlite.encode (Memory.step m (.keyAdd k, now)).1, (Memory.step m (.keyAdd k, now)).2) := by
  obtain ⟨pubkey, hpubkey⟩ := Option.ne_none_iff_exists'.mp hx
  have hrow : (⟨k.kid, pubkey, k.name, Sqlite.nullString k.addedByKid,
      orNow now k.addedAtUnix⟩ : Sqlite.KeyRow) = Sqlite.keyRow (Memory.stampKey now k) := by
    simp only [Sqlite.keyRow, Memory.stampKey, hpubkey, Option.getD_some]
  simp only [Sqlite.step, Memory.step, hpubkey]
  rw [hrow]
  simp only [Sqlite.encode, Table.add_map]
  cases m.keys.add (Memory.stampKey now k) <;> rfl

theorem step_encode (hm : AllWhole m) (hx : Alike m x) :
    Sqlite.step P (Sqlite.encode m) x =
      (Sqlite.encode (Memory.step m x).1, (Memory.step m x).2) := by
  obtain ⟨c, now⟩ := x
  cases c with
  | workloadPut w =>
    have hname : P.name w ≠ "" := hx
    simp only [Sqlite.step, Memory.step, if_neg hname, Sqlite.encode]
    rw [Table.upsert_eq_put, Table.put_map]
    intro old hold
    exact congrArg (Sqlite.WorkloadRow.mk · _) (Table.get_some_key hold)
  | workloadGet name =>
    simp only [Sqlite.step, Memory.step, Sqlite.encode, Table.get_map]
    cases m.workloads.get name with
    | none => rfl
    | some w => simp [Reply.found]
  | workloadList =>
    simp only [Sqlite.step, Memory.step, Sqlite.encode, Table.list_map, Sqlite.scanAll_map]
  | workloadDelete name =>
    simp only [Sqlite.step, Memory.step, Sqlite.encode, Table.del_map]
  | volumePut v => exact volumePut_encode hx
  | volumeGet name => simp only [Sqlite.step, Memory.step, scan_get hm]
  | volumeList => simp only [Sqlite.step, Memory.step, scan_list hm]
  | volumeDelete name =>
    simp only [Sqlite.step, Memory.step, Sqlite.encode, Table.del_map]
  | osStateGet =>
    cases h : m.osState <;> simp [Sqlite.step, Memory.step, Sqlite.encode, h]
  | osStatePut st => rfl
  | identityGet =>
    cases h : m.identity <;> simp [Sqlite.step, Memory.step, Sqlite.encode, h]
  | identityPut id => rfl
  | keyAdd k => exact keyAdd_encode hx
  | keyGet kid =>
    simp only [Sqlite.step, Memory.step, Sqlite.encode, Table.get_map]
    cases m.keys.get kid with
    | none => rfl
    | some k => simp
  | keyList =>
    have hscan : Sqlite.KeyRow.scan ∘ Sqlite.keyRow = id := funext Sqlite.scan_keyRow
    simp only [Sqlite.step, Memory.step, Sqlite.encode]
    rw [Table.listBy_map Sqlite.rank_keyRow, List.map_map, hscan, List.map_id]
  | keyDelete kid =>
    simp only [Sqlite.step, Memory.step, Sqlite.encode, Table.del_map]
  | keyCount =>
    simp only [Sqlite.step, Memory.step, Sqlite.encode, Table.count_map]
  | keyDeleteAll => rfl

theorem stores_agree {calls : List (Call ω × Int64)}
    (hcalls : Along (fun m x => (Memory.step m x).1) Alike (Memory.State.new P) calls) :
    outputs Memory.step (Memory.State.new P) calls =
      outputs (Sqlite.step P) (Sqlite.State.new β) calls := by
  refine outputs_eq (R := fun m s => s = Sqlite.encode m ∧ AllWhole m) ?_ ⟨rfl, ?_⟩ hcalls
  · rintro m s x ⟨rfl, hm⟩ hx
    rw [step_encode hm hx]
    exact ⟨rfl, rfl, allWhole_step hm hx⟩
  · intro v hv; cases hv

end Agreement

/-- Messages that are their own name and blob. -/
def names : Proto String String := ⟨id, id, some, fun _ => rfl⟩

def vol (createdAtUnix : Int64) : Volume := ⟨"data", 0, "/dev/capsule/vol-data", [], createdAtUnix⟩

def smallCalls : List (Call String × Int64) :=
  [(.workloadPut "blog", 5), (.volumePut (vol 7), 5), (.volumePut (vol 7), 6),
    (.keyAdd ⟨"k", some [1], "laptop", "", 0⟩, 9), (.keyAdd ⟨"k", some [2], "", "", 0⟩, 9),
    (.keyList, 9)]

theorem stores_agree_small :
    outputs (Sqlite.step names) (Sqlite.State.new String) smallCalls =
        [.done, .done, .done, .done, .conflict, .keys [⟨"k", [1], "laptop", "", 9⟩]] ∧
      outputs Memory.step (Memory.State.new names) smallCalls =
        outputs (Sqlite.step names) (Sqlite.State.new String) smallCalls := by
  have hvol : (vol 7).name ≠ "" ∧ (vol 7).Whole ∧ (vol 7).createdAtUnix ≠ 0 :=
    ⟨by decide, ⟨rfl, rfl⟩, by decide⟩
  have hcalls : Along (fun m x => (Memory.step m x).1) Alike (Memory.State.new names)
      smallCalls := by
    refine ⟨(by decide : "blog" ≠ ""), ⟨hvol.1, hvol.2.1, hvol.2.2, fun old h => ?_⟩,
      ⟨hvol.1, hvol.2.1, hvol.2.2, fun old h => ?_⟩, Option.some_ne_none _, Option.some_ne_none _,
      trivial, trivial⟩
    · cases h
    · cases h; rfl
  exact ⟨by decide +kernel, stores_agree hcalls⟩

/-- A workload without a name is refused by one backend and stored by the other; a volume is read
back with another size, and after a second `Put` with another time. -/
theorem stores_differ :
    outputs Memory.step (Memory.State.new names) [(.workloadPut "", 5), (.workloadGet "", 5)] =
        [.notFound, .notFound] ∧
      outputs (Sqlite.step names) (Sqlite.State.new String)
          [(.workloadPut "", 5), (.workloadGet "", 5)] = [.done, .workload ""] ∧
      outputs Memory.step (Memory.State.new names)
          [(.volumePut { vol 7 with sizeBytes := 8 }, 5), (.volumeGet "data", 5)] =
        [.done, .volume { vol 7 with sizeBytes := 8 }] ∧
      outputs (Sqlite.step names) (Sqlite.State.new String)
          [(.volumePut { vol 7 with sizeBytes := 8 }, 5), (.volumeGet "data", 5)] =
        [.done, .volume (vol 7)] ∧
      outputs Memory.step (Memory.State.new names)
          [(.volumePut (vol 7), 5), (.volumePut (vol 9), 5), (.volumeGet "data", 5)] =
        [.done, .done, .volume (vol 9)] ∧
      outputs (Sqlite.step names) (Sqlite.State.new String)
          [(.volumePut (vol 7), 5), (.volumePut (vol 9), 5), (.volumeGet "data", 5)] =
        [.done, .done, .volume (vol 7)] := by
  refine ⟨?_, ?_, ?_, ?_, ?_, ?_⟩ <;> decide +kernel

end Capsule.Store
