import Capsule.Store.Backends

/-!
# Capsule.Store.Schema

The database file under `store/sqlite`: what `Open` makes of one that an older capsule has written,
and what is read from it through any number of closings and openings.

* `migrate`, `records_migrate`: creating missing tables and adding `short_id` keeps the records.
* `Records.step`: what a call does to the records, as a map under each key.
* `sqlite_keeps_records`: the store answers as the records say, from a file of either schema, and
  each request changes the record it writes and no other.
-/

namespace Capsule.Store.Sqlite

open Atomic Keyed

variable {ω β : Type}

/-- A row of `capsule_identity` from before `short_id`. -/
structure OldIdentityRow where
  capsuleID : String
  createdAtUnix : Int64
  adoptedAtUnix : Option Int64
  adoptedByKid : Option String

/-- The table of the old schema or the new one; it is the latter that `PRAGMA table_info` finds a
column `short_id` in. -/
inductive IdentityTable where
  | old (row : Option OldIdentityRow)
  | new (row : Option IdentityRow)

/-- A database between two runs. A table that was never created is missing. -/
structure File (β : Type) where
  workloads : Option (Table (WorkloadRow.name (β := β)))
  volumes : Option (Table VolumeRow.name)
  osState : Option (Option OSStateRow)
  identity : Option IdentityTable
  keys : Option (Table KeyRow.kid)

/-- `CREATE TABLE IF NOT EXISTS`, with the table that is created. -/
def createIfMissing {τ : Type} (created : τ) (t : Option τ) : τ := t.getD created

/-- `ALTER TABLE capsule_identity ADD COLUMN short_id TEXT`, in the row that is there. -/
def OldIdentityRow.addShortID (r : OldIdentityRow) : IdentityRow :=
  ⟨r.capsuleID, none, r.createdAtUnix, r.adoptedAtUnix, r.adoptedByKid⟩

def addColumnIfMissing : IdentityTable → Option IdentityRow
  | .new row => row
  | .old row => row.map OldIdentityRow.addShortID

def migrate (f : File β) : State β where
  workloads := createIfMissing .empty f.workloads
  volumes := createIfMissing .empty f.volumes
  osState := createIfMissing none f.osState
  identity := addColumnIfMissing (createIfMissing (.new none) f.identity)
  keys := createIfMissing .empty f.keys

/-- The file that an open database leaves. -/
def State.file (s : State β) : File β :=
  ⟨some s.workloads, some s.volumes, some s.osState, some (.new s.identity), some s.keys⟩

/-- `INSERT INTO ... VALUES(1, ...) ON CONFLICT(singleton) DO UPDATE`. -/
def upsertSingleton {α : Type} (old : Option α) (row : α) (set : α → α) : α :=
  match old with
  | none => row
  | some old => set old

/-- The column list of `osStateStore.Put`. -/
def OSStateRow.set (excluded old : OSStateRow) : OSStateRow :=
  { old with
    activeSlot := excluded.activeSlot
    pendingSlot := excluded.pendingSlot
    pendingDeadlineUnix := excluded.pendingDeadlineUnix
    lastGoodSlot := excluded.lastGoodSlot
    lastVersion := excluded.lastVersion }

/-- The column list of `identityStore.Put`. -/
def IdentityRow.set (excluded old : IdentityRow) : IdentityRow :=
  { old with
    capsuleID := excluded.capsuleID
    shortID := excluded.shortID
    createdAtUnix := excluded.createdAtUnix
    adoptedAtUnix := excluded.adoptedAtUnix
    adoptedByKid := excluded.adoptedByKid }

/-- A call of an open store, column by column. -/
def exec (P : Proto ω β) (s : State β) (x : Call ω × Int64) : State β × Reply ω :=
  match x.1 with
  | .osStatePut st =>
    let row := osStateRow st
    ({ s with osState := some (upsertSingleton s.osState row row.set) }, .done)
  | .identityPut id =>
    let row := identityRow { id with createdAtUnix := orNow x.2 id.createdAtUnix }
    ({ s with identity := some (upsertSingleton s.identity row row.set) }, .done)
  | _ => step P s x

theorem exec_eq_step (P : Proto ω β) (s : State β) (x : Call ω × Int64) :
    exec P s x = step P s x := by
  obtain ⟨c, now⟩ := x
  cases c with
  | osStatePut st => cases h : s.osState <;> simp [exec, step, upsertSingleton, h, OSStateRow.set]
  | identityPut id =>
    cases h : s.identity <;> simp [exec, step, upsertSingleton, h, IdentityRow.set]
  | _ => rfl

inductive DB (β : Type) where
  | closed (f : File β)
  | opened (s : State β)

inductive Req (ω : Type) where
  | «open»
  | close
  | call (c : Call ω) (now : Int64)

def DB.step (P : Proto ω β) : DB β → Req ω → DB β × Reply ω
  | .closed f, .open => (.opened (migrate f), .done)
  | .opened s, .open => (.opened (migrate s.file), .done)
  | .closed f, .close => (.closed f, .done)
  | .opened s, .close => (.closed s.file, .done)
  | .closed f, .call _ _ => (.closed f, .err (.text "sql: database is closed"))
  | .opened s, .call c now =>
    let out := exec P s (c, now)
    (.opened out.1, out.2)

/-- Under each key what was last written. A workload that was in the file from the start may be no
message. -/
structure Records (ω : Type) where
  workloads : String → Option (Except Err ω)
  volumes : String → Option Volume
  osState : Option OSState
  identity : Option CapsuleIdentity
  keys : String → Option AuthorizedKey

def workloadReply : Option (Except Err ω) → Reply ω
  | none => .notFound
  | some (.ok w) => .workload w
  | some (.error e) => .err e

/-- A call, with the reply where the records tell it. A time of zero is the current one. -/
def Records.step (P : Proto ω β) (r : Records ω) (x : Call ω × Int64) :
    Records ω × Option (Reply ω) :=
  match x.1 with
  | .workloadPut w =>
    ({ r with workloads := Function.update r.workloads (P.name w) (some (.ok w)) }, some .done)
  | .workloadGet name => (r, some (workloadReply (r.workloads name)))
  | .workloadDelete name =>
    ({ r with workloads := Function.update r.workloads name none }, some .done)
  | .volumePut v =>
    let created : Volume := ⟨v.name, 0, v.hostPath, [], orNow x.2 v.createdAtUnix⟩
    let stored := (r.volumes v.name).elim created fun old => { old with hostPath := v.hostPath }
    ({ r with volumes := Function.update r.volumes v.name (some stored) }, some .done)
  | .volumeGet name => (r, some (.found .volume (r.volumes name)))
  | .volumeDelete name => ({ r with volumes := Function.update r.volumes name none }, some .done)
  | .osStatePut st => ({ r with osState := some st }, some .done)
  | .osStateGet => (r, some (.found .osState r.osState))
  | .identityPut id =>
    ({ r with identity := some { id with createdAtUnix := orNow x.2 id.createdAtUnix } },
      some .done)
  | .identityGet => (r, some (.found .identity r.identity))
  | .keyAdd k =>
    if k.pubkey = none ∨ r.keys k.kid ≠ none then (r, some .conflict)
    else ({ r with keys := Function.update r.keys k.kid (some (Memory.stampKey x.2 k)) },
      some .done)
  | .keyGet kid => (r, some (.found .key (r.keys kid)))
  | .keyDelete kid => ({ r with keys := Function.update r.keys kid none }, some .done)
  | .keyDeleteAll => ({ r with keys := fun _ => none }, some .done)
  | .volumeList | .workloadList | .keyList | .keyCount => (r, none)

/-- Where a record is. -/
inductive Place where
  | workload (name : String)
  | volume (name : String)
  | osState
  | identity
  | key (kid : String)

/-- The request writes there. -/
def Req.Writes (P : Proto ω β) : Req ω → Place → Prop
  | .call (.workloadPut w) _, p => p = .workload (P.name w)
  | .call (.workloadDelete name) _, p => p = .workload name
  | .call (.volumePut v) _, p => p = .volume v.name
  | .call (.volumeDelete name) _, p => p = .volume name
  | .call (.osStatePut _) _, p => p = .osState
  | .call (.identityPut _) _, p => p = .identity
  | .call (.keyAdd k) _, p => p = .key k.kid
  | .call (.keyDelete kid) _, p => p = .key kid
  | .call .keyDeleteAll _, p => ∃ kid, p = .key kid
  | _, _ => False

/-- The two agree on what is at that place. -/
def Records.SameAt (r r' : Records ω) : Place → Prop
  | .workload name => r.workloads name = r'.workloads name
  | .volume name => r.volumes name = r'.volumes name
  | .osState => r.osState = r'.osState
  | .identity => r.identity = r'.identity
  | .key kid => r.keys kid = r'.keys kid

/-- The records of a store that is open or not. -/
structure Kept (ω : Type) where
  isOpen : Bool
  records : Records ω

def Kept.step (P : Proto ω β) (k : Kept ω) : Req ω → Kept ω × Option (Reply ω)
  | .open => ({ k with isOpen := true }, some .done)
  | .close => ({ k with isOpen := false }, some .done)
  | .call c now =>
    let out := k.records.step P (c, now)
    if k.isOpen then ({ k with records := out.1 }, out.2)
    else (k, out.2.map fun _ => .err (.text "sql: database is closed"))

/-- What the records say of a reply, if anything, is so. -/
def Tells (said : Option (Reply ω)) (r : Reply ω) : Prop := ∀ r', said = some r' → r = r'

/-- The row of an old table has no short id. -/
def OldIdentityRow.record (r : OldIdentityRow) : CapsuleIdentity :=
  ⟨r.capsuleID, "", r.createdAtUnix, r.adoptedAtUnix.getD 0, r.adoptedByKid.getD ""⟩

def IdentityTable.record : IdentityTable → Option CapsuleIdentity
  | .old row => row.map OldIdentityRow.record
  | .new row => row.map IdentityRow.scan

def File.records (P : Proto ω β) (f : File β) : Records ω where
  workloads name := (f.workloads.bind (·.get name)).map (WorkloadRow.scan P)
  volumes name := (f.volumes.bind (·.get name)).map VolumeRow.scan
  osState := f.osState.bind (·.map OSStateRow.scan)
  identity := f.identity.bind IdentityTable.record
  keys kid := (f.keys.bind (·.get kid)).map KeyRow.scan

def State.records (P : Proto ω β) (s : State β) : Records ω where
  workloads name := (s.workloads.get name).map (WorkloadRow.scan P)
  volumes name := (s.volumes.get name).map VolumeRow.scan
  osState := s.osState.map OSStateRow.scan
  identity := s.identity.map IdentityRow.scan
  keys kid := (s.keys.get kid).map KeyRow.scan

def DB.kept (P : Proto ω β) : DB β → Kept ω
  | .closed f => ⟨false, f.records P⟩
  | .opened s => ⟨true, s.records P⟩

section

variable {P : Proto ω β} {s : State β}

theorem record_addColumnIfMissing (t : IdentityTable) :
    (addColumnIfMissing t).map IdentityRow.scan = t.record := by
  cases t with
  | old row => cases row <;> rfl
  | new row => rfl

theorem records_migrate (f : File β) : (migrate f).records P = f.records P := by
  obtain ⟨workloads, volumes, osState, identity, keys⟩ := f
  simp only [State.records, migrate, File.records, record_addColumnIfMissing, Records.mk.injEq]
  refine ⟨?_, ?_, ?_, ?_, ?_⟩
  · cases workloads <;> rfl
  · cases volumes <;> rfl
  · cases osState <;> rfl
  · cases identity <;> rfl
  · cases keys <;> rfl

theorem map_update {α γ : Type} (scan : α → γ) (get : String → Option α) (key : String)
    (r : Option α) : (fun k => (Function.update get key r k).map scan) =
      Function.update (fun k => (get k).map scan) key (r.map scan) :=
  Function.comp_update (Option.map scan) get key r

theorem records_workloadPut (w : ω) (now : Int64) :
    (step P s (.workloadPut w, now)).1.records P =
      ((s.records P).step P (.workloadPut w, now)).1 := by
  have hput : (s.workloads.upsert (workloadRow P w) fun old =>
      { old with spec := (workloadRow P w).spec }) = s.workloads.put (workloadRow P w) := by
    refine Table.upsert_eq_put fun old hold => ?_
    exact congrArg (WorkloadRow.mk · _) (Table.get_some_key hold)
  simp only [step, hput, State.records, Table.get_put, map_update, Option.map_some,
    scan_workloadRow]
  rfl

theorem records_volumePut (v : Volume) (now : Int64) :
    (step P s (.volumePut v, now)).1.records P =
      ((s.records P).step P (.volumePut v, now)).1 := by
  have hget : (s.volumes.upsert ⟨v.name, v.hostPath, orNow now v.createdAtUnix⟩ fun old =>
      { old with hostPath := v.hostPath }).get = _ := Table.get_upsert fun _ => rfl
  simp only [step, State.records, hget, map_update, Records.step]
  cases s.volumes.get v.name <;> rfl

theorem records_keyAdd (k : NewKey) (now : Int64) :
    ((step P s (.keyAdd k, now)).1.records P, some (step P s (.keyAdd k, now)).2) =
      (s.records P).step P (.keyAdd k, now) := by
  cases hpub : k.pubkey with
  | none => simp [step, Records.step, hpub]
  | some pubkey =>
    have hrow : (⟨k.kid, pubkey, k.name, nullString k.addedByKid, orNow now k.addedAtUnix⟩ :
        KeyRow) = keyRow (Memory.stampKey now k) := by
      simp only [keyRow, Memory.stampKey, hpub, Option.getD_some]
    simp only [step, hpub, hrow, Records.step]
    cases hadd : s.keys.add (keyRow (Memory.stampKey now k)) with
    | none =>
      have htaken : (s.records P).keys k.kid ≠ none := by
        have hget : s.keys.get k.kid ≠ none := Table.get_of_add_eq_none hadd
        simpa [State.records] using hget
      rw [if_pos (.inr htaken)]
    | some keys =>
      have hfree : (s.records P).keys k.kid = none := by
        have hget : s.keys.get k.kid = none := Table.get_eq_none_of_add hadd
        simpa [State.records] using hget
      rw [if_neg (by simp [hfree])]
      simp only [State.records, Table.get_of_add hadd, map_update, Option.map_some, scan_keyRow]
      rfl

theorem records_step (x : Call ω × Int64) :
    (step P s x).1.records P = ((s.records P).step P x).1 ∧
      Tells ((s.records P).step P x).2 (step P s x).2 := by
  obtain ⟨c, now⟩ := x
  cases c with
  | workloadPut w => exact ⟨records_workloadPut w now, fun _ h => Option.some.inj h⟩
  | workloadGet name =>
    simp only [step, Records.step, State.records]
    cases s.workloads.get name with
    | none => exact ⟨rfl, fun _ h => Option.some.inj h⟩
    | some row =>
      simp only [Option.map_some]
      cases row.scan P with
      | error e => exact ⟨rfl, fun _ h => Option.some.inj h⟩
      | ok w => exact ⟨rfl, fun _ h => Option.some.inj h⟩
  | workloadDelete name | volumeDelete name =>
    refine ⟨?_, fun _ h => Option.some.inj h⟩
    simp only [step, State.records, Table.get_del, map_update]
    rfl
  | volumePut v => exact ⟨records_volumePut v now, fun _ h => Option.some.inj h⟩
  | osStatePut st =>
    refine ⟨?_, fun _ h => Option.some.inj h⟩
    simp only [step, State.records, Option.map_some, scan_osStateRow]
    rfl
  | identityPut id =>
    refine ⟨?_, fun _ h => Option.some.inj h⟩
    simp only [step, State.records, Option.map_some, scan_identityRow]
    rfl
  | keyAdd k => rw [← records_keyAdd]; exact ⟨rfl, fun _ h => Option.some.inj h⟩
  | keyDelete kid =>
    refine ⟨?_, fun _ h => Option.some.inj h⟩
    simp only [step, State.records, Table.get_del, map_update]
    rfl
  | workloadList =>
    simp only [step]
    split <;> exact ⟨rfl, fun _ h => by cases h⟩
  | osStateGet | identityGet | volumeGet _ | keyGet _ | keyDeleteAll =>
    exact ⟨rfl, fun _ h => Option.some.inj h⟩
  | volumeList | keyList | keyCount =>
    exact ⟨rfl, fun _ h => by cases h⟩

theorem kept_step (db : DB β) (x : Req ω) :
    (db.step P x).1.kept P = ((db.kept P).step P x).1 ∧
      Tells ((db.kept P).step P x).2 (db.step P x).2 := by
  cases db with
  | closed f =>
    cases x with
    | «open» => exact ⟨congrArg (Kept.mk true) (records_migrate f), fun _ h => Option.some.inj h⟩
    | close => exact ⟨rfl, fun _ h => Option.some.inj h⟩
    | call c now =>
      refine ⟨rfl, fun r h => ?_⟩
      obtain ⟨_, -, hr⟩ := Option.map_eq_some_iff.mp h
      exact hr
  | opened s =>
    cases x with
    | «open» =>
      exact ⟨congrArg (Kept.mk true) (records_migrate s.file), fun _ h => Option.some.inj h⟩
    | close => exact ⟨rfl, fun _ h => Option.some.inj h⟩
    | call c now =>
      obtain ⟨hrecords, htells⟩ := records_step (P := P) (s := s) (c, now)
      rw [← exec_eq_step] at hrecords htells
      exact ⟨congrArg (Kept.mk true) hrecords, htells⟩

end

theorem Records.sameAt_step {P : Proto ω β} {r : Records ω} {c : Call ω} {now : Int64} {p : Place}
    (h : ¬ (Req.call c now).Writes P p) : (r.step P (c, now)).1.SameAt r p := by
  have hne : ∀ {α : Type} {f : String → Option α} {k k' : String} {a : Option α}
      (place : String → Place), place k' ≠ place k → Function.update f k a k' = f k' :=
    fun place hp => Function.update_of_ne (fun hk => hp (congrArg place hk)) _ _
  cases p with
  | workload name =>
    cases c with
    | workloadPut w => exact hne .workload h
    | workloadDelete other => exact hne .workload h
    | keyAdd k => simp only [Records.step]; split <;> rfl
    | _ => rfl
  | volume name =>
    cases c with
    | volumePut v => exact hne .volume h
    | volumeDelete other => exact hne .volume h
    | keyAdd k => simp only [Records.step]; split <;> rfl
    | _ => rfl
  | osState =>
    cases c with
    | osStatePut st => exact absurd rfl h
    | keyAdd k => simp only [Records.step]; split <;> rfl
    | _ => rfl
  | identity =>
    cases c with
    | identityPut id => exact absurd rfl h
    | keyAdd k => simp only [Records.step]; split <;> rfl
    | _ => rfl
  | key kid =>
    cases c with
    | keyAdd k =>
      simp only [Records.step]
      split
      · rfl
      · exact hne .key h
    | keyDelete other => exact hne .key h
    | keyDeleteAll => exact absurd ⟨kid, rfl⟩ h
    | _ => rfl

theorem Kept.sameAt_step {P : Proto ω β} {k : Kept ω} {x : Req ω} {p : Place}
    (h : ¬ x.Writes P p) : (k.step P x).1.records.SameAt k.records p := by
  cases x with
  | «open» | close => cases p <;> rfl
  | call c now =>
    rw [Kept.step]
    split
    · exact Records.sameAt_step h
    · cases p <;> rfl

/-- From a file of either schema with any rows in it, through any calls, closings and openings: what
the records say that a call returns, it returns, and a request changes the record that it writes and
no other. -/
theorem sqlite_keeps_records (P : Proto ω β) (f : File β) (w : List (Req ω)) :
    List.Forall₂ Tells (outputs (Kept.step P) ⟨false, f.records P⟩ w)
        (outputs (DB.step P) (.closed f) w) ∧
      ∀ (db : DB β) (x : Req ω) (p : Place), ¬ x.Writes P p →
        ((db.step P x).1.kept P).records.SameAt (db.kept P).records p := by
  constructor
  · have hall : Along (fun k x => (Kept.step P k x).1) (fun _ _ => True) ⟨false, f.records P⟩ w :=
      along_of_forall (fun _ _ _ => trivial) _
    refine outputs_forall₂ (R := fun k db => k = db.kept P) ?_ rfl hall
    rintro _ db x rfl -
    obtain ⟨hkept, htells⟩ := kept_step (P := P) db x
    exact ⟨htells, hkept.symm⟩
  · intro db x p hx; rw [(kept_step db x).1]; exact Kept.sameAt_step hx

end Capsule.Store.Sqlite
