import Capsule.Atomic.Moves
import Capsule.GoPath
import Capsule.GoString
import Capsule.Store.Types

/-!
# Capsule.Guest.Payload

The guest agent of `cmd/capsule-guest/agent.go` as a machine: any number of `StartPayload`, `Stop`
and `Logs` calls, the `watchPayload` goroutines, and the payload itself.
-/

namespace Capsule.Guest.Payload

inductive PayloadPhase where
  | unspecified
  | running
  | exited
  | failed
  deriving DecidableEq

/-- The fields of `agent` behind `mu`. -/
structure Agent where
  phase : PayloadPhase
  exitCode : Int
  message : String
  logDone : Bool
  started : Bool
  watching : Bool
  volumeMounts : List Bytes
  deriving DecidableEq

/-- The container `payload`, as runc has it; `out` is the file its output goes to. -/
inductive Container where
  | running (out : Nat)
  | stopped (code : Int)
  deriving DecidableEq

inductive Status where
  | running
  | created
  | paused
  | stopped
  | other (text : String)
  deriving DecidableEq

/-- What a step learns from outside. -/
inductive Answer where
  | ok
  | fail (msg : String)
  | status (st : Status) (exitStatus : Option Int)
  /-- The deadline has passed. -/
  | late
  deriving DecidableEq

structure VolumeMount where
  device : String
  mountPath : Bytes
  deriving DecidableEq

structure StartPayloadRequest where
  command : List String
  payloadBlockDevice : String
  mounts : List VolumeMount
  deriving DecidableEq

inductive StartAt where
  | idle
  | check (req : StartPayloadRequest)
  | mkdir (req : StartPayloadRequest)
  | mount (req : StartPayloadRequest)
  | volumes (vs : List VolumeMount)
  | volumeMount (v : VolumeMount) (vs : List VolumeMount)
  | volumeRecord (v : VolumeMount) (vs : List VolumeMount)
  | config
  | openLog
  | deleteStale (out : Nat)
  | openNull (out : Nat)
  | run (out : Nat)
  | publish
  | returned (r : Except Err Unit)
  deriving DecidableEq

inductive StopAt where
  | idle
  | check
  | term
  | loop
  | state
  | sleep
  | kill
  | delete
  | detach
  | umount (left : List Bytes)
  | returned
  deriving DecidableEq

/-- What `watchPayload` records. -/
inductive Verdict where
  | exited (code : Int)
  | failed (msg : String)
  deriving DecidableEq

inductive WatchAt where
  | sleep
  | poll
  | record (v : Verdict)
  | returned
  deriving DecidableEq

inductive LogsEnd where
  | missing
  /-- At the end of the file, without `follow`. -/
  | read
  /-- At the end of the file, with `logDone`. -/
  | done
  | failed (msg : String)
  deriving DecidableEq

inductive LogsAt where
  | idle
  | opening
  | reading
  | sending (chunk : Bytes)
  /-- At the end of the file, before `mu` is taken. -/
  | looking
  | parked
  | woken
  | ended (e : LogsEnd)
  deriving DecidableEq

structure LogsCall where
  pc : LogsAt
  follow : Bool
  /-- The file it has open, and how far it has read. -/
  file : Nat
  off : Nat
  sent : List Bytes
  deriving DecidableEq

structure Machine where
  agent : Agent
  runc : Option Container
  files : List Bytes
  /-- The file at `logPath`. -/
  path : Option Nat
  starts : Nat → StartAt
  stops : Nat → StopAt
  watchers : List WatchAt
  logs : Nat → LogsCall

def mountPoint : Bytes := [47, 111, 99, 105]

def VolumeMount.hostMP (v : VolumeMount) : Bytes := (GoPath.join mountPoint v.mountPath).text

def Machine.file (g : Machine) (n : Nat) : Bytes := g.files.getD n []

/-- `os.ReadFile(logPath)`, without its error. -/
def Machine.logTail (g : Machine) : Bytes :=
  match g.path with
  | none => []
  | some n => g.file n

/-- The last critical section of `StartPayload`. -/
def Machine.publish (g : Machine) : Machine :=
  { g with
    agent := { g.agent with
      started := true
      phase := .running
      logDone := false
      exitCode := 0
      message := ""
      watching := true }
    watchers := if g.agent.watching then g.watchers else g.watchers ++ [.sleep] }

def failed (msg : String) : StartAt := .returned (.error (.text msg))

def startStep (g : Machine) : StartAt → Answer → Option (Machine × StartAt)
  | .check req, .ok =>
    some (g, if g.agent.started then failed "payload already started"
      else if req.command = [] then failed "command is required" else .mkdir req)
  | .mkdir req, .ok => some (g, .mount req)
  | .mkdir _, .fail m => some (g, failed ("mkdir /oci: " ++ m))
  | .mount req, .ok => some (g, .volumes req.mounts)
  | .mount req, .fail m =>
    let dev := if req.payloadBlockDevice = "" then "/dev/vdb" else req.payloadBlockDevice
    some (g, failed ("mount " ++ dev ++ " -> /oci: " ++ m))
  | .volumes [], .ok => some (g, .config)
  | .volumes (v :: vs), .ok => some (g, .volumeMount v vs)
  | .volumes (v :: _), .fail m =>
    some (g, failed ("mkdir volume " ++ GoString.ofBytes v.hostMP ++ ": " ++ m))
  | .volumeMount v vs, .ok => some (g, .volumeRecord v vs)
  | .volumeMount v _, .fail m =>
    some (g, failed ("mount " ++ v.device ++ " -> " ++ GoString.ofBytes v.hostMP ++ ": " ++ m))
  | .volumeRecord v vs, .ok =>
    some ({ g with agent := { g.agent with volumeMounts := g.agent.volumeMounts ++ [v.hostMP] } },
      .volumes vs)
  | .config, .ok => some (g, .openLog)
  | .config, .fail m => some (g, failed ("write config.json: " ++ m))
  -- the old file is unlinked first, so a new one is created
  | .openLog, .ok =>
    some ({ g with files := g.files ++ [[]], path := some g.files.length },
      .deleteStale g.files.length)
  | .openLog, .fail m =>
    some ({ g with path := none }, failed ("open log /run/capsule-guest/payload.log: " ++ m))
  | .deleteStale out, .ok => some ({ g with runc := none }, .openNull out)
  | .deleteStale out, .fail _ => some (g, .openNull out)
  | .openNull out, .ok => some (g, .run out)
  | .openNull _, .fail m => some (g, failed m)
  | .run out, .ok =>
    if g.runc = none then some ({ g with runc := some (.running out) }, .publish) else none
  | .run _, .fail m =>
    some (g, failed ("runc run: " ++ m ++ ": " ++ GoString.ofBytes (GoString.trimSpace g.logTail)))
  | .publish, .ok => some (g.publish, .returned (.ok ()))
  | _, _ => none

/-- The statuses `runc state` can print for a container. -/
def reports : Option Container → Status → Bool
  | none, _ => false
  | some (.running _), st => st ≠ .stopped
  | some (.stopped _), .running | some (.stopped _), .created | some (.stopped _), .paused => false
  | some (.stopped _), _ => true

/-- The signals have no step of their own: the payload may exit at any time. -/
def stopStep (g : Machine) : StopAt → Answer → Option (Machine × StopAt)
  | .check, .ok => some (g, if g.agent.started then .term else .returned)
  | .term, _ => some (g, .loop)
  | .loop, .ok => some (g, .state)
  | .loop, .late => some (g, .kill)
  | .state, .fail _ => some (g, .kill)
  | .state, .status st _ =>
    if reports g.runc st then some (g, if st = .stopped then .kill else .sleep) else none
  | .sleep, .ok => some (g, .loop)
  | .kill, _ => some (g, .delete)
  | .delete, .ok => some ({ g with runc := none }, .detach)
  | .delete, .fail _ => some (g, .detach)
  | .detach, .ok =>
    some ({ g with agent := { g.agent with volumeMounts := [], started := false } },
      .umount g.agent.volumeMounts.reverse)
  | .umount (_ :: left), _ => some (g, .umount left)
  | .umount [], .ok => some (g, .returned)
  | _, _ => none

/-! ## watchPayload -/

/-- `logCond.Broadcast`. -/
def LogsCall.wake (l : LogsCall) : LogsCall := if l.pc = .parked then { l with pc := .woken } else l

def Agent.record (a : Agent) : Verdict → Agent
  | .exited code => { a with phase := .exited, exitCode := code, logDone := true }
  | .failed msg => { a with phase := .failed, message := msg, logDone := true }

def Machine.record (g : Machine) (v : Verdict) : Machine :=
  { g with agent := g.agent.record v, logs := fun i => (g.logs i).wake }

def watchStatus (exitStatus : Option Int) : Status → WatchAt
  | .running | .created | .paused => .sleep
  | .stopped => .record (.exited (exitStatus.getD 0))
  | .other text => .record (.failed ("unknown runc status: " ++ text))

def watchStep (g : Machine) : WatchAt → Answer → Option (Machine × WatchAt)
  | .sleep, .ok => some (g, .poll)
  | .poll, .fail m => some (g, .record (.failed ("runc state: " ++ m)))
  | .poll, .status st code =>
    if reports g.runc st then some (g, watchStatus code st) else none
  | .record v, .ok => some (g.record v, .returned)
  | _, _ => none

/-- What one `Read` of 4096 bytes returns; empty at the end of the file. -/
def Machine.chunk (g : Machine) (l : LogsCall) : Bytes := ((g.file l.file).drop l.off).take 4096

def logsStep (g : Machine) (l : LogsCall) : Answer → Option LogsCall
  | .ok =>
    match l.pc with
    | .opening =>
      match g.path with
      | none => some { l with pc := .ended .missing }
      | some n => some { l with pc := .reading, file := n }
    | .reading =>
      if g.chunk l = [] then
        some { l with pc := if l.follow then .looking else .ended .read }
      else some { l with pc := .sending (g.chunk l), off := l.off + (g.chunk l).length }
    | .sending chunk => some { l with pc := .reading, sent := l.sent ++ [chunk] }
    | .looking => some { l with pc := if g.agent.logDone then .ended .done else .parked }
    | .woken => some { l with pc := .reading }
    | .idle | .parked | .ended _ => none
  | .fail m =>
    match l.pc with
    | .opening | .reading | .sending _ => some { l with pc := .ended (.failed m) }
    | .idle | .looking | .parked | .woken | .ended _ => none
  | _ => none

/-- The steps of a `Logs` call. -/
inductive LogsChange (g : Machine) (l : LogsCall) : Answer → LogsCall → Prop where
  | missing : l.pc = .opening → g.path = none → LogsChange g l .ok { l with pc := .ended .missing }
  | opened {n : Nat} : l.pc = .opening → g.path = some n →
      LogsChange g l .ok { l with pc := .reading, file := n }
  | eof : l.pc = .reading → g.chunk l = [] →
      LogsChange g l .ok { l with pc := if l.follow then .looking else .ended .read }
  | chunk : l.pc = .reading → g.chunk l ≠ [] →
      LogsChange g l .ok
        { l with pc := .sending (g.chunk l), off := l.off + (g.chunk l).length }
  | sent {c : Bytes} : l.pc = .sending c →
      LogsChange g l .ok { l with pc := .reading, sent := l.sent ++ [c] }
  | done : l.pc = .looking → g.agent.logDone = true →
      LogsChange g l .ok { l with pc := .ended .done }
  | park : l.pc = .looking → g.agent.logDone = false → LogsChange g l .ok { l with pc := .parked }
  | resume : l.pc = .woken → LogsChange g l .ok { l with pc := .reading }
  | fail {m : String} : (l.pc = .opening ∨ l.pc = .reading ∨ ∃ c, l.pc = .sending c) →
      LogsChange g l (.fail m) { l with pc := .ended (.failed m) }

theorem logsStep_change {g : Machine} {l l' : LogsCall} {a : Answer}
    (h : logsStep g l a = some l') : LogsChange g l a l' := by
  cases a with
  | ok =>
    rw [logsStep] at h
    split at h
    · rename_i hpc
      split at h <;> cases h
      · exact .missing hpc ‹_›
      · exact .opened hpc ‹_›
    · rename_i hpc
      split at h <;> cases h
      · exact .eof hpc ‹_›
      · exact .chunk hpc ‹_›
    · cases h; exact .sent ‹_›
    · rename_i hpc
      cases hdone : g.agent.logDone with
      | true => rw [hdone] at h; cases h; exact .done hpc hdone
      | false => rw [hdone] at h; cases h; exact .park hpc hdone
    · cases h; exact .resume ‹_›
    all_goals cases h
  | fail m =>
    rw [logsStep] at h
    split at h <;> cases h
    · exact .fail (.inl ‹_›)
    · exact .fail (.inr (.inl ‹_›))
    · exact .fail (.inr (.inr ⟨_, ‹_›⟩))
  | status st code => cases h
  | late => cases h

def Machine.setLogs (g : Machine) (i : Nat) (l : LogsCall) : Machine :=
  { g with logs := Function.update g.logs i l }

section SetLogs

variable {g : Machine} {i j : Nat} {l : LogsCall}

@[simp] theorem setLogs_self : (g.setLogs i l).logs i = l := Function.update_self ..

theorem setLogs_of_ne (h : j ≠ i) : (g.setLogs i l).logs j = g.logs j := Function.update_of_ne h ..

end SetLogs

inductive Event where
  | callStart (i : Nat) (req : StartPayloadRequest)
  | callStop (i : Nat)
  | callLogs (i : Nat) (follow : Bool)
  | start (i : Nat) (a : Answer)
  | stop (i : Nat) (a : Answer)
  | watch (k : Nat) (a : Answer)
  | logs (i : Nat) (a : Answer)
  | write (bs : Bytes)
  | exit (code : Int)
  deriving DecidableEq

def LogsCall.idle : LogsCall := ⟨.idle, false, 0, 0, []⟩

/-- `newAgent`, before any call. -/
def Machine.boot : Machine where
  agent := ⟨.unspecified, 0, "", false, false, false, []⟩
  runc := none
  files := []
  path := none
  starts := fun _ => .idle
  stops := fun _ => .idle
  watchers := []
  logs := fun _ => .idle

def next (g : Machine) : Event → Option Machine
  | .callStart i req =>
    if g.starts i = .idle then some { g with starts := Function.update g.starts i (.check req) }
    else none
  | .callStop i =>
    if g.stops i = .idle then some { g with stops := Function.update g.stops i .check } else none
  | .callLogs i follow =>
    if (g.logs i).pc = .idle then some (g.setLogs i ⟨.opening, follow, 0, 0, []⟩) else none
  | .start i a =>
    (startStep g (g.starts i) a).map fun r =>
      { r.1 with starts := Function.update r.1.starts i r.2 }
  | .stop i a =>
    (stopStep g (g.stops i) a).map fun r => { r.1 with stops := Function.update r.1.stops i r.2 }
  | .watch k a =>
    (g.watchers[k]?).bind fun p => (watchStep g p a).map fun r =>
      { r.1 with watchers := r.1.watchers.set k r.2 }
  | .logs i a => (logsStep g (g.logs i) a).map (g.setLogs i)
  | .write bs =>
    match g.runc with
    | some (.running out) =>
      if bs = [] then none else some { g with files := g.files.modify out (· ++ bs) }
    | _ => none
  | .exit code =>
    match g.runc with
    | some (.running _) => some { g with runc := some (.stopped code) }
    | _ => none

end Capsule.Guest.Payload
