import Capsule.Atomic.Moves
import Capsule.Workloads.Service

/-!
# Capsule.Workloads.LogsFollow

`WorkloadController.Logs`: the reader that it opens for the kind and the source, and the loop that
sends what the reader returns. At the end of the file a call that follows asks the store, at most
every two seconds, whether the workload is still running, and sleeps before it reads again.

* `callStep`, `envStep`: the steps of the call, and those of the workload, its row and time.
* `State.rank`: each round comes closer to the next look at the store, each read to the end of what
  there is.
* `inevitable_returned`: by it a call returns once the workload has ended and stays so.
* `logs_end`: every call does, unless it follows the serial console of a VM, whose reader waits for
  more by itself (`not_inevitable_onConsole`).
-/

namespace Capsule.Workloads.LogsFollow

open Atomic

inductive LogSource where
  | payload
  | serial
  deriving DecidableEq

/-- The request, and the kind of the workload that it names. -/
structure Request where
  kind : Kind
  source : LogSource
  follow : Bool
  tailLines : Nat

inductive Src where
  /-- An open file and the offset in it. -/
  | file (pos : Nat)
  /-- `guestLogsReader`: what is left of the last chunk, the chunks that have come in, and whether
  the agent's call has returned. -/
  | guest (pending : Bytes) (queue : List Bytes) (done : Bool)
  | serial (pos : Nat)
  deriving DecidableEq

inductive LoopAt where
  | read
  | send (b : Bytes)
  | check
  | sleep
  /-- Asleep inside the `Read` of `tailingReader`. -/
  | tailing
  deriving DecidableEq

inductive LogsAt where
  /-- To open the log file for its last lines. -/
  | tail
  | openLogs
  | loop (src : Src) (k : LoopAt)
  | returned (err : Option Err)
  deriving DecidableEq

structure State where
  pc : LogsAt
  /-- The file that is to be read, if it is one. -/
  log : Bytes
  /-- The process of the container, or the VM, is there. -/
  live : Bool
  /-- The phase in the workload's row; `none` if there is no row. -/
  row : Option WorkloadPhase
  now : Nat
  lastCheck : Option Nat
  lastResult : Bool

def State.start (req : Request) : State where
  pc := if req.source = .payload ∧ 0 < req.tailLines then .tail else .openLogs
  log := []
  live := false
  row := none
  now := 0
  lastCheck := none
  lastResult := false

inductive Event where
  /-- The file opened and the offset after `seekTail`; nothing if there is no file. -/
  | tail (r : Option (Except Err Nat))
  | openLogs (err : Option Err)
  | read
  /-- The agent's stream ends, with an error or not. -/
  | recvEnds (err : Option Err)
  | readFails (e : Err)
  | send (err : Option Err)
  | check (storeFails : Bool)
  /-- A sleep is over, after `d`. -/
  | wake (d : Nat)
  | starts
  | ends
  | phase (row : Option WorkloadPhase)
  /-- Output of the workload, in the file or from the agent. -/
  | grow (b : Bytes)
  | guestSends (b : Bytes)
  | guestReturns
  | tick (d : Nat)

/-- `Service.OpenLogs`, when it does not fail. -/
def Request.source? (req : Request) : Option Src :=
  match req.kind, req.source with
  | .microVm, .serial => some (if req.follow then .serial 0 else .file 0)
  | .microVm, .payload => some (.guest [] [] false)
  | _, .serial => none
  | _, .payload => some (.file 0)

/-- A `Read` with a buffer of 32 KiB: nothing if it waits, no bytes at `io.EOF`. That of
`tailingReader` is the one of its file. -/
def Src.read (log : Bytes) : Src → Option (Option Bytes × Src)
  | .file pos =>
    if log.drop pos = [] then some (none, .file pos)
    else some (some ((log.drop pos).take 32768), .file (min (pos + 32768) log.length))
  | .serial pos =>
    if log.drop pos = [] then some (none, .serial pos)
    else some (some ((log.drop pos).take 32768), .serial (min (pos + 32768) log.length))
  | .guest [] [] _ => none
  | .guest [] (chunk :: queue) done =>
    some (some (chunk.take 32768), .guest (chunk.drop 32768) queue done)
  | .guest (a :: pending) queue done =>
    some (some ((a :: pending).take 32768), .guest ((a :: pending).drop 32768) queue done)

/-- The loop at `io.EOF`. -/
def atEOF (req : Request) (s : State) (src : Src) : State :=
  { s with pc := if req.follow then .loop src .check else .returned none }

/-- The workload's phase ends the stream. -/
def stops : Option WorkloadPhase → Bool
  | some .running | some .pending => false
  | _ => true

/-- What `shouldStop` returns goes on to the loop. -/
def decideStop (s : State) (src : Src) (stop : Bool) : State :=
  { s with pc := if stop then .returned none else .loop src .sleep }

/-- The last look at the store is less than two seconds ago. -/
def State.throttled (s : State) : Bool :=
  match s.lastCheck with
  | none => false
  | some t => s.now - t < 2000

def shouldStop (s : State) (src : Src) (storeFails : Bool) : State :=
  if s.throttled then decideStop s src s.lastResult
  else
    let stop := storeFails || stops s.row
    decideStop { s with lastCheck := some s.now, lastResult := stop } src stop

def callStep (req : Request) (s : State) : Event → Option State
  | .tail r =>
    match s.pc, r with
    | .tail, none => some { s with pc := .openLogs }
    | .tail, some (.ok pos) => some { s with pc := .loop (.file pos) .read }
    | .tail, some (.error e) => some { s with pc := .returned (some e) }
    | _, _ => none
  | .openLogs err =>
    match s.pc, err with
    | .openLogs, some e => some { s with pc := .returned (some e) }
    | .openLogs, none =>
      if s.row.isSome then req.source?.map fun src => { s with pc := .loop src .read } else none
    | _, _ => none
  | .read =>
    match s.pc with
    | .loop src .read =>
      match src.read s.log with
      | none => none
      | some (none, .serial pos) => some { s with pc := .loop (.serial pos) .tailing }
      | some (none, src) => some (atEOF req s src)
      | some (some [], src) => some { s with pc := .loop src .read }
      | some (some (a :: b), src) => some { s with pc := .loop src (.send (a :: b)) }
    | _ => none
  | .recvEnds err =>
    match s.pc with
    | .loop (.guest [] [] done) .read =>
      if done = true ∨ s.live = false then
        match err with
        | none => some (atEOF req s (.guest [] [] done))
        | some e => some { s with pc := .returned (some e) }
      else none
    | _ => none
  | .readFails e =>
    match s.pc with
    | .loop _ .read => some { s with pc := .returned (some e) }
    | _ => none
  | .send err =>
    match s.pc, err with
    | .loop src (.send _), none => some { s with pc := .loop src .read }
    | .loop _ (.send _), some e => some { s with pc := .returned (some e) }
    | _, _ => none
  | .check storeFails =>
    match s.pc with
    | .loop src .check => some (shouldStop s src storeFails)
    | _ => none
  | .wake d =>
    match s.pc with
    | .loop src .sleep =>
      if 250 ≤ d then some { s with pc := .loop src .read, now := s.now + d } else none
    | .loop src .tailing =>
      if 250 ≤ d then some { s with pc := .loop src .read, now := s.now + d } else none
    | _ => none
  | _ => none

/-- The steps of the workload, of its row and of time. -/
def envStep (s : State) : Event → Option State
  | .starts => some { s with live := true }
  | .ends => some { s with live := false }
  | .phase row => some { s with row := row }
  | .grow b => if s.live then some { s with log := s.log ++ b } else none
  | .guestSends b =>
    match s.pc with
    | .loop (.guest pending queue false) k =>
      if s.live then some { s with pc := .loop (.guest pending (queue ++ [b]) false) k } else none
    | _ => none
  | .guestReturns =>
    match s.pc with
    | .loop (.guest pending queue _) k => some { s with pc := .loop (.guest pending queue true) k }
    | _ => none
  | .tick d => some { s with now := s.now + d }
  | _ => none

def Event.isEnv : Event → Bool
  | .starts | .ends | .phase _ | .grow _ | .guestSends _ | .guestReturns | .tick _ => true
  | _ => false

def next (req : Request) (s : State) (x : Event) : Option State :=
  if x.isEnv then envStep s x else callStep req s x

/-- The call follows a serial console. -/
def Request.OnSerial (req : Request) : Prop :=
  req.follow = true ∧ req.kind = .microVm ∧ req.source = .serial

/-- The call's steps, with what lets them be taken. -/
inductive CallChange (req : Request) (s : State) : State → Prop where
  | returned {err : Option Err} {t : Option Nat} {stop : Bool} :
      CallChange req s { s with pc := .returned err, lastCheck := t, lastResult := stop }
  | noFile : s.pc = .tail → CallChange req s { s with pc := .openLogs }
  | tail {pos : Nat} : s.pc = .tail → CallChange req s { s with pc := .loop (.file pos) .read }
  | opened {src : Src} : s.pc = .openLogs → req.source? = some src →
      CallChange req s { s with pc := .loop src .read }
  | data {src src' : Src} {b : Bytes} {k : LoopAt} : s.pc = .loop src .read →
      src.read s.log = some (some b, src') → k = .read ∨ k = .send b →
      CallChange req s { s with pc := .loop src' k }
  | tailing {pos : Nat} : s.pc = .loop (.serial pos) .read →
      CallChange req s { s with pc := .loop (.serial pos) .tailing }
  | eof {src : Src} : s.pc = .loop src .read → CallChange req s { s with pc := .loop src .check }
  | sent {src : Src} {b : Bytes} : s.pc = .loop src (.send b) →
      CallChange req s { s with pc := .loop src .read }
  | throttled {src : Src} : s.pc = .loop src .check → s.throttled = true →
      CallChange req s { s with pc := .loop src .sleep }
  | running {src : Src} {t : Option Nat} : s.pc = .loop src .check → stops s.row = false →
      CallChange req s { s with pc := .loop src .sleep, lastCheck := t, lastResult := false }
  | woke {src : Src} {k : LoopAt} {d : Nat} : s.pc = .loop src k → k = .sleep ∨ k = .tailing →
      250 ≤ d → CallChange req s { s with pc := .loop src .read, now := s.now + d }

variable {req : Request} {s s' : State} {x : Event} {src src' : Src} {log b : Bytes}

theorem read_eof (h : src.read log = some (none, src')) : src' = src := by
  unfold Src.read at h
  split at h
  · split at h <;> cases h
    rfl
  · split at h <;> cases h
    rfl
  · cases h
  · cases h
  · cases h

theorem atEOF_change (hpc : s.pc = .loop src .read) : CallChange req s (atEOF req s src) := by
  unfold atEOF
  split
  · exact .eof hpc
  · exact .returned

theorem shouldStop_change (storeFails : Bool) (hpc : s.pc = .loop src .check) :
    CallChange req s (shouldStop s src storeFails) := by
  unfold shouldStop decideStop
  split
  · rename_i hthrottled
    split
    · exact .returned
    · exact .throttled hpc hthrottled
  · dsimp only
    split
    · exact .returned
    · rename_i hstop
      obtain ⟨-, hrow⟩ : storeFails = false ∧ stops s.row = false := by simpa using hstop
      simp only [Bool.not_eq_true] at hstop
      rw [hstop]
      exact .running hpc hrow

theorem callStep_change (h : callStep req s x = some s') : CallChange req s s' := by
  cases x with
  | tail r =>
    simp only [callStep] at h
    split at h <;> cases h
    · exact .noFile ‹_›
    · exact .tail ‹_›
    · exact .returned
  | openLogs err =>
    simp only [callStep] at h
    split at h
    · cases h; exact .returned
    · split at h
      · obtain ⟨src, hsrc, rfl⟩ := Option.map_eq_some_iff.mp h; exact .opened ‹_› hsrc
      · cases h
    · cases h
  | read =>
    simp only [callStep] at h
    split at h
    · rename_i src hpc
      split at h
      · cases h
      · rename_i pos hread
        cases h
        cases read_eof hread
        exact .tailing hpc
      · rename_i src' _ hread
        cases h
        cases read_eof hread
        exact atEOF_change hpc
      · rename_i src' hread; cases h; exact .data hpc hread (.inl rfl)
      · rename_i a b src' hread; cases h; exact .data hpc hread (.inr rfl)
    · cases h
  | recvEnds err =>
    simp only [callStep] at h
    split at h
    · split at h
      · split at h <;> cases h
        · exact atEOF_change ‹_›
        · exact .returned
      · cases h
    · cases h
  | readFails e =>
    simp only [callStep] at h
    split at h <;> cases h
    exact .returned
  | send err =>
    simp only [callStep] at h
    split at h <;> cases h
    · exact .sent ‹_›
    · exact .returned
  | check storeFails =>
    simp only [callStep] at h
    split at h <;> cases h
    exact shouldStop_change storeFails ‹_›
  | wake d =>
    simp only [callStep] at h
    split at h
    · split at h <;> cases h
      exact .woke ‹_› (.inl rfl) ‹_›
    · split at h <;> cases h
      exact .woke ‹_› (.inr rfl) ‹_›
    · cases h
  | _ => cases h

/-! ## After the end of the workload -/

def State.Ended (s : State) : Prop := s.live = false ∧ stops s.row = true

/-- It is not started again, and its row does not say so. -/
def StaysEnded (_ : State) : Event → Prop
  | .starts => False
  | .phase row => stops row = true
  | _ => True

/-- The steps that the call is bound to take when it can; a read may fail, but need not. -/
def Event.own : Event → Bool
  | .readFails _ => false
  | x => !x.isEnv

def LogsAt.hasReturned : LogsAt → Bool
  | .returned _ => true
  | _ => false

def Src.isTailing : Src → Bool
  | .serial _ => true
  | _ => false

/-- No `tailingReader` is open. -/
def LogsAt.Checked : LogsAt → Prop
  | .loop src _ => src.isTailing = false
  | _ => True

/-- What the reader has still to return. -/
def Src.left (log : Bytes) : Src → Nat
  | .file pos | .serial pos => log.length - pos
  | .guest pending queue _ => pending.length + (queue.map fun c => c.length + 1).sum

theorem read_left (h : src.read log = some (some b, src')) : src'.left log < src.left log := by
  cases src with
  | file pos =>
    rw [Src.read] at h
    split at h <;> cases h
    rename_i hne
    have hlt : pos < log.length := by simpa using hne
    simp only [Src.left]
    omega
  | serial pos =>
    rw [Src.read] at h
    split at h <;> cases h
    rename_i hne
    have hlt : pos < log.length := by simpa using hne
    simp only [Src.left]
    omega
  | guest pending queue done =>
    cases pending with
    | cons a pending =>
      cases h; simp only [Src.left, List.length_drop, List.length_cons]; omega
    | nil =>
      cases queue with
      | nil => cases h
      | cons chunk queue =>
        cases h
        simp only [Src.left, List.length_drop, List.length_nil, List.map_cons, List.sum_cons]
        omega

/-- The time until the store may be asked again. -/
def State.wait (s : State) : Nat :=
  match s.lastCheck with
  | none => 0
  | some t => t + 2000 - s.now

def LoopAt.rank (wait : Nat) : LoopAt → Nat
  | .read => 4 * wait + 2
  | .send _ => 4 * wait + 3
  | .check => 4 * wait + 1
  | .sleep | .tailing => max (4 * wait) 3

/-- Each round of the loop comes closer to the next look at the store, and each read to the end of
what there is. -/
def State.rank (s : State) : Nat :=
  match s.pc with
  | .tail => 4 * s.wait + 2 * s.log.length + 4
  | .openLogs => 4 * s.wait + 2 * s.log.length + 3
  | .loop src k => k.rank s.wait + 2 * src.left s.log
  | .returned _ => 0

theorem wait_le (h : s.lastCheck = s'.lastCheck) (hnow : s.now ≤ s'.now) : s'.wait ≤ s.wait := by
  unfold State.wait
  rw [← h]
  cases s.lastCheck with
  | none => exact Nat.le_refl _
  | some t => dsimp only; omega

theorem wait_pos_of_throttled (h : s.throttled = true) : 0 < s.wait := by
  unfold State.throttled at h
  unfold State.wait
  cases ht : s.lastCheck with
  | none => rw [ht] at h; cases h
  | some t => simp only [ht, decide_eq_true_eq] at h; dsimp only; omega

theorem source?_left (h : req.source? = some src) : src.left log ≤ log.length := by
  unfold Request.source? at h
  split at h <;> cases h
  · split <;> exact Nat.sub_le _ _
  · exact Nat.zero_le _
  · exact Nat.sub_le _ _

theorem source?_isTailing (h : req.source? = some src) (hreq : ¬ req.OnSerial) :
    src.isTailing = false := by
  unfold Request.source? at h
  split at h <;> cases h
  · rename_i hkind hsource
    split
    · rename_i hfollow; exact absurd ⟨hfollow, hkind, hsource⟩ hreq
    · rfl
  · rfl
  · rfl

theorem read_isTailing (h : src.read log = some (some b, src')) :
    src'.isTailing = src.isTailing := by
  unfold Src.read at h
  split at h
  · split at h <;> cases h
    simp only [Src.isTailing]
  · split at h <;> cases h
    simp only [Src.isTailing]
  · cases h
  · cases h; rfl
  · cases h; rfl

theorem callChange_checked (h : CallChange req s s') (hreq : ¬ req.OnSerial)
    (hs : s.pc.Checked) : s'.pc.Checked := by
  cases h with
  | returned => trivial
  | noFile _ => trivial
  | tail _ => trivial
  | opened _ hsrc => exact source?_isTailing hsrc hreq
  | data hpc hread _ => rw [hpc] at hs; exact (read_isTailing hread).trans hs
  | tailing hpc | eof hpc | sent hpc | throttled hpc _ | running hpc _ | woke hpc _ _ =>
    rw [hpc] at hs; exact hs

theorem callChange_rank (h : CallChange req s s') (hend : s.Ended) (hs : s.pc.Checked) :
    s'.pc.hasReturned = true ∨ s'.rank < s.rank := by
  cases h with
  | returned => exact .inl rfl
  | noFile hpc => right; simp only [State.rank, hpc, State.wait]; omega
  | tail hpc =>
    right; simp only [State.rank, hpc, State.wait, LoopAt.rank, Src.left]; omega
  | @opened src hpc hsrc =>
    right
    have hle : src.left s.log ≤ s.log.length := source?_left hsrc
    simp only [State.rank, hpc, State.wait, LoopAt.rank]
    omega
  | data hpc hread hk =>
    right
    have hlt := read_left hread
    rcases hk with rfl | rfl
    · simp only [State.rank, hpc, State.wait, LoopAt.rank]; omega
    · simp only [State.rank, hpc, State.wait, LoopAt.rank]; omega
  | tailing hpc => rw [hpc] at hs; cases hs
  | eof hpc | sent hpc =>
    right; simp only [State.rank, hpc, State.wait, LoopAt.rank]; omega
  | @throttled src hpc hthrottled =>
    right
    have hpos : 0 < s.wait := wait_pos_of_throttled hthrottled
    have hwait : ({ s with pc := .loop src .sleep } : State).wait = s.wait := rfl
    simp only [State.rank, hpc, hwait, LoopAt.rank]
    omega
  | running hpc hrow => cases hrow.symm.trans hend.2
  | @woke src k d hpc hk hd =>
    right
    -- at least 250 of the time that is left have passed
    have hwait : ({ s with pc := .loop src .read, now := s.now + d } : State).wait ≤
        s.wait - 250 := by
      unfold State.wait
      cases s.lastCheck with
      | none => exact Nat.zero_le _
      | some t => dsimp only; omega
    have hk' : k.rank s.wait = max (4 * s.wait) 3 := by
      rcases hk with rfl | rfl <;> rfl
    simp only [State.rank, hpc]
    rw [hk', LoopAt.rank]
    omega

theorem callChange_ended (h : CallChange req s s') (hend : s.Ended) : s'.Ended := by
  cases h <;> exact hend

theorem envStep_checked (h : envStep s x = some s') (hs : s.pc.Checked) : s'.pc.Checked := by
  cases x with
  | guestSends b =>
    simp only [envStep] at h
    split at h
    · split at h <;> cases h
      rfl
    · cases h
  | guestReturns =>
    simp only [envStep] at h
    split at h <;> cases h
    rfl
  | grow b =>
    simp only [envStep] at h
    split at h <;> cases h
    exact hs
  | starts | ends | phase row | tick d => cases h; exact hs
  | _ => cases h

theorem rank_mono {w w' : Nat} (h : w' ≤ w) (k : LoopAt) : k.rank w' ≤ k.rank w := by
  cases k <;> simp only [LoopAt.rank] <;> omega

theorem rank_of_wait_le (hpc : s'.pc = s.pc) (hlog : s'.log = s.log) (hwait : s'.wait ≤ s.wait) :
    s'.rank ≤ s.rank := by
  unfold State.rank
  rw [hpc, hlog]
  split
  · omega
  · omega
  · exact Nat.add_le_add_right (rank_mono hwait _) _
  · exact Nat.le_refl _

theorem envStep_ended (h : envStep s x = some s') (hok : StaysEnded s x) (hend : s.Ended) :
    s'.Ended ∧ s'.rank ≤ s.rank ∧ s'.pc.hasReturned = s.pc.hasReturned := by
  cases x with
  | starts => exact hok.elim
  | ends => cases h; exact ⟨⟨rfl, hend.2⟩, rank_of_wait_le rfl rfl (Nat.le_refl _), rfl⟩
  | phase row =>
    cases h; exact ⟨⟨hend.1, hok⟩, rank_of_wait_le rfl rfl (Nat.le_refl _), rfl⟩
  | grow b => simp [envStep, hend.1] at h
  | guestSends b =>
    simp only [envStep] at h
    split at h
    · simp [hend.1] at h
    · cases h
  | guestReturns =>
    simp only [envStep] at h
    split at h <;> cases h
    rename_i hpc
    refine ⟨hend, ?_, by rw [hpc]; rfl⟩
    simp only [State.rank, hpc]
    exact Nat.le_refl _
  | tick d =>
    cases h
    exact ⟨hend, rank_of_wait_le rfl rfl (wait_le rfl (Nat.le_add_right _ _)), rfl⟩
  | _ => cases h

theorem read_enabled (hend : s.Ended) (hpc : s.pc = .loop src .read) :
    ∃ x s', x.own = true ∧ StaysEnded s x ∧ next req s x = some s' := by
  cases hread : src.read s.log with
  | some r =>
    refine ⟨.read, ?_⟩
    simp only [next, Event.isEnv, callStep, hpc, hread, Bool.false_eq_true, if_false]
    split
    · cases ‹some r = none›
    all_goals exact ⟨_, rfl, trivial, rfl⟩
  | none =>
    have hguest : ∃ done, src = .guest [] [] done := by
      unfold Src.read at hread
      split at hread
      · split at hread <;> cases hread
      · split at hread <;> cases hread
      · exact ⟨_, rfl⟩
      · cases hread
      · cases hread
    obtain ⟨done, rfl⟩ := hguest
    exact ⟨.recvEnds none, _, rfl, trivial, by simp [next, Event.isEnv, callStep, hpc, hend.1]; rfl⟩

theorem enabled (hend : s.Ended) (hrun : s.pc.hasReturned = false) :
    ∃ x s', x.own = true ∧ StaysEnded s x ∧ next req s x = some s' := by
  cases hpc : s.pc with
  | tail => exact ⟨.tail none, _, rfl, trivial, by simp [next, Event.isEnv, callStep, hpc]; rfl⟩
  | openLogs =>
    exact ⟨.openLogs (some (.sentinel .notFound)), _, rfl, trivial,
      by simp [next, Event.isEnv, callStep, hpc]; rfl⟩
  | returned err => rw [hpc] at hrun; cases hrun
  | loop src k =>
    cases k with
    | read => exact read_enabled hend hpc
    | send b => exact ⟨.send none, _, rfl, trivial, by simp [next, Event.isEnv, callStep, hpc]; rfl⟩
    | check =>
      exact ⟨.check false, _, rfl, trivial, by simp [next, Event.isEnv, callStep, hpc]; rfl⟩
    | sleep => exact ⟨.wake 250, _, rfl, trivial, by simp [next, Event.isEnv, callStep, hpc]; rfl⟩
    | tailing => exact ⟨.wake 250, _, rfl, trivial, by simp [next, Event.isEnv, callStep, hpc]; rfl⟩

theorem checked_next (hreq : ¬ req.OnSerial) (hs : s.pc.Checked) (h : next req s x = some s') :
    s'.pc.Checked := by
  rw [next] at h
  split at h
  · exact envStep_checked h hs
  · exact callChange_checked (callStep_change h) hreq hs

theorem inevitable_returned (hreq : ¬ req.OnSerial) (hend : s.Ended) (hs : s.pc.Checked) :
    Inevitable (next req) StaysEnded Event.own (fun s => s.pc.hasReturned = true) s := by
  refine Inevitable.of_rank (I := fun s => s.Ended ∧ s.pc.Checked) State.rank ?_ ?_ ?_ ?_ ⟨hend, hs⟩
  · rintro s x s' ⟨hend, hs⟩ hok h
    refine ⟨?_, checked_next hreq hs h⟩
    rw [next] at h
    split at h
    · exact (envStep_ended h hok hend).1
    · exact callChange_ended (callStep_change h) hend
  · rintro s x s' ⟨hend, -⟩ hret hok h
    rw [next] at h
    split at h
    · rw [(envStep_ended h hok hend).2.2]; exact hret
    · cases callStep_change h with
      | returned => rfl
      | noFile hpc | tail hpc | opened hpc _ | data hpc _ _ | tailing hpc | eof hpc | sent hpc
      | throttled hpc _ | running hpc _ | woke hpc _ _ => rw [hpc] at hret; cases hret
  · rintro s x s' ⟨hend, hs⟩ - hok h
    rw [next] at h
    split at h
    · rename_i henv
      have hown : x.own = false := by
        cases x <;> first | rfl | cases henv
      rw [hown]
      exact .inr (envStep_ended h hok hend).2.1
    · refine (callChange_rank (callStep_change h) hend hs).imp_right fun hlt => ?_
      split <;> omega
  · rintro s ⟨hend, -⟩ hrun; exact enabled hend (by simpa using hrun)

/-! ## The serial console -/

/-- The call reads the console of a VM that has ended. -/
def State.OnConsole (s : State) : Prop :=
  s.Ended ∧ ∃ pos k, s.pc = .loop (.serial pos) k ∧ k ≠ .check ∧ k ≠ .sleep

theorem onConsole_step (hs : s.OnConsole) : ∃ x s', x.own = true ∧ StaysEnded s x ∧
    next req s x = some s' ∧ s'.OnConsole := by
  obtain ⟨hend, pos, k, hpc, hcheck, hsleep⟩ := hs
  cases k with
  | check => exact absurd rfl hcheck
  | sleep => exact absurd rfl hsleep
  | send b =>
    refine ⟨.send none, { s with pc := .loop (.serial pos) .read }, rfl, trivial, ?_, hend, pos,
      .read, rfl, by simp, by simp⟩
    simp [next, Event.isEnv, callStep, hpc]
  | tailing =>
    refine ⟨.wake 250, { s with pc := .loop (.serial pos) .read, now := s.now + 250 }, rfl, trivial,
      ?_, hend, pos, .read, rfl, by simp, by simp⟩
    simp [next, Event.isEnv, callStep, hpc]
  | read =>
    refine ⟨.read, ?_⟩
    cases hleft : s.log.drop pos with
    | nil =>
      refine ⟨{ s with pc := .loop (.serial pos) .tailing }, rfl, trivial, ?_, hend, pos, .tailing,
        rfl, by simp, by simp⟩
      simp [next, Event.isEnv, callStep, hpc, Src.read, hleft]
    | cons a rest =>
      let k := LoopAt.send (a :: rest.take 32767)
      refine ⟨{ s with pc := .loop (.serial (min (pos + 32768) s.log.length)) k }, rfl, trivial, ?_,
        hend, _, k, rfl, by simp [k], by simp [k]⟩
      simp [next, Event.isEnv, callStep, hpc, Src.read, hleft, k]

theorem not_inevitable_onConsole (hs : s.OnConsole) :
    ¬ Inevitable (next req) StaysEnded Event.own (fun s => s.pc.hasReturned = true) s := by
  refine not_inevitable_of_forever (I := State.OnConsole) (fun s hs => ⟨?_, onConsole_step hs⟩) hs
  obtain ⟨-, pos, k, hpc, -⟩ := hs
  simp [hpc, LogsAt.hasReturned]

/-- A console is opened, and its VM stops. -/
def stopsWhileOpen : List Event := [.starts, .phase (some .running), .openLogs none, .ends,
  .phase (some .stopped)]

theorem onConsole_reached (h : req.OnSerial) : ∃ s,
    Moves (next req) (fun _ _ => True) (.start req) stopsWhileOpen s ∧ s.OnConsole := by
  obtain ⟨kind, source, follow, tailLines⟩ := req
  obtain ⟨rfl, rfl, rfl⟩ := h
  exact ⟨_, .of_moves? rfl, ⟨rfl, rfl⟩, 0, .read, rfl, by simp, by simp⟩

/-- Whatever has happened before, a call returns once the workload is not running any more; unless
it follows the serial console of a VM. -/
theorem logs_end (req : Request) :
    (∀ w s, Moves (next req) (fun _ _ => True) (.start req) w s → s.Ended →
      Inevitable (next req) StaysEnded Event.own (fun s => s.pc.hasReturned = true) s) ↔
    ¬ (req.follow = true ∧ req.kind = .microVm ∧ req.source = .serial) := by
  constructor
  · intro hall hreq
    obtain ⟨s, hw, hs⟩ := onConsole_reached hreq
    exact not_inevitable_onConsole hs (hall _ s hw hs.1)
  · intro hreq w s hw hend
    refine inevitable_returned hreq hend (hw.invariant (I := fun s => s.pc.Checked) ?_ ?_)
    · exact fun s x s' hs _ h => checked_next hreq hs h
    · unfold State.start
      dsimp only
      split <;> trivial

def Request.console : Request := ⟨.microVm, .serial, true, 0⟩

/-- The VM stops and its row says so. -/
theorem console_logs_never_end : ∃ w s,
    Moves (next .console) (fun _ _ => True) (.start .console) w s ∧
    s.live = false ∧ s.row = some .stopped ∧
    ¬ Inevitable (next .console) StaysEnded Event.own (fun s => s.pc.hasReturned = true) s :=
  ⟨stopsWhileOpen, _, .of_moves? rfl, rfl, rfl,
    not_inevitable_onConsole ⟨⟨rfl, rfl⟩, 0, .read, rfl, by simp, by simp⟩⟩

end Capsule.Workloads.LogsFollow
