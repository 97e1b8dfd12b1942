import Capsule.Atomic.Moves
import Capsule.GoString
import Capsule.Store.Types

/-!
# Capsule.Workloads.Upload

`WorkloadController.CopyTo` and `ImageController.Push` from the metadata on: a goroutine receives
the client's chunks and writes them to an `io.Pipe`, at whose other end the archive is read, by
`tar` in the workload or by `Import`. What is read and how it ends is up to the reader; `taken` is
what it has read.

* `Flow`: what is read, being written and to come are the client's bytes.
* `inevitable_returned`: once the reader has ended the handler returns.
* `upload_result`: with a reader that succeeded, the answer is success exactly if it has read the
  stream to its last byte. A reader that stops at the end marker is not enough
  (`upload_fails_on_padding`).
-/

namespace Capsule.Workloads.Upload

open Atomic

inductive Rpc where
  | copyTo (name : String)
  | push

/-- How the reader ends: `Service.Exec` or `Service.Import`. -/
inductive Outcome where
  | ok
  /-- `noRuntime`: the error is `image.ErrNoRuntime`. -/
  | failed (e : Err) (noRuntime : Bool)
  /-- `tar` exits with a code other than 0. -/
  | exited (code : Int) (stderr : String)
  deriving DecidableEq

/-- `Import` has no exit code. -/
def Outcome.isFor : Outcome → Rpc → Bool
  | .exited _ _, .push => false
  | _, _ => true

/-- What the handler answers when the reader has failed. -/
def refusal : Rpc → Outcome → Option Status
  | _, .ok => none
  | .copyTo _, .failed e _ => some ⟨.internal, "exec tar x: " ++ e.msg⟩
  | .copyTo name, .exited code stderr =>
    some ⟨.internal, "tar x in " ++ GoString.quote name ++ " exited " ++ toString code ++ ": " ++
      stderr⟩
  | .push, .failed e noRuntime =>
    some ⟨if noRuntime then .failedPrecondition else .internal, e.msg⟩
  | .push, .exited _ _ => none

/-- What a write returns once the handler has closed the pipe: at its writing end in `CopyTo`, at
its reading end, with `io.EOF`, in `Push`. -/
def closeErr : Rpc → Err
  | .copyTo _ => .text "io: read/write on closed pipe"
  | .push => .text "EOF"

/-- What the handler answers when the goroutine has failed. -/
def recvStatus : Rpc → Err → Status
  | .copyTo _, e => ⟨.internal, "receive: " ++ e.msg⟩
  | .push, e => ⟨.internal, e.msg⟩

/-- The answer once both have ended; the bytes received if all is well. -/
def result (rpc : Rpc) (o : Outcome) (rerr : Option Err) (received : Nat) : Except Status Nat :=
  match refusal rpc o, rerr with
  | some st, _ => .error st
  | none, some e => .error (recvStatus rpc e)
  | none, none => .ok received

inductive RecvAt where
  | recv
  /-- Writing a chunk, with what has not been read of it. -/
  | writes (chunk rest : Bytes)
  /-- Returned: the pipe is closed and `recvDone` has its value. -/
  | done (rerr : Option Err)

inductive MainAt where
  | consume
  | close (o : Outcome)
  | join (o : Outcome)
  | returned (o : Outcome) (r : Except Status Nat)
  deriving DecidableEq

/-- The stream of a client: its chunks, and what it breaks with, if it is not half-closed. -/
structure Sent where
  chunks : List Bytes
  broke : Option Err

def Sent.all (c : Sent) : Bytes := c.chunks.flatten

structure State where
  /-- The chunks to come. -/
  inbox : List Bytes
  recv : RecvAt
  received : Nat
  closed : Bool
  taken : Bytes
  main : MainAt

def State.start (c : Sent) : State where
  inbox := c.chunks
  recv := .recv
  received := 0
  closed := false
  taken := []
  main := .consume

inductive Event where
  | recv
  /-- The reader takes up to `n` bytes from the pipe. -/
  | read (n : Nat)
  | ends (o : Outcome)
  | main

def recvStep (rpc : Rpc) (broke : Option Err) (s : State) : Option State :=
  match s.recv with
  | .recv =>
    match s.inbox with
    | [] => some { s with recv := .done broke }
    | [] :: inbox => some { s with inbox := inbox }
    | (a :: chunk) :: inbox =>
      some { s with inbox := inbox, recv := .writes (a :: chunk) (a :: chunk) }
  | .writes chunk rest =>
    if rest = [] then some { s with recv := .recv, received := s.received + chunk.length }
    else if s.closed then
      -- `CopyTo` counts what has been read of the chunk, `Push` does not
      match rpc with
      | .copyTo _ =>
        some { s with
          recv := .done (some (closeErr rpc))
          received := s.received + (chunk.length - rest.length) }
      | .push => some { s with recv := .done (some (closeErr rpc)) }
    else none
  | .done _ => none

def mainStep (rpc : Rpc) (s : State) : Option State :=
  match s.main with
  | .consume => none
  | .close o =>
    match rpc, refusal rpc o with
    -- `CopyTo` does not wait for the goroutine when `tar` has failed
    | .copyTo _, some st => some { s with closed := true, main := .returned o (.error st) }
    | _, _ => some { s with closed := true, main := .join o }
  | .join o =>
    match s.recv with
    | .done rerr => some { s with main := .returned o (result rpc o rerr s.received) }
    | _ => none
  | .returned _ _ => none

def next (rpc : Rpc) (broke : Option Err) (s : State) : Event → Option State
  | .recv => recvStep rpc broke s
  | .read n =>
    match s.main, s.recv with
    | .consume, .writes chunk (a :: rest) =>
      some { s with
        taken := s.taken ++ (a :: rest).take n
        recv := .writes chunk ((a :: rest).drop n) }
    | _, _ => none
  | .ends o =>
    match s.main with
    | .consume => if o.isFor rpc then some { s with main := .close o } else none
    | _ => none
  | .main => mainStep rpc s

/-- The steps, with what lets them be taken. -/
inductive Change (rpc : Rpc) (broke : Option Err) (s : State) : Event → State → Prop where
  | eof : s.recv = .recv → s.inbox = [] →
      Change rpc broke s .recv { s with recv := .done broke }
  | skip {inbox : List Bytes} : s.recv = .recv → s.inbox = [] :: inbox →
      Change rpc broke s .recv { s with inbox := inbox }
  | chunk {chunk : Bytes} {inbox : List Bytes} : s.recv = .recv → s.inbox = chunk :: inbox →
      Change rpc broke s .recv { s with inbox := inbox, recv := .writes chunk chunk }
  | wrote {chunk : Bytes} : s.recv = .writes chunk [] →
      Change rpc broke s .recv { s with recv := .recv, received := s.received + chunk.length }
  | refused {chunk rest : Bytes} {e : Err} {n : Nat} : s.recv = .writes chunk rest → rest ≠ [] →
      s.closed = true → Change rpc broke s .recv { s with recv := .done (some e), received := n }
  | read {n : Nat} {chunk rest : Bytes} : s.main = .consume → s.recv = .writes chunk rest →
      Change rpc broke s (.read n) { s with
        taken := s.taken ++ rest.take n
        recv := .writes chunk (rest.drop n) }
  | ends {o : Outcome} : s.main = .consume →
      Change rpc broke s (.ends o) { s with main := .close o }
  | failed {o : Outcome} {st : Status} : s.main = .close o → refusal rpc o = some st →
      Change rpc broke s .main { s with closed := true, main := .returned o (.error st) }
  | close {o : Outcome} : s.main = .close o →
      Change rpc broke s .main { s with closed := true, main := .join o }
  | joined {o : Outcome} {rerr : Option Err} : s.main = .join o → s.recv = .done rerr →
      Change rpc broke s .main { s with main := .returned o (result rpc o rerr s.received) }

variable {rpc : Rpc} {c : Sent} {broke : Option Err} {s s' : State} {x : Event}

theorem recvStep_change (h : recvStep rpc broke s = some s') : Change rpc broke s .recv s' := by
  unfold recvStep at h
  split at h
  · rename_i hrecv
    split at h <;> cases h
    · exact .eof hrecv ‹_›
    · exact .skip hrecv ‹_›
    · exact .chunk hrecv ‹_›
  · rename_i chunk rest hwrites
    split at h
    · rename_i hnil; cases h; exact .wrote (hnil ▸ hwrites)
    · rename_i hne
      split at h
      · rename_i hclosed
        cases rpc with
        | copyTo name => cases h; exact .refused hwrites hne hclosed
        | push => cases h; exact .refused hwrites hne hclosed
      · cases h
  · cases h

theorem mainStep_change (h : mainStep rpc s = some s') : Change rpc broke s .main s' := by
  unfold mainStep at h
  split at h
  · cases h
  · split at h <;> cases h
    · exact .failed ‹_› ‹_›
    · exact .close ‹_›
  · split at h <;> cases h
    exact .joined ‹_› ‹_›
  · cases h

theorem next_change (h : next rpc broke s x = some s') : Change rpc broke s x s' := by
  cases x with
  | recv => exact recvStep_change h
  | main => exact mainStep_change h
  | read n =>
    rw [next] at h
    split at h <;> cases h
    exact .read ‹_› ‹_›
  | ends o =>
    rw [next] at h
    split at h
    · split at h <;> cases h
      exact .ends ‹_›
    · cases h

/-- What has been read, what is being written and what is to come are the client's bytes. A
goroutine that has ended well has seen all of them read; one that has not has met the end of a
broken stream, or some were left. -/
def Flow (c : Sent) (s : State) : Prop :=
  match s.recv with
  | .recv => s.taken ++ s.inbox.flatten = c.all ∧ s.received = s.taken.length
  | .writes chunk rest => s.taken ++ rest ++ s.inbox.flatten = c.all ∧
      s.received + chunk.length = s.taken.length + rest.length
  | .done none => c.broke = none ∧ s.taken = c.all ∧ s.received = c.all.length
  | .done (some _) => c.broke.isSome = true ∨ s.taken ≠ c.all

theorem flow_start (c : Sent) : Flow c (.start c) := ⟨rfl, rfl⟩

theorem flow_next (hI : Flow c s) (h : next rpc c.broke s x = some s') : Flow c s' := by
  cases next_change h with
  | eof hrecv hnil =>
    simp only [Flow, hrecv, hnil, List.flatten_nil, List.append_nil] at hI
    unfold Flow
    cases hbroke : c.broke with
    | none => exact ⟨rfl, hI.1, by rw [hI.2, hI.1]⟩
    | some e => exact .inl rfl
  | skip hrecv hinbox => simpa [Flow, hrecv, hinbox] using hI
  | chunk hrecv hinbox => simpa [Flow, hrecv, hinbox] using hI
  | wrote hwrites => simpa [Flow, hwrites] using hI
  | refused hwrites hne _ =>
    simp only [Flow, hwrites] at hI
    refine .inr fun hall => hne ?_
    have hlen := congrArg List.length hI.1
    rw [← hall] at hlen
    simp only [List.length_append] at hlen
    exact List.eq_nil_of_length_eq_zero (by omega)
  | @read n chunk rest _ hwrites =>
    simp only [Flow, hwrites] at hI ⊢
    refine ⟨?_, ?_⟩
    · rw [List.append_assoc s.taken, List.take_append_drop]; exact hI.1
    · have hlen := congrArg List.length (List.take_append_drop n rest)
      simp only [List.length_append] at hlen ⊢
      omega
  | ends _ => exact hI
  | failed _ _ => exact hI
  | close _ => exact hI
  | joined _ _ => exact hI

/-! ## What the handler answers -/

def RecvAt.ended : RecvAt → Bool
  | .done _ => true
  | _ => false

/-- What the place of the handler says. -/
structure Staged (rpc : Rpc) (s : State) : Prop where
  closed : ∀ o, s.main = .join o → s.closed = true
  /-- The answer is the reader's error, or both have ended. -/
  answer : ∀ o r, s.main = .returned o r → (∃ st, r = .error st ∧ refusal rpc o = some st) ∨
    ∃ rerr, s.recv = .done rerr ∧ r = result rpc o rerr s.received

theorem staged_start (c : Sent) : Staged rpc (.start c) where
  closed o h := by cases h
  answer o r h := by cases h

theorem staged_next (hI : Staged rpc s) (h : next rpc broke s x = some s') : Staged rpc s' := by
  -- the goroutine does not move once it has ended
  have hrun : s.recv.ended = false → ∀ o r, s.main = .returned o r →
      ∃ st, r = .error st ∧ refusal rpc o = some st := by
    intro hrun o r hr
    refine (hI.answer o r hr).resolve_right ?_
    rintro ⟨rerr, hdone, -⟩
    rw [hdone] at hrun
    cases hrun
  cases next_change h with
  | eof hrecv _ | skip hrecv _ | chunk hrecv _ | wrote hrecv | refused hrecv _ _ | read _ hrecv =>
    exact ⟨hI.closed, fun o r hr => .inl (hrun (by rw [hrecv]; rfl) o r hr)⟩
  | ends hconsume => exact ⟨fun o ho => (by cases ho), fun o r hr => (by cases hr)⟩
  | failed hclose hst =>
    refine ⟨fun o ho => (by cases ho), fun o r hr => ?_⟩
    cases hr
    exact .inl ⟨_, rfl, hst⟩
  | close hclose => exact ⟨fun _ _ => rfl, fun o r hr => (by cases hr)⟩
  | joined hjoin hdone =>
    refine ⟨fun o ho => (by cases ho), fun o r hr => ?_⟩
    cases hr
    exact .inr ⟨_, hdone, rfl⟩

theorem answer_ok (hflow : Flow c s) (hI : Staged rpc s) {r : Except Status Nat}
    (hr : s.main = .returned .ok r) :
    ((∃ n, r = .ok n) ↔ c.broke = none ∧ s.taken = c.all) ∧ ∀ n, r = .ok n → n = c.all.length := by
  have hok : refusal rpc .ok = none := by cases rpc <;> rfl
  rcases hI.answer .ok r hr with ⟨st, -, hst⟩ | ⟨rerr, hdone, rfl⟩
  · cases hok.symm.trans hst
  · unfold result
    rw [hok]
    cases rerr with
    | none =>
      simp only [Flow, hdone] at hflow
      refine ⟨iff_of_true ⟨_, rfl⟩ ⟨hflow.1, hflow.2.1⟩, fun n hn => ?_⟩
      cases hn
      exact hflow.2.2
    | some e =>
      simp only [Flow, hdone] at hflow
      refine ⟨iff_of_false (fun ⟨n, hn⟩ => (by cases hn)) ?_, fun n hn => (by cases hn)⟩
      rintro ⟨hwell, hall⟩
      rcases hflow with hbroke | hleft
      · rw [hwell] at hbroke; cases hbroke
      · exact hleft hall

theorem answer_broken (hflow : Flow c s) (hI : Staged rpc s) (hbroke : c.broke.isSome = true)
    {o : Outcome} {r : Except Status Nat} (hr : s.main = .returned o r) : ∃ st, r = .error st := by
  rcases hI.answer o r hr with ⟨st, rfl, -⟩ | ⟨rerr, hdone, rfl⟩
  · exact ⟨st, rfl⟩
  · unfold result
    cases refusal rpc o with
    | some st => exact ⟨st, rfl⟩
    | none =>
      cases rerr with
      | some e => exact ⟨_, rfl⟩
      | none => simp only [Flow, hdone] at hflow; rw [hflow.1] at hbroke; cases hbroke

def Event.own : Event → Bool
  | .recv | .main => true
  | _ => false

def MainAt.hasReturned : MainAt → Bool
  | .returned _ _ => true
  | _ => false

def MainAt.rank : MainAt → Nat
  | .consume => 3
  | .close _ => 2
  | .join _ => 1
  | .returned _ _ => 0

def RecvAt.rank (inbox : List Bytes) : RecvAt → Nat
  | .recv => 2 * inbox.length + 1
  | .writes _ _ => 2 * inbox.length + 2
  | .done _ => 0

theorem rank_next (hmain : s.main ≠ .consume) (h : next rpc broke s x = some s') :
    s'.main ≠ .consume ∧
      s'.main.rank + s'.recv.rank s'.inbox < s.main.rank + s.recv.rank s.inbox := by
  cases next_change h with
  | eof hrecv _ => exact ⟨hmain, Nat.add_lt_add_left (by rw [hrecv]; simp [RecvAt.rank]) _⟩
  | skip hrecv hinbox =>
    exact ⟨hmain, Nat.add_lt_add_left (by rw [hrecv, hinbox]; simp [RecvAt.rank]) _⟩
  | chunk hrecv hinbox =>
    exact ⟨hmain, Nat.add_lt_add_left (by rw [hrecv, hinbox]; simp [RecvAt.rank]; omega) _⟩
  | wrote hrecv => exact ⟨hmain, Nat.add_lt_add_left (by rw [hrecv]; simp [RecvAt.rank]) _⟩
  | refused hrecv _ _ => exact ⟨hmain, Nat.add_lt_add_left (by rw [hrecv]; simp [RecvAt.rank]) _⟩
  | read hconsume _ => exact absurd hconsume hmain
  | ends hconsume => exact absurd hconsume hmain
  | failed hclose _ => exact ⟨by simp, Nat.add_lt_add_right (by rw [hclose]; simp [MainAt.rank]) _⟩
  | close hclose => exact ⟨by simp, Nat.add_lt_add_right (by rw [hclose]; simp [MainAt.rank]) _⟩
  | joined hjoin _ => exact ⟨by simp, Nat.add_lt_add_right (by rw [hjoin]; simp [MainAt.rank]) _⟩

theorem enabled (hI : Staged rpc s) (hmain : s.main ≠ .consume)
    (hrun : s.main.hasReturned = false) :
    ∃ x s', x.own = true ∧ next rpc broke s x = some s' := by
  cases hm : s.main with
  | consume => exact absurd hm hmain
  | returned o r => rw [hm] at hrun; cases hrun
  | close o =>
    refine ⟨.main, ?_⟩
    simp only [next, mainStep, hm]
    split
    · exact ⟨_, rfl, rfl⟩
    · exact ⟨_, rfl, rfl⟩
  | join o =>
    cases hr : s.recv with
    | done rerr => exact ⟨.main, _, rfl, by simp only [next, mainStep, hm, hr]; rfl⟩
    | recv =>
      refine ⟨.recv, ?_⟩
      simp only [next, recvStep, hr]
      split
      · exact ⟨_, rfl, rfl⟩
      · exact ⟨_, rfl, rfl⟩
      · exact ⟨_, rfl, rfl⟩
    | writes chunk rest =>
      refine ⟨.recv, ?_⟩
      simp only [next, recvStep, hr, hI.closed o hm, if_true]
      split
      · exact ⟨_, rfl, rfl⟩
      · split
        · exact ⟨_, rfl, rfl⟩
        · exact ⟨_, rfl, rfl⟩

theorem inevitable_returned (hI : Staged rpc s) (hmain : s.main ≠ .consume) :
    Inevitable (next rpc broke) (fun _ _ => True) Event.own
      (fun s => s.main.hasReturned = true) s := by
  refine Inevitable.of_rank (I := fun s => Staged rpc s ∧ s.main ≠ .consume)
    (fun s => s.main.rank + s.recv.rank s.inbox) ?_ ?_ ?_ ?_ ⟨hI, hmain⟩
  · exact fun s x s' hJ _ h => ⟨staged_next hJ.1 h, (rank_next hJ.2 h).1⟩
  · intro s x s' _ hret _ h
    cases next_change h with
    | ends hm | failed hm _ | close hm | joined hm _ => rw [hm] at hret; cases hret
    | _ => exact hret
  · intro s x s' hJ _ _ h
    have hlt := (rank_next hJ.2 h).2
    refine .inr ?_
    split <;> omega
  · intro s hJ hrun
    obtain ⟨x, s', hown, hnext⟩ : ∃ x s', x.own = true ∧ next rpc broke s x = some s' :=
      enabled hJ.1 hJ.2 (by simpa using hrun)
    exact ⟨x, s', hown, trivial, hnext⟩

/-- Once the reader has ended the handler returns. If the reader has succeeded, the answer is
success exactly if the client's stream was half-closed and read to its last byte; if the stream
broke, the answer is an error however the reader has ended. -/
theorem upload_result (rpc : Rpc) (c : Sent) (w : List Event) (s : State)
    (hw : Moves (next rpc c.broke) (fun _ _ => True) (.start c) w s) :
    (s.main ≠ .consume → Inevitable (next rpc c.broke) (fun _ _ => True) Event.own
      (fun s => s.main.hasReturned = true) s) ∧
    (∀ r, s.main = .returned .ok r →
      ((∃ n, r = .ok n) ↔ c.broke = none ∧ s.taken = c.all) ∧ ∀ n, r = .ok n → n = c.all.length) ∧
    (c.broke.isSome = true → ∀ o r, s.main = .returned o r → ∃ st, r = .error st) := by
  have hflow : Flow c s := hw.invariant (fun s x s' hI _ h => flow_next hI h) (flow_start c)
  have hI : Staged rpc s := hw.invariant (fun s x s' hI _ h => staged_next hI h) (staged_start c)
  refine ⟨fun hmain => inevitable_returned hI hmain, fun r hr => answer_ok hflow hI hr, ?_⟩
  exact fun hbroke o r hr => answer_broken hflow hI hbroke hr

/-- An archive without entries, which is its end marker of two blocks of zeros, and one block of
padding. -/
def padded : Sent where
  chunks := [List.replicate 1024 0, List.replicate 512 0]
  broke := none

/-- `tar` reads on to the end of the stream. -/
theorem upload_result_whole : ∃ w s,
    Moves (next (.copyTo "web") padded.broke) (fun _ _ => True) (.start padded) w s ∧
    s.taken = padded.all ∧ s.main = .returned .ok (.ok padded.all.length) := by
  obtain ⟨s, hw, hret, hall⟩ := Moves.of_any (next (.copyTo "web") padded.broke)
    (fun _ _ => True) (.start padded)
    [.recv, .read 1024, .recv, .recv, .read 512, .recv, .recv, .ends .ok, .main, .main]
    (fun s => s.main = .returned .ok (.ok 1536) ∧ s.taken = padded.all) (by decide +kernel)
  have hlen := ((upload_result _ _ _ s hw).2.1 _ hret).2 _ rfl
  exact ⟨_, s, hw, hall, hlen ▸ hret⟩

/-- `tar` reads the end marker and exits with 0 while the padding is on its way. -/
theorem upload_fails_on_padding : ∃ w s,
    Moves (next (.copyTo "web") padded.broke) (fun _ _ => True) (.start padded) w s ∧
    s.taken = List.replicate 1024 0 ∧
    s.main = .returned .ok (.error ⟨.internal, "receive: io: read/write on closed pipe"⟩) :=
  ⟨_, Moves.of_any _ _ _ [.recv, .read 1024, .recv, .recv, .ends .ok, .main, .recv, .main] _
    (by decide +kernel)⟩

end Capsule.Workloads.Upload
