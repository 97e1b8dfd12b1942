import Capsule.Atomic.Moves
import Capsule.Update.Stream

/-!
# Capsule.Update.Producer

The goroutine that `ReceiveBundle` starts, next to the loop that reads the archive from its pipe.
What `archive/tar`, the files and the devices answer is part of the step, so nothing is assumed of
when the loop leaves and how much it has read by then.

* `Change`, `Staged`: the steps by what they change, and what the place of the call says of the
  producer.
* `State.Stranded`: the call has left through an error that does not close the pipe, with the
  producer in `pw.Write`.
* `inevitable_done`: otherwise the producer terminates, by a measure of what it has left.
* `producer_terminates`: it does exactly if it is not stranded when the RPC ends.
-/

namespace Capsule.Update.Producer

open Atomic
open Capsule.Update.Stream (Message Received)

inductive Recv where
  | msg (m : Message)
  | eof
  | failed (e : Err)

/-- What `nextChunk` returns besides the chunk; nothing if it may be called again. -/
inductive ReadErr where
  | eof
  | failed (e : Err)

def chunkFn : Recv → Bytes × Option ReadErr
  | .msg m => (m.bytes, none)
  | .eof => ([], some .eof)
  | .failed e => ([], some (.failed e))

inductive ProducerAt where
  | asks
  /-- In `pw.Write`: what has not been read of the chunk, and what came with it. -/
  | writes (rest : Bytes) (rerr : Option ReadErr)
  /-- Returned: the pipe is closed and `producerErr` has its value. -/
  | done (perr : Option Err)

/-- What the producer does once the chunk is written. -/
def settle : Option ReadErr → ProducerAt
  | none => .asks
  | some .eof => .done none
  | some (.failed e) => .done (some e)

inductive Exit where
  /-- On an error of `tr.Next`. -/
  | readTar
  /-- On any other error in the loop. -/
  | member
  | afterLoop
  deriving DecidableEq

inductive ConsumerAt where
  | next
  /-- In `io.Copy(io.Discard, tr)`, for an entry that is not wanted. -/
  | skip
  /-- Reading a wanted entry. -/
  | take (m : Member)
  /-- In `blockDeviceSize`, before an entry of that size. -/
  | size (size : Int)
  | drain
  | join
  /-- Writing `/boot` and `os_state`. -/
  | arm
  | returned (x : Exit) (r : Except Err (Slot × Bytes))

/-- What a call is made with, and what it has found before it starts the producer. -/
structure Call where
  svc : Service
  slot : Slot
  dev : String
  expectSize : UInt64
  expectSHA256Hex : String

structure State where
  producer : ProducerAt
  got : Received
  /-- What `pr` has been closed with. -/
  closed : Option Err
  consumer : ConsumerAt
  want : List Member
  version : Bytes
  rpcOver : Bool

def State.start : State where
  producer := .asks
  got := ⟨[], 0⟩
  closed := none
  consumer := .next
  want := [.version, .vmlinuz, .initramfs, .rootfs]
  version := []
  rpcOver := false

inductive Event where
  | recv (a : Recv)
  | wrote
  /-- The call takes up to `n` bytes from the pipe. -/
  | read (n : Nat)
  | tarNext (a : Stream.Next Unit)
  /-- An entry has been read through, or its reading has failed. -/
  | skipped (err : Option Err)
  /-- A wanted entry has been stored; `VERSION` is kept. -/
  | taken (r : Except Err Bytes)
  | sized (r : Except Err Int)
  | drained
  | joined
  | armed (r : Except Err Unit)
  | rpcEnds

def Recv.isMsg : Recv → Bool
  | .msg _ => true
  | _ => false

def ProducerAt.ended : ProducerAt → Bool
  | .done _ => true
  | _ => false

/-- The call reads from the pipe, itself or through the `tar.Reader`. -/
def ConsumerAt.reads : ConsumerAt → Bool
  | .next | .skip | .take _ | .drain => true
  | _ => false

def ConsumerAt.hasReturned : ConsumerAt → Bool
  | .returned _ _ => true
  | _ => false

def State.fail (s : State) (x : Exit) (e : Err) : State :=
  { s with consumer := .returned x (.error e) }

/-- The producer after `nextChunk`. -/
def received (s : State) (chunk : Bytes) (rerr : Option ReadErr) : State :=
  if chunk ≠ [] then { s with producer := .writes chunk rerr, got := s.got.add chunk }
  else { s with producer := settle rerr }

/-- The producer's steps. Once the RPC has ended, `stream.Recv` only fails. -/
def producerStep (s : State) : Event → Option State
  | .recv a =>
    match s.producer with
    | .asks =>
      if s.rpcOver = true ∧ a.isMsg = true then none
      else some (received s (chunkFn a).1 (chunkFn a).2)
    | _ => none
  | .wrote =>
    match s.producer with
    | .writes rest rerr =>
      if rest = [] then some { s with producer := settle rerr }
      else s.closed.map fun e => { s with producer := .done (some e) }
    | _ => none
  | _ => none

/-- The header of an entry. -/
def entry (s : State) (name : String) (size : Int) : State :=
  match s.want.find? (·.name = name) with
  | none => { s with consumer := .skip }
  | some .rootfs => { s with consumer := .size size }
  | some m => { s with consumer := .take m }

/-- An entry is stored: `delete(want, hdr.Name)`. -/
def stored (s : State) (m : Member) (b : Bytes) : State :=
  { s with
    consumer := .next
    want := s.want.filter (· ≠ m)
    version := if m = .version then GoString.trimSpace b else s.version }

/-- How the error of a member's copy is returned. -/
def takeErr (c : Call) (e : Err) : Member → Err
  | .rootfs => e.ctx ("stream rootfs to " ++ c.dev)
  | _ => e

def tooLarge (c : Call) (size slotBytes : Int) : Err :=
  .wrap "" (.sentinel .bundleTooLarge)
    (": rootfs.sqsh " ++ toString size ++ " bytes > slot " ++ c.dev ++ " capacity " ++
      toString slotBytes ++ " bytes; bump SLOT_SIZE_MIB and reinstall to apply this update")

def consumerStep (c : Call) (s : State) : Event → Option State
  | .read n =>
    match s.producer with
    | .writes (a :: rest) rerr =>
      if s.consumer.reads then some { s with producer := .writes ((a :: rest).drop n) rerr }
      else none
    | _ => none
  | .tarNext a =>
    match s.consumer, a with
    | .next, .eof => some { s with consumer := .drain }
    | .next, .failed e => some { s.fail .readTar (e.ctx "read tar") with closed := some e }
    | .next, .entry name size () => some (entry s name size)
    | _, _ => none
  | .skipped err =>
    match s.consumer, err with
    | .skip, none => some { s with consumer := .next }
    | .skip, some e => some (s.fail .member e)
    | _, _ => none
  | .taken r =>
    match s.consumer, r with
    | .take m, .ok b => some (stored s m b)
    | .take m, .error e => some (s.fail .member (takeErr c e m))
    | _, _ => none
  | .sized r =>
    match s.consumer, r with
    | .size size, .ok slotBytes =>
      if slotBytes < size then some (s.fail .member (tooLarge c size slotBytes))
      else some { s with consumer := .take .rootfs }
    | .size _, .error e => some (s.fail .member (e.ctx ("size of " ++ c.dev)))
    | _, _ => none
  | .drained =>
    match s.consumer with
    | .drain => if s.producer.ended then some { s with consumer := .join } else none
    | _ => none
  | .joined =>
    match s.consumer, s.producer with
    | .join, .done perr =>
      match checkBundle (Stream.received c.svc.sha256 c.expectSize c.expectSHA256Hex perr s.got)
          s.want with
      | .error e => some (s.fail .afterLoop e)
      | .ok () => some { s with consumer := .arm }
    | _, _ => none
  | .armed r =>
    match s.consumer, r with
    | .arm, .ok () => some { s with consumer := .returned .afterLoop (.ok (c.slot, s.version)) }
    | .arm, .error e => some (s.fail .afterLoop e)
    | _, _ => none
  | _ => none

def next (c : Call) (s : State) : Event → Option State
  | .rpcEnds =>
    if s.consumer.hasReturned = true ∧ s.rpcOver = false then some { s with rpcOver := true }
    else none
  | .recv a => producerStep s (.recv a)
  | .wrote => producerStep s .wrote
  | x => consumerStep c s x

/-- The call has left the loop at its end. -/
def ConsumerAt.pastLoop : ConsumerAt → Bool
  | .join | .arm | .returned .afterLoop _ => true
  | _ => false

/-- The steps, by what they change. -/
inductive Change (s : State) : Event → State → Prop where
  | recv {a : Recv} {p : ProducerAt} {g : Received} : s.producer = .asks →
      (s.rpcOver = true → a.isMsg = false) →
      (a.isMsg = false → p.ended = true) →
      Change s (.recv a) { s with producer := p, got := g }
  | refused {rest : Bytes} {rerr : Option ReadErr} {e : Err} :
      s.producer = .writes rest rerr → s.closed = some e →
      Change s .wrote { s with producer := .done (some e) }
  | wrote {rerr : Option ReadErr} : s.producer = .writes [] rerr →
      Change s .wrote { s with producer := settle rerr }
  | read {n : Nat} {a : UInt8} {rest : Bytes} {rerr : Option ReadErr} :
      s.producer = .writes (a :: rest) rerr → s.consumer.reads = true →
      Change s (.read n) { s with producer := .writes ((a :: rest).drop n) rerr }
  /-- `tr.Next` fails. -/
  | readTar {a : Stream.Next Unit} {r : Except Err (Slot × Bytes)} {e : Err} :
      s.consumer = .next →
      Change s (.tarNext a) { s with consumer := .returned .readTar r, closed := some e }
  /-- A step inside the loop, out of it through another error, or to its end. -/
  | loop {x : Event} {k : ConsumerAt} {want : List Member} {version : Bytes} :
      s.consumer.hasReturned = false → k.pastLoop = false → (∀ r, k ≠ .returned .readTar r) →
      Change s x { s with consumer := k, want := want, version := version }
  | past {x : Event} {k : ConsumerAt} : s.consumer.hasReturned = false → s.producer.ended = true →
      k.pastLoop = true → Change s x { s with consumer := k }
  | armed {x : Event} {r : Except Err (Slot × Bytes)} : s.consumer = .arm →
      Change s x { s with consumer := .returned .afterLoop r }
  | rpcEnds : s.consumer.hasReturned = true → s.rpcOver = false →
      Change s .rpcEnds { s with rpcOver := true }

variable {c : Call} {s s' : State} {x : Event} {w : List Event}

theorem producerStep_change (h : producerStep s x = some s') : Change s x s' := by
  cases x with
  | recv a =>
    simp only [producerStep] at h
    split at h
    · rename_i hasks
      split at h
      · cases h
      · rename_i hmsg
        have hover : s.rpcOver = true → a.isMsg = false := by
          intro hover; simpa [hover] using hmsg
        cases h
        unfold received
        split
        · rename_i hchunk
          refine .recv hasks hover fun hno => absurd ?_ hchunk
          cases a with
          | msg m => cases hno
          | eof => rfl
          | failed e => rfl
        · refine .recv hasks hover fun hno => ?_
          cases a with
          | msg m => cases hno
          | eof => rfl
          | failed e => rfl
    · cases h
  | wrote =>
    simp only [producerStep] at h
    split at h
    · rename_i rest rerr hwrites
      split at h
      · rename_i hnil; cases h; exact .wrote (hnil ▸ hwrites)
      · obtain ⟨e, hclosed, rfl⟩ := Option.map_eq_some_iff.mp h
        exact .refused hwrites hclosed
    · cases h
  | _ => cases h

theorem entry_change (name : String) (size : Int) (hnext : s.consumer = .next) :
    Change s x (entry s name size) := by
  have hrun : s.consumer.hasReturned = false := by rw [hnext]; rfl
  unfold entry
  split
  · exact .loop hrun rfl (by simp)
  · exact .loop hrun rfl (by simp)
  · exact .loop hrun rfl (by simp)

theorem consumerStep_change (h : consumerStep c s x = some s') : Change s x s' := by
  cases x with
  | read n =>
    simp only [consumerStep] at h
    split at h
    · split at h <;> cases h
      exact .read ‹_› ‹_›
    · cases h
  | tarNext a =>
    simp only [consumerStep] at h
    split at h <;> cases h
    · exact .loop (by simp [*, ConsumerAt.hasReturned]) rfl (by simp)
    · exact .readTar ‹_›
    · exact entry_change _ _ ‹_›
  | skipped err =>
    simp only [consumerStep] at h
    split at h <;> cases h
    · exact .loop (by simp [*, ConsumerAt.hasReturned]) rfl (by simp)
    · exact .loop (by simp [*, ConsumerAt.hasReturned]) rfl (by simp)
  | taken r =>
    simp only [consumerStep] at h
    split at h <;> cases h
    · exact .loop (by simp [*, ConsumerAt.hasReturned]) rfl (by simp)
    · exact .loop (by simp [*, ConsumerAt.hasReturned]) rfl (by simp)
  | sized r =>
    simp only [consumerStep] at h
    split at h
    · split at h <;> cases h
      · exact .loop (by simp [*, ConsumerAt.hasReturned]) rfl (by simp)
      · exact .loop (by simp [*, ConsumerAt.hasReturned]) rfl (by simp)
    · cases h; exact .loop (by simp [*, ConsumerAt.hasReturned]) rfl (by simp)
    · cases h
  | drained =>
    simp only [consumerStep] at h
    split at h
    · split at h <;> cases h
      exact .past (by simp [*, ConsumerAt.hasReturned]) ‹_› rfl
    · cases h
  | joined =>
    simp only [consumerStep] at h
    split at h
    · split at h <;> cases h
      · exact .past (by simp [*, ConsumerAt.hasReturned]) (by simp [*, ProducerAt.ended]) rfl
      · exact .past (by simp [*, ConsumerAt.hasReturned]) (by simp [*, ProducerAt.ended]) rfl
    · cases h
  | armed r =>
    simp only [consumerStep] at h
    split at h <;> cases h
    · exact .armed ‹_›
    · exact .armed ‹_›
  | _ => cases h

theorem next_change (h : next c s x = some s') : Change s x s' := by
  cases x with
  | recv a => exact producerStep_change h
  | wrote => exact producerStep_change h
  | rpcEnds =>
    rw [next] at h
    split at h <;> cases h
    rename_i hret
    exact .rpcEnds hret.1 hret.2
  | _ => exact consumerStep_change (c := c) h

/-! ## Where the call returns -/

/-- What the place of the call says of the producer. -/
structure Staged (s : State) : Prop where
  past : s.consumer.pastLoop = true → s.producer.ended = true
  closed : s.closed.isSome = true ↔ ∃ r, s.consumer = .returned .readTar r
  rpcOver : s.rpcOver = true → s.consumer.hasReturned = true

theorem staged_start : Staged .start where
  past h := by cases h
  closed := by simp [State.start]
  rpcOver h := by cases h

theorem ended_next (h : next c s x = some s') (hend : s.producer.ended = true) :
    s'.producer.ended = true := by
  cases next_change h with
  | recv hp _ _ | refused hp _ | wrote hp | read hp _ => rw [hp] at hend; cases hend
  | _ => exact hend

theorem Staged.still_open (hI : Staged s) (hrun : s.consumer.hasReturned = false)
    {k : ConsumerAt} (hk : ∀ r, k ≠ .returned .readTar r) :
    s.closed.isSome = true ↔ ∃ r, k = .returned .readTar r := by
  refine iff_of_false (fun hc => ?_) (fun ⟨r, hr⟩ => hk r hr)
  obtain ⟨r, hr⟩ := hI.closed.mp hc
  rw [hr] at hrun
  cases hrun

theorem staged_next (hI : Staged s) (h : next c s x = some s') : Staged s' := by
  have hend := ended_next h
  cases next_change h with
  | recv _ _ _ | refused _ _ | wrote _ | read _ _ =>
    exact ⟨fun hp => hend (hI.past hp), hI.closed, hI.rpcOver⟩
  | readTar hnext =>
    exact ⟨fun hp => (by cases hp), iff_of_true rfl ⟨_, rfl⟩, fun _ => rfl⟩
  | loop hrun hk hne =>
    refine ⟨fun hp => ?_, hI.still_open hrun hne, fun ho => ?_⟩
    · cases hk.symm.trans hp
    · cases hrun.symm.trans (hI.rpcOver ho)
  | @past x k hrun hp hk =>
    refine ⟨fun _ => hp, hI.still_open hrun fun r hr => ?_, fun ho => ?_⟩
    · rw [show k = .returned .readTar r from hr] at hk; cases hk
    · cases hrun.symm.trans (hI.rpcOver ho)
  | armed harm =>
    exact ⟨fun _ => hI.past (by rw [harm]; rfl),
      hI.still_open (by rw [harm]; rfl) fun r hr => (by cases hr), fun _ => rfl⟩
  | rpcEnds hret _ => exact ⟨hI.past, hI.closed, fun _ => hret⟩

/-- The call has left through an error in the loop that does not close the pipe, and the producer
is in `pw.Write` with bytes that nobody will read. -/
def State.Stranded (s : State) : Prop :=
  (∃ r, s.consumer = .returned .member r) ∧ ∃ a rest rerr, s.producer = .writes (a :: rest) rerr

def Event.own : Event → Bool
  | .recv _ | .wrote => true
  | _ => false

def ProducerAt.rank : ProducerAt → Nat
  | .writes _ _ => 2
  | .asks => 1
  | .done _ => 0

/-- A write that is under way will be over. -/
def State.Free (s : State) : Prop :=
  s.closed.isSome = true ∨ ∀ a rest rerr, s.producer ≠ .writes (a :: rest) rerr

theorem free_of_not_stranded (hI : Staged s) (hover : s.rpcOver = true) (h : ¬ s.Stranded) :
    s.Free := by
  have hret := hI.rpcOver hover
  cases hk : s.consumer with
  | returned x r =>
    cases x with
    | readTar => exact .inl (hI.closed.mpr ⟨r, hk⟩)
    | member => exact .inr fun a rest rerr hp => h ⟨⟨r, hk⟩, a, rest, rerr, hp⟩
    | afterLoop =>
      refine .inr fun a rest rerr hp => ?_
      have hend := hI.past (by rw [hk]; rfl)
      rw [hp] at hend
      cases hend
  | _ => rw [hk] at hret; cases hret

theorem rank_of_ended {p : ProducerAt} (h : p.ended = true) : p.rank = 0 := by
  cases p with
  | done perr => rfl
  | _ => cases h

theorem settle_rank (rerr : Option ReadErr) : (settle rerr).rank ≤ 1 := by
  match rerr with
  | none => exact Nat.le_refl _
  | some .eof | some (.failed _) => exact Nat.zero_le _

theorem over_next (hI : Staged s) (hover : s.rpcOver = true) (h : next c s x = some s') :
    s'.rpcOver = true ∧ s'.producer.rank < s.producer.rank ∧ s'.producer.rank ≤ 1 := by
  have hret := hI.rpcOver hover
  cases next_change h with
  | recv hp hno hended =>
    rw [rank_of_ended (hended (hno hover)), hp]; exact ⟨hover, Nat.one_pos, Nat.zero_le 1⟩
  | refused hp _ => rw [hp]; exact ⟨hover, Nat.zero_lt_two, Nat.zero_le 1⟩
  | @wrote rerr hp =>
    have hle := settle_rank rerr
    rw [hp]
    exact ⟨hover, Nat.lt_succ_of_le hle, hle⟩
  | read _ hreads =>
    cases hk : s.consumer <;> simp [hk, ConsumerAt.reads, ConsumerAt.hasReturned] at hreads hret
  | readTar hnext => rw [hnext] at hret; cases hret
  | loop hrun _ _ => cases hrun.symm.trans hret
  | past hrun _ _ => cases hrun.symm.trans hret
  | armed harm => rw [harm] at hret; cases hret
  | rpcEnds _ hnot => cases hnot.symm.trans hover

theorem free_next (hI : Staged s) (hover : s.rpcOver = true) (h : next c s x = some s') :
    s'.Free := by
  refine .inr fun a rest rerr hp => ?_
  have hle := (over_next hI hover h).2.2
  rw [hp] at hle
  exact absurd hle (Nat.not_succ_le_self 1)

theorem producer_enabled (hfree : s.Free) (hrun : s.producer.ended = false) :
    ∃ x s', x.own = true ∧ next c s x = some s' := by
  cases hp : s.producer with
  | asks => exact ⟨.recv .eof, _, rfl, by simp [next, producerStep, hp, Recv.isMsg]; rfl⟩
  | writes rest rerr =>
    refine ⟨.wrote, ?_⟩
    cases rest with
    | nil => exact ⟨_, rfl, by simp [next, producerStep, hp]; rfl⟩
    | cons a rest =>
      have hclosed := hfree.resolve_right fun h => h a rest rerr hp
      obtain ⟨e, he⟩ := Option.isSome_iff_exists.mp hclosed
      exact ⟨_, rfl, by simp [next, producerStep, hp, he]; rfl⟩
  | done perr => rw [hp] at hrun; cases hrun

theorem inevitable_done (hI : Staged s) (hover : s.rpcOver = true) (hfree : s.Free) :
    Inevitable (next c) (fun _ _ => True) Event.own (fun s => s.producer.ended = true) s := by
  refine Inevitable.of_rank (I := fun s => Staged s ∧ s.rpcOver = true ∧ s.Free)
    (fun s => s.producer.rank) ?_ ?_ ?_ ?_ ⟨hI, hover, hfree⟩
  · rintro s x s' ⟨hI, hover, -⟩ - h
    exact ⟨staged_next hI h, (over_next hI hover h).1, free_next hI hover h⟩
  · exact fun s x s' _ hend _ h => ended_next h hend
  · rintro s x s' ⟨hI, hover, -⟩ - - h
    have hlt := (over_next hI hover h).2.1
    refine .inr ?_
    split <;> omega
  · rintro s ⟨-, -, hfree⟩ hrun
    obtain ⟨x, s', hown, hnext⟩ := producer_enabled (c := c) hfree (by simpa using hrun)
    exact ⟨x, s', hown, trivial, hnext⟩

theorem not_inevitable_of_stranded (hI : Staged s) (h : s.Stranded) :
    ¬ Inevitable (next c) (fun _ _ => True) Event.own (fun s => s.producer.ended = true) s := by
  obtain ⟨⟨r, hret⟩, a, rest, rerr, hp⟩ := h
  have hopen : s.closed = none := by
    rw [← Option.not_isSome_iff_eq_none, hI.closed]
    rintro ⟨r', hr'⟩
    cases hret.symm.trans hr'
  rintro ⟨n, hn⟩
  rcases (hn [] s .nil).2 with hend | ⟨x, s', hown, -, hnext⟩
  · rw [hp] at hend; cases hend
  · cases x with
    | recv a => simp [next, producerStep, hp] at hnext
    | wrote => simp [next, producerStep, hp, hopen] at hnext
    | _ => cases hown

/-- When the RPC of a call that has returned is over, the producer terminates, unless the call has
left through an error in the loop other than one of `tr.Next` and the producer is in `pw.Write`. -/
theorem producer_terminates (c : Call) (w : List Event) (s : State)
    (hw : Moves (next c) (fun _ _ => True) .start w s) (hover : s.rpcOver = true) :
    Inevitable (next c) (fun _ _ => True) Event.own (fun s => s.producer.ended = true) s ↔
      ¬ s.Stranded := by
  have hI : Staged s := hw.invariant (fun s x s' hI _ h => staged_next hI h) staged_start
  constructor
  · exact fun hinev hstranded => not_inevitable_of_stranded hI hstranded hinev
  · exact fun h => inevitable_done hI hover (free_of_not_stranded hI hover h)

/-- A push to slot b, whose partition is `/dev/sda3`. -/
def Call.toSlotB : Call where
  svc := ⟨some .a, fun _ => ""⟩
  slot := .b
  dev := "/dev/sda3"
  expectSize := 0
  expectSHA256Hex := ""

/-- The header of a `rootfs.sqsh` of 2 GiB: name, mode, owner, size, time, checksum and type. -/
def rootfsHeader : Bytes :=
  [114, 111, 111, 116, 102, 115, 46, 115, 113, 115, 104] ++ List.replicate 89 0 ++
    [48, 48, 48, 48, 54, 52, 52, 0] ++ List.replicate 7 48 ++ [0] ++ List.replicate 7 48 ++ [0] ++
    [50] ++ List.replicate 10 48 ++ [0] ++ List.replicate 11 48 ++ [0] ++
    [48, 48, 54, 55, 51, 50, 0, 32] ++ [48] ++ List.replicate 355 0

theorem rootfsHeader_length : rootfsHeader.length = 512 := by
  simp only [rootfsHeader, List.length_append, List.length_replicate, List.length_cons,
    List.length_nil]

/-- `tr.Next` fails on the first bytes of a chunk: the write of the rest is refused. -/
theorem producer_terminates_readTar : ∃ w s, Moves (next .toSlotB) (fun _ _ => True) .start w s ∧
    s.producer.ended = false ∧ Inevitable (next .toSlotB) (fun _ _ => True) Event.own
      (fun s => s.producer.ended = true) s := by
  obtain ⟨s, hw, hover, hrun, hret⟩ : ∃ s, Moves (next .toSlotB) (fun _ _ => True) .start
      [.recv (.msg (.chunk (List.replicate 1024 1))), .read 512,
        .tarNext (.failed (.text "archive/tar: invalid tar header")), .rpcEnds] s ∧
      s.rpcOver = true ∧ s.producer.ended = false ∧ ∃ r, s.consumer = .returned .readTar r :=
    ⟨_, .of_moves? rfl, rfl, rfl, _, rfl⟩
  refine ⟨_, s, hw, hrun, (producer_terminates _ _ s hw hover).mpr ?_⟩
  rintro ⟨⟨r, hr⟩, -⟩
  obtain ⟨r', hr'⟩ := hret
  cases hr.symm.trans hr'

/-- A rootfs of 2 GiB for a slot of 1 GiB, whose first byte comes in one message with its header. -/
theorem producer_stranded : ∃ w s, Moves (next .toSlotB) (fun _ _ => True) .start w s ∧
    s.rpcOver = true ∧
    s.consumer = .returned .member (.error (tooLarge .toSlotB 2147483648 1073741824)) ∧
    ¬ Inevitable (next .toSlotB) (fun _ _ => True) Event.own
      (fun s => s.producer.ended = true) s := by
  obtain ⟨s, hw, hover, hret, hp⟩ : ∃ s, Moves (next .toSlotB) (fun _ _ => True) .start
      [.recv (.msg (.chunk (rootfsHeader ++ [104]))), .read 512,
        .tarNext (.entry "rootfs.sqsh" 2147483648 ()), .sized (.ok 1073741824), .rpcEnds] s ∧
      s.rpcOver = true ∧
      s.consumer = .returned .member (.error (tooLarge .toSlotB 2147483648 1073741824)) ∧
      s.producer = .writes ((rootfsHeader ++ [104]).drop 512) none :=
    ⟨_, .of_moves? rfl, rfl, rfl, rfl⟩
  rw [List.drop_left' rootfsHeader_length] at hp
  have hI : Staged s := hw.invariant (fun s x s' hI _ h => staged_next hI h) staged_start
  exact ⟨_, s, hw, hover, hret, not_inevitable_of_stranded hI ⟨⟨_, hret⟩, _, _, _, hp⟩⟩

end Capsule.Update.Producer
