import Capsule.GoReader
import Capsule.Store.Types

/-!
# Capsule.Workloads.Adapters

The code between streams of messages and readers of bytes: `grpcChunkReader` of the client and
`guestLogsReader` of the firecracker driver make a reader of a stream, `pumpReaderToStream` and
`streamReaderToLogs` of the workload controller send what a reader returns.

* `readChunk_spec`: one `Read` on what is left of a message, or on the next ones.
* `GrpcChunkReader.serves`, `GuestLogsReader.serves`: both are readers in the sense of `GoReader`.
* `adapters_keep_bytes`: no byte is lost, added or moved, however both sides are cut into pieces.
-/

namespace Capsule.Workloads.Adapters

open Atomic GoReader

inductive ReadErr where
  | eof
  | failed (e : Err)
  deriving DecidableEq

/-- A stream that is received from: the data of the messages, and the error after them. -/
structure Stream where
  messages : List Bytes
  fin : ReadErr

def Stream.recv (s : Stream) : Except ReadErr (Bytes × Stream) :=
  match s.messages with
  | [] => .error s.fin
  | data :: messages => .ok (data, { s with messages := messages })

/-- A `Read` with a buffer of length `n` when `left` is left of the last message. -/
def readChunk (s : Stream) (left : Bytes) (n : Nat) : (Stream × Bytes) × Result ReadErr :=
  if left = [] then
    match s.recv with
    | .error e => ((s, left), [], some e)
    | .ok (data, s') => ((s', data.drop n), data.take n, none)
  else ((s, left.drop n), left.take n, none)

structure GrpcChunkReader where
  stream : Stream
  buf : Bytes

def GrpcChunkReader.read (r : GrpcChunkReader) (n : Nat) : GrpcChunkReader × Result ReadErr :=
  let out := readChunk r.stream r.buf n
  (⟨out.1.1, out.1.2⟩, out.2)

structure GuestLogsReader where
  stream : Stream
  pending : Bytes

def GuestLogsReader.read (r : GuestLogsReader) (n : Nat) : GuestLogsReader × Result ReadErr :=
  let out := readChunk r.stream r.pending n
  (⟨out.1.1, out.1.2⟩, out.2)

def toCome (s : Stream) (left : Bytes) : Bytes := left ++ s.messages.flatten

/-- The reads that return no error are at most as many as bytes and messages. -/
def readsLeft (s : Stream) (left : Bytes) : Nat := (toCome s left).length + s.messages.length

theorem readChunk_spec (s : Stream) (left : Bytes) (n : Nat) (hn : 0 < n) :
    (toCome s left = [] ∧ readChunk s left n = ((s, left), [], some s.fin)) ∨
      ∃ b s' left', readChunk s left n = ((s', left'), b, none) ∧
        b ++ toCome s' left' = toCome s left ∧ readsLeft s' left' < readsLeft s left ∧
        s'.fin = s.fin := by
  obtain ⟨messages, fin⟩ := s
  by_cases hleft : left = []
  · subst hleft
    cases messages with
    | nil => exact .inl ⟨rfl, rfl⟩
    | cons data messages =>
      refine .inr ⟨_, _, _, rfl, ?_, ?_, rfl⟩
      · simp [toCome, ← List.append_assoc]
      · simp only [readsLeft, toCome, List.length_append, List.length_drop, List.flatten_cons,
          List.length_cons, List.nil_append]
        omega
  · refine .inr ⟨_, _, _, if_neg hleft, ?_, ?_, rfl⟩
    · simp [toCome, ← List.append_assoc]
    · have hpos := List.length_pos_iff.mpr hleft
      simp only [readsLeft, toCome, List.length_append, List.length_drop]
      omega

theorem GrpcChunkReader.serves :
    Serves GrpcChunkReader.read (fun r => toCome r.stream r.buf)
      (fun r => readsLeft r.stream r.buf) (fun r => r.stream.fin) := by
  intro r n hn
  rcases readChunk_spec r.stream r.buf n hn with ⟨hnil, hread⟩ | ⟨b, s', left', hread, hspec⟩
  · exact .inl ⟨hnil, by rw [GrpcChunkReader.read, hread]⟩
  · exact .inr ⟨b, ⟨s', left'⟩, by rw [GrpcChunkReader.read, hread], hspec⟩

theorem GuestLogsReader.serves :
    Serves GuestLogsReader.read (fun r => toCome r.stream r.pending)
      (fun r => readsLeft r.stream r.pending) (fun r => r.stream.fin) := by
  intro r n hn
  rcases readChunk_spec r.stream r.pending n hn with ⟨hnil, hread⟩ | ⟨b, s', left', hread, hspec⟩
  · exact .inl ⟨hnil, by rw [GuestLogsReader.read, hread]⟩
  · exact .inr ⟨b, ⟨s', left'⟩, by rw [GuestLogsReader.read, hread], hspec⟩

section Pumps

variable {σ : Type} (send : σ → Bytes → Except Err σ)

/-- Nothing is sent for a read without bytes. -/
def sendSome (s : σ) (b : Bytes) : Except Err σ := if 0 < b.length then send s b else .ok s

/-- `pumpReaderToStream`: what has been sent when it returns, or when it waits for the next read. -/
def pumpReaderToStream : List (Result ReadErr) → σ → σ
  | [], s => s
  | (b, err) :: reads, s =>
    match sendSome send s b with
    | .error _ => s
    | .ok s' =>
      match err with
      | some _ => s'
      | none => pumpReaderToStream reads s'

/-- What a follower meets at the end of the file: `shouldStop` returns true, the client has gone
away, or the sleep is over. -/
inductive Poll where
  | stop
  | cancelled
  | again

inductive LogsErr where
  | send (e : Err)
  | read (st : Status)

/-- `streamReaderToLogs`, with what it returns; `none` while it waits. -/
def streamReaderToLogs (follow : Bool) :
    List (Result ReadErr) → List Poll → σ → σ × Option (Except LogsErr Unit)
  | [], _, s => (s, none)
  | (b, err) :: reads, polls, s =>
    match sendSome send s b with
    | .error e => (s, some (.error (.send e)))
    | .ok s' =>
      match err with
      | none => streamReaderToLogs follow reads polls s'
      | some (.failed e) => (s', some (.error (.read ⟨.internal, e.msg⟩)))
      | some .eof =>
        if follow = false then (s', some (.ok ()))
        else
          match polls with
          | [] => (s', none)
          | .stop :: _ => (s', some (.ok ()))
          | .cancelled :: _ => (s', some (.ok ()))
          | .again :: polls => streamReaderToLogs follow reads polls s'

end Pumps

/-- A stream that takes every message. -/
def sendOk (sent : List Bytes) (b : Bytes) : Except Err (List Bytes) := .ok (sent ++ [b])

theorem sendSome_sendOk (sent : List Bytes) (b : Bytes) :
    ∃ sent', sendSome sendOk sent b = .ok sent' ∧ sent'.flatten = sent.flatten ++ b := by
  by_cases h : 0 < b.length
  · exact ⟨sent ++ [b], if_pos h, by simp⟩
  · refine ⟨sent, if_neg h, ?_⟩
    have hnil : b = [] := by simpa using h
    simp [hnil]

section Flatten

variable (pieces : List Bytes) (last : Bytes)

theorem pumpReaderToStream_flatten (e : ReadErr) (sent : List Bytes) :
    (pumpReaderToStream sendOk (inPieces pieces last e) sent).flatten =
      sent.flatten ++ (pieces.flatten ++ last) := by
  induction pieces generalizing sent with
  | nil =>
    obtain ⟨sent', hsend, hflat⟩ := sendSome_sendOk sent last
    simp [pumpReaderToStream, hsend, hflat]
  | cons p pieces ih =>
    obtain ⟨sent', hsend, hflat⟩ := sendSome_sendOk sent p
    simp [pumpReaderToStream, hsend, ih sent', hflat]

theorem streamReaderToLogs_flatten (more : List (Result ReadErr)) (polls : List Poll)
    (sent : List Bytes) :
    ∃ sent', streamReaderToLogs sendOk false (inPieces pieces last .eof ++ more) polls sent =
        (sent', some (.ok ())) ∧ sent'.flatten = sent.flatten ++ (pieces.flatten ++ last) := by
  induction pieces generalizing sent with
  | nil =>
    obtain ⟨sent', hsend, hflat⟩ := sendSome_sendOk sent last
    exact ⟨sent', by simp [streamReaderToLogs, hsend], by simp [hflat]⟩
  | cons p pieces ih =>
    obtain ⟨sent', hsend, hflat⟩ := sendSome_sendOk sent p
    obtain ⟨sent'', hrun, hflat'⟩ := ih sent'
    exact ⟨sent'', by simp [streamReaderToLogs, hsend, hrun], by simp [hflat', hflat]⟩

end Flatten

/-- The reader of a stream that the peer ends. -/
def grpcReads (messages : List Bytes) (sizes : List Nat) : List (Result ReadErr) :=
  outputs GrpcChunkReader.read ⟨⟨messages, .eof⟩, []⟩ sizes

def guestReads (messages : List Bytes) (sizes : List Nat) : List (Result ReadErr) :=
  outputs GuestLogsReader.read ⟨⟨messages, .eof⟩, []⟩ sizes

/-- The readers of streams return the payload of the messages and then `io.EOF`, and the pumps send
the bytes of a reader, however both are cut into pieces. -/
theorem adapters_keep_bytes (messages : List Bytes) (sizes : List Nat)
    (hsizes : ∀ n ∈ sizes, 0 < n) (pieces : List Bytes) (last : Bytes) (polls : List Poll) :
    (Delivered (grpcReads messages sizes) messages.flatten .eof ∧
      Delivered (guestReads messages sizes) messages.flatten .eof) ∧
    (messages.flatten.length + messages.length < sizes.length →
      (∃ (k : Nat) (b : Bytes), (grpcReads messages sizes)[k]? = some (b, some .eof)) ∧
        ∃ (k : Nat) (b : Bytes), (guestReads messages sizes)[k]? = some (b, some .eof)) ∧
    (pumpReaderToStream sendOk (inPieces pieces last .eof) []).flatten = pieces.flatten ++ last ∧
    ∃ sent, streamReaderToLogs sendOk false (inPieces pieces last .eof) polls [] =
      (sent, some (.ok ())) ∧ sent.flatten = pieces.flatten ++ last := by
  refine ⟨⟨GrpcChunkReader.serves.delivered hsizes _, GuestLogsReader.serves.delivered hsizes _⟩,
    ?_, pumpReaderToStream_flatten pieces last .eof [], ?_⟩
  · intro hlong
    exact ⟨GrpcChunkReader.serves.ends hsizes _ hlong, GuestLogsReader.serves.ends hsizes _ hlong⟩
  · simpa using streamReaderToLogs_flatten pieces last [] polls []

/-- Two messages with an empty one between them, read three bytes at a time. -/
theorem adapters_keep_bytes_small :
    Delivered (grpcReads [[1, 2, 3, 4], [], [5]] [3, 3, 3, 3, 3]) [1, 2, 3, 4, 5] .eof ∧
      (pumpReaderToStream sendOk (inPieces [[1, 2], []] [3] .eof) []).flatten = [1, 2, 3] := by
  have h := adapters_keep_bytes [[1, 2, 3, 4], [], [5]] [3, 3, 3, 3, 3] (by decide) [[1, 2], []] [3]
    []
  exact ⟨h.1.1, h.2.2.1⟩

end Capsule.Workloads.Adapters
