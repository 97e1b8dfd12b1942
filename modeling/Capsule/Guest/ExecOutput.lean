import Capsule.Atomic.Moves
import Capsule.Store.Types

/-!
# Capsule.Guest.ExecOutput

`agent.Exec` of `cmd/capsule-guest/agent.go` without a terminal, from the start of the process on:
the process, the two pumps that read its pipes, and the call itself, which waits for the process,
then for the pumps, and then sends the exit code. Every `Send` succeeds.

* `Session.Flow`: what the process wrote is sent, in a pump's hands or in the pipe, in this order.
* `Staged`: what the call knows by where it is. It sends the code only after both pumps.
* `inevitable_returned`: once the process has exited, the exit code gets sent.
* `output_delivered`: everything is sent before it exactly if `cmd.Wait` found both pipes empty when
  it closed them.
-/

namespace Capsule.Guest.ExecOutput

open Atomic

inductive Stream where
  | stdout
  | stderr
  deriving DecidableEq

inductive Msg where
  | output (s : Stream) (b : Bytes)
  | exit (code : Int)
  deriving DecidableEq

inductive PumpAt where
  | reading
  | sending (b : Bytes)
  /-- Returned, with its token in `done`. -/
  | returned
  deriving DecidableEq

inductive CallAt where
  | wait
  /-- Still in it, with the pipes it has not closed yet. -/
  | close (left : List Stream) (code : Int)
  /-- At `<-done`, with the tokens it has received. -/
  | join (n : Nat) (code : Int)
  | send (code : Int)
  | returned
  deriving DecidableEq

structure Session where
  exited : Option Int
  /-- What the process has written, and what of it is in the pipe. -/
  written : Stream → Bytes
  buf : Stream → Bytes
  closed : Stream → Bool
  pump : Stream → PumpAt
  call : CallAt
  sent : List Msg

inductive Event where
  | write (s : Stream) (b : Bytes)
  | exit (code : Int)
  | pump (s : Stream)
  /-- `waited`: the status was there to be collected. -/
  | call (waited : Bool)
  deriving DecidableEq

def Session.start : Session where
  exited := none
  written := fun _ => []
  buf := fun _ => []
  closed := fun _ => false
  pump := fun _ => .reading
  call := .wait
  sent := []

/-- A pump: `Read` waits as long as the pipe is empty and the process runs. -/
def pumpStep (c : Session) (s : Stream) : Option Session :=
  match c.pump s with
  | .reading =>
    if c.closed s then some { c with pump := Function.update c.pump s .returned }
    else if c.buf s ≠ [] then
      some { c with
        buf := Function.update c.buf s ((c.buf s).drop 4096)
        pump := Function.update c.pump s (.sending ((c.buf s).take 4096)) }
    else if c.exited.isSome then some { c with pump := Function.update c.pump s .returned }
    else none
  | .sending b =>
    some { c with
      pump := Function.update c.pump s .reading
      sent := c.sent ++ [.output s b] }
  | .returned => none

/-- The pumps that have returned. -/
def Session.tokens (c : Session) : Nat :=
  (if c.pump .stdout = .returned then 1 else 0) + (if c.pump .stderr = .returned then 1 else 0)

def callStep (c : Session) (waited : Bool) : Option Session :=
  match c.call with
  | .wait =>
    match c.exited with
    | none => none
    | some code =>
      some { c with call := .close [.stdout, .stderr] (if waited then code else -1) }
  | .close (s :: left) code =>
    some { c with closed := Function.update c.closed s true, call := .close left code }
  | .close [] code => some { c with call := .join 0 code }
  | .join n code =>
    if n = 2 then some { c with call := .send code }
    else if n < c.tokens then some { c with call := .join (n + 1) code }
    else none
  | .send code => some { c with call := .returned, sent := c.sent ++ [.exit code] }
  | .returned => none

def next (c : Session) : Event → Option Session
  | .write s b =>
    if c.exited.isSome ∨ b = [] then none
    else
      some { c with
        written := Function.update c.written s (c.written s ++ b)
        buf := Function.update c.buf s (c.buf s ++ b) }
  | .exit code => if c.exited.isSome then none else some { c with exited := some code }
  | .pump s => pumpStep c s
  | .call waited => callStep c waited

/-- The steps, with what lets them be taken. -/
inductive Change (c : Session) : Event → Session → Prop where
  | write {s : Stream} {b : Bytes} : c.exited = none → b ≠ [] →
      Change c (.write s b) { c with
        written := Function.update c.written s (c.written s ++ b)
        buf := Function.update c.buf s (c.buf s ++ b) }
  | exit {code : Int} : c.exited = none → Change c (.exit code) { c with exited := some code }
  | read {s : Stream} : c.pump s = .reading → c.closed s = false → c.buf s ≠ [] →
      Change c (.pump s) { c with
        buf := Function.update c.buf s ((c.buf s).drop 4096)
        pump := Function.update c.pump s (.sending ((c.buf s).take 4096)) }
  | stop {s : Stream} : c.pump s = .reading →
      (c.closed s = true ∨ c.buf s = [] ∧ c.exited.isSome = true) →
      Change c (.pump s) { c with pump := Function.update c.pump s .returned }
  | output {s : Stream} {b : Bytes} : c.pump s = .sending b →
      Change c (.pump s) { c with
        pump := Function.update c.pump s .reading
        sent := c.sent ++ [.output s b] }
  | waited {waited : Bool} {code code' : Int} : c.call = .wait → c.exited = some code →
      Change c (.call waited) { c with call := .close [.stdout, .stderr] code' }
  | close {waited : Bool} {s : Stream} {left : List Stream} {code : Int} :
      c.call = .close (s :: left) code →
      Change c (.call waited) { c with
        closed := Function.update c.closed s true
        call := .close left code }
  | closed {waited : Bool} {code : Int} : c.call = .close [] code →
      Change c (.call waited) { c with call := .join 0 code }
  | token {waited : Bool} {n : Nat} {code : Int} : c.call = .join n code → n < c.tokens →
      Change c (.call waited) { c with call := .join (n + 1) code }
  | joined {waited : Bool} {code : Int} : c.call = .join 2 code →
      Change c (.call waited) { c with call := .send code }
  | final {waited : Bool} {code : Int} : c.call = .send code →
      Change c (.call waited) { c with call := .returned, sent := c.sent ++ [.exit code] }

variable {c c' : Session} {x : Event} {s : Stream}

theorem pumpStep_change (h : pumpStep c s = some c') : Change c (.pump s) c' := by
  unfold pumpStep at h
  split at h
  · rename_i hpump
    split at h
    · cases h; exact .stop hpump (.inl ‹_›)
    · rename_i hopen
      split at h
      · cases h; exact .read hpump (by simpa using hopen) ‹_›
      · rename_i hnil
        split at h <;> cases h
        exact .stop hpump (.inr ⟨by simpa using hnil, ‹_›⟩)
  · cases h; exact .output ‹_›
  · cases h

theorem callStep_change {waited : Bool} (h : callStep c waited = some c') :
    Change c (.call waited) c' := by
  unfold callStep at h
  split at h
  · rename_i hcall
    split at h <;> cases h
    exact .waited hcall ‹_›
  · cases h; exact .close ‹_›
  · cases h; exact .closed ‹_›
  · rename_i n code hcall
    split at h
    · subst ‹n = 2›; cases h; exact .joined hcall
    · split at h <;> cases h
      exact .token hcall ‹_›
  · cases h; exact .final ‹_›
  · cases h

theorem next_change (h : next c x = some c') : Change c x c' := by
  cases x with
  | write s b =>
    rw [next] at h
    split at h <;> cases h
    rename_i hok
    rw [not_or] at hok
    exact .write (by simpa using hok.1) hok.2
  | exit code =>
    rw [next] at h
    split at h <;> cases h
    exact .exit (by simpa using ‹¬ c.exited.isSome = true›)
  | pump s => exact pumpStep_change h
  | call waited => exact callStep_change h

/-- The bytes of a stream in a message. -/
def Msg.on (s : Stream) : Msg → Bytes
  | .output t b => if t = s then b else []
  | .exit _ => []

def delivered (s : Stream) (sent : List Msg) : Bytes := sent.flatMap (Msg.on s)

def PumpAt.pending : PumpAt → Bytes
  | .sending b => b
  | _ => []

/-- What the process has written to a stream is sent, in the pump's hands or in the pipe, in this
order. -/
def Session.Flow (c : Session) : Prop :=
  ∀ s, delivered s c.sent ++ (c.pump s).pending ++ c.buf s = c.written s

theorem flow_next (hI : c.Flow) (h : next c x = some c') : c'.Flow := by
  intro t
  have ht := hI t
  cases next_change h with
  | @write s b _ _ =>
    by_cases hts : t = s
    · subst hts; simp [← ht]
    · simpa [Function.update_of_ne hts] using ht
  | @read s hpump _ _ =>
    by_cases hts : t = s
    · subst hts; simpa [hpump, PumpAt.pending] using ht
    · simpa [Function.update_of_ne hts] using ht
  | @stop s hpump _ =>
    by_cases hts : t = s
    · subst hts; simpa [hpump, PumpAt.pending] using ht
    · simpa [Function.update_of_ne hts] using ht
  | @output s b hpump =>
    by_cases hts : t = s
    · subst hts; simpa [hpump, PumpAt.pending, delivered, Msg.on] using ht
    · simpa [Function.update_of_ne hts, delivered, Msg.on, Ne.symm hts] using ht
  | final _ => simpa [delivered, Msg.on] using ht
  | _ => exact ht

theorem tokens_two (h : 2 ≤ c.tokens) (s : Stream) : c.pump s = .returned := by
  unfold Session.tokens at h
  split at h <;> split at h <;> first | omega | cases s <;> assumption

theorem tokens_le (h : ∀ s, c.pump s = .returned → c'.pump s = .returned) :
    c.tokens ≤ c'.tokens := by
  unfold Session.tokens
  have hout := h .stdout
  have herr := h .stderr
  split <;> split <;> simp_all

/-- The pipes that `cmd.Wait` has still to close. -/
def CallAt.unclosed : CallAt → List Stream
  | .wait => [.stdout, .stderr]
  | .close left _ => left
  | _ => []

/-- The call has both tokens. -/
def CallAt.joined : CallAt → Bool
  | .send _ | .returned => true
  | _ => false

/-- What the call knows by where it is. -/
structure Staged (c : Session) : Prop where
  exited : c.call ≠ .wait → c.exited.isSome = true
  closed : ∀ s, c.closed s = true → c.exited.isSome = true
  shut : ∀ s, s ∉ c.call.unclosed → c.closed s = true
  tokens : ∀ n code, c.call = .join n code → n ≤ c.tokens
  joined : c.call.joined = true → ∀ s, c.pump s = .returned
  silent : c.call ≠ .returned → ∀ code, Msg.exit code ∉ c.sent
  final : c.call = .returned → ∃ pre code, c.sent = pre ++ [.exit code] ∧ ∀ k, Msg.exit k ∉ pre

theorem staged_start : Staged .start where
  exited h := absurd rfl h
  closed s h := by cases h
  shut s h := by cases s <;> simp [CallAt.unclosed, Session.start] at h
  tokens n code h := by cases h
  joined h := by cases h
  silent _ code h := by cases h
  final h := by cases h

theorem returned_next (h : next c x = some c') (hp : c.pump s = .returned) :
    c'.pump s = .returned := by
  cases next_change h with
  | @read t hpump _ _ =>
    have hne : s ≠ t := by
      rintro rfl; cases hp.symm.trans hpump
    simpa [Function.update_of_ne hne] using hp
  | @stop t hpump _ =>
    by_cases hst : s = t
    · subst hst; simp
    · simpa [Function.update_of_ne hst] using hp
  | @output t b hpump =>
    have hne : s ≠ t := by
      rintro rfl; cases hp.symm.trans hpump
    simpa [Function.update_of_ne hne] using hp
  | _ => exact hp

theorem Staged.advance {k : CallAt} (hI : Staged c) (hexit : c.exited.isSome = true)
    (hcall : c.call ≠ .returned) (hk : k ≠ .returned)
    (hshut : ∀ s, s ∉ k.unclosed → s ∉ c.call.unclosed)
    (htok : ∀ n code, k = .join n code → n ≤ c.tokens)
    (hjoin : k.joined = true → ∀ s, c.pump s = .returned) : Staged { c with call := k } where
  exited _ := hexit
  closed := hI.closed
  shut s hs := hI.shut s (hshut s hs)
  tokens := htok
  joined := hjoin
  silent _ := hI.silent hcall
  final h := absurd h hk

theorem staged_next (hI : Staged c) (h : next c x = some c') : Staged c' := by
  have hret (s : Stream) := returned_next (s := s) h
  have htok (n : Nat) (code : Int) (hn : c.call = .join n code) : n ≤ c'.tokens :=
    Nat.le_trans (hI.tokens n code hn) (tokens_le hret)
  cases next_change h with
  | write _ _ => exact ⟨hI.exited, hI.closed, hI.shut, hI.tokens, hI.joined, hI.silent, hI.final⟩
  | exit _ =>
    exact ⟨fun _ => rfl, fun _ _ => rfl, hI.shut, hI.tokens, hI.joined, hI.silent, hI.final⟩
  | read _ _ _ =>
    exact ⟨hI.exited, hI.closed, hI.shut, htok, fun hj s => hret s (hI.joined hj s), hI.silent,
      hI.final⟩
  | stop _ _ =>
    exact ⟨hI.exited, hI.closed, hI.shut, htok, fun hj s => hret s (hI.joined hj s), hI.silent,
      hI.final⟩
  | @output s b hpump =>
    refine ⟨hI.exited, hI.closed, hI.shut, htok, fun hj s => hret s (hI.joined hj s),
      fun hne code hmem => ?_, fun hr => ?_⟩
    · simp only [List.mem_append, List.mem_singleton, reduceCtorEq, or_false] at hmem
      exact hI.silent hne code hmem
    · cases hpump.symm.trans (hI.joined (by rw [show c.call = .returned from hr]; rfl) s)
  | waited hcall hexit =>
    refine hI.advance (by rw [hexit]; rfl) (by simp [hcall]) (by simp) ?_ ?_ ?_
    · exact fun s hs => by rwa [hcall]
    · exact fun n code hn => by cases hn
    · exact fun hj => by cases hj
  | @close waited t left code hcall =>
    have hexit := hI.exited (by simp [hcall])
    refine ⟨fun _ => hexit, fun _ _ => hexit, fun s hs => ?_, fun n code hn => (by cases hn),
      fun hj => (by cases hj), fun _ => hI.silent (by simp [hcall]), fun hr => (by cases hr)⟩
    by_cases hst : s = t
    · subst hst; simp
    · have hs' : s ∉ left := hs
      simpa [Function.update_of_ne hst] using
        hI.shut s (by simpa [hcall, CallAt.unclosed, hst] using hs')
  | closed hcall =>
    refine hI.advance (hI.exited (by simp [hcall])) (by simp [hcall]) (by simp) ?_ ?_ ?_
    · exact fun s hs => by rwa [hcall]
    · intro n code hn; cases hn; exact Nat.zero_le _
    · exact fun hj => by cases hj
  | token hcall hlt =>
    refine hI.advance (hI.exited (by simp [hcall])) (by simp [hcall]) (by simp) ?_ ?_ ?_
    · exact fun s hs => by rwa [hcall]
    · intro n code hn; cases hn; exact hlt
    · exact fun hj => by cases hj
  | joined hcall =>
    refine hI.advance (hI.exited (by simp [hcall])) (by simp [hcall]) (by simp) ?_ ?_ ?_
    · exact fun s hs => by rwa [hcall]
    · exact fun n code hn => by cases hn
    · exact fun _ s => tokens_two (hI.tokens 2 _ hcall) s
  | @final waited code hcall =>
    refine ⟨fun _ => hI.exited (by simp [hcall]), hI.closed, fun s hs => ?_,
      fun n code hn => (by cases hn), fun _ => hI.joined (by rw [hcall]; rfl),
      fun hne => absurd rfl hne, fun _ => ⟨c.sent, code, rfl, hI.silent (by simp [hcall])⟩⟩
    exact hI.shut s (by rwa [hcall])

/-! ## All of it, before the exit code -/

/-- The exit code has been sent, once and last, and before it all that the process has written. -/
def Session.Delivered (c : Session) : Prop :=
  ∃ pre code, c.sent = pre ++ [.exit code] ∧ (∀ k, Msg.exit k ∉ pre) ∧
    ∀ s, delivered s pre = c.written s

/-- Nothing was left in a pipe when it was closed. -/
def Session.Drained (c : Session) : Prop := ∀ s, c.closed s = true → c.buf s = []

/-- `cmd.Wait` finds each pipe empty when it closes it. -/
def ClosesEmpty (c : Session) : Event → Prop
  | .call _ =>
    match c.call with
    | .close (s :: _) _ => c.buf s = []
    | _ => True
  | _ => True

theorem delivered_iff (hflow : c.Flow) (hI : Staged c) (hend : c.call = .returned) :
    c.Delivered ↔ c.Drained := by
  obtain ⟨pre, code, hsent, hpre⟩ := hI.final hend
  have hshut (s : Stream) : c.closed s = true := hI.shut s (by rw [hend]; exact List.not_mem_nil)
  have hsplit (s : Stream) : delivered s pre ++ c.buf s = c.written s := by
    have hs := hflow s
    rw [hI.joined (by rw [hend]; rfl) s, hsent] at hs
    simpa [delivered, Msg.on, PumpAt.pending] using hs
  constructor
  · rintro ⟨pre', code', hsent', -, hall⟩ s -
    obtain ⟨rfl, -⟩ := List.append_inj' (hsent.symm.trans hsent') rfl
    have hs := hsplit s
    rw [hall s] at hs
    exact List.append_right_eq_self.mp hs
  · intro hdrained
    refine ⟨pre, code, hsent, hpre, fun s => ?_⟩
    rw [← hsplit s, hdrained s (hshut s), List.append_nil]

theorem closed_next (hI : Staged c) (h : next c x = some c') (hs : c.closed s = true) :
    c'.closed s = true ∧ c'.buf s = c.buf s := by
  have hexit := hI.closed s hs
  cases next_change h with
  | write hrun _ => rw [hrun] at hexit; cases hexit
  | @read t _ hopen _ =>
    have hne : s ≠ t := by
      rintro rfl; cases hs.symm.trans hopen
    exact ⟨hs, Function.update_of_ne hne _ _⟩
  | @close waited t left code hcall =>
    by_cases hst : s = t
    · subst hst; exact ⟨Function.update_self .., rfl⟩
    · exact ⟨by simpa [Function.update_of_ne hst] using hs, rfl⟩
  | _ => exact ⟨hs, rfl⟩

theorem drained_next (hI : Staged c) (hd : c.Drained) (hok : ClosesEmpty c x)
    (h : next c x = some c') : c'.Drained := by
  intro s hs
  cases hold : c.closed s with
  | true => rw [(closed_next hI h hold).2]; exact hd s hold
  | false =>
    cases next_change h with
    | @close waited t left code hcall =>
      have hst : s = t := by
        by_contra hne
        simp [Function.update_of_ne hne, hold] at hs
      subst hst
      simpa [ClosesEmpty, hcall] using hok
    | _ => cases hold.symm.trans hs

theorem closesEmpty_of_drained (h : next c x = some c') (hd : c'.Drained) : ClosesEmpty c x := by
  cases next_change h with
  | @close waited t left code hcall =>
    have hbuf : c.buf t = [] := hd t (by simp)
    simpa [ClosesEmpty, hcall] using hbuf
  | waited hcall _ => simp [ClosesEmpty, hcall]
  | closed hcall => simp [ClosesEmpty, hcall]
  | token hcall _ => simp [ClosesEmpty, hcall]
  | joined hcall => simp [ClosesEmpty, hcall]
  | final hcall => simp [ClosesEmpty, hcall]
  | _ => trivial

/-- The steps of the pumps and of the call. -/
def Event.own : Event → Bool
  | .pump _ | .call _ => true
  | .write _ _ | .exit _ => false

def PumpAt.rank (buf : Bytes) : PumpAt → Nat
  | .reading => 3 * buf.length + 1
  | .sending _ => 3 * buf.length + 2
  | .returned => 0

def CallAt.rank : CallAt → Nat
  | .wait => 8
  | .close left _ => left.length + 5
  | .join n _ => 4 - n
  | .send _ => 1
  | .returned => 0

def Session.rank (c : Session) : Nat :=
  c.call.rank + ((c.pump .stdout).rank (c.buf .stdout) + (c.pump .stderr).rank (c.buf .stderr))

theorem rank_pump (pump : Stream → PumpAt) (buf : Stream → Bytes) {p : PumpAt} {b : Bytes}
    (hlt : p.rank b < (pump s).rank (buf s)) :
    ((Function.update pump s p) .stdout).rank ((Function.update buf s b) .stdout) +
        ((Function.update pump s p) .stderr).rank ((Function.update buf s b) .stderr) <
      (pump .stdout).rank (buf .stdout) + (pump .stderr).rank (buf .stderr) := by
  cases s with
  | stdout => simpa using hlt
  | stderr => simpa using hlt

theorem tokens_le_two (c : Session) : c.tokens ≤ 2 := by
  unfold Session.tokens
  split <;> split <;> omega

theorem rank_next (hexit : c.exited.isSome = true) (h : next c x = some c') :
    c'.rank < c.rank := by
  cases next_change h with
  | write hrun _ => rw [hrun] at hexit; cases hexit
  | exit hrun => rw [hrun] at hexit; cases hexit
  | read hpump _ hne =>
    refine Nat.add_lt_add_left (rank_pump c.pump c.buf ?_) _
    have hpos := List.length_pos_iff.mpr hne
    rw [hpump, PumpAt.rank, PumpAt.rank, List.length_drop]
    omega
  | @stop s hpump _ =>
    refine Nat.add_lt_add_left ?_ _
    have hlt := rank_pump c.pump c.buf (s := s) (p := .returned) (b := c.buf s)
      (by rw [hpump]; simp [PumpAt.rank])
    rwa [Function.update_eq_self] at hlt
  | @output s b hpump =>
    refine Nat.add_lt_add_left ?_ _
    have hlt := rank_pump c.pump c.buf (s := s) (p := .reading) (b := c.buf s)
      (by rw [hpump]; simp [PumpAt.rank])
    rwa [Function.update_eq_self] at hlt
  | waited hcall _ => exact Nat.add_lt_add_right (by simp [hcall, CallAt.rank]) _
  | close hcall => exact Nat.add_lt_add_right (by simp [hcall, CallAt.rank]) _
  | closed hcall => exact Nat.add_lt_add_right (by simp [hcall, CallAt.rank]) _
  | token hcall hlt =>
    have htwo := tokens_le_two c
    exact Nat.add_lt_add_right (by rw [hcall, CallAt.rank, CallAt.rank]; omega) _
  | joined hcall => exact Nat.add_lt_add_right (by simp [hcall, CallAt.rank]) _
  | final hcall => exact Nat.add_lt_add_right (by simp [hcall, CallAt.rank]) _

theorem pump_enabled (hexit : c.exited.isSome = true) (hp : c.pump s ≠ .returned) :
    ∃ c', next c (.pump s) = some c' := by
  rw [← Option.isSome_iff_exists, next, pumpStep]
  cases hpump : c.pump s with
  | returned => exact absurd hpump hp
  | sending b => simp
  | reading =>
    by_cases hclosed : c.closed s = true
    · simp [hclosed]
    · by_cases hbuf : c.buf s = []
      · simp [hclosed, hbuf, hexit]
      · simp [hclosed, hbuf]

theorem call_enabled (hI : Staged c) (hexit : c.exited.isSome = true)
    (hpumps : ∀ s, c.pump s = .returned) (hcall : c.call ≠ .returned) :
    ∃ c', next c (.call true) = some c' := by
  have htokens : c.tokens = 2 := by simp [Session.tokens, hpumps]
  rw [← Option.isSome_iff_exists, next, callStep]
  cases hk : c.call with
  | wait => obtain ⟨code, hcode⟩ := Option.isSome_iff_exists.mp hexit; simp [hcode]
  | close left code => cases left <;> simp
  | join n code =>
    have hn := hI.tokens n code hk
    rw [htokens] at hn
    by_cases htwo : n = 2
    · simp [htwo]
    · simp [htwo, htokens, show n < 2 by omega]
  | send code => simp
  | returned => exact absurd hk hcall

theorem exited_next (hexit : c.exited.isSome = true) (h : next c x = some c') :
    c'.exited.isSome = true := by
  cases next_change h with
  | exit _ => rfl
  | _ => exact hexit

theorem returned_call_next (hend : c.call = .returned) (h : next c x = some c') :
    c'.call = .returned := by
  cases x with
  | call waited => simp [next, callStep, hend] at h
  | _ =>
    cases next_change h <;> exact hend

theorem inevitable_returned (hI : Staged c) (hexit : c.exited.isSome = true) :
    Inevitable next (fun _ _ => True) Event.own (fun c => c.call = .returned) c := by
  refine Inevitable.of_rank (I := fun c => Staged c ∧ c.exited.isSome = true) Session.rank ?_ ?_ ?_
    ?_ ⟨hI, hexit⟩
  · exact fun c x c' hJ _ h => ⟨staged_next hJ.1 h, exited_next hJ.2 h⟩
  · exact fun c x c' _ hend _ h => returned_call_next hend h
  · intro c x c' hJ _ _ h
    have hlt := rank_next hJ.2 h
    refine .inr ?_
    split <;> omega
  · rintro c ⟨hI, hexit⟩ hcall
    by_cases hpumps : ∀ s, c.pump s = .returned
    · obtain ⟨c', hc'⟩ := call_enabled hI hexit hpumps hcall
      exact ⟨.call true, c', rfl, trivial, hc'⟩
    · obtain ⟨s, hs⟩ := not_forall.mp hpumps
      obtain ⟨c', hc'⟩ := pump_enabled hexit hs
      exact ⟨.pump s, c', rfl, trivial, hc'⟩

/-- What is sent of a stream is always what the process wrote first. Once the process has exited the
exit code gets sent, and then everything has been sent before it exactly if `cmd.Wait` found each
pipe empty when it closed it. -/
theorem output_delivered (w : List Event) (c : Session)
    (hw : Moves next (fun _ _ => True) .start w c) :
    (∀ s, delivered s c.sent <+: c.written s) ∧
    (c.exited.isSome = true →
      Inevitable next (fun _ _ => True) Event.own (fun c => c.call = .returned) c) ∧
    (c.call = .returned → (c.Delivered ↔ Moves next ClosesEmpty .start w c)) := by
  have hflow : c.Flow := hw.invariant (fun c x c' hI _ h => flow_next hI h) fun _ => rfl
  have hstaged : Staged c := hw.invariant (fun c x c' hI _ h => staged_next hI h) staged_start
  refine ⟨fun s => ?_, inevitable_returned hstaged, fun hend => ?_⟩
  · rw [← hflow s, List.append_assoc]; exact List.prefix_append _ _
  · rw [delivered_iff hflow hstaged hend]
    constructor
    · intro hd
      have halways : Always next Session.Drained .start w := by
        refine hw.always_of_last (I := Staged) ?_ (fun c x c' hI _ h => staged_next hI h)
          staged_start hd
        intro c x c' hI _ h hd s hs
        obtain ⟨hs', hbuf⟩ := closed_next hI h hs
        rw [← hbuf]
        exact hd s hs'
      refine (Moves.of_always (I := fun _ => True) ClosesEmpty ?_ ?_ hw trivial halways).mono ?_
      · exact fun c x c' _ _ h hd => closesEmpty_of_drained h hd
      · exact fun _ _ _ _ _ _ => trivial
      · exact fun _ _ h => h.2
    · intro hok
      have hboth := hok.invariant (I := fun c => Staged c ∧ c.Drained)
        (fun c x c' hI hx h => ⟨staged_next hI.1 h, drained_next hI.1 hI.2 hx h⟩)
        ⟨staged_start, fun s hs => by cases hs⟩
      exact hboth.2

/-- From the exit of the process to the exit code; the pumps find their pipes closed. -/
def finish : List Event :=
  .exit 0 :: List.replicate 4 (.call true) ++ [.pump .stdout, .pump .stderr] ++
    List.replicate 4 (.call true)

/-- The pump reads a byte and sends it before the process exits. -/
theorem output_delivered_early : ∃ w c, Moves next ClosesEmpty .start w c ∧
    c.sent = [.output .stdout [104], .exit 0] := by
  obtain ⟨c, hw, hend, hsent, hout, herr⟩ := Moves.of_any next (fun _ _ => True) .start
    ([.write .stdout [104], .pump .stdout, .pump .stdout] ++ finish)
    (fun c => c.call = .returned ∧ c.sent = [.output .stdout [104], .exit 0] ∧
      c.written .stdout = [104] ∧ c.written .stderr = []) (by decide)
  have hdelivered : c.Delivered := by
    refine ⟨[.output .stdout [104]], 0, hsent, by simp, fun s => ?_⟩
    cases s with
    | stdout => rw [hout]; rfl
    | stderr => rw [herr]; rfl
  exact ⟨_, c, ((output_delivered _ c hw).2.2 hend).mp hdelivered, hsent⟩

/-- The process writes a byte and exits, and `cmd.Wait` closes the pipe before the pump reads. -/
theorem output_lost : ∃ w c, Moves next (fun _ _ => True) .start w c ∧
    c.written .stdout = [104] ∧ c.sent = [.exit 0] ∧ ¬ c.Delivered := by
  obtain ⟨c, hw, hsent, hout⟩ := Moves.of_any next (fun _ _ => True) .start
    (.write .stdout [104] :: finish)
    (fun c => c.sent = [.exit 0] ∧ c.written .stdout = [104]) (by decide)
  refine ⟨_, c, hw, hout, hsent, ?_⟩
  rintro ⟨pre, code, hpre, -, hall⟩
  have hlast : [] ++ [Msg.exit 0] = pre ++ [.exit code] := hsent.symm.trans hpre
  obtain ⟨rfl, -⟩ := List.append_inj' hlast rfl
  cases (hall .stdout).trans hout

end Capsule.Guest.ExecOutput
