import Capsule.Guest.Watched

/-!
# Capsule.Guest.Follow

One `Logs` call in follow mode next to the payload that writes the log and its watcher.

* `Tailing`: what the call has sent and what it has in hand is the log up to where it has read.
* `follow_progress`: the call is always getting to what it has not sent, exactly if the payload
  writes only while the call is not between the end of the file and its next read. A write there
  wakes nobody (`follow_stalls`).
* `Completing`, `follow_complete`: a call that ends because the payload is done has sent the whole
  log, if the payload does not write between the last read and the look at `logDone`
  (`follow_loses_last`).
-/

namespace Capsule.Guest.Payload

open Atomic

/-- A payload that runs and is watched, with some output already in its log. -/
def Machine.started (content : Bytes) : Machine where
  agent := ⟨.running, 0, "", false, true, true, []⟩
  runc := some (.running 0)
  files := [content]
  path := some 0
  starts := fun _ => .idle
  stops := fun _ => .idle
  watchers := [.sleep]
  logs := fun _ => .idle

/-- The steps of the payload, the watcher and one follower. -/
def Follows : Event → Prop
  | .callLogs i follow => i = 0 ∧ follow = true
  | .logs i _ => i = 0
  | .watch _ _ | .write _ | .exit _ => True
  | .callStart _ _ | .callStop _ | .start _ _ | .stop _ _ => False

instance : ∀ x, Decidable (Follows x)
  | .callLogs _ _ => inferInstanceAs (Decidable (_ ∧ _))
  | .logs i _ => inferInstanceAs (Decidable (i = 0))
  | .watch _ _ | .write _ | .exit _ => .isTrue trivial
  | .callStart _ _ | .callStop _ | .start _ _ | .stop _ _ => .isFalse fun h => h

/-- What the call has read and not sent. -/
def LogsAt.pending : LogsAt → Bytes
  | .sending chunk => chunk
  | _ => []

def LogsCall.Failed (l : LogsCall) : Prop := ∃ m, l.pc = .ended (.failed m)

/-- What the call has sent and what it has in hand is the log up to where it has read. -/
structure TailCall (content : Bytes) (l : LogsCall) : Prop where
  follow : l.pc ≠ .idle → l.follow = true
  file : l.file = 0
  off : l.off ≤ content.length
  read : ¬ l.Failed → l.sent.flatten ++ l.pc.pending = content.take l.off

structure Tailing (g : Machine) : Prop where
  path : g.path = some 0
  files : g.files ≠ []
  out : ∀ n, g.runc = some (.running n) → n = 0
  call : TailCall (g.file 0) (g.logs 0)

variable {g g' : Machine} {x : Event} {a : Answer}

theorem tailing_started (content : Bytes) : Tailing (.started content) where
  path := rfl
  files := List.cons_ne_nil _ _
  out n h := by
    cases h; rfl
  call := ⟨fun h => absurd rfl h, rfl, Nat.zero_le _, fun _ => rfl⟩

theorem file_write {files : List Bytes} (h : files ≠ []) (bs : Bytes) :
    (files.modify 0 (· ++ bs)).getD 0 [] = files.getD 0 [] ++ bs := by
  cases files with
  | nil => exact absurd rfl h
  | cons f fs => rfl

theorem TailCall.write {content : Bytes} {l : LogsCall} (h : TailCall content l) (bs : Bytes) :
    TailCall (content ++ bs) l where
  follow := h.follow
  file := h.file
  off := by
    rw [List.length_append]; exact Nat.le_add_right_of_le h.off
  read hfine := by rw [List.take_append_of_le_length h.off, h.read hfine]

theorem TailCall.move {content : Bytes} {l : LogsCall} {pc : LogsAt} (h : TailCall content l)
    (hidle : l.pc ≠ .idle) (hfine : ¬ l.Failed) (hpc : l.pc.pending = []) (hpc' : pc.pending = []) :
    TailCall content { l with pc := pc } where
  follow _ := h.follow hidle
  file := h.file
  off := h.off
  read _ := by
    have hread := h.read hfine
    rw [hpc] at hread
    rw [hpc', hread]

theorem TailCall.wake {content : Bytes} {l : LogsCall} (h : TailCall content l) :
    TailCall content l.wake := by
  unfold LogsCall.wake
  split
  · rename_i hpc
    exact h.move (by simp [hpc]) (by simp [LogsCall.Failed, hpc]) (by rw [hpc]; rfl) rfl
  · exact h

theorem wake_of_ne {l : LogsCall} (h : l.wake.pc ≠ .woken) : l.wake = l := by
  unfold LogsCall.wake at h ⊢
  split at h
  · exact absurd rfl h
  · rename_i hpc; rw [if_neg hpc]

theorem TailCall.step {l l' : LogsCall} (hpath : g.path = some 0) (h : TailCall (g.file 0) l)
    (hl : logsStep g l a = some l') : TailCall (g.file 0) l' := by
  cases logsStep_change hl with
  | missing _ hnone => cases hpath.symm.trans hnone
  | opened hpc hn =>
    cases hpath.symm.trans hn
    have hmove : TailCall (g.file 0) { l with pc := .reading } :=
      h.move (by simp [hpc]) (by simp [LogsCall.Failed, hpc]) (by rw [hpc]; rfl) rfl
    exact ⟨hmove.follow, rfl, hmove.off, hmove.read⟩
  | eof hpc _ =>
    refine h.move (by simp [hpc]) (by simp [LogsCall.Failed, hpc]) (by rw [hpc]; rfl) ?_
    cases l.follow <;> rfl
  | chunk hpc _ =>
    have hread := h.read (by simp [LogsCall.Failed, hpc])
    have hlen : (g.chunk l).length ≤ (g.file 0).length - l.off := by
      rw [Machine.chunk, h.file, List.length_take, List.length_drop]; omega
    have hoff := h.off
    refine ⟨fun _ => h.follow (by simp [hpc]), h.file, by dsimp only; omega, fun _ => ?_⟩
    have htake : ((g.file 0).drop l.off).take (g.chunk l).length = g.chunk l := by
      rw [Machine.chunk, h.file, List.take_eq_take_iff, List.length_take]; omega
    simp only [hpc, LogsAt.pending, List.append_nil] at hread
    simp only [LogsAt.pending, hread, List.take_add, htake]
  | sent hpc =>
    refine ⟨fun _ => h.follow (by simp [hpc]), h.file, h.off, fun _ => ?_⟩
    have hread := h.read (by simp [LogsCall.Failed, hpc])
    rw [hpc] at hread
    simpa [LogsAt.pending] using hread
  | done hpc _ =>
    exact h.move (by simp [hpc]) (by simp [LogsCall.Failed, hpc]) (by rw [hpc]; rfl) rfl
  | park hpc _ =>
    exact h.move (by simp [hpc]) (by simp [LogsCall.Failed, hpc]) (by rw [hpc]; rfl) rfl
  | resume hpc =>
    exact h.move (by simp [hpc]) (by simp [LogsCall.Failed, hpc]) (by rw [hpc]; rfl) rfl
  | @fail m hpc =>
    refine ⟨fun _ => h.follow ?_, h.file, h.off, fun hfine => absurd ⟨m, rfl⟩ hfine⟩
    rcases hpc with hpc | hpc | ⟨c, hpc⟩ <;> simp [hpc]

theorem tailing_next (hI : Tailing g) (hx : Follows x) (h : next g x = some g') : Tailing g' := by
  cases x with
  | callLogs i follow =>
    obtain ⟨rfl, rfl⟩ := hx
    rw [next] at h
    split at h <;> cases h
    refine ⟨hI.path, hI.files, hI.out, ?_⟩
    rw [setLogs_self]
    exact ⟨fun _ => rfl, rfl, Nat.zero_le _, fun _ => rfl⟩
  | logs i a =>
    cases hx
    obtain ⟨l, hl, rfl⟩ := Option.map_eq_some_iff.mp h
    refine ⟨hI.path, hI.files, hI.out, ?_⟩
    rw [setLogs_self]
    exact hI.call.step hI.path hl
  | watch k a =>
    cases next_change h with
    | record _ => exact ⟨hI.path, hI.files, hI.out, hI.call.wake⟩
    | watch _ _ _ _ => exact ⟨hI.path, hI.files, hI.out, hI.call⟩
    | other _ _ _ hfeeds => cases hfeeds 0
  | write bs =>
    rw [next] at h
    split at h
    · rename_i out hr
      split at h <;> cases h
      cases hI.out out hr
      refine ⟨hI.path, ?_, hI.out, ?_⟩
      · intro hnil
        have hlen := congrArg List.length hnil
        rw [List.length_modify, List.length_nil, List.length_eq_zero_iff] at hlen
        exact hI.files hlen
      · rw [Machine.file, file_write hI.files]; exact hI.call.write bs
    · cases h
  | exit code =>
    rw [next] at h
    split at h <;> cases h
    exact ⟨hI.path, hI.files, fun n hn => (by cases hn), hI.call⟩
  | _ => exact absurd hx id

/-- The log holds bytes that the call has not sent. -/
def Machine.Unsent (g : Machine) : Prop := (g.logs 0).sent.flatten.length < (g.file 0).length

/-- The call's own steps, with a client that takes what it is sent, get another chunk sent. -/
def Machine.CanSend (g : Machine) : Prop :=
  ∃ w g', Moves next (fun _ x => x = .logs 0 .ok) g w g' ∧
    (g.logs 0).sent.length < (g'.logs 0).sent.length

/-- The call under way is getting to what it has not sent. -/
def Machine.Progress (g : Machine) : Prop :=
  g.Called 0 → ¬ (g.logs 0).over → g.Unsent → g.CanSend

/-- The client is connected: what is sent to it arrives. -/
def Connected (g : Machine) : Event → Prop
  | .logs i (.fail _) => (g.logs i).pc.pending = []
  | _ => True

/-- The payload writes while the call is not between the end of the file and its next read. -/
def WriteSeen (g : Machine) : Event → Prop
  | .write _ => (g.logs 0).pc ≠ .looking ∧ (g.logs 0).pc ≠ .parked
  | _ => True

/-- The call has seen the end of the file and not come back to it. -/
def LogsAt.resting : LogsAt → Bool
  | .looking | .parked => true
  | _ => false

theorem canSend_step {l : LogsCall} (hl : logsStep g (g.logs 0) .ok = some l)
    (hsent : l.sent = (g.logs 0).sent) (h : (g.setLogs 0 l).CanSend) : g.CanSend := by
  obtain ⟨w, g', hw, hlt⟩ := h
  refine ⟨.logs 0 .ok :: w, g', .cons rfl ?_ hw, ?_⟩
  · rw [next, hl]; rfl
  · rw [setLogs_self, hsent] at hlt; exact hlt

theorem canSend_sending {c : Bytes} (hpc : (g.logs 0).pc = .sending c) : g.CanSend := by
  have hl : logsStep g (g.logs 0) .ok =
      some { g.logs 0 with pc := .reading, sent := (g.logs 0).sent ++ [c] } := by
    simp [logsStep, hpc]
  exact ⟨_, _, .single rfl (by rw [next, hl]; rfl), by simp⟩

theorem canSend_reading (hpc : (g.logs 0).pc = .reading) (hne : g.chunk (g.logs 0) ≠ []) :
    g.CanSend := by
  have hl : logsStep g (g.logs 0) .ok = some { g.logs 0 with
      pc := .sending (g.chunk (g.logs 0))
      off := (g.logs 0).off + (g.chunk (g.logs 0)).length } := by
    simp [logsStep, hpc, hne]
  exact canSend_step hl rfl (canSend_sending (c := g.chunk (g.logs 0)) (by rw [setLogs_self]))

theorem chunk_ne_nil {l : LogsCall} (hfile : l.file = 0) (hlt : l.off < (g.file 0).length) :
    g.chunk l ≠ [] := by
  intro hnil
  have hlen := congrArg List.length hnil
  rw [Machine.chunk, hfile, List.length_take, List.length_drop, List.length_nil] at hlen
  omega

theorem TailCall.length_sent {content : Bytes} {l : LogsCall} (h : TailCall content l)
    (hfine : ¬ l.Failed) (hpc : l.pc.pending = []) : l.sent.flatten.length = l.off := by
  have hread := h.read hfine
  rw [hpc, List.append_nil] at hread
  rw [hread, List.length_take, Nat.min_eq_left h.off]

/-- At the end of the file the call has everything. -/
def Machine.AtEnd (g : Machine) : Prop :=
  (g.logs 0).pc.resting = true → (g.logs 0).off = (g.file 0).length

theorem progress_of_atEnd (hI : Tailing g) (hend : g.AtEnd) : g.Progress := by
  intro hcall hover hunsent
  have hfine : ¬ (g.logs 0).Failed := fun ⟨m, hm⟩ => hover ⟨_, hm⟩
  have hfile := hI.call.file
  have hlt (hpc : (g.logs 0).pc.pending = []) : (g.logs 0).off < (g.file 0).length := by
    rw [← hI.call.length_sent hfine hpc]; exact hunsent
  cases hpc : (g.logs 0).pc with
  | idle => exact absurd hpc hcall
  | ended e => exact absurd ⟨e, hpc⟩ hover
  | sending c => exact canSend_sending hpc
  | reading => exact canSend_reading hpc (chunk_ne_nil hfile (hlt (by rw [hpc]; rfl)))
  | opening =>
    have hl : logsStep g (g.logs 0) .ok = some { g.logs 0 with pc := .reading, file := 0 } := by
      simp [logsStep, hpc, hI.path]
    refine canSend_step hl rfl (canSend_reading (by rw [setLogs_self]) ?_)
    rw [setLogs_self]
    exact chunk_ne_nil rfl (hlt (by rw [hpc]; rfl))
  | woken =>
    have hl : logsStep g (g.logs 0) .ok = some { g.logs 0 with pc := .reading } := by
      simp [logsStep, hpc]
    refine canSend_step hl rfl (canSend_reading (by rw [setLogs_self]) ?_)
    rw [setLogs_self]
    exact chunk_ne_nil hfile (hlt (by rw [hpc]; rfl))
  | looking =>
    have := hlt (by rw [hpc]; rfl)
    have := hend (by rw [hpc]; rfl)
    omega
  | parked =>
    have := hlt (by rw [hpc]; rfl)
    have := hend (by rw [hpc]; rfl)
    omega

theorem not_canSend_resting (hpc : (g.logs 0).pc.resting = true) : ¬ g.CanSend := by
  rintro ⟨w, g', hw, hlt⟩
  have hstays := hw.invariant
    (I := fun h => ((h.logs 0).pc.resting = true ∨ (h.logs 0).over) ∧
      (h.logs 0).sent = (g.logs 0).sent) ?_ ⟨.inl hpc, rfl⟩
  · rw [hstays.2] at hlt; exact Nat.lt_irrefl _ hlt
  · rintro h x h' ⟨hrest, hsent⟩ rfl hnext
    obtain ⟨l, hl, rfl⟩ := Option.map_eq_some_iff.mp hnext
    rw [setLogs_self]
    rcases hrest with hrest | ⟨e, he⟩
    · cases hpc : (h.logs 0).pc with
      | looking =>
        simp only [logsStep, hpc, Option.some.injEq] at hl
        subst hl
        refine ⟨?_, hsent⟩
        split
        · exact .inr ⟨_, rfl⟩
        · exact .inl rfl
      | parked => simp [logsStep, hpc] at hl
      | _ => simp [LogsAt.resting, hpc] at hrest
    · simp [logsStep, he] at hl

theorem unsent_write {bs : Bytes} (hI : Tailing g) (hrest : (g.logs 0).pc.resting = true)
    (h : next g (.write bs) = some g') : g'.Unsent ∧ g'.logs = g.logs := by
  rw [next] at h
  split at h
  · rename_i out hr
    split at h <;> cases h
    rename_i hne
    cases hI.out out hr
    refine ⟨?_, rfl⟩
    have hfine : ¬ (g.logs 0).Failed := by
      rintro ⟨m, hm⟩; simp [hm, LogsAt.resting] at hrest
    have hpend : (g.logs 0).pc.pending = [] := by
      cases hpc : (g.logs 0).pc <;> simp [hpc, LogsAt.resting] at hrest <;> rfl
    have hsent := hI.call.length_sent hfine hpend
    have hoff := hI.call.off
    have hpos := List.length_pos_iff.mpr hne
    unfold Machine.Unsent
    rw [Machine.file, file_write hI.files, List.length_append, hsent]
    change (g.logs 0).off < (g.file 0).length + bs.length
    omega
  · cases h

theorem atEnd_next (hI : Tailing g) (hend : g.AtEnd) (hx : Follows x) (hseen : WriteSeen g x)
    (h : next g x = some g') : g'.AtEnd := by
  cases x with
  | callLogs i follow =>
    obtain ⟨rfl, rfl⟩ := hx
    rw [next] at h
    split at h <;> cases h
    intro hrest
    rw [setLogs_self] at hrest
    cases hrest
  | logs i a =>
    cases hx
    obtain ⟨l, hl, rfl⟩ := Option.map_eq_some_iff.mp h
    intro hrest
    rw [setLogs_self] at hrest ⊢
    cases logsStep_change hl with
    | eof hpc hnil =>
      have hoff := hI.call.off
      have hlen := congrArg List.length hnil
      rw [Machine.chunk, hI.call.file, List.length_take, List.length_drop, List.length_nil] at hlen
      change (g.logs 0).off = (g.file 0).length
      omega
    | park hpc _ => exact hend (by rw [hpc]; rfl)
    | _ => cases hrest
  | watch k a =>
    cases next_change h with
    | record _ =>
      intro hrest
      change (g.logs 0).wake.pc.resting = true at hrest
      have hsame := wake_of_ne (l := g.logs 0) (by intro h; rw [h] at hrest; cases hrest)
      change (g.logs 0).wake.off = (g.file 0).length
      rw [hsame] at hrest ⊢
      exact hend hrest
    | watch _ _ _ _ => exact hend
    | other _ _ _ hfeeds => cases hfeeds 0
  | write bs =>
    intro hrest
    rw [next] at h
    split at h
    · split at h <;> cases h
      exfalso
      change (g.logs 0).pc.resting = true at hrest
      cases hpc : (g.logs 0).pc <;> simp [hpc, LogsAt.resting] at hrest
      · exact hseen.1 hpc
      · exact hseen.2 hpc
    · cases h
  | exit code =>
    rw [next] at h
    split at h <;> cases h
    exact hend
  | _ => exact absurd hx id

/-- In every run, the call is always getting to what it has not sent, exactly if the payload writes
only while the call is not between the end of the file and its next read. -/
theorem follow_progress (content : Bytes) (w : List Event) (g : Machine)
    (hw : Moves next (fun g x => Follows x ∧ Connected g x) (.started content) w g) :
    Always next Machine.Progress (.started content) w ↔
      Moves next (fun g x => (Follows x ∧ Connected g x) ∧ WriteSeen g x) (.started content) w
        g := by
  constructor
  · intro halways
    refine Moves.of_always (I := Tailing) WriteSeen ?_ ?_ hw (tailing_started content) halways
    · intro g x g' hI hok h hP
      cases x with
      | write bs =>
        by_contra hlost
        have hrest : (g.logs 0).pc.resting = true := by
          cases hpc : (g.logs 0).pc <;> simp [WriteSeen, hpc] at hlost <;> rfl
        obtain ⟨hunsent, hlogs⟩ := unsent_write hI hrest h
        have hplace : (g'.logs 0).pc = (g.logs 0).pc := by rw [hlogs]
        refine not_canSend_resting (g := g') (by rw [hplace]; exact hrest) (hP ?_ ?_ hunsent)
        · intro hidle; rw [hplace] at hidle; simp [hidle, LogsAt.resting] at hrest
        · rintro ⟨e, he⟩; rw [hplace] at he; simp [he, LogsAt.resting] at hrest
      | _ => trivial
    · exact fun g x g' hI hok h => tailing_next hI hok.1 h
  · intro hseen
    refine hseen.always (I := fun g => Tailing g ∧ g.AtEnd) ?_ ?_ ⟨tailing_started content, ?_⟩
    · exact fun g x g' hI hok h =>
        ⟨tailing_next hI.1 hok.1.1 h, atEnd_next hI.1 hI.2 hok.1.1 hok.2 h⟩
    · exact fun g hI => progress_of_atEnd hI.1 hI.2
    · exact fun h => by cases h

instance (g : Machine) : ∀ x, Decidable (Connected g x)
  | .logs i (.fail _) => inferInstanceAs (Decidable ((g.logs i).pc.pending = []))
  | .logs _ .ok | .logs _ (.status _ _) | .logs _ .late | .callStart _ _ | .callStop _
  | .callLogs _ _ | .start _ _ | .stop _ _ | .watch _ _ | .write _ | .exit _ => .isTrue trivial

instance (g : Machine) : ∀ x, Decidable (WriteSeen g x)
  | .write _ => inferInstanceAs (Decidable (_ ∧ _))
  | .callStart _ _ | .callStop _ | .callLogs _ _ | .start _ _ | .stop _ _ | .watch _ _ | .logs _ _
  | .exit _ => .isTrue trivial

/-- A byte written before the call has come to the end of the file. -/
theorem follow_progress_early : ∃ w, w ≠ [] ∧ Always next Machine.Progress (.started []) w := by
  obtain ⟨g, hw, -⟩ := Moves.of_any next (fun g x => (Follows x ∧ Connected g x) ∧ WriteSeen g x)
    (.started []) [.callLogs 0 true, .logs 0 .ok, .write [104], .logs 0 .ok, .logs 0 .ok]
    (fun _ => True) (by decide)
  exact ⟨_, by simp, (follow_progress [] _ g (hw.mono fun _ _ h => h.1)).mpr hw⟩

/-- A byte written while the call waits at the end of the file: the payload runs on, and the call
has no step. -/
theorem follow_stalls : ∃ w g,
    Moves next (fun g x => Follows x ∧ Connected g x) (.started []) w g ∧ g.live = true ∧
      (g.logs 0).pc = .parked ∧ g.Unsent ∧ ¬ g.Progress := by
  obtain ⟨g, hw, hlive, hpc, hunsent⟩ := Moves.of_any next (fun g x => Follows x ∧ Connected g x)
    (.started []) [.callLogs 0 true, .logs 0 .ok, .logs 0 .ok, .logs 0 .ok, .write [104]]
    (fun g => g.live = true ∧ (g.logs 0).pc = .parked ∧
      (g.logs 0).sent.flatten.length < (g.file 0).length) (by decide)
  refine ⟨_, g, hw, hlive, hpc, hunsent, fun hP => ?_⟩
  refine not_canSend_resting (by rw [hpc]; rfl) (hP (by simp [Machine.Called, hpc]) ?_ hunsent)
  rintro ⟨e, he⟩
  cases hpc.symm.trans he

/-! ## Completeness -/

/-- `runc state` finds the payload gone only after it has exited. -/
def RecordsExit (g : Machine) : Event → Prop
  | .watch _ (.fail _) | .watch _ (.status (.other _) _) => g.live = false
  | _ => True

/-- The payload does not write between the call's end of file and its look at `logDone`. -/
def NoLateWrite (g : Machine) : Event → Prop
  | .write _ => (g.logs 0).pc ≠ .looking
  | _ => True

/-- What is known on the way to a complete log. -/
structure Completing (g : Machine) : Prop where
  tail : Tailing g
  records : ∀ v, .record v ∈ g.watchers → g.live = false
  logDone : g.agent.logDone = true → g.live = false
  looking : (g.logs 0).pc = .looking → (g.logs 0).off = (g.file 0).length
  done : (g.logs 0).pc = .ended .done → g.live = false ∧ (g.logs 0).off = (g.file 0).length

theorem live_of_reports {st : Status} (h : reports g.runc st = true) (hst : st = .stopped) :
    g.live = false := by
  subst hst
  unfold Machine.live
  cases hr : g.runc with
  | none => rfl
  | some k =>
    cases k with
    | stopped code => rfl
    | running out => rw [hr] at h; cases h

theorem record_exited {p : WatchAt} {v : Verdict} {k : Nat}
    (h : watchStep g p a = some (g', .record v)) (hok : RecordsExit g (.watch k a)) :
    g.live = false := by
  unfold watchStep at h
  split at h
  · cases h
  · exact hok
  · rename_i st code
    split at h
    · rename_i hrep
      cases st with
      | stopped => exact live_of_reports hrep rfl
      | other t => exact hok
      | _ => cases h
    · cases h
  · cases h
  · cases h

theorem completing_logs {l : LogsCall} (hI : Completing g)
    (hl : logsStep g (g.logs 0) a = some l) : Completing (g.setLogs 0 l) := by
  refine ⟨tailing_next hI.tail (x := .logs 0 a) rfl (by rw [next, hl]; rfl), hI.records, hI.logDone,
    ?_, ?_⟩
  · intro hpc
    rw [setLogs_self] at hpc ⊢
    cases logsStep_change hl with
    | eof _ hnil =>
      have hoff := hI.tail.call.off
      have hlen := congrArg List.length hnil
      rw [Machine.chunk, hI.tail.call.file, List.length_take, List.length_drop,
        List.length_nil] at hlen
      change (g.logs 0).off = (g.file 0).length
      omega
    | _ => cases hpc
  · intro hpc
    rw [setLogs_self] at hpc ⊢
    cases logsStep_change hl with
    | done hlook hdone => exact ⟨hI.logDone hdone, hI.looking hlook⟩
    | eof hread _ =>
      have hfollow := hI.tail.call.follow (by simp [hread])
      rw [hfollow] at hpc
      cases hpc
    | _ => cases hpc

theorem completing_watch {k : Nat} (hI : Completing g) (hrec : RecordsExit g (.watch k a))
    (h : next g (.watch k a) = some g') : Completing g' := by
  have htail := tailing_next (x := .watch k a) hI.tail trivial h
  obtain ⟨p, hp, hmap⟩ := Option.bind_eq_some_iff.mp h
  obtain ⟨⟨g₁, p'⟩, hstep, rfl⟩ := Option.map_eq_some_iff.mp hmap
  rcases watchStep_cases hstep with ⟨v, rfl, rfl, rfl, rfl⟩ | ⟨rfl, -, -, -⟩
  · have hexit := hI.records v (List.mem_of_getElem? hp)
    refine ⟨htail, fun _ _ => hexit, fun _ => hexit, fun hpc => ?_, fun hpc => ?_⟩
    · change (g.logs 0).wake.pc = .looking at hpc
      have hsame := wake_of_ne (l := g.logs 0) (by simp [hpc])
      change (g.logs 0).wake.off = (g.file 0).length
      rw [hsame] at hpc ⊢
      exact hI.looking hpc
    · change (g.logs 0).wake.pc = .ended .done at hpc
      have hsame := wake_of_ne (l := g.logs 0) (by simp [hpc])
      refine ⟨hexit, ?_⟩
      change (g.logs 0).wake.off = (g.file 0).length
      rw [hsame] at hpc ⊢
      exact (hI.done hpc).2
  · refine ⟨htail, fun v hv => ?_, hI.logDone, hI.looking, hI.done⟩
    rcases List.mem_or_eq_of_mem_set hv with hmem | rfl
    · exact hI.records v hmem
    · exact show g₁.live = false from record_exited hstep hrec

theorem completing_next (hI : Completing g) (hx : Follows x) (hrec : RecordsExit g x)
    (hlate : NoLateWrite g x) (h : next g x = some g') : Completing g' := by
  have htail := tailing_next hI.tail hx h
  cases x with
  | callLogs i follow =>
    obtain ⟨rfl, rfl⟩ := hx
    rw [next] at h
    split at h <;> cases h
    refine ⟨htail, hI.records, hI.logDone, fun hpc => ?_, fun hpc => ?_⟩
    · rw [setLogs_self] at hpc; cases hpc
    · rw [setLogs_self] at hpc; cases hpc
  | logs i a =>
    cases hx
    obtain ⟨l, hl, rfl⟩ := Option.map_eq_some_iff.mp h
    exact completing_logs hI hl
  | watch k a => exact completing_watch hI hrec h
  | write bs =>
    rw [next] at h
    split at h
    · rename_i out hr
      split at h <;> cases h
      have hlive : g.live = true := by rw [Machine.live, hr]
      -- nothing is written after the exit, nor while the call looks at `logDone`
      refine ⟨htail, hI.records, hI.logDone, fun hpc => absurd hpc hlate, fun hpc => ?_⟩
      cases hlive.symm.trans (hI.done hpc).1
    · cases h
  | exit code =>
    rw [next] at h
    split at h <;> cases h
    exact ⟨htail, fun _ _ => rfl, fun _ => rfl, hI.looking, fun hpc => ⟨rfl, (hI.done hpc).2⟩⟩
  | _ => exact absurd hx id

theorem completing_started (content : Bytes) : Completing (.started content) where
  tail := tailing_started content
  records v hv := by simp [Machine.started] at hv
  logDone h := by cases h
  looking h := by cases h
  done h := by cases h

/-- A call that has ended because the payload is done has sent the whole log, if the payload does
not write between the call's end of file and its look at `logDone`. The payload has exited, so the
log is final. -/
theorem follow_complete (content : Bytes) (w : List Event) (g : Machine)
    (hw : Moves next (fun g x => (Follows x ∧ RecordsExit g x) ∧ NoLateWrite g x) (.started content)
      w g) (hdone : (g.logs 0).pc = .ended .done) :
    g.live = false ∧ (g.logs 0).sent.flatten = g.file 0 := by
  have hI := hw.invariant (fun g x g' hI hok h => completing_next hI hok.1.1 hok.1.2 hok.2 h)
    (completing_started content)
  obtain ⟨hexit, hoff⟩ := hI.done hdone
  refine ⟨hexit, ?_⟩
  have hread := hI.tail.call.read (by simp [LogsCall.Failed, hdone])
  simpa [hdone, hoff, LogsAt.pending] using hread

instance (g : Machine) : ∀ x, Decidable (RecordsExit g x)
  | .watch _ (.fail _) | .watch _ (.status (.other _) _) =>
    inferInstanceAs (Decidable (g.live = false))
  | .watch _ .ok | .watch _ .late | .watch _ (.status .running _) | .watch _ (.status .created _)
  | .watch _ (.status .paused _) | .watch _ (.status .stopped _) | .callStart _ _ | .callStop _
  | .callLogs _ _ | .start _ _ | .stop _ _ | .logs _ _ | .write _ | .exit _ => .isTrue trivial

instance (g : Machine) : ∀ x, Decidable (NoLateWrite g x)
  | .write _ => inferInstanceAs (Decidable (_ ≠ _))
  | .callStart _ _ | .callStop _ | .callLogs _ _ | .start _ _ | .stop _ _ | .watch _ _ | .logs _ _
  | .exit _ => .isTrue trivial

/-- The payload writes while the call waits, and exits. -/
theorem follow_complete_parked : ∃ w g,
    Moves next (fun g x => (Follows x ∧ RecordsExit g x) ∧ NoLateWrite g x) (.started [104]) w g ∧
      (g.logs 0).sent.flatten = g.file 0 ∧ g.file 0 = [104, 105] := by
  obtain ⟨g, hw, hdone, hfile⟩ := Moves.of_any next
    (fun g x => (Follows x ∧ RecordsExit g x) ∧ NoLateWrite g x) (.started [104])
    ([.callLogs 0 true, .logs 0 .ok, .logs 0 .ok, .logs 0 .ok, .logs 0 .ok, .logs 0 .ok,
      .write [105]] ++ exitRecorded ++ List.replicate 5 (.logs 0 .ok))
    (fun g => (g.logs 0).pc = .ended .done ∧ g.file 0 = [104, 105]) (by decide)
  exact ⟨_, g, hw, (follow_complete _ _ g hw hdone).2, hfile⟩

/-- The payload writes its last byte after the call's last read and exits before the call looks at
`logDone`. -/
theorem follow_loses_last : ∃ w g,
    Moves next (fun g x => Follows x ∧ RecordsExit g x) (.started []) w g ∧
      (g.logs 0).pc = .ended .done ∧ g.live = false ∧ (g.logs 0).sent = [] ∧
      g.file 0 = [104] := by
  obtain ⟨g, hw, hdone⟩ := Moves.of_any next (fun g x => Follows x ∧ RecordsExit g x) (.started [])
    ([.callLogs 0 true, .logs 0 .ok, .logs 0 .ok, .write [104]] ++ exitRecorded ++ [.logs 0 .ok])
    (fun g => (g.logs 0).pc = .ended .done ∧ g.live = false ∧ (g.logs 0).sent = [] ∧
      g.file 0 = [104]) (by decide)
  exact ⟨_, g, hw, hdone⟩

end Capsule.Guest.Payload
