import Mathlib.Algebra.Order.BigOperators.Group.List
import Mathlib.Data.List.GetD
import Capsule.Guest.Payload

/-!
# Capsule.Guest.Watched

Whether somebody watches a payload that the agent calls running, over all runs of the guest agent.

* `Change`, `next_change`: what one event can do to the machine, said once.
* `runningWatched_next`: a running payload stays watched over every step that meets `StillWatched`.
* `inevitable_recorded`, `inevitable_over`: the exit of a payload gets recorded, and its log
  followers end.
* `running_watched`: every running payload is watched exactly if no `StartPayload` finishes while
  `watching` is set and the watcher is gone.
-/

namespace Capsule.Guest.Payload

open Atomic

def Machine.Watched (g : Machine) : Prop := ∃ p ∈ g.watchers, p ≠ .returned

instance (g : Machine) : Decidable g.Watched :=
  inferInstanceAs (Decidable (∃ p ∈ g.watchers, p ≠ .returned))

def Machine.live (g : Machine) : Bool :=
  match g.runc with
  | some (.running _) => true
  | _ => false

def Machine.bytes (g : Machine) : Nat := (g.files.map List.length).sum

def WatchAt.rank : WatchAt → Nat
  | .sleep => 3
  | .poll => 2
  | .record _ => 1
  | .returned => 0

/-- The steps that start a payload or declare one started. -/
def StartAt.late : StartAt → Bool
  | .run _ | .publish => true
  | _ => false

def Restarts (g : Machine) : Event → Bool
  | .start i _ => (g.starts i).late
  | _ => false

def Event.isWatch : Event → Bool
  | .watch _ _ => true
  | _ => false

/-- The steps that the `Logs` call `i` needs: its own and those of the watchers. -/
def Event.feeds (i : Nat) : Event → Bool
  | .watch _ _ => true
  | .logs j _ => j = i
  | _ => false

/-- What the steps of `Stop`, and all but the last of `StartPayload`, leave alone. -/
structure Frame (g g' : Machine) : Prop where
  phase : g'.agent.phase = g.agent.phase
  logDone : g'.agent.logDone = g.agent.logDone
  watchers : g'.watchers = g.watchers
  logs : g'.logs = g.logs

/-- No payload is started and nothing is written. -/
structure Quiet (g g' : Machine) : Prop where
  live : g'.live = false
  bytes : g'.bytes = g.bytes
  file : ∀ n, g'.file n = g.file n

variable {g g' : Machine} {a : Answer} {x : Event}

theorem Frame.refl (g : Machine) : Frame g g := ⟨rfl, rfl, rfl, rfl⟩

theorem Quiet.of_eq (hlive : g'.live = false) (hfiles : g'.files = g.files) : Quiet g g' :=
  ⟨hlive, by rw [Machine.bytes, hfiles, Machine.bytes],
    fun n => by rw [Machine.file, hfiles, Machine.file]⟩

theorem file_concat_nil (files : List Bytes) (n : Nat) :
    (files ++ [[]]).getD n [] = files.getD n [] := by
  rcases Nat.lt_or_ge n files.length with h | h
  · rw [List.getD_append _ _ _ _ h]
  · rw [List.getD_append_right _ _ _ _ h, List.getD_eq_default files _ h]
    cases n - files.length <;> rfl

theorem startStep_cases {p p' : StartAt} (h : startStep g p a = some (g', p')) :
    (p = .publish ∧ a = .ok ∧ g' = g.publish) ∨
      p ≠ .publish ∧ Frame g g' ∧ (p.late = false → g.live = false → Quiet g g') := by
  unfold startStep at h
  split at h
  case h_14 =>
    cases h
    refine .inr ⟨by simp, ⟨rfl, rfl, rfl, rfl⟩, fun _ hl => ⟨hl, ?_, file_concat_nil g.files⟩⟩
    simp [Machine.bytes]
  case h_20 =>
    split at h
    · cases h; exact .inr ⟨by simp, ⟨rfl, rfl, rfl, rfl⟩, fun hlate _ => by cases hlate⟩
    · cases h
  all_goals cases h
  all_goals first
    | exact .inl ⟨rfl, rfl, rfl⟩
    | exact .inr ⟨by simp, ⟨rfl, rfl, rfl, rfl⟩, fun _ hl => Quiet.of_eq hl rfl⟩
    | exact .inr ⟨by simp, ⟨rfl, rfl, rfl, rfl⟩, fun _ _ => Quiet.of_eq rfl rfl⟩

theorem stopStep_frame {p p' : StopAt} (h : stopStep g p a = some (g', p')) :
    Frame g g' ∧ (g.live = false → Quiet g g') := by
  unfold stopStep at h
  split at h
  case h_6 =>
    split at h
    · cases h; exact ⟨Frame.refl g, fun hl => Quiet.of_eq hl rfl⟩
    · cases h
  all_goals cases h
  all_goals first
    | exact ⟨⟨rfl, rfl, rfl, rfl⟩, fun hl => Quiet.of_eq hl rfl⟩
    | exact ⟨⟨rfl, rfl, rfl, rfl⟩, fun _ => Quiet.of_eq rfl rfl⟩

theorem rank_watchStatus {st : Status} (h : reports g.runc st = true) (hl : g.live = false)
    (code : Option Int) : (watchStatus code st).rank = 1 := by
  unfold Machine.live at hl
  cases hr : g.runc with
  | none => rw [hr] at h; cases h
  | some k =>
    rw [hr] at h hl
    cases k with
    | running out => cases hl
    | stopped code' => cases st <;> first | rfl | cases h

theorem watchStep_cases {p p' : WatchAt} (h : watchStep g p a = some (g', p')) :
    (∃ v, p = .record v ∧ a = .ok ∧ g' = g.record v ∧ p' = .returned) ∨
      g' = g ∧ p ≠ .returned ∧ p' ≠ .returned ∧ (g.live = false → p'.rank < p.rank) := by
  unfold watchStep at h
  split at h
  · cases h; exact .inr ⟨rfl, by simp, by simp, fun _ => by decide⟩
  · cases h; exact .inr ⟨rfl, by simp, by simp, fun _ => by simp [WatchAt.rank]⟩
  · split at h
    · rename_i st code hrep
      cases h
      refine .inr ⟨rfl, by simp, ?_, fun hl => ?_⟩
      · cases st <;> simp [watchStatus]
      · rw [rank_watchStatus hrep hl]; decide
    · cases h
  · rename_i v; cases h; exact .inl ⟨v, rfl, rfl, rfl, rfl⟩
  · cases h

inductive Change (g : Machine) : Event → Machine → Prop where
  /-- A payload is declared running. -/
  | publish {i : Nat} {f : Nat → StartAt} : g.starts i = .publish →
      Change g (.start i .ok) { g.publish with starts := f }
  | record {k : Nat} {v : Verdict} : g.watchers[k]? = some (.record v) →
      Change g (.watch k .ok) { g.record v with watchers := g.watchers.set k .returned }
  | watch {k : Nat} {a : Answer} {p p' : WatchAt} : g.watchers[k]? = some p → p ≠ .returned →
      p' ≠ .returned → (g.live = false → p'.rank < p.rank) →
      Change g (.watch k a) { g with watchers := g.watchers.set k p' }
  | callLogs {i : Nat} {follow : Bool} : (g.logs i).pc = .idle →
      Change g (.callLogs i follow) (g.setLogs i ⟨.opening, follow, 0, 0, []⟩)
  | logs {i : Nat} {a : Answer} {l : LogsCall} : logsStep g (g.logs i) a = some l →
      Change g (.logs i a) (g.setLogs i l)
  | other {x : Event} {g' : Machine} : Frame g g' →
      (Restarts g x = false → g.live = false → Quiet g g') →
      (∀ i a, x = .start i a → g.starts i ≠ .publish) → (∀ i, x.feeds i = false) →
      Change g x g'

theorem next_change (h : next g x = some g') : Change g x g' := by
  cases x with
  | callStart i req =>
    rw [next] at h
    split at h <;> cases h
    exact .other ⟨rfl, rfl, rfl, rfl⟩ (fun _ hl => Quiet.of_eq hl rfl)
      (fun _ _ hx => by cases hx) fun _ => rfl
  | callStop i =>
    rw [next] at h
    split at h <;> cases h
    exact .other ⟨rfl, rfl, rfl, rfl⟩ (fun _ hl => Quiet.of_eq hl rfl)
      (fun _ _ hx => by cases hx) fun _ => rfl
  | callLogs i follow =>
    rw [next] at h
    split at h <;> cases h
    exact .callLogs ‹_›
  | start i a =>
    obtain ⟨⟨g₁, p⟩, hstep, rfl⟩ := Option.map_eq_some_iff.mp h
    rcases startStep_cases hstep with ⟨hp, rfl, rfl⟩ | ⟨hp, hframe, hquiet⟩
    · exact .publish hp
    · refine .other ⟨hframe.1, hframe.2, hframe.3, hframe.4⟩ ?_ ?_ fun _ => rfl
      · intro hlate hl
        have hq := hquiet hlate hl
        exact ⟨hq.1, hq.2, hq.3⟩
      · intro j b hj; cases hj; exact hp
  | stop i a =>
    obtain ⟨⟨g₁, p⟩, hstep, rfl⟩ := Option.map_eq_some_iff.mp h
    obtain ⟨hframe, hquiet⟩ := stopStep_frame hstep
    refine .other ⟨hframe.1, hframe.2, hframe.3, hframe.4⟩ ?_ (fun _ _ hx => by cases hx)
      fun _ => rfl
    intro _ hl
    have hq := hquiet hl
    exact ⟨hq.1, hq.2, hq.3⟩
  | watch k a =>
    obtain ⟨p, hp, hmap⟩ := Option.bind_eq_some_iff.mp h
    obtain ⟨⟨g₁, p'⟩, hstep, rfl⟩ := Option.map_eq_some_iff.mp hmap
    rcases watchStep_cases hstep with ⟨v, rfl, rfl, rfl, rfl⟩ | ⟨rfl, hp', hne, hrank⟩
    · exact .record hp
    · exact .watch hp hp' hne hrank
  | logs i a => obtain ⟨l, hstep, rfl⟩ := Option.map_eq_some_iff.mp h; exact .logs hstep
  | write bs =>
    rw [next] at h
    split at h
    · rename_i out hr
      split at h <;> cases h
      refine .other ⟨rfl, rfl, rfl, rfl⟩ ?_ (fun _ _ hx => by cases hx) fun _ => rfl
      intro _ hl
      simp [Machine.live, hr] at hl
    · cases h
  | exit code =>
    rw [next] at h
    split at h <;> cases h
    exact .other ⟨rfl, rfl, rfl, rfl⟩ (fun _ _ => Quiet.of_eq rfl rfl) (fun _ _ hx => by cases hx)
      fun _ => rfl

/-- A `StartPayload` call that gets to its last critical section finds `watching` unset or a watcher
that is still active. -/
def StillWatched (g : Machine) : Event → Prop
  | .start i _ => g.starts i = .publish → g.agent.watching = false ∨ g.Watched
  | _ => True

instance (g : Machine) : ∀ x, Decidable (StillWatched g x)
  | .start i _ => inferInstanceAs (Decidable (g.starts i = .publish → _ ∨ g.Watched))
  | .callStart _ _ | .callStop _ | .callLogs _ _ | .stop _ _ | .watch _ _ | .logs _ _ | .write _
  | .exit _ => .isTrue trivial

/-- A payload that the agent calls running is watched. -/
def Machine.RunningWatched (g : Machine) : Prop := g.agent.phase = .running → g.Watched

theorem watched_set {k : Nat} {p p' : WatchAt} (hp : g.watchers[k]? = some p)
    (hne : p' ≠ .returned) : { g with watchers := g.watchers.set k p' }.Watched := by
  obtain ⟨hk, -⟩ := List.getElem?_eq_some_iff.mp hp
  exact ⟨p', List.mem_set hk p', hne⟩

theorem runningWatched_next (hI : g.RunningWatched) (hok : StillWatched g x)
    (h : next g x = some g') : g'.RunningWatched := by
  cases next_change h with
  | publish hp =>
    intro _
    rcases hok hp with hfresh | ⟨p, hmem, hne⟩
    · exact ⟨.sleep, by simp [Machine.publish, hfresh], by simp⟩
    · refine ⟨p, ?_, hne⟩
      rw [Machine.publish]
      split
      · exact hmem
      · exact List.mem_append_left _ hmem
  | @record k v hp => intro hrun; cases v <;> cases hrun
  | watch hp _ hne _ => exact fun _ => watched_set hp hne
  | callLogs _ => exact hI
  | logs _ => exact hI
  | other hframe _ _ _ =>
    intro hrun
    rw [hframe.phase] at hrun
    obtain ⟨p, hmem, hne⟩ := hI hrun
    exact ⟨p, by rw [hframe.watchers]; exact hmem, hne⟩

theorem stillWatched_of_next (h : next g x = some g') (hP : g'.RunningWatched) :
    StillWatched g x := by
  cases next_change h with
  | @publish i f hp =>
    intro _
    cases hw : g.agent.watching with
    | false => exact .inl rfl
    | true =>
      obtain ⟨p, hmem, hne⟩ := hP rfl
      rw [Machine.publish, hw] at hmem
      exact .inr ⟨p, hmem, hne⟩
  | record _ => trivial
  | watch _ _ _ _ => trivial
  | callLogs _ => trivial
  | logs _ => trivial
  | other _ _ hstart _ =>
    cases x with
    | start i a => exact fun hp => absurd hp (hstart i a rfl)
    | _ => trivial

/-! ## After the payload has exited -/

/-- Who waits on `logCond` has seen `logDone` unset, and nobody has set it since. -/
def Machine.ParkedAlert (g : Machine) : Prop :=
  ∀ i, (g.logs i).pc = .parked → g.agent.logDone = false

theorem logsStep_parked {l l' : LogsCall} (h : logsStep g l a = some l') (hp : l'.pc = .parked) :
    g.agent.logDone = false := by
  cases logsStep_change h with
  | park _ hdone => exact hdone
  | eof _ _ =>
    dsimp only at hp
    split at hp <;> cases hp
  | _ => cases hp

theorem wake_pc_ne (l : LogsCall) : l.wake.pc ≠ .parked := by
  unfold LogsCall.wake
  split <;> simp_all

theorem parkedAlert_next (hI : g.ParkedAlert) (h : next g x = some g') : g'.ParkedAlert := by
  cases next_change h with
  | publish _ => exact fun _ _ => rfl
  | record _ => exact fun i hi => absurd hi (wake_pc_ne (g.logs i))
  | watch _ _ _ _ => exact hI
  | @callLogs i follow _ =>
    intro j hj
    by_cases hij : j = i
    · subst hij; simp at hj
    · exact hI j (by simpa [setLogs_of_ne hij] using hj)
  | @logs i a l hl =>
    intro j hj
    by_cases hij : j = i
    · subst hij; exact logsStep_parked hl (by simpa using hj)
    · exact hI j (by simpa [setLogs_of_ne hij] using hj)
  | other hframe _ _ _ =>
    intro i hi
    rw [hframe.logs] at hi
    rw [hframe.logDone]
    exact hI i hi

/-- The payload has exited, and either it is still to be recorded or that has been done. -/
structure Ending (g : Machine) : Prop where
  exited : g.live = false
  watched : g.RunningWatched
  recorded : g.agent.phase ≠ .running → g.agent.logDone = true
  parked : g.ParkedAlert

def NoRestart (g : Machine) (x : Event) : Prop := Restarts g x = false

theorem ending_next (hI : Ending g) (hok : NoRestart g x) (h : next g x = some g') : Ending g' := by
  have hpark := parkedAlert_next hI.parked h
  have hstill : StillWatched g x := by
    cases x with
    | start i a => intro hp; rw [NoRestart, Restarts, hp] at hok; cases hok
    | _ => trivial
  have hwatch := runningWatched_next hI.watched hstill h
  refine ⟨?_, hwatch, ?_, hpark⟩
  · cases next_change h with
    | publish hp => rw [NoRestart, Restarts, hp] at hok; cases hok
    | other _ hquiet _ _ => exact (hquiet hok hI.exited).live
    | _ => exact hI.exited
  · cases next_change h with
    | publish _ => exact fun hne => absurd rfl hne
    | @record k v _ => cases v <;> exact fun _ => rfl
    | other hframe _ _ _ => rw [hframe.phase, hframe.logDone]; exact hI.recorded
    | _ => exact hI.recorded

/-- The steps a `Logs` call has left, if nothing is written: three for the end of the file and
four for every byte it may still read one by one. -/
def LogsCall.rank (g : Machine) (l : LogsCall) : Nat :=
  let left := (g.file l.file).length - l.off
  match l.pc with
  | .idle | .ended _ => 0
  | .opening => 4 * g.bytes + 9
  | .reading => 4 * left + 3
  | .sending _ | .woken => 4 * left + 4
  | .looking => 2
  | .parked => 1

theorem length_file_le (g : Machine) (n : Nat) : (g.file n).length ≤ g.bytes := by
  unfold Machine.file
  rcases Nat.lt_or_ge n g.files.length with h | h
  · rw [List.getD_eq_getElem _ _ h]
    exact List.single_le_sum (fun _ _ => Nat.zero_le _) _
      (List.mem_map_of_mem (List.getElem_mem h))
  · rw [List.getD_eq_default _ _ h]; exact Nat.zero_le _

theorem rank_logsStep {l l' : LogsCall} (h : logsStep g l a = some l') : l'.rank g < l.rank g := by
  cases logsStep_change h with
  | missing hpc _ => simp [LogsCall.rank, hpc]
  | @opened n hpc _ =>
    have := length_file_le g n
    simp only [LogsCall.rank, hpc]
    omega
  | eof hpc _ => cases hf : l.follow <;> simp [LogsCall.rank, hpc]
  | chunk hpc hne =>
    have hpos := List.length_pos_iff.mpr hne
    have hle : (g.chunk l).length ≤ (g.file l.file).length - l.off := by
      rw [Machine.chunk, List.length_take, List.length_drop]; omega
    simp only [LogsCall.rank, hpc]
    omega
  | sent hpc => simp [LogsCall.rank, hpc]
  | done hpc _ => simp [LogsCall.rank, hpc]
  | park hpc _ => simp [LogsCall.rank, hpc]
  | resume hpc => simp [LogsCall.rank, hpc]
  | fail hpc =>
    rcases hpc with hpc | hpc | ⟨c, hpc⟩ <;> simp [LogsCall.rank, hpc]

theorem rank_wake_le (g : Machine) (l : LogsCall) : l.wake.rank g ≤ l.rank g + 4 * g.bytes + 8 := by
  have := length_file_le g l.file
  unfold LogsCall.wake
  split
  · simp only [LogsCall.rank]; omega
  · omega

theorem sum_set {f : WatchAt → Nat} {ps : List WatchAt} {k : Nat} {p : WatchAt} (q : WatchAt)
    (h : ps[k]? = some p) : ((ps.set k q).map f).sum + f p = (ps.map f).sum + f q := by
  induction ps generalizing k with
  | nil => cases h
  | cons r ps ih =>
    cases k with
    | zero => cases h; simp; omega
    | succ k =>
      have := ih h
      simp only [List.set_cons_succ, List.map_cons, List.sum_cons]
      omega

def Machine.watchRank (g : Machine) : Nat := (g.watchers.map WatchAt.rank).sum

theorem watch_enabled (h : g.Watched) : ∃ k a g', next g (.watch k a) = some g' := by
  obtain ⟨p, hmem, hne⟩ := h
  obtain ⟨k, hk⟩ := List.mem_iff_getElem?.mp hmem
  cases p with
  | sleep => exact ⟨k, .ok, _, by rw [next, hk]; rfl⟩
  | poll => exact ⟨k, .fail "", _, by rw [next, hk]; rfl⟩
  | record v => exact ⟨k, .ok, _, by rw [next, hk]; rfl⟩
  | returned => exact absurd rfl hne

theorem watchRank_next (hI : Ending g) (hok : NoRestart g x) (h : next g x = some g') :
    g'.watchRank + (if x.isWatch then 1 else 0) ≤ g.watchRank := by
  cases next_change h with
  | publish hp => rw [NoRestart, Restarts, hp] at hok; cases hok
  | @record k v hp =>
    have := sum_set (f := WatchAt.rank) .returned hp
    simp only [Machine.watchRank, Event.isWatch, WatchAt.rank, if_true] at this ⊢
    omega
  | @watch k a p p' hp _ _ hrank =>
    have := sum_set (f := WatchAt.rank) p' hp
    have := hrank hI.exited
    simp only [Machine.watchRank, Event.isWatch, if_true]
    omega
  | callLogs _ => exact Nat.le_refl _
  | logs _ => exact Nat.le_refl _
  | other hframe _ _ hfeeds =>
    have hx : x.isWatch = false := by
      cases x with
      | watch k a => cases hfeeds 0
      | _ => rfl
    rw [Machine.watchRank, hframe.watchers, hx]
    exact Nat.le_refl _

theorem inevitable_recorded (hI : Ending g) :
    Inevitable next NoRestart Event.isWatch
      (fun g => g.agent.phase ≠ .running ∧ g.agent.logDone = true) g := by
  refine Inevitable.of_rank Machine.watchRank (fun g x g' => ending_next) ?_ ?_ ?_ hI
  · intro g x g' hI hG hok h
    have hI' := ending_next hI hok h
    have hne : g'.agent.phase ≠ .running := by
      cases next_change h with
      | publish hp => rw [NoRestart, Restarts, hp] at hok; cases hok
      | @record k v _ => cases v <;> exact fun h => by cases h
      | other hframe _ _ _ => rw [hframe.phase]; exact hG.1
      | _ => exact hG.1
    exact ⟨hne, hI'.recorded hne⟩
  · intro g x g' hI _ hok h; exact .inr (watchRank_next hI hok h)
  · intro g hI hG
    have hrun : g.agent.phase = .running := by
      by_contra hne
      exact hG ⟨hne, hI.recorded hne⟩
    obtain ⟨k, a, g', hg'⟩ := watch_enabled (hI.watched hrun)
    exact ⟨.watch k a, g', rfl, rfl, hg'⟩

def Machine.Called (g : Machine) (i : Nat) : Prop := (g.logs i).pc ≠ .idle

instance (g : Machine) (i : Nat) : Decidable (g.Called i) :=
  inferInstanceAs (Decidable ((g.logs i).pc ≠ .idle))

def LogsCall.over (l : LogsCall) : Prop := ∃ e, l.pc = .ended e

theorem wake_over {l : LogsCall} (h : l.over) : l.wake = l := by
  obtain ⟨e, he⟩ := h; simp [LogsCall.wake, he]

theorem logsStep_ok_of_pc {l : LogsCall} (hidle : l.pc ≠ .idle) (hpark : l.pc ≠ .parked)
    (hover : ¬ l.over) : ∃ l', logsStep g l .ok = some l' := by
  unfold logsStep
  cases hpc : l.pc with
  | idle => exact absurd hpc hidle
  | parked => exact absurd hpc hpark
  | ended e => exact absurd ⟨e, hpc⟩ hover
  | opening => cases hp : g.path <;> simp
  | reading => by_cases hc : g.chunk l = [] <;> simp [hc]
  | _ => simp

/-- The steps left until the `Logs` call `i` ends. A watcher's last step may send it back to the
file once. -/
def Machine.logsRank (i : Nat) (g : Machine) : Nat :=
  g.watchRank * (4 * g.bytes + 9) + (g.logs i).rank g

theorem rank_congr (hq : Quiet g g') (l : LogsCall) : l.rank g' = l.rank g := by
  unfold LogsCall.rank; rw [hq.file, hq.bytes]

theorem lex_le {m n M r r' : Nat} (hm : m + 1 ≤ n) (hr : r' + 1 ≤ r + M) :
    m * M + r' + 1 ≤ n * M + r := by
  have := Nat.mul_le_mul_right M hm
  rw [Nat.add_mul] at this
  omega

theorem logsRank_next {i : Nat} (hI : Ending g) (hcall : g.Called i) (hok : NoRestart g x)
    (h : next g x = some g') :
    g'.logsRank i + (if x.feeds i then 1 else 0) ≤ g.logsRank i := by
  have hwatch := watchRank_next hI hok h
  cases next_change h with
  | publish hp => rw [NoRestart, Restarts, hp] at hok; cases hok
  | @record k v _ =>
    have hwake := rank_wake_le g (g.logs i)
    exact lex_le hwatch (show (g.logs i).wake.rank g + 1 ≤ (g.logs i).rank g + (4 * g.bytes + 9) by
      omega)
  | @watch k a p p' _ _ _ _ =>
    exact lex_le hwatch (show (g.logs i).rank g + 1 ≤ (g.logs i).rank g + (4 * g.bytes + 9) by
      omega)
  | @callLogs j follow hidle =>
    have hij : i ≠ j := by
      rintro rfl; exact hcall hidle
    simp only [Machine.logsRank, setLogs_of_ne hij]
    exact Nat.le_refl _
  | @logs j a l hl =>
    have heq : (g.setLogs j l).logsRank i =
        g.watchRank * (4 * g.bytes + 9) + ((g.setLogs j l).logs i).rank g := rfl
    rw [heq, Machine.logsRank]
    by_cases hij : j = i
    · subst hij
      have hdrop := rank_logsStep hl
      simp only [setLogs_self, Event.feeds, decide_true, if_true]
      omega
    · simp [setLogs_of_ne (Ne.symm hij), Event.feeds, hij]
  | other hframe hquiet _ hfeeds =>
    have hq := hquiet hok hI.exited
    rw [Machine.logsRank, hframe.logs, rank_congr hq, hq.bytes, hfeeds i, Machine.watchRank,
      hframe.watchers]
    exact Nat.le_refl _

theorem called_next {i : Nat} (hcall : g.Called i) (h : next g x = some g') : g'.Called i := by
  cases next_change h with
  | publish _ => exact hcall
  | record _ =>
    intro hidle
    change (g.logs i).wake.pc = .idle at hidle
    unfold LogsCall.wake at hidle
    split at hidle
    · cases hidle
    · exact hcall hidle
  | watch _ _ _ _ => exact hcall
  | @callLogs j follow _ =>
    by_cases hij : i = j
    · subst hij; simp [Machine.Called]
    · simpa [Machine.Called, setLogs_of_ne hij] using hcall
  | @logs j a l hl =>
    by_cases hij : i = j
    · subst hij
      simp only [Machine.Called, setLogs_self]
      cases logsStep_change hl with
      | eof _ _ =>
        dsimp only
        split <;> simp
      | _ => simp
    · simpa [Machine.Called, setLogs_of_ne hij] using hcall
  | other hframe _ _ _ => rw [Machine.Called, hframe.logs]; exact hcall

theorem over_next {i : Nat} (hover : (g.logs i).over) (h : next g x = some g') :
    (g'.logs i).over := by
  cases next_change h with
  | publish _ => exact hover
  | record _ => change (g.logs i).wake.over; rw [wake_over hover]; exact hover
  | watch _ _ _ _ => exact hover
  | @callLogs j follow hidle =>
    have hij : i ≠ j := by
      rintro rfl; obtain ⟨e, he⟩ := hover; cases he.symm.trans hidle
    simpa [setLogs_of_ne hij] using hover
  | @logs j a l hl =>
    have hij : i ≠ j := by
      rintro rfl; obtain ⟨e, he⟩ := hover; cases a <;> simp [logsStep, he] at hl
    simpa [setLogs_of_ne hij] using hover
  | other hframe _ _ _ => rw [hframe.logs]; exact hover

theorem inevitable_over {i : Nat} (hI : Ending g) (hcall : g.Called i) :
    Inevitable next NoRestart (Event.feeds i) (fun g => (g.logs i).over) g := by
  refine Inevitable.of_rank (I := fun g => Ending g ∧ g.Called i) (Machine.logsRank i) ?_ ?_ ?_ ?_
    ⟨hI, hcall⟩
  · intro g x g' hJ hok h; exact ⟨ending_next hJ.1 hok h, called_next hJ.2 h⟩
  · intro g x g' _ hover _ h; exact over_next hover h
  · intro g x g' hJ _ hok h; exact .inr (logsRank_next hJ.1 hJ.2 hok h)
  · rintro g ⟨hI, hcall⟩ hover
    by_cases hpark : (g.logs i).pc = .parked
    · -- only a parked call waits for somebody else
      have hrun : g.agent.phase = .running := by
        by_contra hne
        have hdone := hI.recorded hne
        rw [hI.parked i hpark] at hdone
        cases hdone
      obtain ⟨k, a, g', hg'⟩ := watch_enabled (hI.watched hrun)
      exact ⟨.watch k a, g', rfl, rfl, hg'⟩
    · obtain ⟨l, hl⟩ := logsStep_ok_of_pc hcall hpark hover
      exact ⟨.logs i .ok, _, by simp [Event.feeds], rfl, by rw [next, hl]; rfl⟩

/-! ## Every run -/

/-- In every run, each payload that the agent calls running is watched, exactly if no `StartPayload`
call gets to its last critical section with `watching` set and the watcher gone; and then a payload
that has exited is recorded, and its log followers end. -/
theorem running_watched (w : List Event) (g : Machine)
    (hw : Moves next (fun _ _ => True) Machine.boot w g) :
    (Always next Machine.RunningWatched Machine.boot w ↔
      Moves next StillWatched Machine.boot w g) ∧
    (Moves next StillWatched Machine.boot w g → g.agent.phase = .running → g.live = false →
      Inevitable next NoRestart Event.isWatch
        (fun g => g.agent.phase ≠ .running ∧ g.agent.logDone = true) g ∧
      ∀ i, g.Called i →
        Inevitable next NoRestart (Event.feeds i) (fun g => (g.logs i).over) g) := by
  have hboot : Machine.boot.RunningWatched := fun h => by cases h
  refine ⟨⟨fun halways => ?_, fun hok => ?_⟩, fun hok hrun hexit => ?_⟩
  · refine (Moves.of_always (I := fun _ => True) StillWatched ?_ ?_ hw trivial halways).mono ?_
    · exact fun g x g' _ _ h hP => stillWatched_of_next h hP
    · exact fun _ _ _ _ _ _ => trivial
    · exact fun _ _ h => h.2
  · exact hok.always (fun g x g' => runningWatched_next) (fun _ h => h) hboot
  · have hwatched : g.RunningWatched :=
      hok.invariant (fun g x g' => runningWatched_next) hboot
    have hparked : g.ParkedAlert :=
      hw.invariant (fun g x g' hI _ h => parkedAlert_next hI h) fun _ h => by cases h
    have hending : Ending g := ⟨hexit, hwatched, fun hne => absurd hrun hne, hparked⟩
    exact ⟨inevitable_recorded hending, fun i hcall => inevitable_over hending hcall⟩

/-- `StartPayload` for a payload without volumes, all of whose steps succeed. -/
def startRun (i : Nat) : List Event :=
  .callStart i ⟨["/bin/sh"], "", []⟩ :: List.replicate 10 (.start i .ok)

def exitRecorded : List Event :=
  [.exit 0, .watch 0 .ok, .watch 0 (.status .stopped none), .watch 0 .ok]

def stopRun (i : Nat) : List Event :=
  [.callStop i, .stop i .ok, .stop i .ok, .stop i .ok, .stop i (.status .stopped none), .stop i .ok,
    .stop i .ok, .stop i .ok, .stop i .ok]

/-- A follower that has read an empty log. -/
def followRun (i : Nat) : List Event :=
  [.callLogs i true, .logs i .ok, .logs i .ok, .logs i .ok]

/-- The first life of a payload, with a follower. -/
theorem running_watched_once : ∃ w g,
    Moves next StillWatched Machine.boot w g ∧ g.agent.phase = .running ∧ g.live = false ∧
      Inevitable next NoRestart (Event.feeds 0) (fun g => (g.logs 0).over) g := by
  obtain ⟨g, hw, hrun, hexit, hcall⟩ := Moves.of_any next StillWatched Machine.boot
    (startRun 0 ++ followRun 0 ++ [.exit 0])
    (fun g => g.agent.phase = .running ∧ g.live = false ∧ g.Called 0) (by decide)
  have hends := (running_watched _ g (hw.mono fun _ _ _ => trivial)).2 hw hrun hexit
  exact ⟨_, g, hw, hrun, hexit, hends.2 0 hcall⟩

/-- A payload that the agent calls running, though nobody watches it, and a follower of its log. -/
structure Forgotten (g : Machine) : Prop where
  running : g.agent.phase = .running
  unwatched : ¬ g.Watched
  logDone : g.agent.logDone = false
  parked : (g.logs 0).pc = .parked

theorem forgotten_next (hI : Forgotten g) (hok : NoRestart g x) (h : next g x = some g') :
    Forgotten g' := by
  have hreturned {k : Nat} {p : WatchAt} (hp : g.watchers[k]? = some p) : p = .returned := by
    by_contra hne
    exact hI.unwatched ⟨p, List.mem_of_getElem? hp, hne⟩
  cases next_change h with
  | publish hp => rw [NoRestart, Restarts, hp] at hok; cases hok
  | record hp => cases hreturned hp
  | watch hp hne _ _ => exact absurd (hreturned hp) hne
  | @callLogs j follow hidle =>
    have hj : 0 ≠ j := by
      rintro rfl; cases hI.parked.symm.trans hidle
    exact ⟨hI.running, hI.unwatched, hI.logDone, by
      simpa [setLogs_of_ne hj] using hI.parked⟩
  | @logs j a l hl =>
    have hj : 0 ≠ j := by
      rintro rfl; cases a <;> simp [logsStep, hI.parked] at hl
    exact ⟨hI.running, hI.unwatched, hI.logDone, by
      simpa [setLogs_of_ne hj] using hI.parked⟩
  | other hframe _ _ _ =>
    refine ⟨hframe.phase.trans hI.running, ?_, hframe.logDone.trans hI.logDone, ?_⟩
    · rw [Machine.Watched, hframe.watchers]; exact hI.unwatched
    · rw [hframe.logs]; exact hI.parked

/-- The second life of a payload: started, exited, stopped and started again. When it exits, the
phase stays RUNNING and the follower waits, whatever happens short of a third start. -/
theorem second_life_unwatched : ∃ w g,
    Moves next (fun _ _ => True) Machine.boot w g ∧ g.agent.phase = .running ∧ ¬ g.Watched ∧
      g.live = false ∧ (g.logs 0).pc = .parked ∧
      ∀ w' g', Moves next NoRestart g w' g' →
        g'.agent.phase = .running ∧ g'.agent.logDone = false ∧ (g'.logs 0).pc = .parked := by
  obtain ⟨g, hw, hforgotten, hexit⟩ := Moves.of_any next (fun _ _ => True) Machine.boot
    (startRun 0 ++ exitRecorded ++ stopRun 0 ++ startRun 1 ++ followRun 0 ++ [.exit 0])
    (fun g => (g.agent.phase = .running ∧ ¬ g.Watched ∧ g.agent.logDone = false ∧
      (g.logs 0).pc = .parked) ∧ g.live = false) (by decide)
  obtain ⟨hrun, hunwatched, hdone, hparked⟩ := hforgotten
  refine ⟨_, g, hw, hrun, hunwatched, hexit, hparked, fun w' g' hw' => ?_⟩
  have hstays := hw'.invariant (fun g x g' => forgotten_next) ⟨hrun, hunwatched, hdone, hparked⟩
  exact ⟨hstays.running, hstays.logDone, hstays.parked⟩

end Capsule.Guest.Payload
