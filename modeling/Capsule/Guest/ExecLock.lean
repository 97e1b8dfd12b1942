import Capsule.Atomic.Locks

/-!
# Capsule.Guest.ExecLock

The guest agent's two mutexes: `execMu`, held around every child process so that `reapLoop` does not
reap it first, and the state mutex. The code of `Exec`, `Stop`, `watchPayload` and `reapLoop` of
`cmd/capsule-guest/agent.go`, as the places it goes through (`Place`, `code`).

* `disciplined`: which mutex is held where. `Exec` holds `execMu` while its process runs.
* `canReach_of_inProgress`: what is left of a `Stop` leads to its unmounts.
* `stop_reaches_umount`: without an open session a `Stop` gets there by steps of the agent alone,
  or finds nothing to stop.
-/

namespace Capsule.Guest.ExecLock

open Atomic Locks

inductive Mutex where
  | execMu
  | mu
  deriving DecidableEq, Repr

inductive ExecAt where
  | recv
  | lock
  | start
  | wait
  | drain
  | send
  | unlock
  | done
  deriving DecidableEq, Repr

/-- The runc commands of `Stop`. -/
inductive Command where
  | term
  | state
  | kill
  | delete
  deriving DecidableEq, Repr

inductive StopAt where
  | lockMu
  | check
  | unlockMu (started : Bool)
  /-- Returned without a payload to stop. -/
  | skipped
  | lockExec (c : Command)
  | run (c : Command)
  /-- `gone`: `runc state` failed or shows the payload stopped. -/
  | unlockExec (c : Command) (gone : Bool)
  /-- The head of the grace loop. -/
  | loop
  | sleep
  | lockDetach
  | detach
  | unlockDetach
  | umount
  | returned
  deriving DecidableEq, Repr

inductive WatchAt where
  | sleep
  | lock
  | run
  | unlock (running : Bool)
  | lockMu
  | record
  | unlockMu
  | returned
  deriving DecidableEq, Repr

inductive ReapAt where
  | lock
  | wait4
  | unlock (reaped : Bool)
  | sleep
  deriving DecidableEq, Repr

inductive Place where
  | exec (p : ExecAt)
  | stop (p : StopAt)
  | watch (p : WatchAt)
  | reap (p : ReapAt)
  deriving DecidableEq, Repr

/-- The code at a place; the data is `agent.started`. -/
abbrev Code := Act Place Mutex Bool

@[simp] def go (ps : List Place) : Code := .own fun started => ps.map fun p => (p, started)

/-- Starting runc may fail, which ends the call and with it the hold on the mutex. -/
def ExecAt.code : ExecAt → Code
  | .recv => .outside [.exec .lock, .exec .done]
  | .lock => .acquire .execMu (.exec .start)
  | .start => go [.exec .wait, .exec .unlock]
  | .wait => .outside [.exec .drain]
  | .drain => .outside [.exec .send]
  | .send => .outside [.exec .unlock]
  | .unlock => .release .execMu (.exec .done)
  | .done => .halt

/-- Where `Stop` goes after a runc command. -/
def Command.next : Command → Bool → StopAt
  | .term, _ => .loop
  | .state, gone => if gone then .lockExec .kill else .sleep
  | .kill, _ => .lockExec .delete
  | .delete, _ => .lockDetach

def StopAt.code : StopAt → Code
  | .lockMu => .acquire .mu (.stop .check)
  | .check => .own fun started => [(.stop (.unlockMu started), started)]
  | .unlockMu started => .release .mu (.stop (if started then .lockExec .term else .skipped))
  | .skipped => .halt
  | .lockExec c => .acquire .execMu (.stop (.run c))
  | .run c => go [.stop (.unlockExec c false), .stop (.unlockExec c true)]
  | .unlockExec c gone => .release .execMu (.stop (c.next gone))
  | .loop => go [.stop (.lockExec .state), .stop (.lockExec .kill)]
  | .sleep => go [.stop .loop]
  | .lockDetach => .acquire .mu (.stop .detach)
  | .detach => .own fun _ => [(.stop .unlockDetach, false)]
  | .unlockDetach => .release .mu (.stop .umount)
  | .umount => go [.stop .returned]
  | .returned => .halt

def WatchAt.code : WatchAt → Code
  | .sleep => go [.watch .lock]
  | .lock => .acquire .execMu (.watch .run)
  | .run => go [.watch (.unlock true), .watch (.unlock false)]
  | .unlock running => .release .execMu (.watch (if running then .sleep else .lockMu))
  | .lockMu => .acquire .mu (.watch .record)
  | .record => go [.watch .unlockMu]
  | .unlockMu => .release .mu (.watch .returned)
  | .returned => .halt

def ReapAt.code : ReapAt → Code
  | .lock => .acquire .execMu (.reap .wait4)
  | .wait4 => go [.reap (.unlock true), .reap (.unlock false)]
  | .unlock reaped => .release .execMu (.reap (if reaped then .lock else .sleep))
  | .sleep => go [.reap .lock]

def code : Place → Code
  | .exec p => p.code
  | .stop p => p.code
  | .watch p => p.code
  | .reap p => p.code

def holds : Place → Option Mutex
  | .exec .start | .exec .wait | .exec .drain | .exec .send | .exec .unlock
  | .stop (.run _) | .stop (.unlockExec _ _)
  | .watch .run | .watch (.unlock _)
  | .reap .wait4 | .reap (.unlock _) => some .execMu
  | .stop .check | .stop (.unlockMu _) | .stop .detach | .stop .unlockDetach
  | .watch .record | .watch .unlockMu => some .mu
  | _ => none

/-- A session whose process was started and whose `Exec` has not returned. -/
def Place.Session : Place → Prop
  | .exec .wait | .exec .drain | .exec .send => True
  | _ => False

/-- Where the activities begin. -/
def Place.First : Place → Prop
  | .exec .recv | .stop .lockMu | .watch .sleep | .reap .lock => True
  | _ => False

theorem keeps_go {h : Option Mutex} {ps : List Place} (hps : ∀ p ∈ ps, holds p = h) :
    (go ps).Keeps holds h := by
  intro started x hx
  obtain ⟨p, hp, rfl⟩ := List.mem_map.mp hx
  exact hps p hp

theorem disciplined : Disciplined code holds := by
  intro p
  cases p with
  | exec p =>
    cases p with
    | recv => exact (by decide : ∀ q ∈ [Place.exec .lock, .exec .done], holds q = none)
    | lock => exact ⟨rfl, rfl⟩
    | start => exact keeps_go (by decide)
    | wait => exact (by decide : ∀ q ∈ [Place.exec .drain], holds q = some .execMu)
    | drain => exact (by decide : ∀ q ∈ [Place.exec .send], holds q = some .execMu)
    | send => exact (by decide : ∀ q ∈ [Place.exec .unlock], holds q = some .execMu)
    | unlock => exact ⟨rfl, rfl⟩
    | done => trivial
  | stop p =>
    cases p with
    | check => exact fun started x hx => by rw [List.mem_singleton.mp hx]; rfl
    | detach => exact fun started x hx => by rw [List.mem_singleton.mp hx]; rfl
    | unlockMu started => cases started <;> exact ⟨rfl, rfl⟩
    | unlockExec c gone => cases c <;> cases gone <;> exact ⟨rfl, rfl⟩
    | run c => exact keeps_go (by simp [holds])
    | loop => exact keeps_go (by decide)
    | sleep => exact keeps_go (by decide)
    | umount => exact keeps_go (by decide)
    | skipped => trivial
    | returned => trivial
    | lockMu => exact ⟨rfl, rfl⟩
    | lockExec c => exact ⟨rfl, rfl⟩
    | lockDetach => exact ⟨rfl, rfl⟩
    | unlockDetach => exact ⟨rfl, rfl⟩
  | watch p =>
    cases p with
    | unlock running => cases running <;> exact ⟨rfl, rfl⟩
    | sleep => exact keeps_go (by decide)
    | run => exact keeps_go (by decide)
    | record => exact keeps_go (by decide)
    | returned => trivial
    | lock => exact ⟨rfl, rfl⟩
    | lockMu => exact ⟨rfl, rfl⟩
    | unlockMu => exact ⟨rfl, rfl⟩
  | reap p =>
    cases p with
    | unlock reaped => cases reaped <;> exact ⟨rfl, rfl⟩
    | wait4 => exact keeps_go (by decide)
    | sleep => exact keeps_go (by decide)
    | lock => exact ⟨rfl, rfl⟩

theorem leaves_go {p q : Place} {ps : List Place} (hcode : code p = go ps) (hq : q ∈ ps)
    (h : Leaves code q) : Leaves code p :=
  .own (fun started => (q, started)) hcode (fun _ => List.mem_map_of_mem hq) fun _ => h

theorem leaves_of_holds {p : Place} (hp : holds p ≠ none) (hs : ¬ p.Session) : Leaves code p := by
  cases p with
  | exec p =>
    have hunlock : Leaves code (.exec .unlock) := .release rfl
    cases p with
    | start => exact leaves_go rfl (by simp) hunlock
    | unlock => exact hunlock
    | wait | drain | send => exact absurd trivial hs
    | recv | lock | done => exact absurd rfl hp
  | stop p =>
    cases p with
    | check =>
      exact .own (fun started => (.stop (.unlockMu started), started)) rfl
        (fun _ => List.mem_singleton.mpr rfl) fun _ => .release rfl
    | detach =>
      exact .own (fun _ => (.stop .unlockDetach, false)) rfl
        (fun _ => List.mem_singleton.mpr rfl) fun _ => .release rfl
    | run c => exact leaves_go rfl List.mem_cons_self (.release rfl)
    | unlockMu | unlockExec | unlockDetach => exact .release rfl
    | _ => exact absurd rfl hp
  | watch p =>
    cases p with
    | run => exact leaves_go rfl List.mem_cons_self (.release rfl)
    | record => exact leaves_go rfl List.mem_cons_self (.release rfl)
    | unlock | unlockMu => exact .release rfl
    | _ => exact absurd rfl hp
  | reap p =>
    cases p with
    | wait4 => exact leaves_go rfl List.mem_cons_self (.release rfl)
    | unlock => exact .release rfl
    | _ => exact absurd rfl hp

variable {goal : Place → Prop}

theorem canReach_go {p q : Place} {ps : List Place} (hcode : code p = go ps) (hq : q ∈ ps)
    (h : CanReach code goal q) : CanReach code goal p :=
  .own (fun started => (q, started)) hcode (fun _ => List.mem_map_of_mem hq) fun _ => h

theorem canReach_command {c : Command} (h : ∀ gone, CanReach code goal (.stop (c.next gone))) :
    CanReach code goal (.stop (.lockExec c)) ∧ CanReach code goal (.stop (.run c)) ∧
      ∀ gone, CanReach code goal (.stop (.unlockExec c gone)) := by
  have hunlock : ∀ gone, CanReach code goal (.stop (.unlockExec c gone)) :=
    fun gone => .release rfl (h gone)
  have hrun : CanReach code goal (.stop (.run c)) :=
    canReach_go rfl List.mem_cons_self (hunlock false)
  exact ⟨.acquire rfl hrun, hrun, hunlock⟩

section Reach

variable (humount : goal (.stop .umount))
include humount

theorem canReach_lockDetach :
    CanReach code goal (.stop .lockDetach) ∧ CanReach code goal (.stop .detach) ∧
      CanReach code goal (.stop .unlockDetach) := by
  have hunlock : CanReach code goal (.stop .unlockDetach) := .release rfl (.here humount)
  have hdetach : CanReach code goal (.stop .detach) :=
    .own (fun _ => (.stop .unlockDetach, false)) rfl (fun _ => List.mem_singleton.mpr rfl)
      fun _ => hunlock
  exact ⟨.acquire rfl hdetach, hdetach, hunlock⟩

theorem canReach_next (c : Command) (gone : Bool) : CanReach code goal (.stop (c.next gone)) := by
  have hlock := (canReach_lockDetach humount).1
  have hdelete : CanReach code goal (.stop (.lockExec .delete)) :=
    (canReach_command fun _ => hlock).1
  have hkill : CanReach code goal (.stop (.lockExec .kill)) := (canReach_command fun _ => hdelete).1
  have hloop : CanReach code goal (.stop .loop) := canReach_go rfl (by simp) hkill
  cases c with
  | term => exact hloop
  | state => cases gone with
    | true => exact hkill
    | false => exact canReach_go rfl List.mem_cons_self hloop
  | kill => exact hdelete
  | delete => exact hlock

end Reach

/-- `Stop` has still to find out whether there is a payload to stop, or found none. -/
def StopAt.Looking : StopAt → Prop
  | .lockMu | .check | .unlockMu false => True
  | _ => False

/-- `Stop` has not returned, nor begun to unmount. -/
def StopAt.InProgress : StopAt → Prop
  | .skipped | .umount | .returned => False
  | _ => True

theorem canReach_of_inProgress {p : StopAt} (humount : goal (.stop .umount))
    (hskip : p.Looking → goal (.stop .skipped)) (hp : p.InProgress) :
    CanReach code goal (.stop p) := by
  have hcommand : ∀ c, _ := fun c => canReach_command (canReach_next humount c)
  have hstarted : CanReach code goal (.stop (.unlockMu true)) := .release rfl (hcommand .term).1
  -- the first check, which may find nothing to stop
  have hcheck : goal (.stop .skipped) → CanReach code goal (.stop .check) := by
    intro h
    refine .own (fun started => (.stop (.unlockMu started), started)) rfl
      (fun _ => List.mem_singleton.mpr rfl) fun started => ?_
    cases started with
    | true => exact hstarted
    | false => exact .release rfl (.here h)
  cases p with
  | lockMu => exact .acquire rfl (hcheck (hskip trivial))
  | check => exact hcheck (hskip trivial)
  | unlockMu started => cases started with
    | true => exact hstarted
    | false => exact .release rfl (.here (hskip trivial))
  | lockExec c => exact (hcommand c).1
  | run c => exact (hcommand c).2.1
  | unlockExec c gone => exact (hcommand c).2.2 gone
  | loop => exact canReach_next humount .term false
  | sleep => exact canReach_next humount .state false
  | lockDetach => exact (canReach_lockDetach humount).1
  | detach => exact (canReach_lockDetach humount).2.1
  | unlockDetach => exact (canReach_lockDetach humount).2.2
  | skipped | umount | returned => exact absurd hp id

/-! ## Stop -/

variable {ι : Type} [DecidableEq ι] {s₀ s : State ι Place Mutex Bool}

theorem holds_first {p : Place} (hp : p.First) : holds p = none := by
  cases p with
  | exec p => cases p <;> first | rfl | exact absurd hp id
  | stop p => cases p <;> first | rfl | exact absurd hp id
  | watch p => cases p <;> first | rfl | exact absurd hp id
  | reap p => cases p <;> first | rfl | exact absurd hp id

theorem agrees_of_run (hfirst : ∀ j, (s₀.pc j).First) (hfree : ∀ m, s₀.holder m = none)
    (hrun : Run code s₀ s) : Agrees holds s := by
  refine Agrees.run disciplined (fun j m => ?_) hrun
  rw [holds_first (hfirst j), hfree m]
  exact iff_of_false (fun h => by cases h) (fun h => by cases h)

/-- `Stop` has looked and found nothing to stop. -/
def Place.foundNone : Place → Bool
  | .stop (.unlockMu false) | .stop .skipped => true
  | _ => false

/-- What is done at the place `p` leads to such a place only from one, or by a look that finds
`started` false. -/
def FindsNone (p : Place) : Code → Prop
  | .acquire _ q => q.foundNone = false
  | .release _ q => q.foundNone = true → p.foundNone = true
  | .own f => ∀ d, ∀ x ∈ f d, x.1.foundNone = true → p = .stop .check ∧ d = false
  | .outside qs => ∀ q ∈ qs, q.foundNone = false
  | .halt => True

theorem code_findsNone (p : Place) : FindsNone p (code p) := by
  cases p with
  | exec p => cases p <;> simp [code, ExecAt.code, FindsNone, Place.foundNone]
  | watch p => cases p <;> simp [code, WatchAt.code, FindsNone, Place.foundNone]
  | reap p => cases p <;> simp [code, ReapAt.code, FindsNone, Place.foundNone]
  | stop p =>
    cases p with
    | unlockMu started => cases started <;> simp [code, StopAt.code, FindsNone, Place.foundNone]
    | unlockExec c gone =>
      cases c <;> cases gone <;>
        simp [code, StopAt.code, FindsNone, Place.foundNone, Command.next]
    | _ => simp [code, StopAt.code, FindsNone, Place.foundNone]

/-- The step lemma: a thread that has found nothing had found it before, or looks now. -/
theorem foundNone_of_step {s' : State ι Place Mutex Bool} {i : ι}
    (hstep : Step code s s' ∨ Outside code s s') (hi : (s'.pc i).foundNone = true) :
    (s.pc i).foundNone = true ∨ s.pc i = .stop .check ∧ s.data = false := by
  -- only the thread that moves comes to another place
  have hmove : ∀ {k : ι} {q : Place}, (Function.update s.pc k q i).foundNone = true →
      (q.foundNone = true → (s.pc k).foundNone = true ∨ s.pc k = .stop .check ∧ s.data = false) →
      (s.pc i).foundNone = true ∨ s.pc i = .stop .check ∧ s.data = false := by
    intro k q hq h
    by_cases hk : i = k
    · subst hk; rw [Function.update_self] at hq; exact h hq
    · rw [Function.update_of_ne hk] at hq; exact .inl hq
  rcases hstep with hstep | hstep
  · cases hstep with
    | @acquire k l q hcode hfree =>
      have hk := code_findsNone (s.pc k)
      rw [hcode] at hk
      exact hmove hi fun hq => absurd (hk.symm.trans hq) Bool.false_ne_true
    | @release k l q hcode =>
      have hk := code_findsNone (s.pc k)
      rw [hcode] at hk
      exact hmove hi fun hq => .inl (hk hq)
    | @own k f q d hcode hmem =>
      have hk := code_findsNone (s.pc k)
      rw [hcode] at hk
      exact hmove hi fun hq => .inr (hk _ _ hmem hq)
  · cases hstep with
    | @mk k qs q hcode hmem =>
      have hk := code_findsNone (s.pc k)
      rw [hcode] at hk
      exact hmove hi fun hq => absurd ((hk q hmem).symm.trans hq) Bool.false_ne_true

theorem look_of_foundNone {i : ι} (hfirst : ∀ j, (s₀.pc j).First) (hrun : Run code s₀ s)
    (hi : (s.pc i).foundNone = true) :
    ∃ t, Run code s₀ t ∧ Run code t s ∧ t.pc i = .stop .check ∧ t.data = false := by
  induction hrun with
  | refl =>
    have hplace := hfirst i
    generalize s₀.pc i = q at hi hplace
    cases q with
    | stop p =>
      cases p with
      | lockMu => cases hi
      | _ => exact absurd hplace id
    | _ => cases hi
  | tail hrun hstep ih =>
    rcases foundNone_of_step hstep hi with hfound | ⟨hcheck, hdata⟩
    · obtain ⟨t, hto, hfrom, ht⟩ := ih hfound
      exact ⟨t, hto, hfrom.tail hstep, ht⟩
    · exact ⟨_, hrun, .single hstep, hcheck, hdata⟩

/-- Without an open session, a `Stop` in progress gets to its unmounts by steps of the agent alone;
or it returns before them, because its look found that nothing was started. -/
theorem stop_reaches_umount {i : ι} {p : StopAt} (hfirst : ∀ j, (s₀.pc j).First)
    (hfree : ∀ m, s₀.holder m = none) (hrun : Run code s₀ s) (hi : s.pc i = .stop p)
    (hp : p.InProgress) (hno : ∀ j, ¬ (s.pc j).Session) :
    ∃ s', Alone code s s' ∧
      (s'.pc i = .stop .umount ∨ p.Looking ∧ s'.pc i = .stop .skipped ∧
        ∃ t, Run code s₀ t ∧ Run code t s' ∧ t.pc i = .stop .check ∧ t.data = false) := by
  have hs : Agrees holds s := agrees_of_run hfirst hfree hrun
  have hreach : CanReach code (fun q => q = .stop .umount ∨ p.Looking ∧ q = .stop .skipped)
      (s.pc i) := by
    rw [hi]
    exact canReach_of_inProgress (.inl rfl) (fun h => .inr ⟨h, rfl⟩) hp
  obtain ⟨s', halone, hgoal⟩ :=
    hs.progress disciplined (fun j _ hj => leaves_of_holds hj (hno j)) hreach
  refine ⟨s', halone, hgoal.imp id ?_⟩
  rintro ⟨hlook, hskip⟩
  have hrun' : Run code s₀ s' :=
    hrun.trans (Relation.ReflTransGen.mono (fun _ _ h => .inl h) _ _ halone)
  exact ⟨hlook, hskip, look_of_foundNone hfirst hrun' (by rw [hskip]; rfl)⟩

/-- An `Exec` (`false`) and a `Stop` (`true`) on a started payload, and who holds the mutexes. -/
def execAndStop (e : ExecAt) (p : StopAt) (execMu mu : Option Bool) :
    State Bool Place Mutex Bool where
  pc i := if i then .stop p else .exec e
  holder
    | .execMu => execMu
    | .mu => mu
  data := true

theorem to_execAndStop {R : State Bool Place Mutex Bool → Prop} {t : State Bool Place Mutex Bool}
    {e : ExecAt} {p : StopAt} {execMu mu : Option Bool} (h : R t) (he : t.pc false = .exec e)
    (hp : t.pc true = .stop p) (hx : t.holder .execMu = execMu) (hm : t.holder .mu = mu)
    (hdata : t.data = true) : R (execAndStop e p execMu mu) := by
  obtain ⟨pc, holder, data⟩ := t
  have hpc : pc = (execAndStop e p execMu mu).pc := funext fun i => by
    cases i with
    | true => exact hp
    | false => exact he
  have hholder : holder = (execAndStop e p execMu mu).holder := funext fun m => by
    cases m with
    | execMu => exact hx
    | mu => exact hm
  obtain rfl : data = true := hdata
  rw [hpc, hholder] at h
  exact h

theorem stop_to_term (e : ExecAt) (execMu : Option Bool) :
    Run code (execAndStop e .lockMu execMu none) (execAndStop e (.lockExec .term) execMu none) := by
  have hlock : Step code (execAndStop e .lockMu execMu none)
      (execAndStop e .check execMu (some true)) :=
    to_execAndStop (.acquire (i := true) (l := .mu) rfl rfl) rfl rfl rfl rfl rfl
  have hcheck : Step code (execAndStop e .check execMu (some true))
      (execAndStop e (.unlockMu true) execMu (some true)) :=
    to_execAndStop (.own (i := true) (p := .stop (.unlockMu true)) rfl List.mem_cons_self)
      rfl rfl rfl rfl rfl
  have hunlock : Step code (execAndStop e (.unlockMu true) execMu (some true))
      (execAndStop e (.lockExec .term) execMu none) :=
    to_execAndStop (.release (i := true) (l := .mu) rfl) rfl rfl rfl rfl rfl
  exact .head (.inl hlock) (.head (.inl hcheck) (.single (.inl hunlock)))

theorem exec_to_wait (p : StopAt) :
    Run code (execAndStop .recv p none none) (execAndStop .wait p (some false) none) := by
  have hrecv : Outside code (execAndStop .recv p none none) (execAndStop .lock p none none) :=
    to_execAndStop (.mk (i := false) (p := .exec .lock) rfl List.mem_cons_self) rfl rfl rfl rfl rfl
  have hlock : Step code (execAndStop .lock p none none)
      (execAndStop .start p (some false) none) :=
    to_execAndStop (.acquire (i := false) (l := .execMu) rfl rfl) rfl rfl rfl rfl rfl
  have hstart : Step code (execAndStop .start p (some false) none)
      (execAndStop .wait p (some false) none) :=
    to_execAndStop (.own (i := false) (p := .exec .wait) rfl List.mem_cons_self)
      rfl rfl rfl rfl rfl
  exact .head (.inr hrecv) (.head (.inl hlock) (.single (.inl hstart)))

theorem first_execAndStop : ∀ j, ((execAndStop .recv .lockMu none none).pc j).First := by
  intro j; cases j <;> exact trivial

theorem free_execAndStop {e : ExecAt} {p : StopAt} :
    ∀ m, (execAndStop e p none none).holder m = none := by
  intro m
  cases m <;> rfl

/-- A `Stop` that comes before the first message of an `Exec`. -/
theorem stop_reaches_umount_before_exec : ∃ s',
    Alone code (execAndStop .recv (.lockExec .term) none none) s' ∧
      s'.pc true = .stop .umount := by
  obtain ⟨s', halone, humount | ⟨hlook, -⟩⟩ := stop_reaches_umount (i := true) first_execAndStop
    free_execAndStop (stop_to_term .recv none) rfl trivial fun j => by cases j <;> exact id
  · exact ⟨s', halone, humount⟩
  · exact absurd hlook id

/-- With a session open, `Stop` waits at its first command whatever the agent does: only the
process or its client can bring it on. -/
theorem stop_waits_for_session :
    ∃ s₀ s : State Bool Place Mutex Bool,
      (∀ j, (s₀.pc j).First) ∧ (∀ m, s₀.holder m = none) ∧ Run code s₀ s ∧
      s.pc false = .exec .wait ∧ s.pc true = .stop (.lockExec .term) ∧
      ∀ s', Alone code s s' → s'.pc true = .stop (.lockExec .term) := by
  have hrun : Run code (execAndStop .recv .lockMu none none)
      (execAndStop .wait (.lockExec .term) (some false) none) :=
    (exec_to_wait .lockMu).trans (stop_to_term .wait (some false))
  have hs := agrees_of_run first_execAndStop free_execAndStop hrun
  refine ⟨_, _, first_execAndStop, free_execAndStop, hrun, rfl, rfl, fun s' h => ?_⟩
  refine hs.blocked disciplined (i := true) (j := false) (l := .execMu)
    (B := fun q => q = .stop (.lockExec .term)) rfl rfl rfl ?_ ?_ ?_ h
  · rintro p m q rfl hcode hm; cases hcode; exact absurd rfl hm
  · rintro p m q rfl hcode; cases hcode
  · rintro p f d q d' rfl hcode; cases hcode

end Capsule.Guest.ExecLock
