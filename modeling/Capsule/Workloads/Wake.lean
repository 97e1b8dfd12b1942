import Capsule.Workloads.Interface

/-!
# Capsule.Workloads.Wake

The reconciler's loop beside the requests that wake it. A request writes its row and then kicks a
channel of one place; the loop makes a pass at its start, at each tick and at each kick.

* `Heard`: what has become of a kick. It is in the channel, or taken by the loop, or a `List` came
  after it.
* `AllHeard`, `step`, `run`: the invariant over every step and every run.
* `no_lost_wakeup`: when the loop waits with an empty channel, its last `List` came after every
  write of every request that has returned nil.
-/

namespace Capsule.Workloads

open Atomic

section

variable {D : Side → Type}

/-- An operation of the service, the reconciler or a driver, or a `Kick`. -/
inductive WakeOp (D : Side → Type) where
  | wl (o : Op D)
  | kick

@[reducible] def WakeRes (DRes : (s : Side) → D s → Type) : WakeOp D → Type
  | .wl o => Res DRes o
  | .kick => Unit

structure WakeState (δ : Side → Type) where
  base : State δ
  /-- The channel holds a token. -/
  wake : Bool

variable {DRes : (s : Side) → D s → Type} {δ : Side → Type} {ε : Type}

def wakeSem (dsem : (s : Side) → Sem (D s) (DRes s) (δ s) ε) :
    Sem (WakeOp D) (WakeRes DRes) (WakeState δ) (Env ε)
  | .wl o, e, s => ({ s with base := (sem dsem o e s.base).1 }, (sem dsem o e s.base).2)
  -- the default branch of the send leaves the token that is there
  | .kick, _, s => ({ s with wake := true }, ())

theorem wake_kept (dsem : (s : Side) → Sem (D s) (DRes s) (δ s) ε) (o : WakeOp D) (e : Env ε)
    {s : WakeState δ} (h : s.wake = true) : (wakeSem dsem o e s).1.wake = true := by
  cases o with
  | wl o => exact h
  | kick => rfl

/-- A request, which notifies of the change it made when it succeeds. -/
def Request.notifying (svc : Service DRes) (r : Request) :
    Prog (WakeOp D) (WakeRes DRes) (Except Err Unit) :=
  ((r.code svc).lift .wl fun _ r => r).thenOk fun _ => .call .kick fun _ => .ret (.ok ())

def pass (svc : Service DRes) : Prog (WakeOp D) (WakeRes DRes) Unit :=
  (tick svc).lift .wl fun _ r => r

inductive Loop (DRes : (s : Side) → D s → Type) where
  | ticking (p : Prog (WakeOp D) (WakeRes DRes) Unit)
  | select
  | returned

/-- What is remembered of a run: the loop's `List`s and the requests' store writes. -/
inductive Mark (ι : Type) where
  | list
  | write (i : ι)
  deriving DecidableEq

structure Reconciling (ι : Type) (DRes : (s : Side) → D s → Type) (δ : Side → Type) where
  pool : Pool ι (WakeOp D) (WakeRes DRes) (WakeState δ) (Except Err Unit)
  run : Loop DRes
  past : List (Mark ι)

/-- What happens next: a step of a request, a step of `Run`, or one of the three things its
`select` waits for. -/
inductive Move (ι ε : Type) where
  | request (i : ι) (e : Env ε)
  | loop (e : Env ε)
  | ticker
  | wake
  | cancel

variable {ι : Type}

def requestMark (i : ι) : Option (WakeOp D) → List (Mark ι)
  | some (.wl (.put _)) | some (.wl (.delete _)) => [.write i]
  | _ => []

def loopMark : WakeOp D → List (Mark ι)
  | .wl .list => [.list]
  | _ => []

namespace Reconciling

/-- No request has begun and `Run` is before its first pass. -/
def begin (svc : Service DRes) (req : ι → Request) (s : State δ) : Reconciling ι DRes δ where
  pool := ⟨⟨s, false⟩, fun i => (req i).notifying svc⟩
  run := .ticking (pass svc)
  past := []

variable [DecidableEq ι]

def step (dsem : (s : Side) → Sem (D s) (DRes s) (δ s) ε) (svc : Service DRes)
    (c : Reconciling ι DRes δ) : Move ι ε → Reconciling ι DRes δ
  | .request i e =>
    { c with
      pool := c.pool.step (wakeSem dsem) (i, e)
      past := c.past ++ requestMark i (c.pool.thr i).next? }
  | .loop e =>
    match c.run with
    | .ticking (.call o k) =>
      { pool := { c.pool with st := (wakeSem dsem o e c.pool.st).1 }
        run := .ticking (k (wakeSem dsem o e c.pool.st).2)
        past := c.past ++ loopMark o }
    | .ticking (.ret ()) => { c with run := .select }
    | _ => c
  | .ticker =>
    match c.run with
    | .select => { c with run := .ticking (pass svc) }
    | _ => c
  | .wake =>
    match c.run, c.pool.st.wake with
    | .select, true =>
      { c with
        pool := { c.pool with st := { c.pool.st with wake := false } }
        run := .ticking (pass svc) }
    | _, _ => c
  | .cancel =>
    match c.run with
    | .select => { c with run := .returned }
    | _ => c

end Reconciling

/-- Nothing follows a kick, and only what has kicked returns nil. -/
def kickMonitor (DRes : (s : Side) → D s → Type) :
    Monitor (WakeOp D) (WakeRes DRes) (Except Err Unit) Bool where
  ok kicked _ := kicked = false
  next
    | _, .kick, _ => true
    | _, .wl _, _ => false
  fin kicked r := r = .ok () → kicked = true

theorem Request.notifying_obeys (svc : Service DRes) (r : Request) :
    (r.notifying svc).Obeys (kickMonitor DRes) false := by
  rw [Request.notifying, Prog.obeys_thenOk]
  refine Prog.obeys_lift (fun _ => rfl) (fun _ _ => rfl) _ ?_
  intro r
  cases r with
  | error e => exact fun h => nomatch h
  | ok _ => exact ⟨rfl, fun _ _ => rfl⟩

/-- Since the last `List` there is no write of `i`. -/
def Seen (i : ι) (past : List (Mark ι)) : Prop :=
  ∃ h₁ h₂, past = h₁ ++ .list :: h₂ ∧ .list ∉ h₂ ∧ .write i ∉ h₂

theorem seen_list (i : ι) (past : List (Mark ι)) : Seen i (past ++ [.list]) :=
  ⟨past, [], rfl, by simp, by simp⟩

theorem Seen.snoc {i : ι} {past : List (Mark ι)} (h : Seen i past) {m : Mark ι}
    (hm : m ≠ .write i) : Seen i (past ++ [m]) := by
  cases m with
  | list => exact seen_list i past
  | write j =>
    obtain ⟨h₁, h₂, rfl, hlist, hwrite⟩ := h
    have hji : i ≠ j := fun hij => hm (congrArg Mark.write hij.symm)
    exact ⟨h₁, h₂ ++ [.write j], by simp, by simpa using hlist, by simp [hwrite, hji]⟩

theorem Seen.loop {i : ι} {past : List (Mark ι)} (h : Seen i past) (o : WakeOp D) :
    Seen i (past ++ loopMark o) := by
  unfold loopMark
  split
  · exact seen_list i past
  · simpa using h

theorem Seen.request {i j : ι} {past : List (Mark ι)} (h : Seen i past) (hij : i ≠ j)
    (o : Option (WakeOp D)) : Seen i (past ++ requestMark j o) := by
  have hm : Mark.write j ≠ .write i := fun h => hij (Mark.write.inj h).symm
  unfold requestMark
  split
  · exact h.snoc hm
  · exact h.snoc hm
  · simpa using h

/-- What has become of the kick of `i`. -/
def Heard (svc : Service DRes) (c : Reconciling ι DRes δ) (i : ι) : Prop :=
  c.pool.st.wake = true ∨ c.run = .ticking (pass svc) ∨ Seen i c.past

/-- Each request keeps to the monitor, and every kick has been heard. -/
structure AllHeard (svc : Service DRes) (c : Reconciling ι DRes δ) (kicked : ι → Bool) : Prop where
  obeys : ∀ i, (c.pool.thr i).Obeys (kickMonitor DRes) (kicked i)
  heard : ∀ i, kicked i = true → Heard svc c i

namespace AllHeard

theorem begin (svc : Service DRes) (req : ι → Request) (s : State δ) :
    AllHeard svc (Reconciling.begin svc req s) fun _ => false where
  obeys i := (req i).notifying_obeys svc
  heard _ h := nomatch h

variable [DecidableEq ι] {dsem : (s : Side) → Sem (D s) (DRes s) (δ s) ε} {svc : Service DRes}
  {c : Reconciling ι DRes δ} {kicked : ι → Bool}

theorem request (h : AllHeard svc c kicked) (i : ι) (e : Env ε) :
    ∃ kicked', AllHeard svc (c.step dsem svc (.request i e)) kicked' := by
  simp only [Reconciling.step]
  cases hp : c.pool.thr i with
  | ret r =>
    refine ⟨kicked, ?_⟩
    rw [Pool.step_ret hp]
    simpa [requestMark] using h
  | call o k =>
    refine ⟨_, Pool.obeys_step h.obeys hp e, ?_⟩
    intro j hj
    by_cases hji : j = i
    · subst hji
      -- the only operation that leaves `i` kicked is the kick
      rw [Function.update_self] at hj
      cases o with
      | wl o => cases hj
      | kick =>
        refine .inl ?_
        rw [Pool.step_call hp]
        rfl
    · rw [Function.update_of_ne hji] at hj
      rcases h.heard j hj with hw | hrun | hseen
      · refine .inl ?_
        rw [Pool.step_call hp]
        exact wake_kept dsem o e hw
      · exact .inr (.inl hrun)
      · exact .inr (.inr (hseen.request hji _))

theorem pass_first {o : WakeOp D} {k : WakeRes DRes o → Prog (WakeOp D) (WakeRes DRes) Unit}
    (h : Prog.call o k = pass svc) : o = .wl .list :=
  Option.some.inj (congrArg Prog.next? h)

theorem loop (h : AllHeard svc c kicked) (e : Env ε) :
    AllHeard svc (c.step dsem svc (.loop e)) kicked := by
  simp only [Reconciling.step]
  split
  · rename_i o k hrun
    refine ⟨h.obeys, ?_⟩
    intro i hi
    rcases h.heard i hi with hw | hfresh | hseen
    · exact .inl (wake_kept dsem o e hw)
    · rw [hrun, Loop.ticking.injEq] at hfresh
      obtain rfl := pass_first hfresh
      exact .inr (.inr (seen_list i c.past))
    · exact .inr (.inr (hseen.loop o))
  · rename_i hrun
    refine ⟨h.obeys, ?_⟩
    intro i hi
    rcases h.heard i hi with hw | hfresh | hseen
    · exact .inl hw
    · rw [hrun, Loop.ticking.injEq] at hfresh; cases hfresh
    · exact .inr (.inr hseen)
  · exact h

/-- The step lemma. -/
theorem step (h : AllHeard svc c kicked) (m : Move ι ε) :
    ∃ kicked', AllHeard svc (c.step dsem svc m) kicked' := by
  cases m with
  | request i e => exact h.request i e
  | loop e => exact ⟨kicked, h.loop e⟩
  | ticker =>
    refine ⟨kicked, ?_⟩
    simp only [Reconciling.step]
    split
    · exact ⟨h.obeys, fun i _ => .inr (.inl rfl)⟩
    · exact h
  | wake =>
    refine ⟨kicked, ?_⟩
    simp only [Reconciling.step]
    split
    · exact ⟨h.obeys, fun i _ => .inr (.inl rfl)⟩
    · exact h
  | cancel =>
    refine ⟨kicked, ?_⟩
    simp only [Reconciling.step]
    split
    · rename_i hrun
      refine ⟨h.obeys, ?_⟩
      intro i hi
      rcases h.heard i hi with hw | hfresh | hseen
      · exact .inl hw
      · rw [hrun] at hfresh; cases hfresh
      · exact .inr (.inr hseen)
    · exact h

variable (dsem) in
/-- The run lemma. -/
theorem run (h : AllHeard svc c kicked) (w : List (Move ι ε)) :
    ∃ kicked', AllHeard svc (w.foldl (Reconciling.step dsem svc) c) kicked' := by
  induction w generalizing c kicked with
  | nil => exact ⟨kicked, h⟩
  | cons m w ih => obtain ⟨kicked', h'⟩ := h.step m; exact ih h'

end AllHeard

/-- When `Run` waits at its `select` and the channel is empty, the last `List` came after every
store write of every request that has returned nil. -/
theorem no_lost_wakeup [DecidableEq ι] (dsem : (s : Side) → Sem (D s) (DRes s) (δ s) ε)
    (svc : Service DRes) (req : ι → Request) (s : State δ) (w : List (Move ι ε))
    (hidle : (w.foldl (Reconciling.step dsem svc) (.begin svc req s)).run = .select)
    (hempty : (w.foldl (Reconciling.step dsem svc) (.begin svc req s)).pool.st.wake = false)
    (i : ι)
    (hi : (w.foldl (Reconciling.step dsem svc) (.begin svc req s)).pool.thr i = .ret (.ok ())) :
    Seen i (w.foldl (Reconciling.step dsem svc) (.begin svc req s)).past := by
  obtain ⟨kicked, h⟩ := (AllHeard.begin svc req s).run dsem w
  have hk : kicked i = true := by
    have hob := h.obeys i
    rw [hi] at hob
    exact hob rfl
  rcases h.heard i hk with hw | hfresh | hseen
  · rw [hempty] at hw; cases hw
  · rw [hidle] at hfresh; cases hfresh
  · exact hseen

end

/-- One request, `Apply` of a workload for which no driver is wired. -/
def applied (_ : Unit) : Request :=
  .apply (some ⟨"blog", .container, some ⟨"blog", []⟩, none, none, .running⟩)

/-- Nothing is stored, nothing is wired. -/
def nothing : State fun _ => Unit := ⟨Keyed.Table.empty, fun _ => ()⟩

def noCalls (s : Side) : Sem Empty (fun _ => Unit) Unit Unit := fun d _ _ => nomatch s, d

/-- The first pass lists before `Apply` has written and ends after it; the kick makes another. -/
def woken : List (Move Unit Unit) :=
  [.request () ⟨none, ()⟩, .loop ⟨none, ()⟩, .request () ⟨none, ()⟩, .request () ⟨none, ()⟩,
    .loop ⟨none, ()⟩, .wake] ++ List.replicate 4 (.loop ⟨none, ()⟩)

theorem no_lost_wakeup_apply :
    Seen () (woken.foldl (Reconciling.step noCalls fun _ => none)
      (.begin (fun _ => none) applied nothing)).past :=
  no_lost_wakeup noCalls (fun _ => none) applied nothing woken rfl rfl () rfl

end Capsule.Workloads
