import Capsule.Workloads.Interface

/-!
# Capsule.Workloads.Tick

What one pass of the reconciler makes of each workload, when it runs alone and the store answers.

A driver is a machine for each name (`Machine`), and `settle` is what a pass makes of the view of a
name, its row and the state of both drivers.

* `Settles`, `reconcileOne_settles`: the code for a row does what `settle` says to its name, and
  nothing to others; where that changes nothing, no row is put.
* `tick_view`: so does a whole pass.
* `tick_steady`: a second pass changes nothing and puts nothing, for drivers that can be called
  again (`Machine.Lawful`).
* `tick_establishes`: after one pass every row has what it asks for, or says what failed.
-/

namespace Capsule.Workloads

open Atomic Keyed

/-- A driver whose calls read and change the state of their own name only. What it decides beyond
its instances (whether an image is there, whether a device answers) is part of that state. -/
structure Machine (μ : Type) where
  ensureRunning : Workload → μ → μ × Except Err Unit
  remove : String → μ → μ × Except Err Unit
  status : String → μ → Except Err RuntimeStatus

def Machine.sem {μ : Type} (M : Machine μ) : Sem DriverCall DriverCall.Res (String → μ) Unit
  | .ensureRunning w, _, t =>
    (Function.update t w.name (M.ensureRunning w (t w.name)).1, (M.ensureRunning w (t w.name)).2)
  | .remove n, _, t => (Function.update t n (M.remove n (t n)).1, (M.remove n (t n)).2)
  | .status n, _, t => (t, M.status n (t n))

section

variable {μ : Side → Type}

/-- The states of both drivers, name by name. -/
abbrev Devices (μ : Side → Type) (side : Side) : Type := String → μ side

/-- What there is of one name. -/
structure View (μ : Side → Type) where
  row : Option Workload
  dev : (side : Side) → μ side

def State.view (s : State (Devices μ)) (n : String) : View μ :=
  ⟨s.rows.get n, fun side => s.dev side n⟩

def View.withStatus (st : WorkloadStatus) (v : View μ) : View μ :=
  { v with row := v.row.map ({ · with status := some st }) }

def View.setDev (side : Side) (m : μ side) (v : View μ) : View μ :=
  { v with dev := Function.update v.dev side m }

variable (M : (side : Side) → Machine (μ side)) (wired : Side → Bool)

def stoppedStatus : WorkloadStatus := ⟨.stopped, "stopped by operator", 0⟩

def failedStatus (msg : String) : WorkloadStatus := ⟨.failed, msg, 0⟩

def reportedStatus (st : RuntimeStatus) : WorkloadStatus := ⟨toProtoPhase st.phase, st.message, 0⟩

/-- A workload that is to be stopped. -/
def settleStopped (w : Workload) (v : View μ) : View μ :=
  match (side? w.kind).filter wired with
  | none => v.withStatus stoppedStatus
  | some side => (v.setDev side ((M side).remove w.name (v.dev side)).1).withStatus stoppedStatus

/-- A workload that is to run on `side`, once `EnsureRunning` has left `m` and answered `r`. -/
def settleStarted (side : Side) (n : String) (v : View μ) (m : μ side) :
    Except Err Unit → View μ
  | .error e => (v.setDev side m).withStatus (failedStatus e.msg)
  | .ok () =>
    match (M side).status n m with
    | .error _ => v.setDev side m
    | .ok st => (v.setDev side m).withStatus (reportedStatus st)

/-- A workload that is to run. -/
def settleRunning (w : Workload) (v : View μ) : View μ :=
  match side? w.kind with
  | none => v.withStatus (failedStatus "unsupported kind")
  | some side =>
    if wired side then
      settleStarted M side w.name v ((M side).ensureRunning w (v.dev side)).1
        ((M side).ensureRunning w (v.dev side)).2
    else v.withStatus (failedStatus (noRuntimeText side))

/-- What a pass that listed the row `w` makes of its name. -/
def settle (w : Workload) (v : View μ) : View μ :=
  match w.desiredState with
  | .deleting => v
  | .stopped => settleStopped M wired w v
  | _ => settleRunning M wired w v

def answering : Nat → Env Unit := fun _ => ⟨none, ()⟩

/-- What code leaves when it runs alone and the store answers. -/
def afterRun {α : Type} (p : Code CallsRes α) (s : State (Devices μ)) : State (Devices μ) × α :=
  p.complete (sem fun side => (M side).sem) answering s

def operations {α : Type} (p : Code CallsRes α) (s : State (Devices μ)) : List (Op Calls) :=
  p.performed (sem fun side => (M side).sem) answering s

variable {M wired} {s : State (Devices μ)} {n : String}

theorem afterRun_bind {α β : Type} (p : Code CallsRes α) (f : α → Code CallsRes β) :
    afterRun M (p >>= f) s = afterRun M (f (afterRun M p s).2) (afterRun M p s).1 :=
  Prog.complete_bind p f s

theorem operations_bind {α β : Type} (p : Code CallsRes α) (f : α → Code CallsRes β) :
    operations M (p >>= f) s =
      operations M p s ++ operations M (f (afterRun M p s).2) (afterRun M p s).1 :=
  Prog.performed_bind p f s

/-- From `s` to `s'` by `ops`, the view of `n` has become `v`: nothing else has changed, and if that
has not either, no row was put. -/
structure Settles (s : State (Devices μ)) (n : String) (v : View μ) (s' : State (Devices μ))
    (ops : List (Op Calls)) : Prop where
  view : s'.view = Function.update s.view n v
  still : v = s.view n → s' = s ∧ ∀ r, .put r ∉ ops

theorem Settles.nothing (s : State (Devices μ)) (n : String) : Settles s n (s.view n) s [] where
  view := (Function.update_eq_self n s.view).symm
  still _ := ⟨rfl, by simp⟩

theorem view_put (r : Workload) :
    State.view { s with rows := s.rows.put r } =
      Function.update s.view r.name { s.view r.name with row := some r } := by
  funext n
  by_cases hn : n = r.name
  · subst hn; simp [State.view]
  · simp [State.view, Function.update_of_ne hn, Table.get_put_ne _ hn]

theorem setStatus_run {r : Workload} (hr : s.rows.get n = some r) (st : WorkloadStatus) :
    (afterRun M (setStatus n st) s).1 =
        (if r.status = some st then s
          else { s with rows := s.rows.put { r with status := some st } }) ∧
      operations M (setStatus n st) s =
        if r.status = some st then [.get n] else [.get n, .put { r with status := some st }] := by
  have hrow : getRow s n = .ok r := by simp [getRow, hr]
  by_cases hst : r.status = some st
  · simp [setStatus, afterRun, operations, Prog.thenOk, Prog.complete, Prog.performed, answering,
      sem, hrow, hst]
  · simp [setStatus, afterRun, operations, Prog.thenOk, Prog.complete, Prog.performed, answering,
      sem, hrow, hst]

theorem setStatus_run_none (hr : s.rows.get n = none) (st : WorkloadStatus) :
    (afterRun M (setStatus n st) s).1 = s ∧ operations M (setStatus n st) s = [.get n] := by
  have hrow : getRow s n = .error (.sentinel .notFound) := by simp [getRow, hr]
  simp [setStatus, afterRun, operations, Prog.thenOk, Prog.complete, Prog.performed, answering, sem,
    hrow]

theorem writeStatus_settles (s : State (Devices μ)) (n : String) (ph : WorkloadPhase)
    (msg : String) :
    Settles s n ((s.view n).withStatus ⟨ph, msg, 0⟩) (afterRun M (writeStatus n ph msg) s).1
      (operations M (writeStatus n ph msg) s) := by
  have hrun : afterRun M (writeStatus n ph msg) s =
      ((afterRun M (setStatus n ⟨ph, msg, 0⟩) s).1, ()) := afterRun_bind _ _
  have hops : operations M (writeStatus n ph msg) s =
      operations M (setStatus n ⟨ph, msg, 0⟩) s :=
    (operations_bind _ _).trans (List.append_nil _)
  rw [hrun, hops]
  cases hr : s.rows.get n with
  | none =>
    have hv : (s.view n).withStatus ⟨ph, msg, 0⟩ = s.view n := by
      simp [View.withStatus, State.view, hr]
    obtain ⟨hst, hop⟩ := setStatus_run_none (M := M) hr ⟨ph, msg, 0⟩
    rw [hst, hop, hv]
    exact ⟨(Function.update_eq_self n s.view).symm, fun _ => ⟨rfl, by simp⟩⟩
  | some r =>
    obtain ⟨hst, hop⟩ := setStatus_run (M := M) hr ⟨ph, msg, 0⟩
    have hv : (s.view n).withStatus ⟨ph, msg, 0⟩ =
        { s.view n with row := some { r with status := some ⟨ph, msg, 0⟩ } } := by
      simp [View.withStatus, State.view, hr]
    rw [hst, hop, hv]
    by_cases hsame : r.status = some ⟨ph, msg, 0⟩
    · have hr' : { r with status := some ⟨ph, msg, 0⟩ } = r := by rw [← hsame]
      rw [if_pos hsame, if_pos hsame, hr', ← hr]
      exact ⟨(Function.update_eq_self n s.view).symm, fun _ => ⟨rfl, by simp⟩⟩
    · have hn : r.name = n := Table.get_some_key hr
      rw [if_neg hsame, if_neg hsame]
      refine ⟨?_, ?_⟩
      · rw [view_put, ← hn]
      · intro h
        have hrow : some { r with status := some ⟨ph, msg, 0⟩ } = some r :=
          (congrArg View.row h).trans hr
        exact absurd (congrArg Workload.status (Option.some.inj hrow)).symm hsame

/-- The state a driver call leaves. -/
def State.setDev (s : State (Devices μ)) (side : Side) (n : String) (m : μ side) :
    State (Devices μ) :=
  { s with dev := Function.update s.dev side (Function.update (s.dev side) n m) }

theorem view_setDev (s : State (Devices μ)) (side : Side) (n : String) (m : μ side) :
    (s.setDev side n m).view = Function.update s.view n ((s.view n).setDev side m) := by
  funext k
  by_cases hk : k = n
  · subst hk
    rw [Function.update_self]
    simp only [State.view, State.setDev, View.setDev, View.mk.injEq, true_and]
    funext side'
    by_cases hs : side' = side
    · subst hs; simp
    · simp [Function.update_of_ne hs]
  · rw [Function.update_of_ne hk]
    simp only [State.view, State.setDev, View.mk.injEq, true_and]
    funext side'
    by_cases hs : side' = side
    · subst hs; simp [Function.update_of_ne hk]
    · simp [Function.update_of_ne hs]

theorem view_setDev_self (s : State (Devices μ)) (side : Side) (n : String) (m : μ side) :
    (s.setDev side n m).view n = (s.view n).setDev side m := by
  rw [view_setDev, Function.update_self]

theorem setDev_self (s : State (Devices μ)) (side : Side) (n : String) :
    s.setDev side n (s.dev side n) = s := by
  simp [State.setDev]

section Calls

variable {β : Type} (side : Side) (w : Workload)

theorem afterRun_ensure (k : Except Err Unit → Code CallsRes β) :
    afterRun M (onDriver side (callDriver.ensureRunning w) >>= k) s =
      afterRun M (k ((M side).ensureRunning w (s.dev side w.name)).2)
        (s.setDev side w.name ((M side).ensureRunning w (s.dev side w.name)).1) := rfl

theorem operations_ensure (k : Except Err Unit → Code CallsRes β) :
    operations M (onDriver side (callDriver.ensureRunning w) >>= k) s =
      .drv side (.ensureRunning w) ::
        operations M (k ((M side).ensureRunning w (s.dev side w.name)).2)
          (s.setDev side w.name ((M side).ensureRunning w (s.dev side w.name)).1) := rfl

theorem afterRun_status (k : Except Err RuntimeStatus → Code CallsRes β) :
    afterRun M (onDriver side (callDriver.status n) >>= k) s =
      afterRun M (k ((M side).status n (s.dev side n))) s := by
  change afterRun M (k _) (State.mk s.rows (Function.update s.dev side (s.dev side))) = _
  rw [Function.update_eq_self]
  rfl

theorem operations_status (k : Except Err RuntimeStatus → Code CallsRes β) :
    operations M (onDriver side (callDriver.status n) >>= k) s =
      .drv side (.status n) :: operations M (k ((M side).status n (s.dev side n))) s := by
  change _ :: operations M (k _) (State.mk s.rows (Function.update s.dev side (s.dev side))) = _
  rw [Function.update_eq_self]
  rfl

end Calls

theorem Settles.cons {v : View μ} {s' : State (Devices μ)} {ops : List (Op Calls)}
    (h : Settles s n v s' ops) (side : Side) (d : DriverCall) :
    Settles s n v s' (.drv side d :: ops) where
  view := h.view
  still hv := ⟨(h.still hv).1, fun r hr => (h.still hv).2 r (List.mem_of_ne_of_mem (by simp) hr)⟩

theorem Settles.drv {side : Side} {m : μ side} {v : View μ} {s' : State (Devices μ)}
    {ops : List (Op Calls)} (h : Settles (s.setDev side n m) n v s' ops) (hm : v.dev side = m)
    (d : DriverCall) : Settles s n v s' (.drv side d :: ops) := by
  refine Settles.cons ⟨?_, ?_⟩ side d
  · rw [h.view, view_setDev, Function.update_idem]
  · intro hv
    have hself : s.setDev side n m = s := by
      rw [← hm, hv]; exact setDev_self s side n
    rw [hself] at h
    exact h.still hv

/-! ### One row -/

theorem reconcileStopped_settles (s : State (Devices μ)) (w : Workload) :
    Settles s w.name (settleStopped M wired w (s.view w.name))
      (afterRun M (reconcileStopped (callService wired) w) s).1
      (operations M (reconcileStopped (callService wired) w) s) := by
  unfold reconcileStopped settleStopped
  cases side? w.kind with
  | none => exact writeStatus_settles s _ _ _
  | some side =>
    simp only [callService, Option.bind_some, Option.filter_some]
    cases wired side with
    | false => exact writeStatus_settles s _ _ _
    | true =>
      have hs := writeStatus_settles (M := M)
        (s.setDev side w.name ((M side).remove w.name (s.dev side w.name)).1) w.name .stopped
        "stopped by operator"
      rw [view_setDev_self] at hs
      exact hs.drv (by simp [View.withStatus, View.setDev]) (.remove w.name)

theorem reconcileRunning_settles (s : State (Devices μ)) (w : Workload) :
    Settles s w.name (settleRunning M wired w (s.view w.name))
      (afterRun M (reconcileRunning (callService wired) w) s).1
      (operations M (reconcileRunning (callService wired) w) s) := by
  unfold reconcileRunning settleRunning
  cases side? w.kind with
  | none => exact writeStatus_settles s _ _ _
  | some side =>
    simp only [callService]
    cases wired side with
    | false => exact writeStatus_settles s _ _ _
    | true =>
      simp only [if_true]
      rw [afterRun_ensure, operations_ensure]
      change Settles s w.name (settleStarted M side w.name (s.view w.name)
        ((M side).ensureRunning w (s.dev side w.name)).1
        ((M side).ensureRunning w (s.dev side w.name)).2) _ _
      -- the state `EnsureRunning` leaves, and its answer
      obtain ⟨m, r⟩ := (M side).ensureRunning w (s.dev side w.name)
      have hdev : (s.setDev side w.name m).dev side w.name = m := by simp [State.setDev]
      cases r with
      | error e =>
        have hs := writeStatus_settles (M := M) (s.setDev side w.name m) w.name .failed e.msg
        rw [view_setDev_self] at hs
        exact hs.drv (by simp [View.withStatus, View.setDev]) _
      | ok _ =>
        dsimp only
        rw [afterRun_status, operations_status, hdev, settleStarted]
        cases (M side).status w.name m with
        | error e =>
          have hs := Settles.nothing (s.setDev side w.name m) w.name
          rw [view_setDev_self] at hs
          exact (hs.cons side _).drv (by simp [View.setDev]) _
        | ok st =>
          have hs := writeStatus_settles (M := M) (s.setDev side w.name m) w.name
            (toProtoPhase st.phase) st.message
          rw [view_setDev_self] at hs
          exact (hs.cons side _).drv (by simp [View.withStatus, View.setDev]) _

variable (M wired) in
theorem reconcileOne_settles (s : State (Devices μ)) (w : Workload) :
    Settles s w.name (settle M wired w (s.view w.name))
      (afterRun M (reconcileOne (callService wired) w) s).1
      (operations M (reconcileOne (callService wired) w) s) := by
  unfold reconcileOne settle
  cases w.desiredState with
  | deleting => exact Settles.nothing s w.name
  | stopped => exact reconcileStopped_settles s w
  | unspecified => exact reconcileRunning_settles s w
  | running => exact reconcileRunning_settles s w

variable (M wired) in
theorem reconcileAll_view (ws : List Workload) (hws : (ws.map Workload.name).Nodup)
    (s : State (Devices μ)) :
    (∀ w ∈ ws, (afterRun M (reconcileAll (callService wired) ws) s).1.view w.name =
        settle M wired w (s.view w.name)) ∧
      ∀ n ∉ ws.map Workload.name,
        (afterRun M (reconcileAll (callService wired) ws) s).1.view n = s.view n := by
  induction ws generalizing s with
  | nil => exact ⟨by simp, fun n _ => rfl⟩
  | cons w ws ih =>
    rw [List.map_cons, List.nodup_cons] at hws
    have hone := (reconcileOne_settles M wired s w).view
    rw [reconcileAll, afterRun_bind]
    generalize (afterRun M (reconcileOne (callService wired) w) s).1 = s₁ at hone ⊢
    obtain ⟨hin, hout⟩ := ih hws.2 s₁
    refine ⟨?_, ?_⟩
    · intro v hv
      rcases List.mem_cons.mp hv with rfl | hv
      · rw [hout v.name hws.1, hone, Function.update_self]
      · have hne : v.name ≠ w.name := fun h => hws.1 (h ▸ List.mem_map_of_mem hv)
        rw [hin v hv, hone, Function.update_of_ne hne]
    · intro n hn
      rw [List.map_cons, List.mem_cons, not_or] at hn
      rw [hout n hn.2, hone, Function.update_of_ne hn.1]

variable (M wired) in
theorem reconcileAll_still (ws : List Workload) (s : State (Devices μ))
    (hws : ∀ w ∈ ws, settle M wired w (s.view w.name) = s.view w.name) :
    (afterRun M (reconcileAll (callService wired) ws) s).1 = s ∧
      ∀ r, .put r ∉ operations M (reconcileAll (callService wired) ws) s := by
  induction ws with
  | nil => exact ⟨rfl, by simp [operations, reconcileAll, Prog.performed]⟩
  | cons w ws ih =>
    obtain ⟨hone, hops⟩ := (reconcileOne_settles M wired s w).still
      (hws w List.mem_cons_self)
    obtain ⟨hall, hops'⟩ := ih fun v hv => hws v (List.mem_cons_of_mem w hv)
    rw [reconcileAll, afterRun_bind, operations_bind, hone]
    refine ⟨hall, ?_⟩
    intro r hr
    rcases List.mem_append.mp hr with hr | hr
    · exact hops r hr
    · exact hops' r hr

variable (M wired) in
theorem listed_view {ws : List Workload} (hws : ws.Perm s.rows.list) (n : String) :
    (∀ w, s.rows.get n = some w →
        (afterRun M (reconcileAll (callService wired) ws) s).1.view n =
          settle M wired w (s.view n)) ∧
      (s.rows.get n = none →
        (afterRun M (reconcileAll (callService wired) ws) s).1.view n = s.view n) := by
  have hnodup : (ws.map Workload.name).Nodup :=
    (hws.map Workload.name).nodup_iff.mpr s.rows.nodup_list
  obtain ⟨hin, hout⟩ := reconcileAll_view M wired ws hnodup s
  refine ⟨?_, ?_⟩
  · intro w hw
    obtain rfl : w.name = n := Table.get_some_key hw
    exact hin w (hws.mem_iff.mpr (Table.mem_list.mpr (Table.mem_of_get hw)))
  · intro hn
    refine hout n ?_
    intro hmem
    obtain ⟨w, hw, rfl⟩ := List.mem_map.mp hmem
    rw [Table.get_of_mem (Table.mem_list.mp (hws.mem_iff.mp hw))] at hn
    cases hn

variable (M wired) in
theorem tick_view (s : State (Devices μ)) (n : String) :
    (∀ w, s.rows.get n = some w →
        (afterRun M (tick (callService wired)) s).1.view n = settle M wired w (s.view n)) ∧
      (s.rows.get n = none →
        (afterRun M (tick (callService wired)) s).1.view n = s.view n) :=
  listed_view M wired (List.Perm.refl _) n

/-- A driver that does not do differently again what it has done: the calls can be repeated, one
that fails leaves its state, and the status of a row means nothing to it. -/
structure Machine.Lawful {μ : Type} (M : Machine μ) : Prop where
  ensure_again : ∀ w m, (M.ensureRunning w m).2 = .ok () →
    M.ensureRunning w (M.ensureRunning w m).1 = M.ensureRunning w m
  ensure_failed : ∀ w m e, (M.ensureRunning w m).2 = .error e → (M.ensureRunning w m).1 = m
  ensure_body : ∀ w m, M.ensureRunning w.body m = M.ensureRunning w m
  remove_again : ∀ n m, (M.remove n m).2 = .ok () → M.remove n (M.remove n m).1 = M.remove n m
  remove_failed : ∀ n m e, (M.remove n m).2 = .error e → (M.remove n m).1 = m

theorem Machine.Lawful.ensure_twice {μ : Type} {M : Machine μ} (hM : M.Lawful) (w : Workload)
    (m : μ) : M.ensureRunning w (M.ensureRunning w m).1 = M.ensureRunning w m := by
  cases hr : (M.ensureRunning w m).2 with
  | ok _ => exact hM.ensure_again w m hr
  | error e => rw [hM.ensure_failed w m e hr]

theorem Machine.Lawful.remove_twice {μ : Type} {M : Machine μ} (hM : M.Lawful) (n : String)
    (m : μ) : M.remove n (M.remove n m).1 = M.remove n m := by
  cases hr : (M.remove n m).2 with
  | ok _ => exact hM.remove_again n m hr
  | error e => rw [hM.remove_failed n m e hr]

section View

variable {v : View μ} {side : Side}

@[simp] theorem withStatus_dev (st : WorkloadStatus) : (v.withStatus st).dev = v.dev := rfl

@[simp] theorem setDev_dev_self (m : μ side) : (v.setDev side m).dev side = m := by
  simp [View.setDev]

@[simp] theorem withStatus_withStatus (st st' : WorkloadStatus) :
    (v.withStatus st).withStatus st' = v.withStatus st' := by
  simp [View.withStatus, Function.comp_def]

@[simp] theorem withStatus_setDev (st : WorkloadStatus) (m : μ side) :
    (v.withStatus st).setDev side m = (v.setDev side m).withStatus st := rfl

@[simp] theorem setDev_setDev (m m' : μ side) :
    (v.setDev side m).setDev side m' = v.setDev side m' := by
  simp [View.setDev]

theorem withStatus_body (st : WorkloadStatus) :
    (v.withStatus st).row.map Workload.body = v.row.map Workload.body := by
  rw [View.withStatus, Option.map_map]
  rfl

end View

theorem settleStarted_body (side : Side) (n : String) (v : View μ) (m : μ side)
    (r : Except Err Unit) :
    (settleStarted M side n v m r).row.map Workload.body = v.row.map Workload.body := by
  unfold settleStarted
  cases r with
  | error e => exact withStatus_body _
  | ok _ =>
    cases (M side).status n m with
    | error e => rfl
    | ok st => exact withStatus_body _

variable (M wired) in
theorem settle_body (w : Workload) (v : View μ) :
    (settle M wired w v).row.map Workload.body = v.row.map Workload.body := by
  have hrun : (settleRunning M wired w v).row.map Workload.body = v.row.map Workload.body := by
    unfold settleRunning
    cases side? w.kind with
    | none => exact withStatus_body _
    | some side =>
      dsimp only
      split
      · exact settleStarted_body side w.name v _ _
      · exact withStatus_body _
  unfold settle
  cases w.desiredState with
  | deleting => rfl
  | stopped =>
    dsimp only [settleStopped]
    cases (side? w.kind).filter wired with
    | none => exact withStatus_body _
    | some side => exact withStatus_body _
  | unspecified => exact hrun
  | running => exact hrun

theorem settle_congr (hM : ∀ side, (M side).Lawful) {w w' : Workload} (h : w'.body = w.body)
    (v : View μ) : settle M wired w' v = settle M wired w v := by
  have hname : w'.name = w.name := by simpa [Workload.body] using congrArg Workload.name h
  have hkind : w'.kind = w.kind := by simpa [Workload.body] using congrArg Workload.kind h
  have hdesired : w'.desiredState = w.desiredState := by
    simpa [Workload.body] using congrArg Workload.desiredState h
  have hensure : ∀ side m, (M side).ensureRunning w' m = (M side).ensureRunning w m := by
    intro side m; rw [← (hM side).ensure_body w', h, (hM side).ensure_body]
  simp only [settle, settleStopped, settleRunning, hname, hkind, hdesired, hensure]

theorem settleStarted_twice (side : Side) (n : String) (v : View μ) (m : μ side)
    (r : Except Err Unit) :
    (settleStarted M side n v m r).dev side = m ∧
      settleStarted M side n (settleStarted M side n v m r) m r =
        settleStarted M side n v m r := by
  cases r with
  | error e => simp [settleStarted]
  | ok _ =>
    cases hst : (M side).status n m with
    | error e => simp [settleStarted, hst]
    | ok st => simp [settleStarted, hst]

theorem settle_twice (hM : ∀ side, (M side).Lawful) (w : Workload) (v : View μ) :
    settle M wired w (settle M wired w v) = settle M wired w v := by
  have hrun : settleRunning M wired w (settleRunning M wired w v) = settleRunning M wired w v := by
    unfold settleRunning
    cases side? w.kind with
    | none => simp
    | some side =>
      dsimp only
      cases wired side with
      | false => simp
      | true =>
        obtain ⟨hdev, htwice⟩ := settleStarted_twice (M := M) side w.name v
          ((M side).ensureRunning w (v.dev side)).1 ((M side).ensureRunning w (v.dev side)).2
        simp only [if_true, hdev, (hM side).ensure_twice, htwice]
  unfold settle
  cases w.desiredState with
  | deleting => rfl
  | stopped =>
    dsimp only [settleStopped]
    cases (side? w.kind).filter wired with
    | none => simp
    | some side => simp [(hM side).remove_twice]
  | unspecified => exact hrun
  | running => exact hrun

theorem settled_after (hM : ∀ side, (M side).Lawful) {n : String} {w : Workload}
    (hw : (afterRun M (tick (callService wired)) s).1.rows.get n = some w) :
    settle M wired w ((afterRun M (tick (callService wired)) s).1.view n) =
      (afterRun M (tick (callService wired)) s).1.view n := by
  obtain ⟨hin, hout⟩ := tick_view M wired s n
  cases hr : s.rows.get n with
  | none =>
    -- a name without a row has none after the pass
    have hrow : (afterRun M (tick (callService wired)) s).1.rows.get n = s.rows.get n :=
      congrArg View.row (hout hr)
    rw [hrow, hr] at hw
    cases hw
  | some r =>
    have hview := hin r hr
    have hrow : (settle M wired r (s.view n)).row = some w := by
      rw [← hview]; exact hw
    have hbody : w.body = r.body := by
      have hb := settle_body M wired r (s.view n)
      rw [hrow] at hb
      exact Option.some.inj (hb.trans (congrArg (Option.map Workload.body) hr))
    rw [hview, settle_congr hM hbody]
    exact settle_twice hM r (s.view n)

/-- Once a pass is done, a second one changes no row and no driver state and puts nothing; and a
pass ends in the same rows and driver states whatever order the rows are listed in. -/
theorem tick_steady (M : (side : Side) → Machine (μ side)) (hM : ∀ side, (M side).Lawful)
    (wired : Side → Bool) (s : State (Devices μ)) :
    (afterRun M (tick (callService wired)) (afterRun M (tick (callService wired)) s).1).1 =
        (afterRun M (tick (callService wired)) s).1 ∧
      (∀ r, .put r ∉ operations M (tick (callService wired))
        (afterRun M (tick (callService wired)) s).1) ∧
      ∀ ws, ws.Perm s.rows.list →
        (afterRun M (reconcileAll (callService wired) ws) s).1.view =
          (afterRun M (tick (callService wired)) s).1.view := by
  have hstill := reconcileAll_still M wired
    (afterRun M (tick (callService wired)) s).1.rows.list
    (afterRun M (tick (callService wired)) s).1 fun w hw =>
      settled_after hM (Table.get_of_mem (Table.mem_list.mp hw))
  refine ⟨hstill.1, ?_, ?_⟩
  · intro r hr; exact hstill.2 r (List.mem_of_ne_of_mem (by simp) hr)
  · intro ws hws
    funext n
    obtain ⟨hin, hout⟩ := listed_view M wired hws n
    obtain ⟨hin', hout'⟩ := tick_view M wired s n
    cases hr : s.rows.get n with
    | none => rw [hout hr, hout' hr]
    | some w => rw [hin w hr, hin' w hr]

end

/-! ### A driver that cannot start one of its workloads -/

/-- A container or a virtual machine: what it was started on, and how it is doing. -/
structure Instance where
  container : Option ContainerSpec
  microVm : Option MicroVMSpec
  status : RuntimeStatus

def partly : Machine (Option Instance) where
  ensureRunning w m :=
    if w.name = "bad" then (m, .error (.text "image not found"))
    else (some ⟨w.container, w.microVm, ⟨.running, ""⟩⟩, .ok ())
  remove _ _ := (none, .ok ())
  status _ m := .ok ((m.map Instance.status).getD ⟨.unknown, ""⟩)

theorem partly_lawful : partly.Lawful where
  ensure_again w m h := by
    simp only [partly] at h ⊢
    split at h <;> simp_all
  ensure_failed w m e h := by
    simp only [partly] at h ⊢
    split at h <;> simp_all
  ensure_body _ _ := rfl
  remove_again _ _ _ := rfl
  remove_failed _ _ _ h := nomatch h

def job : Workload := ⟨"job", .container, some ⟨"job", []⟩, none, none, .running⟩

def bad : Workload := ⟨"bad", .container, some ⟨"nowhere", []⟩, none, none, .running⟩

def idle : Workload := ⟨"idle", .microVm, none, none, none, .stopped⟩

/-- Three workloads, of which only the one that is to be stopped runs. -/
def mixed : State (Devices fun _ => Option Instance) where
  rows := ((Table.empty.put job).put bad).put idle
  dev side n := if side = .vm ∧ n = "idle" then some ⟨none, none, ⟨.running, ""⟩⟩ else none

theorem tick_steady_mixed :
    let s := (afterRun (fun _ => partly) (tick (callService fun _ => true)) mixed).1
    (afterRun (fun _ => partly) (tick (callService fun _ => true)) s).1 = s ∧
      (∀ r, .put r ∉ operations (fun _ => partly) (tick (callService fun _ => true)) s) ∧
      (afterRun (fun _ => partly) (reconcileAll (callService fun _ => true)
        mixed.rows.list.reverse) mixed).1.view = s.view :=
  have h := tick_steady (fun _ => partly) (fun _ => partly_lawful) (fun _ => true) mixed
  ⟨h.1, h.2.1, h.2.2 _ (List.reverse_perm _)⟩

section

variable {μ : Side → Type} {M : (side : Side) → Machine (μ side)} {wired : Side → Bool}

/-- The instance was started on the workload's spec. -/
def Instance.On (i : Instance) (w : Workload) : Prop :=
  i.container = w.container ∧ i.microVm = w.microVm

/-- A driver as a map of instances, `inst` being the one under a name: `EnsureRunning` fails or
leaves one on the workload's spec, `Remove` fails or leaves none, and `Status` reports it. -/
structure Machine.Keeps {μ : Type} (M : Machine μ) (inst : μ → Option Instance) : Prop where
  ensure : ∀ w m, (M.ensureRunning w m).2 = .ok () →
    ∃ i, inst (M.ensureRunning w m).1 = some i ∧ i.On w
  remove : ∀ n m, (M.remove n m).2 = .ok () → inst (M.remove n m).1 = none
  status : ∀ n m i, inst m = some i → M.status n m = .ok i.status

def Workload.Wanted (w : Workload) : Prop :=
  w.desiredState = .running ∨ w.desiredState = .unspecified

/-- The phase in a row says what the driver's says. -/
inductive SamePhase : WorkloadPhase → RuntimePhase → Prop where
  | running : SamePhase .running .running
  | pending : SamePhase .pending .pending
  | stopped : SamePhase .stopped .stopped
  | failed : SamePhase .failed .failed
  | unknown : SamePhase .unspecified .unknown

theorem samePhase_toProtoPhase (phase : RuntimePhase) : SamePhase (toProtoPhase phase) phase := by
  cases phase <;> constructor

/-- What a pass from `s` to `s'` does for the name `n`. -/
structure Establishes (M : (side : Side) → Machine (μ side))
    (inst : (side : Side) → μ side → Option Instance) (wired : Side → Bool)
    (s s' : State (Devices μ)) (n : String) : Prop where
  running : ∀ w side, s.rows.get n = some w → w.Wanted → side? w.kind = some side →
    wired side = true → ((M side).ensureRunning w (s.dev side n)).2 = .ok () →
      ∃ r i phase, s'.rows.get n = some r ∧ inst side (s'.dev side n) = some i ∧ i.On r ∧
        r.status = some ⟨phase, i.status.message, 0⟩ ∧ SamePhase phase i.status.phase
  failed : ∀ w side e, s.rows.get n = some w → w.Wanted → side? w.kind = some side →
    wired side = true → ((M side).ensureRunning w (s.dev side n)).2 = .error e →
      ∃ r, s'.rows.get n = some r ∧ r.status = some (failedStatus e.msg)
  noDriver : ∀ w side, s.rows.get n = some w → w.Wanted → side? w.kind = some side →
    wired side = false →
      ∃ r, s'.rows.get n = some r ∧ r.status = some (failedStatus
        (if side = .vm then "no vm runtime" else "no container runtime"))
  noKind : ∀ w, s.rows.get n = some w → w.Wanted → side? w.kind = none →
    ∃ r, s'.rows.get n = some r ∧ r.status = some (failedStatus "unsupported kind")
  stopped : ∀ w, s.rows.get n = some w → w.desiredState = .stopped →
    (∃ r, s'.rows.get n = some r ∧ r.status = some stoppedStatus) ∧
      ∀ side, side? w.kind = some side → wired side = true →
        ((M side).remove n (s.dev side n)).2 = .ok () → ∀ side', inst side' (s'.dev side' n) = none
  deleting : ∀ w, s.rows.get n = some w → w.desiredState = .deleting →
    s'.rows.get n = some w ∧ ∀ side, s'.dev side n = s.dev side n
  noRow : s.rows.get n = none → s'.rows.get n = none ∧ ∀ side, s'.dev side n = s.dev side n
  bodies : rowBody n s' = rowBody n s

theorem withStatus_row {v : View μ} {w : Workload} (h : v.row = some w) (st : WorkloadStatus) :
    (v.withStatus st).row = some { w with status := some st } := by
  simp [View.withStatus, h]

section Wanted

variable {w : Workload} {v : View μ} {side : Side}

theorem settle_wanted (hw : w.Wanted) : settle M wired w v = settleRunning M wired w v := by
  unfold settle
  rcases hw with hd | hd <;> rw [hd]

theorem settle_wired (hw : w.Wanted) (hside : side? w.kind = some side) (h : wired side = true) :
    settle M wired w v =
      settleStarted M side w.name v ((M side).ensureRunning w (v.dev side)).1
        ((M side).ensureRunning w (v.dev side)).2 := by
  simp only [settle_wanted hw, settleRunning, hside, h, if_true]

theorem settle_started {inst : μ side → Option Instance} (hM : (M side).Keeps inst)
    (hw : w.Wanted) (hside : side? w.kind = some side) (h : wired side = true)
    (hok : ((M side).ensureRunning w (v.dev side)).2 = .ok ()) :
    ∃ m i, inst m = some i ∧ i.On w ∧
      settle M wired w v = (v.setDev side m).withStatus (reportedStatus i.status) := by
  obtain ⟨i, hi, hon⟩ := hM.ensure w (v.dev side) hok
  refine ⟨_, i, hi, hon, ?_⟩
  rw [settle_wired hw hside h, hok]
  simp only [settleStarted, hM.status _ _ i hi]

theorem settle_failed {e : Err} (hw : w.Wanted) (hside : side? w.kind = some side)
    (h : wired side = true) (herr : ((M side).ensureRunning w (v.dev side)).2 = .error e) :
    ∃ m, settle M wired w v = (v.setDev side m).withStatus (failedStatus e.msg) := by
  rw [settle_wired hw hside h, herr]
  exact ⟨_, rfl⟩

theorem settle_noDriver (hw : w.Wanted) (hside : side? w.kind = some side)
    (h : wired side = false) :
    settle M wired w v = v.withStatus (failedStatus (noRuntimeText side)) := by
  simp [settle_wanted hw, settleRunning, hside, h]

theorem settle_noKind (hw : w.Wanted) (hside : side? w.kind = none) :
    settle M wired w v = v.withStatus (failedStatus "unsupported kind") := by
  simp only [settle_wanted hw, settleRunning, hside]

variable (M wired v) in
theorem settle_stopped (hw : w.desiredState = .stopped) :
    ∃ dev, settle M wired w v = View.withStatus stoppedStatus ⟨v.row, dev⟩ ∧
      ∀ side, side? w.kind = some side → wired side = true →
        dev = Function.update v.dev side ((M side).remove w.name (v.dev side)).1 := by
  simp only [settle, hw, settleStopped]
  cases hk : side? w.kind with
  | none => exact ⟨v.dev, rfl, fun side h => nomatch h⟩
  | some side =>
    cases hwired : wired side with
    | false =>
      simp only [Option.filter_some, hwired]
      refine ⟨v.dev, rfl, ?_⟩
      rintro _ ⟨⟩ h
      rw [hwired] at h
      cases h
    | true =>
      simp only [Option.filter_some, hwired, if_true]
      refine ⟨_, rfl, ?_⟩
      rintro _ ⟨⟩ _
      rfl

end Wanted

/-- One pass, from a state where no name has an instance in the driver of another kind. -/
theorem tick_establishes (M : (side : Side) → Machine (μ side))
    (inst : (side : Side) → μ side → Option Instance) (hM : ∀ side, (M side).Keeps (inst side))
    (wired : Side → Bool) (s : State (Devices μ))
    (hkind : ∀ n w, s.rows.get n = some w → ∀ side, side? w.kind ≠ some side →
      inst side (s.dev side n) = none) (n : String) :
    Establishes M inst wired s (afterRun M (tick (callService wired)) s).1 n := by
  obtain ⟨hin, hout⟩ := tick_view M wired s n
  generalize (afterRun M (tick (callService wired)) s).1 = s' at hin hout ⊢
  have hrow : ∀ {v : View μ}, s'.view n = v → s'.rows.get n = v.row := congrArg View.row
  have hdev : ∀ {v : View μ} side, s'.view n = v → s'.dev side n = v.dev side :=
    fun side h => congrFun (congrArg View.dev h) side
  refine ⟨?_, ?_, ?_, ?_, ?_, ?_, ?_, ?_⟩
  · intro w side hw hwant hside hwired hok
    obtain ⟨m, i, hi, hon, hv⟩ := settle_started (v := s.view n) (hM side) hwant hside hwired hok
    have hv' := (hin w hw).trans hv
    refine ⟨_, i, _, (hrow hv').trans (withStatus_row hw _), ?_, hon, rfl,
      samePhase_toProtoPhase i.status.phase⟩
    rw [hdev side hv', withStatus_dev, setDev_dev_self]
    exact hi
  · intro w side e hw hwant hside hwired herr
    obtain ⟨m, hv⟩ := settle_failed (v := s.view n) hwant hside hwired herr
    exact ⟨_, (hrow ((hin w hw).trans hv)).trans (withStatus_row hw _), rfl⟩
  · intro w side hw hwant hside hwired
    have hv := (hin w hw).trans (settle_noDriver hwant hside hwired)
    exact ⟨_, (hrow hv).trans (withStatus_row hw _), by cases side <;> rfl⟩
  · intro w hw hwant hside
    have hv := (hin w hw).trans (settle_noKind hwant hside)
    exact ⟨_, (hrow hv).trans (withStatus_row hw _), rfl⟩
  · intro w hw hstop
    have hn : w.name = n := Table.get_some_key hw
    obtain ⟨dev, hv, hset⟩ := settle_stopped M wired (s.view n) hstop
    have hv' := (hin w hw).trans hv
    refine ⟨⟨_, (hrow hv').trans (withStatus_row hw _), rfl⟩, ?_⟩
    intro side hside hwired hok side'
    rw [hdev side' hv', withStatus_dev]
    dsimp only
    rw [hset side hside hwired, hn]
    by_cases hs : side' = side
    · subst hs; rw [Function.update_self]; exact (hM side').remove n _ hok
    · rw [Function.update_of_ne hs]
      refine hkind n w hw side' ?_
      rw [hside]
      exact fun h => hs (Option.some.inj h).symm
  · intro w hw hdel
    have hv := (hin w hw).trans (by rw [settle, hdel] : settle M wired w (s.view n) = s.view n)
    exact ⟨(hrow hv).trans hw, fun side => hdev side hv⟩
  · intro hn; exact ⟨(hrow (hout hn)).trans hn, fun side => hdev side (hout hn)⟩
  · cases hw : s.rows.get n with
    | none => rw [rowBody, rowBody, hrow (hout hw)]; rfl
    | some w =>
      rw [rowBody, rowBody, hrow (hin w hw)]; exact settle_body M wired w (s.view n)

end

theorem partly_keeps : partly.Keeps id where
  ensure w m h := by
    simp only [partly] at h ⊢
    split at h
    · cases h
    · rename_i hname
      exact ⟨⟨w.container, w.microVm, ⟨.running, ""⟩⟩, by rw [if_neg hname]; rfl, rfl, rfl⟩
  remove _ _ _ := rfl
  status := by
    rintro n m i rfl; rfl

theorem mixed_apart (n : String) (w : Workload) (hw : mixed.rows.get n = some w) (side : Side)
    (hside : side? w.kind ≠ some side) : mixed.dev side n = none := by
  simp only [mixed]
  split
  · rename_i h
    obtain ⟨rfl, rfl⟩ := h
    cases hw
    exact absurd rfl hside
  · rfl

theorem tick_establishes_mixed :
    let s := (afterRun (fun _ => partly) (tick (callService fun _ => true)) mixed).1
    (∃ r i phase, s.rows.get "job" = some r ∧ s.dev .container "job" = some i ∧ i.On r ∧
        r.status = some ⟨phase, i.status.message, 0⟩ ∧ SamePhase phase i.status.phase) ∧
      (∃ r, s.rows.get "bad" = some r ∧ r.status = some (failedStatus "image not found")) ∧
      ∀ side, s.dev side "idle" = none :=
  have h := tick_establishes (fun _ => partly) (fun _ => id) (fun _ => partly_keeps)
    (fun _ => true) mixed mixed_apart
  ⟨(h "job").running job .container rfl (.inl rfl) rfl rfl rfl,
    (h "bad").failed bad .container _ rfl (.inl rfl) rfl rfl rfl,
    ((h "idle").stopped idle rfl rfl).2 .vm rfl rfl rfl⟩

end Capsule.Workloads
