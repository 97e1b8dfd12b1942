import Capsule.Workloads.Interface

/-!
# Capsule.Workloads.Acts

Sequential runs of requests, status writes, passes and reboots, with any answers of the store and
the drivers. `Act.safe` says what an act may write and whom it may start; it is all that the modules
about such runs use of the code, but for what a request has brought about when it succeeds.
-/

namespace Capsule.Workloads

open Atomic Keyed

/-- One thing after the other. Answers that end early are a power loss during the act, and after a
reboot the drivers are in any state. -/
inductive Act (δ : Side → Type) (ε : Type) where
  | request (r : Request) (es : List (Env ε))
  | setStatus (name : String) (st : WorkloadStatus) (es : List (Env ε))
  | tick (es : List (Env ε))
  | reboot (dev : (s : Side) → δ s)

section

variable {δ : Side → Type} {ε : Type} (dsem : (s : Side) → Sem DriverCall DriverCall.Res (δ s) ε)
  (wired : Side → Bool)

def Act.code : Act δ ε → Code CallsRes (Except Err Unit)
  | .request r _ => r.code (callService wired)
  | .setStatus name st _ => Workloads.setStatus name st
  | .tick _ => do
    Workloads.tick (callService wired)
    return .ok ()
  | .reboot _ => .ret (.ok ())

def Act.answers : Act δ ε → List (Env ε)
  | .request _ es | .setStatus _ _ es | .tick es => es
  | .reboot _ => []

def Act.outcome (s : State δ) (a : Act δ ε) :
    Prog.Outcome (Op Calls) (State δ) (Env ε) (Except Err Unit) :=
  (a.code wired).exec (sem dsem) a.answers s

def Act.after (s : State δ) : Act δ ε → State δ
  | .reboot dev => { s with dev := dev }
  | a => (a.outcome dsem wired s).st

/-- The act calls `EnsureRunning` for the name. -/
def Act.Ensures (s : State δ) (a : Act δ ε) (n : String) : Prop :=
  ∃ side w, w.name = n ∧ Op.drv side (.ensureRunning w) ∈ (a.outcome dsem wired s).ops

def Act.Deletes (a : Act δ ε) (n : String) : Prop := ∃ es, a = .request (.delete n) es

end

section

variable {δ : Side → Type} {ε : Type} {dsem : (s : Side) → Sem DriverCall DriverCall.Res (δ s) ε}
  {wired : Side → Bool}

/-- The rows are those of `s₀` up to their statuses. -/
def SameBodies (s₀ s : State δ) : Prop := ∀ n, rowBody n s = rowBody n s₀

/-- `w` takes the place of the row of `n`, which is of the same kind. -/
def Replaces (s : State δ) (n : String) (w : Workload) : Prop :=
  w.name = n ∧ ∃ r, s.rows.get n = some r ∧ w.kind = r.kind

/-- The rows a request begun in `s₀` may put in `s`. -/
def Request.Puts (s₀ s : State δ) (w : Workload) : Request → Prop
  | .apply v => s = s₀ ∧ ∃ v' ∈ v, validate v' = .ok () ∧
    w.name = v'.name ∧ w.kind = v'.kind ∧ w.desiredState = v'.desiredState
  | .start n => Replaces s n w ∧ w.desiredState = .running
  | .stop n => Replaces s n w ∧ w.desiredState = .stopped
  | .restart _ => False
  | .delete n => Replaces s n w ∧ w.desiredState = .deleting

/-- The rows an act may put; a status write keeps the rest of the row. -/
def Act.Puts (s₀ s : State δ) (w : Workload) : Act δ ε → Prop
  | .request r _ => r.Puts s₀ s w
  | .setStatus _ _ _ | .tick _ => rowBody w.name s = some w.body
  | .reboot _ => False

variable (wired) in
/-- What an act begun in `s₀` may do in `s`. -/
def Act.At (a : Act δ ε) (s₀ : State δ) : Op Calls → State δ → Prop
  | .put w, s => a.Puts s₀ s w
  | .delete n, _ => a.Deletes n
  | .drv side (.ensureRunning w), s =>
    SameBodies s₀ s ∧ rowBody w.name s₀ = some w.body ∧ side? w.kind = some side ∧
      wired side = true ∧ w.desiredState ≠ .stopped ∧ w.desiredState ≠ .deleting
  | _, _ => True

theorem removeRuntime_at {a : Act δ ε} {s₀ s : State δ} (kind : Kind) (n : String)
    {Q : Except Err Unit → State δ → Prop}
    (hQ : ∀ r s', s'.rows = s.rows → Q r s') :
    (removeRuntime (callService wired) kind n).Safe (sem dsem) Eq (a.At wired s₀) Q s := by
  unfold removeRuntime callService
  cases wired (sideOf kind) with
  | false => exact .ret (hQ _ s rfl)
  | true => exact .call ⟨trivial, fun e => .ret (hQ _ _ rfl)⟩

theorem applyMerged_at {a : Act δ ε} {s₀ s : State δ} {w : Workload} {existing : Option Workload}
    (ha : a.Puts s₀ s (merge w existing)) :
    ((applyMerged w existing).thenOk fun _ => .ret (.ok ())).Safe (sem dsem) Eq (a.At wired s₀)
      (fun _ _ => True) s :=
  safe_put ha (fun _ => .ret trivial) (.ret trivial)

theorem apply_at {a : Act δ ε} {s₀ s : State δ} {w : Workload}
    (ha : validate w = .ok () → ∀ existing, a.Puts s₀ s (merge w existing)) :
    ((apply (some w)).thenOk fun _ => .ret (.ok ())).Safe (sem dsem) Eq (a.At wired s₀)
      (fun _ _ => True) s := by
  simp only [apply]
  cases hv : validate w with
  | error e => exact .ret trivial
  | ok _ =>
    refine safe_get trivial ?_ ?_
    · intro e
      change Prog.Safe _ _ _ _
        (Prog.thenOk (if e.is .notFound then applyMerged w none else .ret (.error e)) _) s
      split
      · exact applyMerged_at (ha hv none)
      · exact .ret trivial
    · intro r _; exact applyMerged_at (ha hv (some r))

theorem delete_at {es : List (Env ε)} {s₀ s : State δ} (n : String) :
    (delete (callService wired) n).Safe (sem dsem) Eq
      ((Act.request (.delete n) es : Act δ ε).At wired s₀) (fun _ _ => True) s := by
  have hend : ∀ kind s, ((removeRuntime (callService wired) kind n).thenOk fun _ =>
      deleteRow n).Safe (sem dsem) Eq ((Act.request (.delete n) es : Act δ ε).At wired s₀)
        (fun _ _ => True) s := by
    intro kind s
    refine .andThenOk (removeRuntime_at kind n ?_)
    intro r s' _
    cases r with
    | error e => exact .ret trivial
    | ok _ =>
      exact safe_delete ⟨es, rfl⟩ (fun _ => .ret trivial)
        (.ret trivial)
  refine safe_get trivial (fun _ => hend _ s) ?_
  intro w hw
  have hn : w.name = n := Table.get_some_key hw
  change Prog.Safe _ _ _ _ (Prog.thenOk (if w.desiredState = .deleting then _ else _) _) s
  split
  · exact hend _ s
  · exact safe_put ⟨⟨hn, w, hw, rfl⟩, rfl⟩ (fun _ => .ret trivial) (hend _ _)

theorem stop_at {es : List (Env ε)} {s₀ s : State δ} (n : String) :
    (stop (callService wired) n).Safe (sem dsem) Eq
      ((Act.request (.stop n) es : Act δ ε).At wired s₀)
      (fun r s => r = .ok () → ∃ w, s.rows.get n = some w ∧ w.desiredState = .stopped) s := by
  refine safe_get trivial (fun _ => .ret fun h => nomatch h) ?_
  intro w hw
  have hn : w.name = n := Table.get_some_key hw
  refine safe_put ⟨⟨hn, w, hw, rfl⟩, rfl⟩
    (fun _ => .ret fun h => nomatch h) ?_
  change Prog.Safe _ _ _ _
    (removeRuntime (callService wired) w.kind n >>= fun _ => .ret (Except.ok ())) _
  refine .andThen (removeRuntime_at w.kind n ?_)
  intro r s' hrows
  refine .ret fun _ => ?_
  rw [hrows, ← hn]
  exact ⟨_, Table.get_put_self s.rows { w with desiredState := .stopped }, rfl⟩

theorem start_at {es : List (Env ε)} {s₀ s : State δ} (n : String) :
    (start n : Code CallsRes _).Safe (sem dsem) Eq
      ((Act.request (.start n) es : Act δ ε).At wired s₀) (fun _ _ => True) s := by
  refine safe_get trivial (fun _ => .ret trivial) ?_
  intro w hw
  have hn : w.name = n := Table.get_some_key hw
  exact safe_put ⟨⟨hn, w, hw, rfl⟩, rfl⟩ (fun _ => .ret trivial)
    (.ret trivial)

theorem restart_at {a : Act δ ε} {s₀ s : State δ} (n : String) :
    (restart (callService wired) n).Safe (sem dsem) Eq (a.At wired s₀) (fun _ _ => True) s := by
  refine safe_get trivial (fun _ => .ret trivial) ?_
  intro w _
  dsimp only [Prog.bind, callService]
  cases wired (sideOf w.kind) with
  | false => exact .ret trivial
  | true => exact .call ⟨trivial, fun e => .ret trivial⟩

theorem setStatus_at {es : List (Env ε)} {s₀ s : State δ} (n : String) (st : WorkloadStatus) :
    (setStatus n st : Code CallsRes _).Safe (sem dsem) Eq
      ((Act.setStatus n st es : Act δ ε).At wired s₀) (fun _ _ => True) s := by
  refine safe_get trivial (fun _ => .ret trivial) ?_
  intro w hw
  change Prog.Safe _ _ _ _
    (if w.status = some st then .ret (.ok ()) else put { w with status := some st }) s
  split
  · exact .ret trivial
  · refine safe_put ?_ (fun _ => .ret trivial) (.ret trivial)
    have hrow : rowBody w.name s = some w.body := by
      rw [rowBody, Table.get_some_key hw, hw]; rfl
    exact hrow

theorem SameBodies.put {s₀ s : State δ} (h : SameBodies s₀ s) {w : Workload}
    (hw : rowBody w.name s = some w.body) : SameBodies s₀ { s with rows := s.rows.put w } := by
  intro n
  rw [← h n]
  by_cases hn : n = w.name
  · subst hn; rw [hw]; simp [rowBody]
  · simp [rowBody, Table.get_put_ne _ hn]

section Pass

variable {es : List (Env ε)} {s₀ s : State δ}

variable (dsem) in
theorem SameBodies.drv (h : SameBodies s₀ s) (side : Side) (d : DriverCall) (e : Env ε) :
    SameBodies s₀ (sem dsem (.drv side d) e s).1 := h

theorem writeStatus_at (hs : SameBodies s₀ s) (m : String) (ph : WorkloadPhase) (msg : String) :
    (writeStatus m ph msg : Code CallsRes Unit).Safe (sem dsem) Eq
      ((Act.tick es : Act δ ε).At wired s₀) (fun _ s => SameBodies s₀ s) s := by
  have hrow : ∀ w : Workload, s.rows.get m = some w → rowBody w.name s = some w.body := by
    intro w hw; rw [rowBody, Table.get_some_key hw, hw]; rfl
  exact writeStatus_safe trivial (fun w hw => hrow w hw) hs fun w hw => hs.put (hrow w hw)

theorem reconcileStopped_at (hs : SameBodies s₀ s) (w : Workload) :
    (reconcileStopped (callService wired) w).Safe (sem dsem) Eq
      ((Act.tick es : Act δ ε).At wired s₀) (fun _ s => SameBodies s₀ s) s := by
  unfold reconcileStopped
  cases side? w.kind with
  | none => exact writeStatus_at hs _ _ _
  | some side =>
    simp only [callService, Option.bind_some]
    cases wired side with
    | false => exact writeStatus_at hs _ _ _
    | true =>
      exact .call ⟨trivial, fun e => writeStatus_at (hs.drv dsem _ _ e) _ _ _⟩

theorem reconcileRunning_at (hs : SameBodies s₀ s) {w : Workload}
    (hw : rowBody w.name s₀ = some w.body) (hstop : w.desiredState ≠ .stopped)
    (hdel : w.desiredState ≠ .deleting) :
    (reconcileRunning (callService wired) w).Safe (sem dsem) Eq
      ((Act.tick es : Act δ ε).At wired s₀) (fun _ s => SameBodies s₀ s) s := by
  unfold reconcileRunning
  cases hside : side? w.kind with
  | none => exact writeStatus_at hs _ _ _
  | some side =>
    simp only [callService]
    cases hwired : wired side with
    | false => exact writeStatus_at hs _ _ _
    | true =>
      refine .call ⟨⟨hs, hw, hside, hwired, hstop, hdel⟩, fun e => ?_⟩
      have hs₁ := hs.drv dsem side (.ensureRunning w) e
      generalize sem dsem (.drv side (.ensureRunning w)) e s = out at hs₁ ⊢
      obtain ⟨s₁, r⟩ := out
      cases r with
      | error err => exact writeStatus_at hs₁ _ _ _
      | ok _ =>
        refine .call ⟨trivial, fun e' => ?_⟩
        have hs₂ := hs₁.drv dsem side (.status w.name) e'
        generalize sem dsem (.drv side (.status w.name)) e' s₁ = out at hs₂ ⊢
        obtain ⟨s₂, r⟩ := out
        cases r with
        | error err => exact .ret hs₂
        | ok st => exact writeStatus_at hs₂ _ _ _

theorem reconcileOne_at (hs : SameBodies s₀ s) {w : Workload}
    (hw : rowBody w.name s₀ = some w.body) :
    (reconcileOne (callService wired) w).Safe (sem dsem) Eq
      ((Act.tick es : Act δ ε).At wired s₀) (fun _ s => SameBodies s₀ s) s := by
  unfold reconcileOne
  cases hd : w.desiredState with
  | deleting => exact .ret hs
  | stopped => exact reconcileStopped_at hs w
  | unspecified => exact reconcileRunning_at hs hw (by simp [hd]) (by simp [hd])
  | running => exact reconcileRunning_at hs hw (by simp [hd]) (by simp [hd])

theorem reconcileAll_at (ws : List Workload)
    (hws : ∀ w ∈ ws, rowBody w.name s₀ = some w.body) (hs : SameBodies s₀ s) :
    (reconcileAll (callService wired) ws).Safe (sem dsem) Eq
      ((Act.tick es : Act δ ε).At wired s₀) (fun _ s => SameBodies s₀ s) s := by
  induction ws generalizing s with
  | nil => exact .ret hs
  | cons w ws ih =>
    refine .andThen
      ((reconcileOne_at hs (hws w List.mem_cons_self)).mono ?_)
    intro _ s' hs'
    exact ih (fun v hv => hws v (List.mem_cons_of_mem w hv)) hs'

theorem tick_at : (tick (callService wired)).Safe (sem dsem) Eq
    ((Act.tick es : Act δ ε).At wired s) (fun _ s' => SameBodies s s') s := by
  have hs : SameBodies s s := fun _ => rfl
  refine safe_list trivial (fun _ => .ret hs) (reconcileAll_at _ ?_ hs)
  intro w hw
  rw [rowBody, Table.get_of_mem (Table.mem_list.mp hw)]
  rfl

end Pass

theorem Act.safe (a : Act δ ε) (s : State δ) :
    (a.code wired).Safe (sem dsem) Eq (a.At wired s) (fun _ _ => True) s := by
  cases a with
  | request r es =>
    cases r with
    | apply w =>
      cases w with
      | none => exact .ret trivial
      | some w =>
        refine apply_at fun hv existing => ?_
        cases existing <;> exact ⟨rfl, w, rfl, hv, rfl, rfl, rfl⟩
    | start n => exact start_at n
    | stop n => exact (stop_at n).mono fun _ _ _ => trivial
    | restart n => exact restart_at n
    | delete n => exact delete_at n
  | setStatus n st es => exact setStatus_at n st
  | tick es => exact .andThen (tick_at.mono fun _ _ _ =>
      .ret trivial)
  | reboot dev => exact .ret trivial

end

end Capsule.Workloads
