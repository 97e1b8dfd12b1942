import Capsule.Workloads.Calls
import Capsule.Workloads.Contract

/-!
# Capsule.Workloads.Passes

What the reconciler does to one name, in two situations: while it lists no row of the name but a
DELETING one (`coldMonitor`), and while nobody else works on its row (`aloneAt`).

* `Apart`: what operations do that touch neither the row nor an instance of the name.
* `tick_cold`, `ticks_cold`: in the first, a pass leaves the name alone.
* `Rested`, `tick_alone`, `ticks_alone`: in the second, it calls the driver of the row's kind and
  leaves the other alone.
-/

namespace Capsule.Workloads

open Atomic Keyed

section

variable {D : Side → Type} {DRes : (s : Side) → D s → Type} {δ : Side → Type} {ε : Type}
  {dsem : (s : Side) → Sem (D s) (DRes s) (δ s) ε} {svc : Service DRes}
  (C : (s : Side) → Contract (dsem s) (svc s)) (n : String)

/-- The operation touches neither the row nor an instance of the name. -/
def Avoids : Op D → Prop
  | .put w => w.name ≠ n
  | .delete m => m ≠ n
  | .drv s d => (C s).about d ≠ n
  | _ => True

/-- What such operations do. -/
def Apart (s s' : State δ) : Prop :=
  s'.rows.get n = s.rows.get n ∧
    ∀ side, Others (dsem side) (C side).about n (s.dev side) (s'.dev side)

/-- `true` while the current pass may touch the name. A `Get` that answered with another name's
row counts as such; the store never does that. -/
def coldMonitor : Monitor (Op D) (Res DRes) (Except Err Unit) Bool where
  ok hot o := hot = false → Avoids C n o
  next
    | hot, .get m, .ok w => hot || decide (w.name ≠ m)
    | _, .list, .ok ws => ws.any fun w => w.name = n ∧ w.desiredState ≠ .deleting
    | _, .list, .error _ => false
    | hot, _, _ => hot
  fin _ _ := True

variable {C n}

theorem Apart.refl (s : State δ) : Apart C n s s := ⟨rfl, fun _ => .refl⟩

theorem Apart.trans {s s' s'' : State δ} (h : Apart C n s s') (h' : Apart C n s' s'') :
    Apart C n s s'' :=
  ⟨h'.1.trans h.1, fun side => (h.2 side).trans (h'.2 side)⟩

theorem Avoids.apart {o : Op D} (h : Avoids C n o) (e : Env ε) (s : State δ) :
    Apart C n s (sem dsem o e s).1 := by
  cases o with
  | get m => rw [get_state]; exact .refl s
  | list => exact .refl s
  | put w =>
    simp only [sem]
    cases e.fault with
    | some m => exact .refl s
    | none => exact ⟨Table.get_put_ne _ (Ne.symm h), fun _ => .refl⟩
  | delete m =>
    simp only [sem]
    cases e.fault with
    | some m => exact .refl s
    | none => exact ⟨Table.get_del_ne _ (Ne.symm h), fun _ => .refl⟩
  | drv side d =>
    refine ⟨rfl, ?_⟩
    intro side'
    by_cases hs : side' = side
    · subst hs; rw [sem_drv_self]; exact .single ⟨d, e.drv, h, rfl⟩
    · rw [sem_drv_ne hs]; exact .refl

section Cold

variable {hot : Bool}

theorem setStatus_cold {m : String} {st : WorkloadStatus} (hm : hot = false → m ≠ n)
    {Q : Bool → Except Err Unit → Prop} (hQ : ∀ h r, (h = false → hot = false) → Q h r) :
    (setStatus m st).Obeys ((coldMonitor C n).post Q) hot := by
  refine ⟨fun _ => trivial, ?_⟩
  intro r
  cases r with
  | error e => exact hQ _ _ id
  | ok w =>
    change Prog.Obeys _ (hot || decide (w.name ≠ m))
      (if w.status = some st then .ret (.ok ()) else put { w with status := some st })
    have hphase : (hot || decide (w.name ≠ m)) = false → hot = false := by
      intro h; exact (Bool.or_eq_false_iff.mp h).1
    split
    · exact hQ _ _ hphase
    · refine ⟨?_, fun r => hQ _ _ hphase⟩
      intro h
      have hw : w.name = m := by simpa using (Bool.or_eq_false_iff.mp h).2
      exact hw ▸ hm (hphase h)

theorem writeStatus_cold {m : String} {ph : WorkloadPhase} {msg : String}
    (hm : hot = false → m ≠ n) :
    (writeStatus m ph msg).Obeys
      ((coldMonitor C n).post fun h _ => h = false → hot = false) hot :=
  Prog.obeys_bind.mpr (setStatus_cold hm fun _ _ h => h)

theorem driver_cold {β : Type} {side : Side} {m : String} {p : Prog (D side) (DRes side) β}
    (hm : hot = false → m ≠ n) (hp : p.Only ((C side).about · = m))
    {Q : Bool → β → Prop} (hQ : ∀ r, Q hot r) :
    (onDriver side p).Obeys ((coldMonitor C n).post Q) hot := by
  refine onDriver_obeys hp ?_ (fun _ _ => rfl) hQ
  intro d hd hhot
  have habout : (C side).about d ≠ n := hd ▸ hm hhot
  exact habout

theorem reconcileStopped_cold {w : Workload} (hw : hot = false → w.name ≠ n) :
    (reconcileStopped svc w).Obeys
      ((coldMonitor C n).post fun h _ => h = false → hot = false) hot := by
  unfold reconcileStopped
  cases side? w.kind with
  | none => exact writeStatus_cold hw
  | some side =>
    cases hd : svc side with
    | none => simpa [hd] using writeStatus_cold hw
    | some d =>
      simp only [Option.bind_some, hd, Option.map_some, Prog.obeys_bind]
      exact driver_cold hw ((C side).remove d hd w.name).1 fun _ => writeStatus_cold hw

theorem reconcileRunning_cold {w : Workload} (hw : hot = false → w.name ≠ n) :
    (reconcileRunning svc w).Obeys
      ((coldMonitor C n).post fun h _ => h = false → hot = false) hot := by
  unfold reconcileRunning
  cases side? w.kind with
  | none => exact writeStatus_cold hw
  | some side =>
    cases hd : svc side with
    | none => simpa only [hd] using writeStatus_cold hw
    | some d =>
      simp only [hd, Prog.obeys_bind]
      refine driver_cold hw ((C side).ensureRunning d hd w).1 ?_
      intro r
      cases r with
      | error e => exact writeStatus_cold hw
      | ok _ =>
        refine Prog.obeys_bind.mpr (driver_cold hw ((C side).status d hd w.name).1 ?_)
        intro r
        cases r with
        | error e => exact id
        | ok st => exact writeStatus_cold hw

theorem reconcileOne_cold {w : Workload}
    (hw : hot = false → w.name = n → w.desiredState = .deleting) :
    (reconcileOne svc w).Obeys
      ((coldMonitor C n).post fun h _ => h = false → hot = false) hot := by
  unfold reconcileOne
  cases hd : w.desiredState with
  | deleting => exact id
  | stopped =>
    refine reconcileStopped_cold fun h hn => ?_
    rw [hw h hn] at hd
    cases hd
  | _ =>
    refine reconcileRunning_cold fun h hn => ?_
    rw [hw h hn] at hd
    cases hd

theorem reconcileAll_cold (ws : List Workload)
    (hws : hot = false → ∀ w ∈ ws, w.name = n → w.desiredState = .deleting) :
    (reconcileAll svc ws).Obeys ((coldMonitor C n).post fun _ _ => True) hot := by
  induction ws generalizing hot with
  | nil => trivial
  | cons w ws ih =>
    have hw : hot = false → w.name = n → w.desiredState = .deleting :=
      fun h => hws h w List.mem_cons_self
    refine Prog.obeys_bind.mpr ((reconcileOne_cold hw).mono ?_)
    intro h _ hh
    exact ih fun hcold v hv => hws (hh hcold) v (List.mem_cons_of_mem w hv)

theorem tick_cold : (tick svc).Obeys ((coldMonitor C n).post fun _ _ => True) hot := by
  refine ⟨fun _ => trivial, ?_⟩
  intro r
  cases r with
  | error e => trivial
  | ok ws =>
    refine reconcileAll_cold ws ?_
    intro h w hw hn
    by_contra hne
    have : (ws.any fun w => w.name = n ∧ w.desiredState ≠ .deleting) = true :=
      List.any_eq_true.mpr ⟨w, hw, by simp [hn, hne]⟩
    exact absurd (this.symm.trans h) (by decide)

theorem ticks_cold (m : Nat) :
    (ticks svc m).Obeys ((coldMonitor C n).post fun _ _ => True) hot := by
  induction m generalizing hot with
  | zero => trivial
  | succ m ih => exact Prog.obeys_bind.mpr (tick_cold.mono fun _ _ _ => ih)

end Cold

theorem cold_of_idle {p : Code DRes (Except Err Unit)} {hot : Bool}
    (h : p.Obeys (coldMonitor C n) hot) (hp : p.next? = some .list ∨ p.next? = none) :
    p.Obeys (coldMonitor C n) false := by
  cases p with
  | ret a => trivial
  | call o k =>
    have ho : o = .list := by simpa using hp
    subst ho
    refine ⟨fun _ => trivial, ?_⟩
    intro r
    cases r with
    | error err => exact h.2 (.error err)
    | ok ws => exact h.2 (.ok ws)

theorem cold_step {o : Op D} {k : Res DRes o → Code DRes (Except Err Unit)}
    (h : (Prog.call o k).Obeys (coldMonitor C n) false) (e : Env ε) {s : State δ}
    (hrow : ∀ w, s.rows.get n = some w → w.desiredState = .deleting) :
    Apart C n s (sem dsem o e s).1 ∧
      (k (sem dsem o e s).2).Obeys (coldMonitor C n) false := by
  refine ⟨(h.1 rfl).apart e s, ?_⟩
  have hk := h.2 (sem dsem o e s).2
  -- only a `Get` or a `List` can end the phase, and the store answers neither that way
  have hphase : (coldMonitor C n).next false o (sem dsem o e s).2 = false := by
    cases o with
    | get m =>
      cases hr : (sem dsem (.get m) e s).2 with
      | error e => rfl
      | ok w =>
        have hw : w.name = m := Table.get_some_key (get_answer dsem hr)
        simp [coldMonitor, hw]
    | list =>
      simp only [sem, Env.answer]
      cases e.fault with
      | some m => rfl
      | none =>
        refine List.any_eq_false.mpr ?_
        intro w hw
        have hmem := Table.get_of_mem (Table.mem_list.mp hw)
        by_cases hn : w.name = n
        · simp [hrow w (hn ▸ hmem)]
        · simp [hn]
    | put w => rfl
    | delete m => rfl
    | drv side d => rfl
  rwa [hphase] at hk

variable (C n)

/-- No call of the driver `k` is under way for the name, and the other driver has no instance. -/
def Rested (k : Side) (s : State δ) : Prop :=
  (C k).quiet (s.dev k) n ∧ ∀ side, side ≠ k → ¬ (C side).holds (s.dev side) n

/-- Between two passes, for a row that is `b` up to its status. -/
def Lone (b : Workload) (s : State δ) : Prop :=
  Rested C n (sideOf b.kind) s ∧ rowBody n s = some b

/-- What holds where the reconciler issues an operation. -/
def aloneAt (b : Workload) : Op D → State δ → Prop
  | .list, s => Lone C n b s
  | .put w, s => w.name = n → rowBody n s = some w.body
  | .delete _, _ => False
  | _, _ => True

variable {C n}

theorem Rested.apart {k : Side} {s s' : State δ} (h : Rested C n k s) (ha : Apart C n s s') :
    Rested C n k s' :=
  ⟨(C k).quiet_others (ha.2 k) h.1,
    fun side hs hh => h.2 side hs ((C side).holds_others (ha.2 side) hh)⟩

theorem Lone.apart {b : Workload} {s s' : State δ} (h : Lone C n b s) (ha : Apart C n s s') :
    Lone C n b s' :=
  ⟨h.1.apart ha, by rw [rowBody, ha.1]; exact h.2⟩

theorem aloneAt.rowBody {b : Workload} {o : Op D} {s : State δ} (h : aloneAt C n b o s)
    (e : Env ε) : rowBody n (sem dsem o e s).1 = rowBody n s := by
  cases o with
  | get m => rw [get_state]
  | list => rfl
  | put w =>
    simp only [sem]
    cases e.fault with
    | some m => rfl
    | none =>
      by_cases hn : w.name = n
      · rw [h hn]; subst hn; simp [Workloads.rowBody]
      · simp [Workloads.rowBody, Table.get_put_ne _ (Ne.symm hn)]
  | delete m => exact absurd h id
  | drv side d => rfl

section Alone

variable {b : Workload} {s : State δ}

theorem setStatus_alone (m : String) (st : WorkloadStatus) (hs : Lone C n b s) :
    (setStatus m st).Safe (sem dsem) Eq (aloneAt C n b) (fun _ s => Lone C n b s) s := by
  rintro s' rfl
  refine ⟨trivial, ?_⟩
  intro e
  rw [get_state]
  cases hr : (sem dsem (.get m) e s).2 with
  | error err => rintro s' rfl; exact hs
  | ok w =>
    have hw : s.rows.get m = some w := get_answer dsem hr
    change Prog.Safe _ _ _ _
      (if w.status = some st then .ret (.ok ()) else put { w with status := some st }) s
    split
    · rintro s' rfl; exact hs
    · rintro s' rfl
      have hat : aloneAt C n b (.put { w with status := some st }) s := by
        intro hn
        have hm : m = n := (Table.get_some_key hw).symm.trans hn
        rw [rowBody, ← hm, hw]
        rfl
      refine ⟨hat, ?_⟩
      intro e
      rintro s' rfl
      refine ⟨?_, (hat.rowBody e).trans hs.2⟩
      simp only [sem]
      cases e.fault <;> exact hs.1

theorem writeStatus_alone (m : String) (ph : WorkloadPhase) (msg : String) (hs : Lone C n b s) :
    (writeStatus m ph msg).Safe (sem dsem) Eq (aloneAt C n b) (fun _ s => Lone C n b s) s := by
  refine .andThen ((setStatus_alone m _ hs).mono ?_)
  rintro r s hs s' rfl
  exact hs

theorem driver_alone {β : Type} {side : Side} {w : Workload} {p : Prog (D side) (DRes side) β}
    {Q : β → δ side → Prop} (hside : w.name = n → side = sideOf b.kind)
    (hp : KeepsTo (dsem side) (C side).about (C side).quiet w.name p Q) (hs : Lone C n b s) :
    (onDriver side p).Safe (sem dsem) Eq (aloneAt C n b) (fun _ s => Lone C n b s) s := by
  by_cases hn : w.name = n
  · obtain rfl := hside hn
    -- the other driver and the row are not touched; the row's driver ends quiet
    refine (onDriver_safe
      (F := fun s => rowBody n s = some b ∧
        ∀ side, side ≠ sideOf b.kind → ¬ (C side).holds (s.dev side) n)
      (hp.2 _ (hn ▸ hs.1.1)) ?_ ?_ ?_ ?_ ⟨hs.2, hs.1.2⟩).mono ?_
    · rintro s s' rfl; exact .refl
    · rintro s s' rfl; exact id
    · exact fun d s _ => trivial
    · intro d e s hF
      refine ⟨hF.1, ?_⟩
      intro side hne
      rw [sem_drv_ne hne]
      exact hF.2 side hne
    · intro a s ⟨hF, hq, _⟩; exact ⟨⟨hn ▸ hq, hF.2⟩, hF.1⟩
  · refine (onDriver_only hp.1).safe ?_ ?_ ?_ hs
    · rintro s s' rfl; exact id
    · rintro o s ⟨d, rfl, -⟩ _; trivial
    · rintro o e s ⟨d, rfl, hd⟩ hL
      have hav : Avoids C n (.drv side d) := by
        intro h; exact hn (hd.symm.trans h)
      exact hL.apart (hav.apart e s)

theorem side?_eq {kind : Kind} {side : Side} (h : side? kind = some side) : side = sideOf kind := by
  cases kind <;> cases h <;> rfl

theorem reconcileStopped_alone {w : Workload} (hw : w.name = n → w.body = b)
    (hs : Lone C n b s) :
    (reconcileStopped svc w).Safe (sem dsem) Eq (aloneAt C n b) (fun _ s => Lone C n b s) s := by
  unfold reconcileStopped
  cases hside : side? w.kind with
  | none => exact writeStatus_alone _ _ _ hs
  | some side =>
    have hk : w.name = n → side = sideOf b.kind := by
      intro hn; rw [← hw hn]; exact side?_eq hside
    cases hd : svc side with
    | none => simpa [hd] using writeStatus_alone _ _ _ hs
    | some d =>
      simp only [Option.bind_some, hd, Option.map_some]
      refine .andThen
        ((driver_alone hk ((C side).remove d hd w.name) hs).mono ?_)
      intro _ s hs
      exact writeStatus_alone _ _ _ hs

theorem reconcileRunning_alone {w : Workload} (hw : w.name = n → w.body = b)
    (hs : Lone C n b s) :
    (reconcileRunning svc w).Safe (sem dsem) Eq (aloneAt C n b) (fun _ s => Lone C n b s) s := by
  unfold reconcileRunning
  cases hside : side? w.kind with
  | none => exact writeStatus_alone _ _ _ hs
  | some side =>
    have hk : w.name = n → side = sideOf b.kind := by
      intro hn; rw [← hw hn]; exact side?_eq hside
    cases hd : svc side with
    | none => simpa only [hd] using writeStatus_alone _ _ _ hs
    | some d =>
      simp only [hd]
      refine .andThen
        ((driver_alone hk ((C side).ensureRunning d hd w) hs).mono ?_)
      intro r s hs
      cases r with
      | error e => exact writeStatus_alone _ _ _ hs
      | ok _ =>
        refine .andThen
          ((driver_alone hk ((C side).status d hd w.name) hs).mono ?_)
        intro r s hs
        cases r with
        | error e => rintro s' rfl; exact hs
        | ok st => exact writeStatus_alone _ _ _ hs

theorem reconcileOne_alone {w : Workload} (hw : w.name = n → w.body = b) (hs : Lone C n b s) :
    (reconcileOne svc w).Safe (sem dsem) Eq (aloneAt C n b) (fun _ s => Lone C n b s) s := by
  unfold reconcileOne
  cases w.desiredState with
  | deleting => rintro s' rfl; exact hs
  | stopped => exact reconcileStopped_alone hw hs
  | _ => exact reconcileRunning_alone hw hs

theorem reconcileAll_alone (ws : List Workload) (hws : ∀ w ∈ ws, w.name = n → w.body = b)
    (hs : Lone C n b s) :
    (reconcileAll svc ws).Safe (sem dsem) Eq (aloneAt C n b) (fun _ s => Lone C n b s) s := by
  induction ws generalizing s with
  | nil => rintro s' rfl; exact hs
  | cons w ws ih =>
    have hw := hws w List.mem_cons_self
    refine .andThen ((reconcileOne_alone hw hs).mono ?_)
    intro _ s hs
    exact ih (fun v hv => hws v (List.mem_cons_of_mem w hv)) hs

theorem tick_alone (hs : Lone C n b s) :
    (tick svc).Safe (sem dsem) Eq (aloneAt C n b) (fun _ s => Lone C n b s) s := by
  rintro s' rfl
  refine ⟨hs, ?_⟩
  intro e
  simp only [sem, Env.answer]
  cases e.fault with
  | some m => rintro s' rfl; exact hs
  | none =>
    refine reconcileAll_alone _ ?_ hs
    intro w hw hn
    have hrow := Table.get_of_mem (Table.mem_list.mp hw)
    have hb := hs.2
    rw [rowBody, ← hn, hrow] at hb
    exact Option.some.inj hb

theorem ticks_alone (m : Nat) (hs : Lone C n b s) :
    (ticks svc m).Safe (sem dsem) Eq (aloneAt C n b) (fun _ s => Lone C n b s) s := by
  induction m generalizing s with
  | zero => rintro s' rfl; exact hs
  | succ m ih =>
    refine .andThen ((tick_alone hs).mono ?_)
    intro _ s hs
    exact ih hs

end Alone

end

end Capsule.Workloads
