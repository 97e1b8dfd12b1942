import Capsule.Atomic.Rely
import Capsule.Workloads.Service

/-!
# Capsule.Workloads.Contract

What the service and the reconciler may expect of a driver, from the comments on
`runtime.ContainerDriver` and `runtime.VMDriver`, and how a driver call behaves inside their code.
-/

namespace Capsule.Workloads

open Atomic Keyed

section

variable {D : Type} {DRes : D → Type} {δ ε α : Type}

/-- What operations about other names do to a driver. -/
def Others (dsem : Sem D DRes δ ε) (about : D → String) (n : String) : δ → δ → Prop :=
  Relation.ReflTransGen fun s s' => ∃ d e, about d ≠ n ∧ s' = (dsem d e s).1

/-- The code `p` of a driver call for the name `n`: only about `n`, and from a quiet state to a
quiet one where `Q` holds. -/
def KeepsTo (dsem : Sem D DRes δ ε) (about : D → String) (quiet : δ → String → Prop) (n : String)
    (p : Prog D DRes α) (Q : α → δ → Prop) : Prop :=
  p.Only (about · = n) ∧ ∀ s, quiet s n →
    p.Safe dsem (Others dsem about n) (fun _ _ => True) (fun a s => quiet s n ∧ Q a s) s

structure Contract (dsem : Sem D DRes δ ε) (drv : Option (Driver D DRes)) where
  about : D → String
  /-- There is a container or VM of the name. -/
  holds : δ → String → Prop
  quiet : δ → String → Prop
  unwired : drv = none → ∀ s n, ¬ holds s n
  quiet_frame : ∀ {d e s n}, about d ≠ n → quiet s n → quiet (dsem d e s).1 n
  holds_frame : ∀ {d e s n}, about d ≠ n → holds (dsem d e s).1 n → holds s n
  ensureRunning : ∀ d ∈ drv, ∀ w,
    KeepsTo dsem about quiet w.name (d.ensureRunning w) fun _ _ => True
  remove : ∀ d ∈ drv, ∀ n,
    KeepsTo dsem about quiet n (d.remove n) fun r s => r = .ok () → ¬ holds s n
  status : ∀ d ∈ drv, ∀ n, KeepsTo dsem about quiet n (d.status n) fun _ _ => True

namespace Contract

variable {dsem : Sem D DRes δ ε} {drv : Option (Driver D DRes)} (C : Contract dsem drv)
  {n : String} {s s' : δ}

theorem quiet_others (h : Others dsem C.about n s s') (hs : C.quiet s n) : C.quiet s' n := by
  induction h with
  | refl => exact hs
  | tail _ hstep ih => obtain ⟨d, e, hd, rfl⟩ := hstep; exact C.quiet_frame hd ih

theorem holds_others (h : Others dsem C.about n s s') (hs : C.holds s' n) : C.holds s n := by
  induction h with
  | refl => exact hs
  | tail _ hstep ih => obtain ⟨d, e, hd, rfl⟩ := hstep; exact ih (C.holds_frame hd hs)

end Contract

end

section

variable {D : Side → Type} {DRes : (s : Side) → D s → Type} {δ : Side → Type} {ε α : Type}
  {dsem : (s : Side) → Sem (D s) (DRes s) (δ s) ε}

theorem sem_drv_self (side : Side) (d : D side) (e : Env ε) (s : State δ) :
    (sem dsem (.drv side d) e s).1.dev side = (dsem side d e.drv (s.dev side)).1 := by
  simp [sem]

theorem sem_drv_ne {side side' : Side} (h : side' ≠ side) (d : D side) (e : Env ε) (s : State δ) :
    (sem dsem (.drv side d) e s).1.dev side' = s.dev side' := by
  simp [sem, h]

theorem onDriver_safe_of_only {side : Side} {p : Prog (D side) (DRes side) α} {P : D side → Prop}
    {Rd : δ side → δ side → Prop} {Qd : α → δ side → Prop} {R : State δ → State δ → Prop}
    {I : Op D → State δ → Prop} {F : State δ → Prop} {s : State δ} (hop : p.Only P)
    (hp : p.Safe (dsem side) Rd (fun _ _ => True) Qd (s.dev side))
    (hRd : ∀ s s', R s s' → Rd (s.dev side) (s'.dev side)) (hR : ∀ s s', R s s' → F s → F s')
    (hI : ∀ d s, F s → I (.drv side d) s)
    (hF : ∀ d e s, P d → F s → F (sem dsem (.drv side d) e s).1) (hs : F s) :
    (onDriver side p : Code DRes α).Safe (sem dsem) R I (fun a s => F s ∧ Qd a (s.dev side)) s := by
  induction p generalizing s with
  | ret a => exact fun s' hr => ⟨hR s s' hr hs, hp _ (hRd s s' hr)⟩
  | call d k ih =>
    intro s' hr
    have hs' := hR s s' hr hs
    refine ⟨hI d s' hs', ?_⟩
    intro e
    refine ih _ (hop.2 _) ?_ (hF d e s' hop.1 hs')
    rw [sem_drv_self]
    exact (hp _ (hRd s s' hr)).2 e.drv

theorem onDriver_safe {side : Side} {p : Prog (D side) (DRes side) α}
    {Rd : δ side → δ side → Prop} {Qd : α → δ side → Prop} {R : State δ → State δ → Prop}
    {I : Op D → State δ → Prop} {F : State δ → Prop} {s : State δ}
    (hp : p.Safe (dsem side) Rd (fun _ _ => True) Qd (s.dev side))
    (hRd : ∀ s s', R s s' → Rd (s.dev side) (s'.dev side)) (hR : ∀ s s', R s s' → F s → F s')
    (hI : ∀ d s, F s → I (.drv side d) s)
    (hF : ∀ d e s, F s → F (sem dsem (.drv side d) e s).1) (hs : F s) :
    (onDriver side p : Code DRes α).Safe (sem dsem) R I (fun a s => F s ∧ Qd a (s.dev side)) s :=
  onDriver_safe_of_only p.only_true hp hRd hR hI (fun d e s _ => hF d e s) hs

theorem onDriver_only {side : Side} {p : Prog (D side) (DRes side) α} {P : D side → Prop}
    (hp : p.Only P) :
    (onDriver side p : Code DRes α).Only fun o => ∃ d, o = .drv side d ∧ P d :=
  hp.lift

theorem onDriver_obeys {γ : Type} {side : Side} {p : Prog (D side) (DRes side) α}
    {P : D side → Prop} {M : Monitor (Op D) (Res DRes) α γ} {g : γ} (hp : p.Only P)
    (hok : ∀ d, P d → M.ok g (.drv side d)) (hnext : ∀ d r, M.next g (.drv side d) r = g)
    (hfin : ∀ a, M.fin g a) : (onDriver side p : Code DRes α).Obeys M g := by
  refine (onDriver_only hp).obeys ?_ ?_ hfin
  · rintro _ ⟨d, rfl, hd⟩; exact hok d hd
  · rintro _ r ⟨d, rfl, -⟩; exact hnext d r

end

end Capsule.Workloads
