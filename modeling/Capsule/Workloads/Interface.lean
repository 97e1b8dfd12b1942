import Capsule.Workloads.Calls
import Capsule.Workloads.Contract

/-!
# Capsule.Workloads.Interface

The service and the reconciler as they see the drivers: `EnsureRunning`, `Remove` and `Status` are
one operation each, and what a driver does to its state is left open. It is the same code as in
`Capsule.Workloads.Service`, given drivers that do nothing but make the call, so that a run shows
which calls were made.
-/

namespace Capsule.Workloads

open Atomic Keyed

/-- A call through `runtime.ContainerDriver` or `runtime.VMDriver`. -/
inductive DriverCall where
  | ensureRunning (w : Workload)
  | remove (name : String)
  | status (name : String)
  deriving DecidableEq

@[reducible] def DriverCall.Res : DriverCall → Type
  | .ensureRunning _ | .remove _ => Except Err Unit
  | .status _ => Except Err RuntimeStatus

abbrev Calls (_ : Side) : Type := DriverCall

abbrev CallsRes (_ : Side) (d : DriverCall) : Type := d.Res

def callDriver : Driver DriverCall DriverCall.Res where
  ensureRunning w := .call (.ensureRunning w) .ret
  remove name := .call (.remove name) .ret
  status name := .call (.status name) .ret

/-- The drivers that are wired. -/
def callService (wired : Side → Bool) : Service CallsRes :=
  fun s => if wired s then some callDriver else none

/-- What an operator asks of the service. -/
inductive Request where
  | apply (w : Option Workload)
  | start (name : String)
  | stop (name : String)
  | restart (name : String)
  | delete (name : String)
  deriving DecidableEq

def Request.code {D : Side → Type} {DRes : (s : Side) → D s → Type} (svc : Service DRes) :
    Request → Code DRes (Except Err Unit)
  | .apply w => (Workloads.apply w).thenOk fun _ => .ret (.ok ())
  | .start name => Workloads.start name
  | .stop name => Workloads.stop svc name
  | .restart name => Workloads.restart svc name
  | .delete name => Workloads.delete svc name

/-! ## Code that runs alone

What is left to prove of code after each operation, whatever the store answers. -/

section Alone

variable {D : Side → Type} {DRes : (s : Side) → D s → Type} {δ : Side → Type} {ε α : Type}
  {dsem : (s : Side) → Sem (D s) (DRes s) (δ s) ε} {I : Op D → State δ → Prop}
  {Q : α → State δ → Prop} {s : State δ}

theorem safe_get {n : String} {k : Except Err Workload → Code DRes α} (hI : I (.get n) s)
    (herr : ∀ e, (k (.error e)).Safe (sem dsem) Eq I Q s)
    (hok : ∀ w, s.rows.get n = some w → (k (.ok w)).Safe (sem dsem) Eq I Q s) :
    (Prog.call (.get n) k).Safe (sem dsem) Eq I Q s := by
  refine .call ⟨hI, ?_⟩
  intro e
  rw [get_state]
  cases hr : (sem dsem (.get n) e s).2 with
  | error err => exact herr err
  | ok w => exact hok w (get_answer dsem hr)

theorem safe_put {w : Workload} {k : Except Err Unit → Code DRes α} (hI : I (.put w) s)
    (herr : ∀ e, (k (.error e)).Safe (sem dsem) Eq I Q s)
    (hok : (k (.ok ())).Safe (sem dsem) Eq I Q { s with rows := s.rows.put w }) :
    (Prog.call (.put w) k).Safe (sem dsem) Eq I Q s := by
  refine .call ⟨hI, ?_⟩
  intro e
  simp only [sem]
  cases e.fault with
  | none => exact hok
  | some m => exact herr _

theorem safe_delete {n : String} {k : Except Err Unit → Code DRes α} (hI : I (.delete n) s)
    (herr : ∀ e, (k (.error e)).Safe (sem dsem) Eq I Q s)
    (hok : (k (.ok ())).Safe (sem dsem) Eq I Q { s with rows := s.rows.del n }) :
    (Prog.call (.delete n) k).Safe (sem dsem) Eq I Q s := by
  refine .call ⟨hI, ?_⟩
  intro e
  simp only [sem]
  cases e.fault with
  | none => exact hok
  | some m => exact herr _

theorem safe_list {k : Except Err (List Workload) → Code DRes α} (hI : I .list s)
    (herr : ∀ e, (k (.error e)).Safe (sem dsem) Eq I Q s)
    (hok : (k (.ok s.rows.list)).Safe (sem dsem) Eq I Q s) :
    (Prog.call .list k).Safe (sem dsem) Eq I Q s := by
  refine .call ⟨hI, ?_⟩
  intro e
  simp only [sem, Env.answer]
  cases e.fault with
  | none => exact hok
  | some m => exact herr _

theorem writeStatus_safe {m : String} {ph : WorkloadPhase} {msg : String}
    {Q : Unit → State δ → Prop} (hget : I (.get m) s)
    (hput : ∀ w, s.rows.get m = some w → I (.put { w with status := some ⟨ph, msg, 0⟩ }) s)
    (hsame : Q () s)
    (hnew : ∀ w, s.rows.get m = some w →
      Q () { s with rows := s.rows.put { w with status := some ⟨ph, msg, 0⟩ } }) :
    (writeStatus m ph msg : Code DRes Unit).Safe (sem dsem) Eq I Q s := by
  have hend : ∀ s', Q () s' → (Prog.ret () : Code DRes Unit).Safe (sem dsem) Eq I Q s' :=
    fun s' h => .ret h
  refine safe_get hget (fun _ => hend s hsame) ?_
  intro w hw
  change Prog.Safe _ _ _ _ ((if w.status = some ⟨ph, msg, 0⟩ then .ret (.ok ())
    else put { w with status := some ⟨ph, msg, 0⟩ } : Code DRes (Except Err Unit)) >>= _) s
  split
  · exact hend s hsame
  · exact safe_put (hput w hw) (fun _ => hend s hsame) (hend _ (hnew w hw))

end Alone

end Capsule.Workloads
