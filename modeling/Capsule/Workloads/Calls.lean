import Capsule.Atomic.Pool
import Capsule.Workloads.Service

/-!
# Capsule.Workloads.Calls

Calls that read and write back one workload's row, in any interleaving: `SetStatus` of the
reconciler, and `Apply`, `Start`, `Stop` and `Delete` of an operator.

* `monitor`, `Call.code_obeys`: a call reads, puts what `Call.write` says, and then at most calls a
  driver and, in `Delete`, removes the row.
* `CallStep`, `callStep_of_obeys`: so its next step is one of a few. `LastWrite` and `DeletedRow`
  are about pools of such calls, and use of the code only this.
-/

namespace Capsule.Workloads

open Atomic Keyed

/-- A call on one workload. `mark` is `Delete` up to its tombstone. -/
inductive Call where
  | apply (w : Option Workload)
  | start
  | stop
  | mark
  | delete
  | setStatus (st : WorkloadStatus)
  deriving DecidableEq

/-- Issued by an operator, not by the reconciler. -/
def Call.operator : Call → Bool
  | .setStatus _ => false
  | _ => true

/-- The row without its status. -/
def Workload.body (w : Workload) : Workload := { w with status := none }

/-- The row of a name, its status apart. -/
def rowBody {δ : Side → Type} (name : String) (s : State δ) : Option Workload :=
  (s.rows.get name).map Workload.body

/-- What a call puts after its `Get` was answered, if it puts anything. -/
def Call.write (name : String) : Call → Except Err Workload → Option Workload
  | .apply (some w), .ok r => some (merge { w with name := name } (some r))
  | .apply (some w), .error e =>
    if e.is .notFound then some (merge { w with name := name } none) else none
  | .start, .ok r =>
    some { r with desiredState := .running, status := some ⟨.pending, "starting", 0⟩ }
  | .stop, .ok r => some { r with desiredState := .stopped }
  | .mark, .ok r | .delete, .ok r =>
    if r.desiredState = .deleting then none else some { r with desiredState := .deleting }
  | .setStatus st, .ok r =>
    if r.status = some st then none else some { r with status := some st }
  | _, _ => none

section

variable {D : Side → Type} {DRes : (s : Side) → D s → Type}

def Call.code (svc : Service DRes) (name : String) : Call → Code DRes (Except Err Unit)
  | .apply w => (Workloads.apply (w.map ({ · with name := name }))).thenOk fun _ => .ret (.ok ())
  | .start => Workloads.start name
  | .stop => Workloads.stop svc name
  | .mark => (markDeleting name).thenOk fun _ => .ret (.ok ())
  | .delete => Workloads.delete svc name
  | .setStatus st => Workloads.setStatus name st

/-- Where a call is. `gone`: it has removed the row. -/
inductive Phase where
  | reading
  | writing (w : Workload)
  | rest
  | gone

/-- Where a call is once its `Get` was answered. -/
def Phase.after : Option Workload → Phase
  | none => .rest
  | some w => .writing w

/-- A call reads, puts what `Call.write` says, and then at most calls a driver and, in `Delete`,
removes the row; `Delete` succeeds only by removing it. -/
def monitor (DRes : (s : Side) → D s → Type) (name : String) (call : Call) :
    Monitor (Op D) (Res DRes) (Except Err Unit) Phase where
  ok
    | .reading, o => o = .get name
    | .writing w, o => o = .put w
    | .rest, .drv _ _ => True
    | .rest, o => o = .delete name ∧ call = .delete
    | .gone, _ => False
  next
    | .reading, .get _, r => .after (call.write name r)
    | .rest, .delete _, .ok () => .gone
    | _, _, _ => .rest
  fin
    | .writing _, _ => False
    | .gone, _ => True
    | _, r => call = .delete → r ≠ .ok ()

section

variable {name : String} {call : Call} {svc : Service DRes}

theorem removeRuntime_obeys {kind : Kind} {Q : Phase → Except Err Unit → Prop}
    (hQ : ∀ r, Q .rest r) :
    (removeRuntime svc kind name).Obeys ((monitor DRes name call).post Q) .rest := by
  unfold removeRuntime
  cases svc (sideOf kind) with
  | none => exact hQ _
  | some d =>
    rw [Prog.obeys_mapErr]
    exact Prog.obeys_lift (fun _ => trivial) (fun _ _ => rfl) _ fun r => hQ _

theorem markDeleting_obeys {Q : Phase → Except Err Kind → Prop}
    (hcall : call = .mark ∨ call = .delete) (hQ : ∀ r, Q .rest r) :
    (markDeleting name : Code DRes _).Obeys ((monitor DRes name call).post Q) .reading := by
  have hwrite : ∀ r, call.write name r = Call.write name .mark r := by
    intro r
    rcases hcall with rfl | rfl <;> cases r <;> rfl
  refine ⟨rfl, ?_⟩
  intro r
  change Prog.Obeys _ (Phase.after (call.write name r)) _
  rw [hwrite]
  cases r with
  | error e => exact hQ _
  | ok w =>
    change Prog.Obeys _
      (Phase.after (if w.desiredState = .deleting then none
        else some { w with desiredState := .deleting }))
      (if w.desiredState = .deleting then _ else _)
    by_cases hw : w.desiredState = .deleting
    · rw [if_pos hw, if_pos hw]; exact hQ _
    · rw [if_neg hw, if_neg hw]
      refine ⟨rfl, ?_⟩
      intro r
      cases r <;> exact hQ _

theorem applyMerged_obeys {w : Workload} {existing : Option Workload}
    {Q : Phase → Except Err Workload → Prop} (hQ : ∀ r, Q .rest r) :
    (applyMerged w existing : Code DRes _).Obeys ((monitor DRes name call).post Q)
      (.writing (merge w existing)) := by
  refine ⟨rfl, ?_⟩
  intro r
  cases r <;> exact hQ _

theorem fin_rest (h : call ≠ .delete) (r : Except Err Unit) :
    (monitor DRes name call).fin .rest r := fun h' => absurd h' h

theorem apply_obeys (w : Workload) {Q : Phase → Except Err Workload → Prop}
    (hR : ∀ r, Q .reading r) (hQ : ∀ r, Q .rest r) :
    (apply (some { w with name := name }) : Code DRes _).Obeys
      ((monitor DRes name (.apply (some w))).post Q) .reading := by
  simp only [apply]
  cases validate { w with name := name } with
  | error e => exact hR _
  | ok _ =>
    refine ⟨rfl, ?_⟩
    intro r
    cases r with
    | ok existing => exact applyMerged_obeys hQ
    | error e =>
      change Prog.Obeys _
        (Phase.after (if e.is .notFound then some (merge { w with name := name } none) else none))
        (if e.is .notFound then applyMerged _ none else .ret (.error e))
      by_cases he : e.is .notFound
      · rw [if_pos he, if_pos he]; exact applyMerged_obeys hQ
      · rw [if_neg he, if_neg he]; exact hQ _

theorem setStatus_obeys (st : WorkloadStatus) :
    (setStatus name st : Code DRes _).Obeys (monitor DRes name (.setStatus st)) .reading := by
  have hfin : ∀ r, (monitor DRes name (.setStatus st)).fin .rest r :=
    fin_rest (by simp)
  refine ⟨rfl, ?_⟩
  intro r
  cases r with
  | error e => exact hfin _
  | ok w =>
    change Prog.Obeys _
      (Phase.after (if w.status = some st then none else some { w with status := some st }))
      (if w.status = some st then .ret (.ok ()) else put { w with status := some st })
    by_cases hw : w.status = some st
    · rw [if_pos hw, if_pos hw]; exact hfin _
    · rw [if_neg hw, if_neg hw]; exact ⟨rfl, hfin⟩

theorem start_obeys : (start name : Code DRes _).Obeys (monitor DRes name .start) .reading := by
  have hfin : ∀ r, (monitor DRes name .start).fin .rest r := fin_rest (by simp)
  refine ⟨rfl, ?_⟩
  intro r
  cases r with
  | error e => exact hfin _
  | ok w => exact ⟨rfl, hfin⟩

theorem stop_obeys : (stop svc name).Obeys (monitor DRes name .stop) .reading := by
  have hfin : ∀ r, (monitor DRes name .stop).fin .rest r := fin_rest (by simp)
  refine ⟨rfl, ?_⟩
  intro r
  cases r with
  | error e => exact hfin _
  | ok w =>
    refine ⟨rfl, ?_⟩
    intro r
    cases r with
    | error e => exact hfin _
    | ok _ =>
      change Prog.Obeys _ Phase.rest 
        (removeRuntime svc w.kind name >>= fun _ => .ret (Except.ok ()))
      exact Prog.obeys_bind.mpr (removeRuntime_obeys fun _ => hfin _)

theorem delete_obeys : (delete svc name).Obeys (monitor DRes name .delete) .reading := by
  have hfail : ∀ e, (monitor DRes name .delete).fin .rest (.error e) := by
    intro e _ h; cases h
  refine Prog.obeys_thenOk.mpr (markDeleting_obeys (.inr rfl) ?_)
  intro r
  cases r with
  | error e => exact hfail e
  | ok kind =>
    refine Prog.obeys_thenOk.mpr (removeRuntime_obeys ?_)
    intro r
    cases r with
    | error e => exact hfail e
    | ok _ =>
      refine ⟨⟨rfl, rfl⟩, ?_⟩
      intro r
      cases r with
      | error e => exact hfail e
      | ok _ => trivial

theorem Call.code_obeys (svc : Service DRes) (name : String) (call : Call) :
    (call.code svc name).Obeys (monitor DRes name call) .reading := by
  cases call with
  | apply w =>
    cases w with
    | none => exact fun h => by cases h
    | some w =>
      refine Prog.obeys_thenOk.mpr (apply_obeys w ?_ ?_) <;> intro r <;> cases r <;>
        exact fun h => by cases h
  | start => exact start_obeys
  | stop => exact stop_obeys
  | mark =>
    refine Prog.obeys_thenOk.mpr (markDeleting_obeys (.inl rfl) ?_)
    intro r
    cases r <;> exact fun h => by cases h
  | delete => exact delete_obeys
  | setStatus st => exact setStatus_obeys st

end

variable {ι : Type} {δ : Side → Type} {ε : Type}

def pool (svc : Service DRes) (name : String) (calls : ι → Call) (s : State δ) :
    Pool ι (Op D) (Res DRes) (State δ) (Except Err Unit) :=
  ⟨s, fun i => (calls i).code svc name⟩

def putting (p : Code DRes (Except Err Unit)) : Bool :=
  match p.next? with
  | some (.put _) => true
  | _ => false

def removing (p : Code DRes (Except Err Unit)) : Bool :=
  match p.next? with
  | some (.delete _) => true
  | _ => false

theorem putting_of_writing {name : String} {call : Call} {w : Workload}
    {p : Code DRes (Except Err Unit)} (h : p.Obeys (monitor DRes name call) (.writing w)) :
    putting p = true := by
  cases p with
  | ret r => exact absurd h id
  | call o k =>
    have ho : o = .put w := h.1
    subst ho
    rfl

/-- What one call's next step can be, and what it leaves. -/
inductive CallStep (name : String) (call : Call) (i : ι) (s : State δ) :
    Phase → Event ι (Op D) (Res DRes) → State δ → Phase → Prop where
  | read {r : Except Err Workload} (hr : ∀ w, r = .ok w → s.rows.get name = some w) :
      CallStep name call i s .reading ⟨i, .get name, r⟩ s (.after (call.write name r))
  | put {w : Workload} :
      CallStep name call i s (.writing w) ⟨i, .put w, .ok ()⟩
        { s with rows := s.rows.put w } .rest
  | putFailed {w : Workload} {err : Err} :
      CallStep name call i s (.writing w) ⟨i, .put w, .error err⟩ s .rest
  | driver {side : Side} {d : D side} {r : DRes side d} {dev : (s : Side) → δ s} :
      CallStep name call i s .rest ⟨i, .drv side d, r⟩ { s with dev := dev } .rest
  | remove (hcall : call = .delete) :
      CallStep name call i s .rest ⟨i, .delete name, .ok ()⟩
        { s with rows := s.rows.del name } .gone
  | removeFailed {err : Err} (hcall : call = .delete) :
      CallStep name call i s .rest ⟨i, .delete name, .error err⟩ s .rest

section Steps

variable (dsem : (s : Side) → Sem (D s) (DRes s) (δ s) ε)

theorem get_answer {name : String} {e : Env ε} {s : State δ} {w : Workload}
    (h : (sem dsem (.get name) e s).2 = .ok w) : s.rows.get name = some w := by
  simp only [sem] at h
  cases hf : e.fault with
  | some m => rw [hf] at h; cases h
  | none =>
    rw [hf] at h
    simp only [getRow] at h
    split at h
    · cases h; assumption
    · cases h

@[simp] theorem get_state {name : String} {e : Env ε} {s : State δ} :
    (sem dsem (.get name) e s).1 = s := by
  simp only [sem]
  split <;> rfl

theorem callStep_of_obeys {name : String} {call : Call} {g : Phase} {o : Op D}
    {k : Res DRes o → Code DRes (Except Err Unit)}
    (h : (Prog.call o k).Obeys (monitor DRes name call) g) (i : ι) (e : Env ε) (s : State δ) :
    CallStep name call i s g ⟨i, o, (sem dsem o e s).2⟩ (sem dsem o e s).1
      ((monitor DRes name call).next g o (sem dsem o e s).2) := by
  have ho := h.1
  cases g with
  | reading =>
    obtain rfl : o = .get name := ho
    rw [get_state]
    exact .read fun w hw => get_answer dsem hw
  | writing w =>
    obtain rfl : o = .put w := ho
    simp only [sem]
    cases e.fault with
    | none => exact .put
    | some m => exact .putFailed
  | rest =>
    cases o with
    | drv side d => exact .driver
    | delete n =>
      obtain ⟨hn, hcall⟩ : Op.delete n = .delete name ∧ call = .delete := ho
      cases hn
      simp only [sem]
      cases e.fault with
      | none => exact .remove hcall
      | some m => exact .removeFailed hcall
    | get n => cases ho.1
    | put w => cases ho.1
    | list => cases ho.1
  | gone => exact absurd ho id

end Steps

end

section

variable {D : Side → Type} {DRes : (s : Side) → D s → Type}

def finish (svc : Service DRes) (n : String) (kind : Kind) : Code DRes (Except Err Unit) :=
  (removeRuntime svc kind n).thenOk fun _ => deleteRow n

def tombstone (svc : Service DRes) (n : String) (w : Workload) : Code DRes (Except Err Unit) :=
  .call (.put { w with desiredState := .deleting }) fun
    | .ok () => finish svc n w.kind
    | .error e => .ret (.error (e.ctx ("mark workload " ++ GoString.quote n ++ " deleting")))

def afterGet (svc : Service DRes) (n : String) : Except Err Workload → Code DRes (Except Err Unit)
  | .error _ => finish svc n .unspecified
  | .ok w => if w.desiredState = .deleting then finish svc n w.kind else tombstone svc n w

theorem delete_eq (svc : Service DRes) (n : String) :
    delete svc n = .call (.get n) (afterGet svc n) := by
  refine congrArg (Prog.call (Op.get n)) (funext ?_)
  intro r
  cases r with
  | error e => rfl
  | ok w =>
    change Prog.thenOk (if w.desiredState = .deleting then _ else _) _ =
      if w.desiredState = .deleting then _ else _
    split
    · rfl
    · refine congrArg (Prog.call (Op.put _)) (funext ?_)
      intro r
      cases r <;> rfl

end

end Capsule.Workloads
