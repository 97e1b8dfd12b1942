import Mathlib.Data.Fintype.Defs
import Capsule.Atomic.Rely

/-!
# Capsule.Atomic.Pool

Interleavings of any number of programs over one shared state. A schedule is a list of threads with
the environment's answers; one step performs one operation of one thread.

* `run_induct`: the induction behind every property of runs.
* `run_monitor`: the invariant rule for threads that keep to their monitors.
* `safe_run`: a thread beside others that leave the state as it is goes as if it ran alone.
-/

namespace Atomic

variable {ι Op : Type} {Res : Op → Type} {σ ε α γ : Type}

structure Pool (ι Op : Type) (Res : Op → Type) (σ α : Type) where
  st : σ
  thr : ι → Prog Op Res α

/-- One performed operation: who, what, and the answer. -/
structure Event (ι Op : Type) (Res : Op → Type) where
  tid : ι
  op : Op
  ans : Res op

namespace Pool

section Defs

variable (sem : Sem Op Res σ ε)

def event (c : Pool ι Op Res σ α) (x : ι × ε) : List (Event ι Op Res) :=
  match c.thr x.1 with
  | .ret _ => []
  | .call o _ => [⟨x.1, o, (sem o x.2 c.st).2⟩]

def Done (c : Pool ι Op Res σ α) : Prop := ∀ i, (c.thr i).next? = none

variable [DecidableEq ι]

def step (c : Pool ι Op Res σ α) (x : ι × ε) : Pool ι Op Res σ α :=
  match c.thr x.1 with
  | .ret _ => c
  | .call o k => ⟨(sem o x.2 c.st).1, Function.update c.thr x.1 (k (sem o x.2 c.st).2)⟩

def run (c : Pool ι Op Res σ α) : List (ι × ε) → Pool ι Op Res σ α
  | [] => c
  | x :: w => (c.step sem x).run w

def events (c : Pool ι Op Res σ α) : List (ι × ε) → List (Event ι Op Res)
  | [] => []
  | x :: w => c.event sem x ++ (c.step sem x).events w

/-- Every step of the schedule is taken in a state that allows it. -/
def Allowed (ok : Pool ι Op Res σ α → ι → ε → Prop) (c : Pool ι Op Res σ α) :
    List (ι × ε) → Prop
  | [] => True
  | x :: w => ok c x.1 x.2 ∧ (c.step sem x).Allowed ok w

instance decDone [Fintype ι] (c : Pool ι Op Res σ α) : Decidable c.Done :=
  inferInstanceAs (Decidable (∀ i, (c.thr i).next? = none))

instance decAllowed (ok : Pool ι Op Res σ α → ι → ε → Prop) [∀ c i e, Decidable (ok c i e)] :
    ∀ (c : Pool ι Op Res σ α) (w : List (ι × ε)), Decidable (c.Allowed sem ok w)
  | _, [] => .isTrue trivial
  | c, x :: w =>
    have := decAllowed ok (c.step sem x) w
    inferInstanceAs (Decidable (ok c x.1 x.2 ∧ (c.step sem x).Allowed sem ok w))

end Defs

variable {sem : Sem Op Res σ ε} {c : Pool ι Op Res σ α} {i j : ι} {e : ε}

theorem event_ret {a : α} (h : c.thr i = .ret a) : c.event sem (i, e) = [] := by
  simp [event, h]

theorem event_call {o : Op} {k : Res o → Prog Op Res α} (h : c.thr i = .call o k) :
    c.event sem (i, e) = [⟨i, o, (sem o e c.st).2⟩] := by
  simp [event, h]

variable [DecidableEq ι]

theorem step_ret {a : α} (h : c.thr i = .ret a) : c.step sem (i, e) = c := by
  simp [step, h]

theorem step_call {o : Op} {k : Res o → Prog Op Res α} (h : c.thr i = .call o k) :
    c.step sem (i, e) =
      ⟨(sem o e c.st).1, Function.update c.thr i (k (sem o e c.st).2)⟩ := by
  simp [step, h]

theorem step_thr_ne (h : j ≠ i) : (c.step sem (i, e)).thr j = c.thr j := by
  cases hp : c.thr i with
  | ret a => rw [step_ret hp]
  | call o k => rw [step_call hp]; exact Function.update_of_ne h _ _

theorem allowed_true (c : Pool ι Op Res σ α) (w : List (ι × ε)) :
    c.Allowed sem (fun _ _ _ => True) w := by
  induction w generalizing c with
  | nil => trivial
  | cons x w ih => exact ⟨trivial, ih _⟩

/-- The induction behind every property of runs: `P` speaks of the operations performed so far
and the pool reached, and is kept by every allowed operation of every thread. -/
theorem run_induct {ok : Pool ι Op Res σ α → ι → ε → Prop}
    {P : List (Event ι Op Res) → Pool ι Op Res σ α → Prop}
    (hstep : ∀ h c i e o k, P h c → c.thr i = .call o k → ok c i e →
      P (h ++ [⟨i, o, (sem o e c.st).2⟩]) (c.step sem (i, e))) :
    ∀ (w : List (ι × ε)) (h : List (Event ι Op Res)) (c : Pool ι Op Res σ α), P h c →
      c.Allowed sem ok w → P (h ++ c.events sem w) (c.run sem w) := by
  intro w
  induction w with
  | nil => intro h c h0 _; simpa [events, run] using h0
  | cons x w ih =>
    intro h c h0 hok
    obtain ⟨i, e⟩ := x
    obtain ⟨hx, hw⟩ := hok
    simp only [events, run]
    cases hp : c.thr i with
    | ret a => rw [step_ret hp] at hw ⊢; rw [event_ret hp]; exact ih h c h0 hw
    | call o k =>
      rw [event_call hp, ← List.append_assoc]
      exact ih _ _ (hstep h c i e o k h0 hp hx) hw

end Pool

namespace Pool

variable [DecidableEq ι] {sem : Sem Op Res σ ε}

/-- Every thread still keeps to its monitor after a step, in the phase the answer leads to. -/
theorem obeys_step {M : ι → Monitor Op Res α γ} {c : Pool ι Op Res σ α} {g : ι → γ}
    (hg : ∀ j, (c.thr j).Obeys (M j) (g j)) {i : ι} {o : Op} {k : Res o → Prog Op Res α}
    (hp : c.thr i = .call o k) (e : ε) (j : ι) :
    ((c.step sem (i, e)).thr j).Obeys (M j)
      (Function.update g i ((M i).next (g i) o (sem o e c.st).2) j) := by
  have hi := hg i
  rw [hp, Prog.obeys_call] at hi
  rw [step_call hp]
  by_cases hj : j = i
  · subst hj; simpa using hi.2 _
  · simpa [Function.update_of_ne hj] using hg j

/-- The invariant rule. Each thread keeps to its monitor; `P` relates the history, the phases
and the pool. It is enough that one allowed operation of a thread in its phase keeps `P`. -/
theorem run_monitor {M : ι → Monitor Op Res α γ} {ok : Pool ι Op Res σ α → ι → ε → Prop}
    {P : List (Event ι Op Res) → (ι → γ) → Pool ι Op Res σ α → Prop}
    (hstep : ∀ h g c i e o k, P h g c → (∀ j, (c.thr j).Obeys (M j) (g j)) →
      c.thr i = .call o k → ok c i e →
      P (h ++ [⟨i, o, (sem o e c.st).2⟩])
        (Function.update g i ((M i).next (g i) o (sem o e c.st).2)) (c.step sem (i, e)))
    {c : Pool ι Op Res σ α} {g : ι → γ} (hg : ∀ j, (c.thr j).Obeys (M j) (g j))
    (h0 : P [] g c) {w : List (ι × ε)} (hw : c.Allowed sem ok w) :
    ∃ g', P (c.events sem w) g' (c.run sem w) ∧
      ∀ j, ((c.run sem w).thr j).Obeys (M j) (g' j) := by
  let Q (h : List (Event ι Op Res)) (c : Pool ι Op Res σ α) : Prop :=
    ∃ g, P h g c ∧ ∀ j, (c.thr j).Obeys (M j) (g j)
  have hQ : ∀ h c i e o k, Q h c → c.thr i = .call o k → ok c i e →
      Q (h ++ [⟨i, o, (sem o e c.st).2⟩]) (c.step sem (i, e)) := by
    rintro h c i e o k ⟨g, hP, hob⟩ hp hx
    exact ⟨_, hstep h g c i e o k hP hob hp hx, obeys_step hob hp e⟩
  simpa using run_induct hQ w [] c ⟨g, h0, hg⟩ hw

/-- One thread among others whose allowed operations leave the state as it is: it goes as if it ran
alone. -/
theorem safe_run {ok : Pool ι Op Res σ α → ι → ε → Prop} {I : Op → σ → Prop} {Q : α → σ → Prop}
    {i : ι} (hothers : ∀ c j e o k, ok c j e → j ≠ i → c.thr j = .call o k →
      (sem o e c.st).1 = c.st)
    {c : Pool ι Op Res σ α} (hsafe : (c.thr i).Safe sem Eq I Q c.st) {w : List (ι × ε)}
    (hw : c.Allowed sem ok w) :
    ((c.run sem w).thr i).Safe sem Eq I Q (c.run sem w).st := by
  refine run_induct (P := fun _ c => (c.thr i).Safe sem Eq I Q c.st) ?_ w [] c hsafe hw
  intro _ c j e o k hc hcall hok
  rw [step_call hcall]
  by_cases hj : j = i
  · subst hj
    rw [hcall, Prog.safe_alone_call] at hc
    dsimp only
    rw [Function.update_self]
    exact hc.2 e
  · dsimp only
    rw [Function.update_of_ne (Ne.symm hj), hothers c j e o k hok hj hcall]
    exact hc

end Pool

end Atomic
