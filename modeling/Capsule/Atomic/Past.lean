import Capsule.Atomic.Pool

/-!
# Capsule.Atomic.Past

What the threads of a pool have done so far. `Performed` says that a thread performed an operation
during a schedule, in a state and with an answer of a kind; `track` is the invariant rule for what
speaks of the schedule so far and of the phases of the threads' monitors.
-/

namespace Atomic.Pool

variable {ι Op : Type} {Res : Op → Type} {σ ε α γ : Type} [DecidableEq ι] {sem : Sem Op Res σ ε}
  {c : Pool ι Op Res σ α}

theorem run_append (c : Pool ι Op Res σ α) (w w' : List (ι × ε)) :
    c.run sem (w ++ w') = (c.run sem w).run sem w' := by
  induction w generalizing c with
  | nil => rfl
  | cons x w ih => exact ih _

theorem run_snoc (c : Pool ι Op Res σ α) (w : List (ι × ε)) (x : ι × ε) :
    c.run sem (w ++ [x]) = (c.run sem w).step sem x :=
  run_append c w [x]

theorem allowed_snoc {ok : Pool ι Op Res σ α → ι → ε → Prop} {c : Pool ι Op Res σ α}
    {w : List (ι × ε)} {x : ι × ε} (h : c.Allowed sem ok (w ++ [x])) :
    c.Allowed sem ok w ∧ ok (c.run sem w) x.1 x.2 := by
  induction w generalizing c with
  | nil => exact ⟨trivial, h.1⟩
  | cons y w ih => exact ⟨⟨h.1, (ih h.2).1⟩, (ih h.2).2⟩

/-- During `w`, thread `i` performed `o` where `Q` held of the state and the answer. -/
def Performed (sem : Sem Op Res σ ε) (c : Pool ι Op Res σ α) (w : List (ι × ε)) (i : ι) (o : Op)
    (Q : σ → Res o → Prop) : Prop :=
  ∃ w₁ e w₂, w = w₁ ++ (i, e) :: w₂ ∧ ((c.run sem w₁).thr i).next? = some o ∧
    Q (c.run sem w₁).st (sem o e (c.run sem w₁).st).2

variable {w : List (ι × ε)} {i : ι} {o : Op} {Q : σ → Res o → Prop}

theorem Performed.append (h : c.Performed sem w i o Q) (w' : List (ι × ε)) :
    c.Performed sem (w ++ w') i o Q := by
  obtain ⟨w₁, e, w₂, rfl, hnext, hQ⟩ := h
  exact ⟨w₁, e, w₂ ++ w', by simp, hnext, hQ⟩

theorem performed_last {k : Res o → Prog Op Res α} {e : ε} (hp : (c.run sem w).thr i = .call o k)
    (hQ : Q (c.run sem w).st (sem o e (c.run sem w).st).2) :
    c.Performed sem (w ++ [(i, e)]) i o Q :=
  ⟨w, e, [], rfl, by rw [hp]; rfl, hQ⟩

/-- The invariant rule over schedules: `P` speaks of the schedule so far and of the phases. A
scheduled thread that has returned does nothing. -/
theorem track {M : ι → Monitor Op Res α γ} {P : List (ι × ε) → (ι → γ) → Prop}
    (hstep : ∀ w g i e o k, P w g → (∀ j, ((c.run sem w).thr j).Obeys (M j) (g j)) →
      (c.run sem w).thr i = .call o k →
      P (w ++ [(i, e)]) (Function.update g i ((M i).next (g i) o (sem o e (c.run sem w).st).2)))
    (hidle : ∀ w g i e a, P w g → (c.run sem w).thr i = .ret a → P (w ++ [(i, e)]) g)
    {g : ι → γ} (h0 : P w g) (hg : ∀ j, ((c.run sem w).thr j).Obeys (M j) (g j))
    (w' : List (ι × ε)) :
    ∃ g', P (w ++ w') g' ∧ ∀ j, ((c.run sem (w ++ w')).thr j).Obeys (M j) (g' j) := by
  induction w' generalizing w g with
  | nil => exact ⟨g, by simpa using h0, by simpa using hg⟩
  | cons x w' ih =>
    obtain ⟨i, e⟩ := x
    rw [show w ++ (i, e) :: w' = (w ++ [(i, e)]) ++ w' by simp]
    cases hp : (c.run sem w).thr i with
    | ret a =>
      refine ih (hidle w g i e a h0 hp) ?_
      rw [run_snoc, step_ret hp]
      exact hg
    | call o k =>
      refine ih (hstep w g i e o k h0 hg hp) ?_
      rw [run_snoc]
      exact obeys_step hg hp e

end Atomic.Pool
