import Mathlib.Data.List.Forall2

/-!
# Capsule.Atomic.Steps

Runs of a deterministic step function on a list of inputs, under a condition on each step, and what
two machines answer that simulate each other.
-/

namespace Atomic

variable {σ ι : Type}

/-- Every step of the run from `s` on the inputs is taken in a state that allows it. -/
def Along (step : σ → ι → σ) (ok : σ → ι → Prop) : σ → List ι → Prop
  | _, [] => True
  | s, x :: w => ok s x ∧ Along step ok (step s x) w

instance (step : σ → ι → σ) (ok : σ → ι → Prop) [∀ s x, Decidable (ok s x)] :
    ∀ (s : σ) (w : List ι), Decidable (Along step ok s w)
  | _, [] => .isTrue trivial
  | s, x :: w =>
    have := instDecidableAlong step ok (step s x) w
    inferInstanceAs (Decidable (ok s x ∧ Along step ok (step s x) w))

variable {step : σ → ι → σ} {ok : σ → ι → Prop} {I : σ → Prop}

theorem Along.left {w w' : List ι} {s : σ} (h : Along step ok s (w ++ w')) :
    Along step ok s w := by
  induction w generalizing s with
  | nil => trivial
  | cons x w ih => exact ⟨h.1, ih h.2⟩

theorem Along.and {ok' : σ → ι → Prop} {w : List ι} {s : σ} (h : Along step ok s w)
    (h' : Along step ok' s w) : Along step (fun s x => ok s x ∧ ok' s x) s w := by
  induction w generalizing s with
  | nil => trivial
  | cons x w ih => exact ⟨⟨h.1, h'.1⟩, ih h.2 h'.2⟩

theorem Along.invariant (hstep : ∀ s x, I s → ok s x → I (step s x)) {w : List ι} {s : σ}
    (hw : Along step ok s w) (hs : I s) : I (w.foldl step s) := by
  induction w generalizing s with
  | nil => exact hs
  | cons x w ih => exact ih hw.2 (hstep s x hs hw.1)

/-- What holds at every step of a run, from an invariant of the states it goes through. -/
theorem Along.of_invariant {P : σ → ι → Prop} (hstep : ∀ s x, I s → ok s x → I (step s x))
    (hP : ∀ s x, I s → ok s x → P s x) {w : List ι} {s : σ} (hw : Along step ok s w) (hs : I s) :
    Along step P s w := by
  induction w generalizing s with
  | nil => trivial
  | cons x w ih => exact ⟨hP s x hs hw.1, ih hw.2 (hstep s x hs hw.1)⟩

theorem along_of_forall {w : List ι} (h : ∀ s, ∀ x ∈ w, ok s x) (s : σ) :
    Along step ok s w := by
  induction w generalizing s with
  | nil => trivial
  | cons x w ih =>
    refine ⟨h s x List.mem_cons_self, ih ?_ _⟩
    intro s y hy
    exact h s y (List.mem_cons_of_mem x hy)

variable {τ ρ : Type}

/-- The answers of a machine to a list of inputs. -/
def outputs (step : σ → ι → σ × ρ) : σ → List ι → List ρ
  | _, [] => []
  | s, x :: w => (step s x).2 :: outputs step (step s x).1 w

/-- Two machines give answers that `Q` relates from states that `R` relates, as long as each input
is one that related states answer so and stay related on. -/
theorem outputs_forall₂ {ρ' : Type} {f : σ → ι → σ × ρ} {g : τ → ι → τ × ρ'} {R : σ → τ → Prop}
    {Q : ρ → ρ' → Prop}
    (hstep : ∀ s t x, R s t → ok s x → Q (f s x).2 (g t x).2 ∧ R (f s x).1 (g t x).1)
    {w : List ι} {s : σ} {t : τ} (hR : R s t) (hw : Along (fun s x => (f s x).1) ok s w) :
    List.Forall₂ Q (outputs f s w) (outputs g t w) := by
  induction w generalizing s t with
  | nil => exact .nil
  | cons x w ih =>
    obtain ⟨hanswer, hnext⟩ := hstep s t x hR hw.1; exact .cons hanswer (ih hnext hw.2)

theorem outputs_eq {f : σ → ι → σ × ρ} {g : τ → ι → τ × ρ} {R : σ → τ → Prop}
    (hstep : ∀ s t x, R s t → ok s x → (f s x).2 = (g t x).2 ∧ R (f s x).1 (g t x).1)
    {w : List ι} {s : σ} {t : τ} (hR : R s t) (hw : Along (fun s x => (f s x).1) ok s w) :
    outputs f s w = outputs g t w :=
  List.forall₂_eq_eq_eq ▸ outputs_forall₂ hstep hR hw

end Atomic
