import Mathlib.Data.List.Basic

/-!
# Capsule.Atomic.Moves

Runs of a machine whose steps are labelled and may be disabled: `next s x` is the state after the
step `x`, or `none` where `x` cannot be taken. What a step may depend on besides is a condition `ok`
on the state before it.

* `Moves`: the runs, with the invariant rule `invariant`; `moves?` computes one.
* `Inevitable`: once a party has been given its turn often enough, the goal is reached.
  `Inevitable.of_rank` proves it by a measure, `not_inevitable_of_forever` refutes it.
-/

namespace Atomic

variable {σ ι : Type}

/-- The run `w` from `s` to `s'`, each step taken in a state that allows it. -/
inductive Moves (next : σ → ι → Option σ) (ok : σ → ι → Prop) : σ → List ι → σ → Prop where
  | nil {s : σ} : Moves next ok s [] s
  | cons {s s' s'' : σ} {x : ι} {w : List ι} :
      ok s x → next s x = some s' → Moves next ok s' w s'' → Moves next ok s (x :: w) s''

/-- The state a run ends in, if each of its steps can be taken. -/
def moves? (next : σ → ι → Option σ) (ok : σ → ι → Prop) [∀ s x, Decidable (ok s x)] :
    σ → List ι → Option σ
  | s, [] => some s
  | s, x :: w => if ok s x then (next s x).bind fun s' => moves? next ok s' w else none

variable {next : σ → ι → Option σ} {ok ok' : σ → ι → Prop} {I G P : σ → Prop} {s s' s'' : σ}
  {w w' : List ι}

namespace Moves

theorem of_moves? [∀ s x, Decidable (ok s x)] (h : moves? next ok s w = some s') :
    Moves next ok s w s' := by
  induction w generalizing s with
  | nil => cases h; exact .nil
  | cons x w ih =>
    rw [moves?] at h
    split at h
    · rename_i hok
      obtain ⟨t, ht, hrest⟩ := Option.bind_eq_some_iff.mp h
      exact .cons hok ht (ih hrest)
    · cases h

/-- A run on given steps, and what the state they lead to is checked for. -/
theorem of_any (next : σ → ι → Option σ) (ok : σ → ι → Prop) [∀ s x, Decidable (ok s x)] (s : σ)
    (w : List ι) (P : σ → Prop) [DecidablePred P]
    (h : (moves? next ok s w).any (fun s' => decide (P s')) = true) :
    ∃ s', Moves next ok s w s' ∧ P s' := by
  cases hs : moves? next ok s w with
  | none => rw [hs] at h; cases h
  | some s' => rw [hs] at h; exact ⟨s', of_moves? hs, of_decide_eq_true h⟩

theorem mono (hok : ∀ s x, ok s x → ok' s x) (h : Moves next ok s w s') :
    Moves next ok' s w s' := by
  induction h with
  | nil => exact .nil
  | cons hx hn _ ih => exact .cons (hok _ _ hx) hn ih

theorem append (h : Moves next ok s w s') (h' : Moves next ok s' w' s'') :
    Moves next ok s (w ++ w') s'' := by
  induction h with
  | nil => exact h'
  | cons hx hn _ ih => exact .cons hx hn (ih h')

theorem single {x : ι} (hx : ok s x) (hn : next s x = some s') : Moves next ok s [x] s' :=
  .cons hx hn .nil

/-- The invariant rule. -/
theorem invariant (hstep : ∀ s x s', I s → ok s x → next s x = some s' → I s')
    (h : Moves next ok s w s') (hs : I s) : I s' := by
  induction h with
  | nil => exact hs
  | cons hx hn _ ih => exact ih (hstep _ _ _ hs hx hn)

end Moves

/-- `P` holds in every state that the run `w` from `s` goes through. -/
def Always (next : σ → ι → Option σ) (P : σ → Prop) : σ → List ι → Prop
  | s, [] => P s
  | s, x :: w => P s ∧ ∀ s', next s x = some s' → Always next P s' w

theorem Always.head (h : Always next P s w) : P s := by
  cases w with
  | nil => exact h
  | cons x w => exact h.1

theorem Moves.always (hstep : ∀ s x s', I s → ok s x → next s x = some s' → I s')
    (hP : ∀ s, I s → P s) (h : Moves next ok s w s') (hs : I s) : Always next P s w := by
  induction h with
  | nil => exact hP _ hs
  | cons hx hn _ ih =>
    refine ⟨hP _ hs, fun t ht => ?_⟩
    cases hn.symm.trans ht
    exact ih (hstep _ _ _ hs hx hn)

/-- A run is one of the steps that `good` allows, if a step that it does not allow leads to a state
without `P` at once. -/
theorem Moves.of_always (good : σ → ι → Prop)
    (hP : ∀ s x s', I s → ok s x → next s x = some s' → P s' → good s x)
    (hstep : ∀ s x s', I s → ok s x → next s x = some s' → I s')
    (h : Moves next ok s w s') (hs : I s) (hw : Always next P s w) :
    Moves next (fun s x => ok s x ∧ good s x) s w s' := by
  induction h with
  | nil => exact .nil
  | @cons s t _ x w hx hn _ ih =>
    have hrest := hw.2 t hn
    exact .cons ⟨hx, hP s x t hs hx hn hrest.head⟩ hn (ih (hstep s x t hs hx hn) hrest)

/-- What no step brings about holds all along a run that ends with it. -/
theorem Moves.always_of_last (hlast : ∀ s x s', I s → ok s x → next s x = some s' → P s' → P s)
    (hstep : ∀ s x s', I s → ok s x → next s x = some s' → I s') (h : Moves next ok s w s')
    (hs : I s) (hP : P s') : Always next P s w := by
  induction h with
  | nil => exact hP
  | @cons s t _ x w hx hn _ ih =>
    have hrest := ih (hstep s x t hs hx hn) hP
    refine ⟨hlast s x t hs hx hn hrest.head, fun u hu => ?_⟩
    cases hn.symm.trans hu
    exact hrest

/-- Once the steps of `own` have been given their turn often enough, the goal is reached; and as
long as it is not, there is such a step. -/
def Inevitable (next : σ → ι → Option σ) (ok : σ → ι → Prop) (own : ι → Bool) (G : σ → Prop)
    (s : σ) : Prop :=
  ∃ n, ∀ w s', Moves next ok s w s' → (n ≤ w.countP own → G s') ∧
    (G s' ∨ ∃ x s'', own x = true ∧ ok s' x ∧ next s' x = some s'')

/-- A measure that the steps of `own` lower and the others do not raise. -/
theorem Inevitable.of_rank {own : ι → Bool} (rank : σ → Nat)
    (hI : ∀ s x s', I s → ok s x → next s x = some s' → I s')
    (hG : ∀ s x s', I s → G s → ok s x → next s x = some s' → G s')
    (hrank : ∀ s x s', I s → ¬ G s → ok s x → next s x = some s' →
      G s' ∨ rank s' + (if own x then 1 else 0) ≤ rank s)
    (hcan : ∀ s, I s → ¬ G s → ∃ x s', own x = true ∧ ok s x ∧ next s x = some s')
    (hs : I s) : Inevitable next ok own G s := by
  have key : ∀ {s s' : σ} {w : List ι}, Moves next ok s w s' → I s →
      I s' ∧ (G s → G s') ∧ (G s' ∨ w.countP own + rank s' ≤ rank s) := by
    intro s s' w hw
    induction hw with
    | nil => exact fun hs => ⟨hs, id, .inr (by simp)⟩
    | @cons s t _ x w hx hn _ ih =>
      intro hs
      obtain ⟨hend, hkeep, hle⟩ := ih (hI s x t hs hx hn)
      refine ⟨hend, fun hg => hkeep (hG s x t hs hg hx hn), ?_⟩
      by_cases hg : G s
      · exact .inl (hkeep (hG s x t hs hg hx hn))
      · rcases hrank s x t hs hg hx hn with hgt | hdrop
        · exact .inl (hkeep hgt)
        · refine hle.imp_right fun hle => ?_
          rw [List.countP_cons]
          omega
  refine ⟨rank s + 1, fun w s' hw => ?_⟩
  obtain ⟨hend, -, hle⟩ := key hw hs
  constructor
  · intro hcount; exact hle.resolve_right (by omega)
  · by_cases hg : G s'
    · exact .inl hg
    · exact .inr (hcan s' hend hg)

/-- What can be put off forever is not inevitable. -/
theorem not_inevitable_of_forever {own : ι → Bool}
    (hstep : ∀ s, I s → ¬ G s ∧ ∃ x s', own x = true ∧ ok s x ∧ next s x = some s' ∧ I s')
    (hs : I s) : ¬ Inevitable next ok own G s := by
  rintro ⟨n, hn⟩
  have hlong : ∀ k, ∃ w s', Moves next ok s w s' ∧ I s' ∧ w.countP own = k := by
    intro k
    induction k with
    | zero => exact ⟨[], s, .nil, hs, rfl⟩
    | succ k ih =>
      obtain ⟨w, t, hw, ht, hk⟩ := ih
      obtain ⟨-, x, u, hown, hx, hu, hI⟩ := hstep t ht
      refine ⟨w ++ [x], u, hw.append (.single hx hu), hI, ?_⟩
      rw [List.countP_append, List.countP_singleton, if_pos hown, hk]
  obtain ⟨w, t, hw, ht, hk⟩ := hlong n
  exact (hstep t ht).1 ((hn w t hw).1 (Nat.le_of_eq hk.symm))

end Atomic
