import Mathlib.Data.List.Basic

/-!
# Capsule.Keyed.Expiring

A cache that remembers each key until an expiry given with it: `see` asks whether a key is new
and records it if so, `sweep` forgets what has expired. It answers "new" at most once for each
key exactly when no sweep forgets a key that is still to be seen (`freshCount_le_one_iff`).
-/

namespace Keyed.Expiring

variable {κ τ : Type} [DecidableEq κ] [LE τ] [DecidableLE τ]

abbrev Cache (κ τ : Type) := κ → Option τ

inductive Input (κ τ : Type) where
  | see (k : κ) (exp : τ)
  | sweep (now : τ)

def Cache.sweep (c : Cache κ τ) (n : τ) : Cache κ τ := fun k => (c k).filter fun e => ¬ e ≤ n

def step (c : Cache κ τ) : Input κ τ → Cache κ τ
  | .see k e => if (c k).isSome then c else Function.update c k (some e)
  | .sweep n => c.sweep n

/-- The input is answered "`k` is new". -/
def freshFor (k : κ) (c : Cache κ τ) : Input κ τ → Bool
  | .see k' _ => k' = k && (c k).isNone
  | .sweep _ => false

/-- How often `k` is answered to be new. -/
def freshCount (k : κ) : Cache κ τ → List (Input κ τ) → Nat
  | _, [] => 0
  | c, x :: xs => (freshFor k c x).toNat + freshCount k (step c x) xs

variable {k : κ} {c : Cache κ τ} {e : τ}

theorem freshCount_append (xs : List (Input κ τ)) (x : Input κ τ) :
    freshCount k c (xs ++ [x]) = freshCount k c xs + (freshFor k (xs.foldl step c) x).toNat := by
  induction xs generalizing c with
  | nil => simp [freshCount]
  | cons y ys ih => simp only [List.cons_append, freshCount, List.foldl_cons, ih]; omega

theorem step_see_ne {k' : κ} (h : k' ≠ k) (e' : τ) : step c (.see k' e') k = c k := by
  simp only [step]
  split
  · rfl
  · exact Function.update_of_ne h.symm _ _

theorem step_see_seen (h : c k = some e) (k' : κ) (e' : τ) : step c (.see k' e') k = some e := by
  by_cases hk : k' = k
  · subst hk; simp [step, h]
  · rw [step_see_ne hk]; exact h

theorem freshCount_eq_zero_of_none (h : c k = none) (xs : List (Input κ τ)) :
    freshCount k c xs = 0 ↔ ∀ e', .see k e' ∉ xs := by
  induction xs generalizing c with
  | nil => simp [freshCount]
  | cons x xs ih =>
    cases x with
    | see k' e' =>
      by_cases hk : k' = k
      · subst hk
        simp only [freshCount, freshFor, h]
        refine iff_of_false (by simp) fun hall => hall e' List.mem_cons_self
      · have hc : step c (.see k' e') k = none := by rw [step_see_ne hk]; exact h
        simp [freshCount, freshFor, hk, ih hc, Ne.symm hk]
    | sweep n =>
      have hc : step c (.sweep n) k = none := by simp [step, Cache.sweep, h]
      simp [freshCount, freshFor, ih hc]

theorem freshCount_eq_zero_of_some (h : c k = some e) (xs : List (Input κ τ)) :
    freshCount k c xs = 0 ↔ ∀ n e', [.sweep n, .see k e'].Sublist xs → ¬ e ≤ n := by
  induction xs generalizing c with
  | nil => simp [freshCount]
  | cons x xs ih =>
    cases x with
    | see k' e' =>
      have hf : freshFor k c (.see k' e') = false := by simp [freshFor, h]
      simp [freshCount, hf, ih (step_see_seen h k' e'), List.cons_sublist_cons']
    | sweep m =>
      have hf : freshFor k c (.sweep m) = false := rfl
      rw [freshCount, hf, Bool.toNat_false, Nat.zero_add]
      by_cases hm : e ≤ m
      · -- the key is forgotten here, so it must not come again
        have hc : step c (.sweep m) k = none := by simp [step, Cache.sweep, h, hm]
        rw [freshCount_eq_zero_of_none hc]
        constructor
        · intro hno n e' hsub
          rcases List.cons_sublist_cons'.mp hsub with hsub | ⟨-, hsub⟩
          · exact absurd (hsub.subset (by simp)) (hno e')
          · exact absurd (List.singleton_sublist.mp hsub) (hno e')
        · intro hall e' hmem
          exact hall m e' (List.cons_sublist_cons.mpr (List.singleton_sublist.mpr hmem)) hm
      · have hc : step c (.sweep m) k = some e := by simp [step, Cache.sweep, h, hm]
        rw [ih hc]
        refine forall_congr' fun n => forall_congr' fun e' => ?_
        rw [List.cons_sublist_cons']
        constructor
        · rintro hall (hsub | ⟨heq, -⟩)
          · exact hall hsub
          · cases heq; exact hm
        · exact fun hall hsub => hall (.inl hsub)

/-- Between the first time a key is seen and every later time, no sweep reaches its expiry. -/
def Retained (xs : List (Input κ τ)) : Prop :=
  ∀ k e before after, xs = before ++ .see k e :: after → (∀ e', .see k e' ∉ before) →
    ∀ n e', [.sweep n, .see k e'].Sublist after → ¬ e ≤ n

theorem freshCount_le_one_of_none (h : c k = none) (xs : List (Input κ τ)) :
    freshCount k c xs ≤ 1 ↔
      ∀ e before after, xs = before ++ .see k e :: after → (∀ e', .see k e' ∉ before) →
        ∀ n e', [.sweep n, .see k e'].Sublist after → ¬ e ≤ n := by
  induction xs generalizing c with
  | nil => simp [freshCount]
  | cons x xs ih =>
    by_cases hx : ∃ e, x = .see k e
    · obtain ⟨e, rfl⟩ := hx
      have hc : step c (.see k e) k = some e := by simp [step, h]
      have hf : freshFor k c (.see k e) = true := by simp [freshFor, h]
      have hle : freshCount k c (.see k e :: xs) ≤ 1 ↔ freshCount k (step c (.see k e)) xs = 0 := by
        simp only [freshCount, hf, Bool.toNat_true]; omega
      rw [hle, freshCount_eq_zero_of_some hc]
      constructor
      · intro hall e₁ before after heq hfirst
        cases before with
        | nil => cases heq; exact hall
        | cons y ys => cases heq; exact absurd List.mem_cons_self (hfirst e)
      · intro hall; exact hall e [] xs rfl (by simp)
    · have hne : ∀ e, x ≠ .see k e := fun e he => hx ⟨e, he⟩
      have hc : step c x k = none := by
        cases x with
        | see k' e' =>
          have hk : k' ≠ k := by rintro rfl; exact hne e' rfl
          rw [step_see_ne hk]
          exact h
        | sweep n => simp [step, Cache.sweep, h]
      have hf : freshFor k c x = false := by
        cases x with
        | see k' e' =>
          have hk : k' ≠ k := by rintro rfl; exact hne e' rfl
          simp [freshFor, hk]
        | sweep n => rfl
      rw [freshCount, hf, Bool.toNat_false, Nat.zero_add, ih hc]
      constructor
      · intro hall e before after heq hfirst
        cases before with
        | nil => cases heq; exact absurd rfl (hne e)
        | cons y ys =>
          cases heq
          exact hall e ys after rfl fun e' hmem => hfirst e' (List.mem_cons_of_mem _ hmem)
      · intro hall e before after heq hfirst
        refine hall e (x :: before) after (by rw [heq]; rfl) ?_
        intro e' hmem
        rcases List.mem_cons.mp hmem with he | hmem
        · exact hne e' he.symm
        · exact hfirst e' hmem

theorem freshCount_le_one_iff (xs : List (Input κ τ)) :
    (∀ k, freshCount k (fun _ => none) xs ≤ 1) ↔ Retained xs := by
  refine forall_congr' fun k => ?_
  exact freshCount_le_one_of_none rfl xs

end Keyed.Expiring
