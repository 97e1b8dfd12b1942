import Mathlib.Data.Option.Basic
import Mathlib.Logic.Relation

/-!
# Capsule.Atomic.Locks

Threads that take and release locks, and when one of them can go on. A thread is at a place of its
code (`Act`: a step of its own, an acquire, a release, or a wait for someone outside); a step that
asks for a lock somebody holds cannot be taken.

* `Disciplined`: `holds` tells, place by place, which lock a thread has.
* `Agrees.run`: then the locks are held by exactly the threads at places that hold them.
* `Agrees.progress`: a thread can come to its goal, with nobody outside doing anything, if whoever
  holds a lock it needs can let it go by itself.
-/

namespace Atomic.Locks

inductive Act (Pc L σ : Type) where
  | acquire (l : L) (next : Pc)
  | release (l : L) (next : Pc)
  /-- A step of the thread's own: where it may go, and the data it leaves. -/
  | own (next : σ → List (Pc × σ))
  /-- A step that someone outside the program takes. -/
  | outside (next : List Pc)
  | halt

structure State (ι Pc L σ : Type) where
  pc : ι → Pc
  holder : L → Option ι
  data : σ

variable {ι Pc L σ : Type} [DecidableEq ι] [DecidableEq L]

/-- A step the program takes by itself. -/
inductive Step (code : Pc → Act Pc L σ) (s : State ι Pc L σ) : State ι Pc L σ → Prop where
  | acquire {i : ι} {l : L} {p : Pc} : code (s.pc i) = .acquire l p → s.holder l = none →
      Step code s ⟨Function.update s.pc i p, Function.update s.holder l (some i), s.data⟩
  | release {i : ι} {l : L} {p : Pc} : code (s.pc i) = .release l p →
      Step code s ⟨Function.update s.pc i p, Function.update s.holder l none, s.data⟩
  | own {i : ι} {f : σ → List (Pc × σ)} {p : Pc} {d : σ} : code (s.pc i) = .own f →
      (p, d) ∈ f s.data → Step code s ⟨Function.update s.pc i p, s.holder, d⟩

/-- A step that someone outside takes. -/
inductive Outside (code : Pc → Act Pc L σ) (s : State ι Pc L σ) : State ι Pc L σ → Prop where
  | mk {i : ι} {ps : List Pc} {p : Pc} : code (s.pc i) = .outside ps → p ∈ ps →
      Outside code s ⟨Function.update s.pc i p, s.holder, s.data⟩

abbrev Alone (code : Pc → Act Pc L σ) : State ι Pc L σ → State ι Pc L σ → Prop :=
  Relation.ReflTransGen (Step code)

abbrev Run (code : Pc → Act Pc L σ) : State ι Pc L σ → State ι Pc L σ → Prop :=
  Relation.ReflTransGen fun s s' => Step code s s' ∨ Outside code s s'

/-- What is done at a place that holds `h` goes on to places that hold what it leaves. -/
def Act.Keeps (holds : Pc → Option L) (h : Option L) : Act Pc L σ → Prop
  | .acquire l q => h = none ∧ holds q = some l
  | .release l q => h = some l ∧ holds q = none
  | .own f => ∀ d, ∀ x ∈ f d, holds x.1 = h
  | .outside qs => ∀ q ∈ qs, holds q = h
  | .halt => True

/-- `holds` says which lock is held at a place. -/
def Disciplined (code : Pc → Act Pc L σ) (holds : Pc → Option L) : Prop :=
  ∀ p, (code p).Keeps holds (holds p)

section Discipline

omit [DecidableEq L]

variable {code : Pc → Act Pc L σ} {holds : Pc → Option L} {p q : Pc} {l : L}

theorem Disciplined.acquire (hd : Disciplined code holds) (h : code p = .acquire l q) :
    holds p = none ∧ holds q = some l := by
  have hp := hd p
  rw [h] at hp
  exact hp

theorem Disciplined.release (hd : Disciplined code holds) (h : code p = .release l q) :
    holds p = some l ∧ holds q = none := by
  have hp := hd p
  rw [h] at hp
  exact hp

theorem Disciplined.own (hd : Disciplined code holds) {f : σ → List (Pc × σ)} {d : σ}
    {x : Pc × σ} (h : code p = .own f) (hx : x ∈ f d) : holds x.1 = holds p := by
  have hp := hd p
  rw [h] at hp
  exact hp d x hx

theorem Disciplined.outside (hd : Disciplined code holds) {qs : List Pc}
    (h : code p = .outside qs) (hq : q ∈ qs) : holds q = holds p := by
  have hp := hd p
  rw [h] at hp
  exact hp q hq

end Discipline

/-- Locks are held by the threads that are at places that hold them. -/
def Agrees (holds : Pc → Option L) (s : State ι Pc L σ) : Prop :=
  ∀ i l, holds (s.pc i) = some l ↔ s.holder l = some i

/-- From the place on, steps of the thread's own lead to a release. -/
inductive Leaves (code : Pc → Act Pc L σ) : Pc → Prop where
  | release {p q : Pc} {l : L} : code p = .release l q → Leaves code p
  | own {p : Pc} {f : σ → List (Pc × σ)} (choice : σ → Pc × σ) : code p = .own f →
      (∀ d, choice d ∈ f d) → (∀ d, Leaves code (choice d).1) → Leaves code p

/-- From the place on, the thread's code leads to the goal, if it gets the locks it asks for. -/
inductive CanReach (code : Pc → Act Pc L σ) (goal : Pc → Prop) : Pc → Prop where
  | here {p : Pc} : goal p → CanReach code goal p
  | acquire {p q : Pc} {l : L} : code p = .acquire l q → CanReach code goal q →
      CanReach code goal p
  | release {p q : Pc} {l : L} : code p = .release l q → CanReach code goal q →
      CanReach code goal p
  | own {p : Pc} {f : σ → List (Pc × σ)} (choice : σ → Pc × σ) : code p = .own f →
      (∀ d, choice d ∈ f d) → (∀ d, CanReach code goal (choice d).1) → CanReach code goal p

/-- What holds of the other threads' places does when one thread moves. -/
theorem forall_ne_update {P : Pc → Prop} {pc : ι → Pc} {i : ι} {p : Pc}
    (h : ∀ j, j ≠ i → P (pc j)) : ∀ j, j ≠ i → P (Function.update pc i p j) := by
  intro j hj
  rw [Function.update_of_ne hj]
  exact h j hj

theorem update_mem {P : Pc → Prop} {pc : ι → Pc} {i k : ι} {p : Pc} (h : P (pc i))
    (hp : P (pc k) → P p) : P (Function.update pc k p i) := by
  by_cases hi : i = k
  · subst hi; rw [Function.update_self]; exact hp h
  · rw [Function.update_of_ne hi]; exact h

section Agreement

variable {code : Pc → Act Pc L σ} {holds : Pc → Option L} {s s' : State ι Pc L σ} {i j : ι} {l : L}

omit [DecidableEq L] in
/-- A thread that moves between places that hold the same. -/
theorem Agrees.moved (hs : Agrees holds s) {p : Pc} (hp : holds p = holds (s.pc i)) (d : σ) :
    Agrees holds ⟨Function.update s.pc i p, s.holder, d⟩ := by
  intro k m
  dsimp only
  by_cases hk : k = i
  · subst hk; rw [Function.update_self, hp, hs]
  · rw [Function.update_of_ne hk, hs]

theorem Agrees.acquired (hs : Agrees holds s) {p : Pc} (hfree : s.holder l = none)
    (hnone : holds (s.pc i) = none) (hp : holds p = some l) :
    Agrees holds ⟨Function.update s.pc i p, Function.update s.holder l (some i), s.data⟩ := by
  intro k m
  dsimp only
  by_cases hm : m = l
  · subst hm
    rw [Function.update_self, Option.some_inj]
    by_cases hk : k = i
    · subst hk; rw [Function.update_self, hp]; exact iff_of_true rfl rfl
    · rw [Function.update_of_ne hk, hs, hfree]
      exact iff_of_false (fun h => by cases h) (Ne.symm hk)
  · rw [Function.update_of_ne hm]
    by_cases hk : k = i
    · subst hk
      rw [Function.update_self, hp, Option.some_inj, ← hs, hnone]
      exact iff_of_false (Ne.symm hm) (fun h => by cases h)
    · rw [Function.update_of_ne hk, hs]

theorem Agrees.released (hs : Agrees holds s) {p : Pc} (hheld : holds (s.pc i) = some l)
    (hp : holds p = none) :
    Agrees holds ⟨Function.update s.pc i p, Function.update s.holder l none, s.data⟩ := by
  intro k m
  dsimp only
  by_cases hk : k = i
  · subst hk
    rw [Function.update_self, hp]
    refine iff_of_false (fun h => by cases h) fun h => ?_
    by_cases hm : m = l
    · subst hm; rw [Function.update_self] at h; cases h
    · rw [Function.update_of_ne hm, ← hs, hheld] at h
      exact hm (Option.some_inj.mp h).symm
  · rw [Function.update_of_ne hk, hs]
    by_cases hm : m = l
    · subst hm
      rw [Function.update_self, (hs i m).mp hheld]
      exact iff_of_false (fun h => hk (Option.some_inj.mp h).symm) (fun h => by cases h)
    · rw [Function.update_of_ne hm]

variable (hd : Disciplined code holds)
include hd

theorem Agrees.step (hs : Agrees holds s) (h : Step code s s') : Agrees holds s' := by
  cases h with
  | acquire hcode hfree => exact hs.acquired hfree (hd.acquire hcode).1 (hd.acquire hcode).2
  | release hcode => exact hs.released (hd.release hcode).1 (hd.release hcode).2
  | own hcode hmem => exact hs.moved (hd.own hcode hmem) _

theorem Agrees.run (hs : Agrees holds s) (h : Run code s s') : Agrees holds s' := by
  induction h with
  | refl => exact hs
  | tail _ hstep ih =>
    rcases hstep with hstep | ⟨hcode, hmem⟩
    · exact ih.step hd hstep
    · exact ih.moved (hd.outside hcode hmem) _

/-- A lock whose holder can let it go is let go, and no other thread moves. -/
theorem Agrees.free (hs : Agrees holds s) (hj : s.holder l = some j)
    (hleaves : Leaves code (s.pc j)) :
    ∃ s', Alone code s s' ∧ Agrees holds s' ∧ s'.holder l = none ∧ holds (s'.pc j) = none ∧
      ∀ k, k ≠ j → s'.pc k = s.pc k := by
  generalize hp : s.pc j = p at hleaves
  induction hleaves generalizing s with
  | @release p q m hcode =>
    subst hp
    obtain ⟨hheld, hq⟩ := hd.release hcode
    obtain rfl : m = l := Option.some_inj.mp (hheld.symm.trans ((hs j l).mpr hj))
    refine ⟨_, .single (.release hcode), hs.released hheld hq, Function.update_self .., ?_, ?_⟩
    · dsimp only; rw [Function.update_self, hq]
    · exact fun k hk => Function.update_of_ne hk ..
  | own choice hcode hmem _ ih =>
    subst hp
    obtain ⟨s', hrun, hs', hfree, hnone, hframe⟩ := ih s.data
      (hs.moved (hd.own hcode (hmem s.data)) (choice s.data).2) hj (Function.update_self ..)
    refine ⟨s', .head (.own hcode (hmem s.data)) hrun, hs', hfree, hnone, fun k hk => ?_⟩
    rw [hframe k hk]
    exact Function.update_of_ne hk ..

/-- The rule for progress: by induction on the code that is left, each lock on the way being freed
first. -/
theorem Agrees.progress {goal : Pc → Prop} (hs : Agrees holds s)
    (hleaves : ∀ j, j ≠ i → holds (s.pc j) ≠ none → Leaves code (s.pc j))
    (h : CanReach code goal (s.pc i)) : ∃ s', Alone code s s' ∧ goal (s'.pc i) := by
  generalize hp : s.pc i = p at h
  induction h generalizing s with
  | here hgoal => exact ⟨s, .refl, by rw [hp]; exact hgoal⟩
  | @acquire p q l hcode _ ih =>
    -- the lock is free, or becomes so without this thread moving
    obtain ⟨s₁, hrun, hs₁, hfree, hpc, hleaves₁⟩ : ∃ s₁, Alone code s s₁ ∧ Agrees holds s₁ ∧
        s₁.holder l = none ∧ s₁.pc i = p ∧
        ∀ j, j ≠ i → holds (s₁.pc j) ≠ none → Leaves code (s₁.pc j) := by
      cases hl : s.holder l with
      | none => exact ⟨s, .refl, hs, hl, hp, hleaves⟩
      | some j =>
        have hheld : holds (s.pc j) = some l := (hs j l).mpr hl
        have hji : j ≠ i := by
          rintro rfl; rw [hp, (hd.acquire hcode).1] at hheld; cases hheld
        obtain ⟨s₁, hrun, hs₁, hfree, hnone, hframe⟩ := hs.free hd hl
          (hleaves j hji (by rw [hheld]; exact Option.some_ne_none l))
        refine ⟨s₁, hrun, hs₁, hfree, by rw [hframe i (Ne.symm hji), hp], fun k hk hheld' => ?_⟩
        have hkj : k ≠ j := by
          rintro rfl; exact hheld' hnone
        rw [hframe k hkj] at hheld' ⊢
        exact hleaves k hk hheld'
    rw [← hpc] at hcode
    obtain ⟨s', hrun', hgoal⟩ := ih
      (hs₁.acquired hfree (hd.acquire hcode).1 (hd.acquire hcode).2)
      (forall_ne_update (P := fun p => holds p ≠ none → Leaves code p) hleaves₁)
      (Function.update_self ..)
    exact ⟨s', hrun.trans (.head (.acquire hcode hfree) hrun'), hgoal⟩
  | release hcode _ ih =>
    rw [← hp] at hcode
    obtain ⟨s', hrun, hgoal⟩ := ih
      (hs.released (hd.release hcode).1 (hd.release hcode).2)
      (forall_ne_update (P := fun p => holds p ≠ none → Leaves code p) hleaves)
      (Function.update_self ..)
    exact ⟨s', .head (.release hcode) hrun, hgoal⟩
  | own choice hcode hmem _ ih =>
    rw [← hp] at hcode
    obtain ⟨s', hrun, hgoal⟩ := ih s.data
      (hs.moved (hd.own hcode (hmem s.data)) (choice s.data).2)
      (forall_ne_update (P := fun p => holds p ≠ none → Leaves code p) hleaves)
      (Function.update_self ..)
    exact ⟨s', .head (.own hcode (hmem s.data)) hrun, hgoal⟩

/-- While the holder of a lock waits for the outside, a thread that needs the lock to leave the
places `B` stays there. -/
theorem Agrees.blocked {B : Pc → Prop} {ps : List Pc} (hs : Agrees holds s)
    (hj : s.holder l = some j) (hout : code (s.pc j) = .outside ps) (hi : B (s.pc i))
    (hacquire : ∀ {p m q}, B p → code p = .acquire m q → m ≠ l → B q)
    (hrelease : ∀ {p m q}, B p → code p = .release m q → B q)
    (hown : ∀ {p f d q d'}, B p → code p = .own f → (q, d') ∈ f d → B q)
    (h : Alone code s s') : B (s'.pc i) := by
  have hinv : Agrees holds s' ∧ s'.holder l = some j ∧ code (s'.pc j) = .outside ps ∧
      B (s'.pc i) := by
    induction h with
    | refl => exact ⟨hs, hj, hout, hi⟩
    | @tail t u _ hstep ih =>
      obtain ⟨ht, htj, htout, hti⟩ := ih
      refine ⟨ht.step hd hstep, ?_⟩
      -- the holder takes no step of its own, so the thread that moves is another
      have hother : ∀ k, (∀ qs, code (t.pc k) ≠ .outside qs) → j ≠ k := by
        rintro k hk rfl; exact hk ps htout
      cases hstep with
      | @acquire k m p hcode hfree =>
        have hml : l ≠ m := by
          rintro rfl; rw [htj] at hfree; cases hfree
        dsimp only
        rw [Function.update_of_ne hml, Function.update_of_ne (hother k (by simp [hcode]))]
        exact ⟨htj, htout, update_mem hti fun hb => hacquire hb hcode (Ne.symm hml)⟩
      | @release k m p hcode =>
        have hjk := hother k (by simp [hcode])
        have hml : l ≠ m := by
          rintro rfl
          rw [(ht k l).mp (hd.release hcode).1] at htj
          exact hjk (Option.some_inj.mp htj).symm
        dsimp only
        rw [Function.update_of_ne hml, Function.update_of_ne hjk]
        exact ⟨htj, htout, update_mem hti fun hb => hrelease hb hcode⟩
      | @own k f p d hcode hmem =>
        dsimp only
        rw [Function.update_of_ne (hother k (by simp [hcode]))]
        exact ⟨htj, htout, update_mem hti fun hb => hown hb hcode hmem⟩
  exact hinv.2.2.2

end Agreement

end Atomic.Locks
