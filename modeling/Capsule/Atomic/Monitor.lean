import Capsule.Atomic.Prog

/-!
# Capsule.Atomic.Monitor

What the code of one thread may do, as an automaton over the answers it has had. A `Monitor` says
which operations are allowed in a phase and what phase an answer leads to; `Prog.Obeys` is that the
code keeps to it whatever it is answered.

* `obeys_bind`, `obeys_thenOk`, `Obeys.mono`: the rules.
* `exec`, `exec_clean`, `exec_cleanAfter`: an invariant kept by all that the monitor allows holds
  after a run, also after one that is cut.
-/

namespace Atomic

variable {Op : Type} {Res : Op → Type} {σ ε α γ : Type}

/-- A specification of one thread's code: which operations it may issue in phase `g`, the
phase each answer leads to, and the results it may return. -/
structure Monitor (Op : Type) (Res : Op → Type) (α γ : Type) where
  ok : γ → Op → Prop
  next : γ → (o : Op) → Res o → γ
  fin : γ → α → Prop

/-- The code keeps to the monitor from phase `g` on, whatever it is answered. -/
def Prog.Obeys (M : Monitor Op Res α γ) : γ → Prog Op Res α → Prop
  | g, .ret a => M.fin g a
  | g, .call o k => M.ok g o ∧ ∀ r, (k r).Obeys M (M.next g o r)

namespace Prog

variable {M : Monitor Op Res α γ} {g : γ}

@[simp] theorem obeys_ret {a : α} : (ret a : Prog Op Res α).Obeys M g ↔ M.fin g a := Iff.rfl

@[simp] theorem obeys_call {o : Op} {k : Res o → Prog Op Res α} :
    (call o k).Obeys M g ↔ M.ok g o ∧ ∀ r, (k r).Obeys M (M.next g o r) := Iff.rfl

end Prog

/-- The operation the code performs next is one the monitor allows. -/
theorem Prog.Obeys.next_ok {M : Monitor Op Res α γ} {g : γ} {p : Prog Op Res α} {o : Op}
    (h : p.Obeys M g) (ho : p.next? = some o) : M.ok g o := by
  cases p with
  | ret a => cases ho
  | call o' k => cases ho; exact h.1

/-- The same automaton with another postcondition. -/
def Monitor.post {β : Type} (M : Monitor Op Res α γ) (Q : γ → β → Prop) : Monitor Op Res β γ :=
  ⟨M.ok, M.next, Q⟩

section Post

variable {β δ : Type} {M : Monitor Op Res α γ} {Q : γ → β → Prop} {Q' : γ → δ → Prop}

@[simp] theorem Monitor.post_ok : (M.post Q).ok = M.ok := rfl

@[simp] theorem Monitor.post_next : (M.post Q).next = M.next := rfl

@[simp] theorem Monitor.post_fin : (M.post Q).fin = Q := rfl

end Post

namespace Prog

variable {β : Type} {M : Monitor Op Res β γ} {g : γ}

/-- The rule for sequences: what follows is checked as a postcondition of what comes first. -/
@[simp] theorem obeys_bind {p : Prog Op Res α} {f : α → Prog Op Res β} :
    (p >>= f).Obeys M g ↔ p.Obeys (M.post fun g a => (f a).Obeys M g) g := by
  induction p generalizing g with
  | ret a => rfl
  | call o k ih =>
    rw [call_bind, obeys_call, obeys_call]
    exact and_congr Iff.rfl (forall_congr' fun r => ih r)

theorem forall_except {E δ : Type} {P : Except E δ → Prop} :
    (∀ r, P r) ↔ (∀ a, P (.ok a)) ∧ ∀ e, P (.error e) := by
  refine ⟨fun h => ⟨fun a => h _, fun e => h _⟩, ?_⟩
  rintro ⟨h1, h2⟩ (e | a)
  · exact h2 e
  · exact h1 a

@[simp] theorem obeys_thenOk {E δ : Type} {M : Monitor Op Res (Except E β) γ}
    {p : Prog Op Res (Except E δ)} {f : δ → Prog Op Res (Except E β)} :
    (p.thenOk f).Obeys M g ↔ p.Obeys (M.post fun g r =>
      match r with
      | .ok a => (f a).Obeys M g
      | .error e => M.fin g (.error e)) g := by
  rw [thenOk, obeys_bind]
  refine iff_of_eq (congrArg (fun Q => p.Obeys (M.post Q) g) ?_)
  funext g r
  cases r <;> rfl

@[simp] theorem obeys_mapErr {E E' : Type} {M : Monitor Op Res (Except E' β) γ} {e : E → E'}
    {p : Prog Op Res (Except E β)} :
    (p.mapErr e).Obeys M g ↔ p.Obeys (M.post fun g r => M.fin g (r.mapError e)) g :=
  obeys_bind

/-- The rule of consequence. -/
theorem Obeys.mono {p : Prog Op Res α} {Q Q' : γ → α → Prop} (h : p.Obeys (M.post Q) g)
    (hQ : ∀ g a, Q g a → Q' g a) : p.Obeys (M.post Q') g := by
  induction p generalizing g with
  | ret a => exact hQ g a h
  | call o k ih => exact ⟨h.1, fun r => ih r (h.2 r)⟩

/-- From phases that allow everything and do not lead out of themselves, any code obeys. -/
theorem obeys_of_closed {M : Monitor Op Res α γ} {I : γ → Prop} (hok : ∀ g o, I g → M.ok g o)
    (hnext : ∀ g o r, I g → I (M.next g o r)) (hfin : ∀ g a, I g → M.fin g a) (p : Prog Op Res α)
    {g : γ} (hg : I g) : p.Obeys M g := by
  induction p generalizing g with
  | ret a => exact hfin g a hg
  | call o k ih => exact ⟨hok g o hg, fun r => ih r (hnext g o r hg)⟩

theorem Obeys.ite {M : Monitor Op Res α γ} {g : γ} {b : Prop} [Decidable b] {p q : Prog Op Res α}
    (hp : b → p.Obeys M g) (hq : ¬ b → q.Obeys M g) : (if b then p else q).Obeys M g := by
  split
  · exact hp ‹_›
  · exact hq ‹_›

/-- A monitor that keeps to another one, phase by phase. -/
theorem Obeys.embed {δ : Type} {N : Monitor Op Res α δ} {M : Monitor Op Res α γ} {p : Prog Op Res α}
    {g : γ} (f : γ → δ) (h : p.Obeys M g) (hok : ∀ g o, M.ok g o → N.ok (f g) o)
    (hnext : ∀ g o r, N.next (f g) o r = f (M.next g o r))
    (hfin : ∀ g a, M.fin g a → N.fin (f g) a) : p.Obeys N (f g) := by
  induction p generalizing g with
  | ret a => exact hfin g a h
  | call o k ih =>
    refine ⟨hok g o h.1, ?_⟩
    intro r
    rw [hnext]
    exact ih r (h.2 r)

/-- Lifted code whose operations the monitor allows and ignores. -/
theorem obeys_lift {D : Type} {DRes : D → Type} {inj : D → Op}
    {proj : ∀ d, Res (inj d) → DRes d} (hok : ∀ d, M.ok g (inj d))
    (hnext : ∀ d r, M.next g (inj d) r = g) (p : Prog D DRes β) (hfin : ∀ b, M.fin g b) :
    (p.lift inj proj).Obeys M g := by
  induction p with
  | ret b => exact hfin b
  | call d k ih =>
    refine ⟨hok d, ?_⟩
    intro r
    rw [hnext]
    exact ih (proj d r)

end Prog

namespace Prog.Obeys

variable {M : Monitor Op Res α γ} {sem : Sem Op Res σ ε} {J : γ → σ → Prop} {p : Prog Op Res α}
  {g : γ} {s : σ}

/-- An invariant kept by every operation the monitor allows survives a run cut anywhere. -/
theorem exec (hob : p.Obeys M g)
    (hstep : ∀ g s o e, J g s → M.ok g o → J (M.next g o (sem o e s).2) (sem o e s).1)
    (hJ : J g s) (es : List ε) :
    ∃ g', J g' (p.exec sem es s).st ∧ ∀ a, (p.exec sem es s).val = some a → M.fin g' a := by
  induction p generalizing g s es with
  | ret a =>
    refine ⟨g, hJ, ?_⟩
    intro b hb
    cases hb
    exact hob
  | call o k ih =>
    cases es with
    | nil => exact ⟨g, hJ, fun a ha => by cases ha⟩
    | cons e es => exact ih _ (hob.2 _) (hstep g s o e hJ hob.1) es

/-- Every operation a run performs is one the monitor allows in some phase. -/
theorem exec_ops (hob : p.Obeys M g) (es : List ε) :
    ∀ o ∈ (p.exec sem es s).ops, ∃ g', M.ok g' o := by
  induction p generalizing g s es with
  | ret a => intro o ho; simp at ho
  | call o k ih =>
    cases es with
    | nil => intro o' ho; simp at ho
    | cons e es =>
      intro o' ho
      rw [exec_call_cons] at ho
      rcases List.mem_cons.mp ho with rfl | ho
      · exact ⟨g, hob.1⟩
      · exact ih _ (hob.2 _) es o' ho

/-- The same for a run whose environment answers well from the start: it is never cut. -/
theorem exec_clean {good : Op → ε → Prop} (hob : p.Obeys M g)
    (hstep : ∀ g s o e, J g s → M.ok g o → good o e →
      J (M.next g o (sem o e s).2) (sem o e s).1)
    (hJ : J g s) {es : List ε} (hes : p.Clean sem good es s) :
    ∃ g' a, J g' (p.exec sem es s).st ∧ (p.exec sem es s).val = some a ∧ M.fin g' a := by
  induction p generalizing g s es with
  | ret a => exact ⟨g, a, hJ, rfl, hob⟩
  | call o k ih =>
    cases es with
    | nil => exact absurd hes id
    | cons e es => exact ih _ (hob.2 _) (hstep g s o e hJ hob.1 hes.1) hes.2

/-- The same for a run whose environment answers well once a marked operation is done. A run
that performed one is not cut. -/
theorem exec_cleanAfter {mark good : Op → ε → Prop} {marked : γ → Prop}
    (hmark : ∀ g o e s, marked (M.next g o (sem o e s).2) → marked g ∨ mark o e)
    (hob : p.Obeys M g)
    (hstep : ∀ g s o e, J g s → M.ok g o → (marked g → good o e) →
      J (M.next g o (sem o e s).2) (sem o e s).1)
    (hJ : J g s) (hg : ¬ marked g) {es : List ε} (hes : p.CleanAfter sem mark good es s) :
    ∃ g', J g' (p.exec sem es s).st ∧
      (∀ a, (p.exec sem es s).val = some a → M.fin g' a) ∧
      (marked g' → (p.exec sem es s).val.isSome) := by
  induction p generalizing g s es with
  | ret a =>
    refine ⟨g, hJ, ?_, fun h => absurd h hg⟩
    intro b hb
    cases hb
    exact hob
  | call o k ih =>
    cases es with
    | nil => exact ⟨g, hJ, fun a ha => (by cases ha), fun h => absurd h hg⟩
    | cons e es =>
      have hJ' := hstep g s o e hJ hob.1 fun h => absurd h hg
      by_cases hg' : marked (M.next g o (sem o e s).2)
      · have hmk := (hmark g o e s hg').resolve_left hg
        obtain ⟨g', a, h1, h2, h3⟩ := exec_clean (hob.2 _)
          (fun g s o e h hok hgood => hstep g s o e h hok fun _ => hgood) hJ' (hes.1 hmk)
        refine ⟨g', h1, ?_, fun _ => by rw [exec_call_cons, h2]; rfl⟩
        intro b hb
        rw [exec_call_cons, h2] at hb
        cases hb
        exact h3
      · exact ih _ (hob.2 _) hJ' hg' hes.2

end Prog.Obeys

end Atomic
