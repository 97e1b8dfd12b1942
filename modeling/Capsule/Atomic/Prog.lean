import Mathlib.Data.List.Basic

/-!
# Capsule.Atomic.Prog

Sequential code as a tree of atomic operations, and what a run of it can leave behind.

A `Prog` is code whose operations are answered by a `Sem`, the meaning of each operation on a state
under an answer of the environment. `bind`, `thenOk` and `mapErr` are Go's sequencing with its error
returns, `lift` and `expand` put code over other operations.

* `exec`: a run on finitely many answers; it is cut where they end (a power loss).
* `complete`, `performed`: a run to the end, and its operations.
-/

namespace Atomic

/-- Code over atomic operations: a `call` node is one indivisible operation and `k` is what
the code does with its answer. -/
inductive Prog (Op : Type) (Res : Op → Type) (α : Type) where
  | ret (a : α)
  | call (o : Op) (k : Res o → Prog Op Res α)

/-- The answer of the environment `e` to operation `o` in state `s`, with the state it
leaves. -/
abbrev Sem (Op : Type) (Res : Op → Type) (σ ε : Type) := (o : Op) → ε → σ → σ × Res o

namespace Sem

variable {Op : Type} {Res : Op → Type} {σ ε η : Type} (sem : Sem Op Res σ ε)

/-- The environment restricted to answers that satisfy `G`. -/
def given (G : ε → Prop) : Sem Op Res σ { e // G e } := fun o e s => sem o e.1 s

/-- The same semantics with a log: `f` says what an answered operation adds to it. -/
def logged (f : (o : Op) → Res o → Option η) : Sem Op Res (σ × List η) ε := fun o e s =>
  (((sem o e s.1).1, s.2 ++ (f o (sem o e s.1).2).toList), (sem o e s.1).2)

end Sem

namespace Prog

variable {Op : Type} {Res : Op → Type} {σ ε α β γ : Type}

def bind : Prog Op Res α → (α → Prog Op Res β) → Prog Op Res β
  | .ret a, f => f a
  | .call o k, f => .call o fun r => (k r).bind f

instance : Monad (Prog Op Res) where
  pure := .ret
  bind := bind

@[simp] theorem pure_eq_ret (a : α) : (pure a : Prog Op Res α) = .ret a := rfl

@[simp] theorem ret_bind (a : α) (f : α → Prog Op Res β) : (.ret a >>= f) = f a := rfl

@[simp] theorem call_bind (o : Op) (k : Res o → Prog Op Res α) (f : α → Prog Op Res β) :
    (.call o k >>= f) = .call o fun r => k r >>= f := rfl

/-- Go on with `f` when `p` succeeds; an error ends the whole computation. -/
def thenOk {E : Type} (p : Prog Op Res (Except E α)) (f : α → Prog Op Res (Except E β)) :
    Prog Op Res (Except E β) :=
  p >>= fun r =>
    match r with
    | .ok a => f a
    | .error e => .ret (.error e)

def mapErr {E E' : Type} (g : E → E') (p : Prog Op Res (Except E α)) :
    Prog Op Res (Except E' α) :=
  p >>= fun r => .ret (r.mapError g)

/-- Code over the operations `D` as code over a larger set of operations. -/
def lift {D : Type} {DRes : D → Type} (inj : D → Op) (proj : ∀ d, Res (inj d) → DRes d) :
    Prog D DRes α → Prog Op Res α
  | .ret a => .ret a
  | .call d k => .call (inj d) fun r => (k (proj d r)).lift inj proj

/-- Every operation replaced by code over other operations that gives its answer. -/
def expand {Op' : Type} {Res' : Op' → Type} (h : (o : Op) → Prog Op' Res' (Res o)) :
    Prog Op Res α → Prog Op' Res' α
  | .ret a => .ret a
  | .call o k => h o >>= fun r => (k r).expand h

/-- The operation the code performs next; `none` when it has returned. -/
def next? : Prog Op Res α → Option Op
  | .ret _ => none
  | .call o _ => some o

@[simp] theorem next?_ret (a : α) : (.ret a : Prog Op Res α).next? = none := rfl

@[simp] theorem next?_call (o : Op) (k : Res o → Prog Op Res α) : (call o k).next? = some o :=
  rfl

theorem bind_assoc (p : Prog Op Res α) (f : α → Prog Op Res β) (g : β → Prog Op Res γ) :
    (p >>= f) >>= g = p >>= fun a => f a >>= g := by
  induction p with
  | ret a => rfl
  | call o k ih => exact congrArg (call o) (funext ih)

theorem thenOk_assoc {E : Type} (p : Prog Op Res (Except E α)) (f : α → Prog Op Res (Except E β))
    (g : β → Prog Op Res (Except E γ)) :
    (p.thenOk f).thenOk g = p.thenOk fun a => (f a).thenOk g := by
  rw [thenOk, thenOk, bind_assoc]
  refine congrArg (p >>= ·) (funext fun r => ?_)
  cases r <;> rfl

theorem thenOk_ret {E : Type} (p : Prog Op Res (Except E α)) :
    p.thenOk (fun a => .ret (.ok a)) = p := by
  induction p with
  | ret r => cases r <;> rfl
  | call o k ih => exact congrArg (call o) (funext ih)

section Expand

variable {Op' : Type} {Res' : Op' → Type} {h : (o : Op) → Prog Op' Res' (Res o)}

theorem expand_bind (p : Prog Op Res α) (f : α → Prog Op Res β) :
    (p >>= f).expand h = p.expand h >>= fun a => (f a).expand h := by
  induction p with
  | ret a => rfl
  | call o k ih =>
    change (h o >>= fun r => (k r >>= f).expand h) = (h o >>= fun r => (k r).expand h) >>= _
    rw [bind_assoc]
    exact congrArg (h o >>= ·) (funext ih)

theorem expand_thenOk {E : Type} (p : Prog Op Res (Except E α))
    (f : α → Prog Op Res (Except E β)) :
    (p.thenOk f).expand h = (p.expand h).thenOk fun a => (f a).expand h := by
  rw [thenOk, expand_bind]
  refine congrArg (p.expand h >>= ·) (funext fun r => ?_)
  cases r <;> rfl

end Expand

/-- What a run leaves behind: the state, the operations performed in order, the answers not
consumed, and the result (`none` when the run was cut). -/
structure Outcome (Op σ ε α : Type) where
  st : σ
  ops : List Op
  rest : List ε
  val : Option α

def exec (sem : Sem Op Res σ ε) : Prog Op Res α → List ε → σ → Outcome Op σ ε α
  | .ret a, es, s => ⟨s, [], es, some a⟩
  | .call _ _, [], s => ⟨s, [], [], none⟩
  | .call o k, e :: es, s =>
    let out := (k (sem o e s).2).exec sem es (sem o e s).1
    { out with ops := o :: out.ops }

section Exec

variable {sem : Sem Op Res σ ε}

@[simp] theorem exec_ret (a : α) (es : List ε) (s : σ) :
    (.ret a : Prog Op Res α).exec sem es s = ⟨s, [], es, some a⟩ := rfl

@[simp] theorem exec_call_nil (o : Op) (k : Res o → Prog Op Res α) (s : σ) :
    (call o k).exec sem [] s = ⟨s, [], [], none⟩ := rfl

theorem exec_call_cons (o : Op) (k : Res o → Prog Op Res α) (e : ε) (es : List ε) (s : σ) :
    (call o k).exec sem (e :: es) s =
      { (k (sem o e s).2).exec sem es (sem o e s).1 with
        ops := o :: ((k (sem o e s).2).exec sem es (sem o e s).1).ops } := rfl

end Exec

/-- The operation a run was cut at; `none` when it was not. -/
def cutAt (sem : Sem Op Res σ ε) : Prog Op Res α → List ε → σ → Option Op
  | .ret _, _, _ => none
  | .call o _, [], _ => some o
  | .call o k, e :: es, s => (k (sem o e s).2).cutAt sem es (sem o e s).1

theorem val_of_not_cut {sem : Sem Op Res σ ε} {p : Prog Op Res α} {es : List ε} {s : σ}
    (h : p.cutAt sem es s = none) : ∃ a, (p.exec sem es s).val = some a := by
  induction p generalizing es s with
  | ret a => exact ⟨a, rfl⟩
  | call o k ih =>
    cases es with
    | nil => cases h
    | cons e es => exact ih _ h

/-- Run to the end: the environment has an answer to every operation, the `n`-th being `es n`. -/
def complete (sem : Sem Op Res σ ε) : Prog Op Res α → (Nat → ε) → σ → σ × α
  | .ret a, _, s => (s, a)
  | .call o k, es, s =>
    (k (sem o (es 0) s).2).complete sem (fun n => es (n + 1)) (sem o (es 0) s).1

/-- What is done with the result at the end. -/
theorem complete_thenOk_ret {E : Type} (sem : Sem Op Res σ ε) (p : Prog Op Res (Except E α))
    (f : α → β) (es : Nat → ε) (s : σ) :
    (p.thenOk fun a => .ret (.ok (f a))).complete sem es s =
      ((p.complete sem es s).1, (p.complete sem es s).2.map f) := by
  induction p generalizing es s with
  | ret r => cases r <;> rfl
  | call o k ih => exact ih _ _ _

/-- The operations of a run to the end, in order. -/
def performed (sem : Sem Op Res σ ε) : Prog Op Res α → (Nat → ε) → σ → List Op
  | .ret _, _, _ => []
  | .call o k, es, s =>
    o :: (k (sem o (es 0) s).2).performed sem (fun n => es (n + 1)) (sem o (es 0) s).1

section Steady

variable {sem : Sem Op Res σ ε} {e : ε}

/-- Two pieces of code run one after the other in an environment that answers always the same. -/
theorem complete_bind (p : Prog Op Res α) (f : α → Prog Op Res β) (s : σ) :
    (p >>= f).complete sem (fun _ => e) s =
      (f (p.complete sem (fun _ => e) s).2).complete sem (fun _ => e)
        (p.complete sem (fun _ => e) s).1 := by
  induction p generalizing s with
  | ret a => rfl
  | call o k ih => exact ih _ _

theorem complete_thenOk {E : Type} {p : Prog Op Res (Except E α)}
    {f : α → Prog Op Res (Except E β)} {s s' : σ} {a : α}
    (h : p.complete sem (fun _ => e) s = (s', .ok a)) :
    (p.thenOk f).complete sem (fun _ => e) s = (f a).complete sem (fun _ => e) s' := by
  rw [thenOk, complete_bind, h]

theorem performed_bind (p : Prog Op Res α) (f : α → Prog Op Res β) (s : σ) :
    (p >>= f).performed sem (fun _ => e) s =
      p.performed sem (fun _ => e) s ++
        (f (p.complete sem (fun _ => e) s).2).performed sem (fun _ => e)
          (p.complete sem (fun _ => e) s).1 := by
  induction p generalizing s with
  | ret a => rfl
  | call o k ih => exact congrArg (o :: ·) (ih _ _)

end Steady

/-- Every operation up to the return gets an answer, and a `good` one. -/
def Clean (sem : Sem Op Res σ ε) (good : Op → ε → Prop) : Prog Op Res α → List ε → σ → Prop
  | .ret _, _, _ => True
  | .call _ _, [], _ => False
  | .call o k, e :: es, s => good o e ∧ (k (sem o e s).2).Clean sem good es (sem o e s).1

/-- Once an operation has been answered as `mark` says the environment is `Clean`; before that
anything may happen, a cut included. -/
def CleanAfter (sem : Sem Op Res σ ε) (mark good : Op → ε → Prop) :
    Prog Op Res α → List ε → σ → Prop
  | .ret _, _, _ => True
  | .call _ _, [], _ => True
  | .call o k, e :: es, s =>
    (mark o e → (k (sem o e s).2).Clean sem good es (sem o e s).1) ∧
      (k (sem o e s).2).CleanAfter sem mark good es (sem o e s).1

theorem Clean.uncons {sem : Sem Op Res σ ε} {good : Op → ε → Prop} {o : Op}
    {k : Res o → Prog Op Res α} {es : List ε} {s : σ} (h : (call o k).Clean sem good es s) :
    ∃ e es', es = e :: es' ∧ good o e ∧
      (k (sem o e s).2).Clean sem good es' (sem o e s).1 := by
  cases es with
  | nil => exact absurd h id
  | cons e es => exact ⟨e, es, rfl, h.1, h.2⟩

section Decidable

variable (sem : Sem Op Res σ ε) (mark good : Op → ε → Prop) [∀ o e, Decidable (mark o e)]
  [∀ o e, Decidable (good o e)]

instance decClean : ∀ (p : Prog Op Res α) (es : List ε) (s : σ), Decidable (p.Clean sem good es s)
  | .ret _, _, _ => .isTrue trivial
  | .call _ _, [], _ => .isFalse id
  | .call o k, e :: es, s =>
    have := decClean (k (sem o e s).2) es (sem o e s).1
    inferInstanceAs (Decidable (good o e ∧ _))

instance decCleanAfter :
    ∀ (p : Prog Op Res α) (es : List ε) (s : σ), Decidable (p.CleanAfter sem mark good es s)
  | .ret _, _, _ => .isTrue trivial
  | .call _ _, [], _ => .isTrue trivial
  | .call o k, e :: es, s =>
    have := decCleanAfter (k (sem o e s).2) es (sem o e s).1
    inferInstanceAs (Decidable ((mark o e → _) ∧ _))

end Decidable

end Prog

end Atomic
