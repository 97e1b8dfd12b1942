import Capsule.Atomic.Monitor

/-!
# Capsule.Atomic.Rely

Pre- and postconditions of code that runs while others act: `Safe sem R I Q` says that the code
issues operations only where `I` allows them and returns where `Q` holds, whatever steps of `R`
others take in between.

* `Safe.bind`, `Safe.mono`, `Safe.rely`: the rules.
* `Safe.exec`, `Safe.exec_val`, `Safe.complete`: what they say of a run, cut or whole.
* `Leads`, `Gives`, `Succeeds`: the forms for code that runs alone.
* `Only`: every operation the code can issue is of a kind; `Only.safe` and `Only.exec` make an
  invariant of what these operations keep.
-/

namespace Atomic

variable {Op : Type} {Res : Op → Type} {σ ε α β : Type}

namespace Prog

def Safe (sem : Sem Op Res σ ε) (R : σ → σ → Prop) (I : Op → σ → Prop) (Q : α → σ → Prop) :
    Prog Op Res α → σ → Prop
  | .ret a, s => ∀ s', R s s' → Q a s'
  | .call o k, s =>
    ∀ s', R s s' → I o s' ∧ ∀ e, (k (sem o e s').2).Safe sem R I Q (sem o e s').1

/-- Every operation the code can issue satisfies `P`. -/
def Only (P : Op → Prop) : Prog Op Res α → Prop
  | .ret _ => True
  | .call o k => P o ∧ ∀ r, (k r).Only P

variable {sem : Sem Op Res σ ε} {R : σ → σ → Prop} {I : Op → σ → Prop} {Q Q' : α → σ → Prop}
  {p : Prog Op Res α} {s s' : σ}

/-- Being safe survives what the others do. -/
theorem Safe.rely (ht : ∀ {a b c}, R a b → R b c → R a c) (h : p.Safe sem R I Q s)
    (hs : R s s') : p.Safe sem R I Q s' := by
  cases p with
  | ret a => exact fun t ht' => h t (ht hs ht')
  | call o k => exact fun t ht' => h t (ht hs ht')

theorem Safe.mono (h : p.Safe sem R I Q s) (hQ : ∀ a s, Q a s → Q' a s) :
    p.Safe sem R I Q' s := by
  induction p generalizing s with
  | ret a => exact fun s' hs => hQ a s' (h s' hs)
  | call o k ih => intro s' hs; exact ⟨(h s' hs).1, fun e => ih _ ((h s' hs).2 e)⟩

/-- The rule for sequences. -/
theorem Safe.bind {f : α → Prog Op Res β} {Q' : β → σ → Prop} (hr : ∀ s, R s s)
    (h : p.Safe sem R I (fun a s => (f a).Safe sem R I Q' s) s) :
    (p >>= f).Safe sem R I Q' s := by
  induction p generalizing s with
  | ret a => exact h s (hr s)
  | call o k ih => intro s' hs; exact ⟨(h s' hs).1, fun e => ih _ ((h s' hs).2 e)⟩

theorem Safe.thenOk {E : Type} {p : Prog Op Res (Except E α)}
    {f : α → Prog Op Res (Except E β)} {Q' : Except E β → σ → Prop} (hr : ∀ s, R s s)
    (h : p.Safe sem R I (fun r s =>
      match r with
      | .ok a => (f a).Safe sem R I Q' s
      | .error e => (ret (.error e) : Prog Op Res (Except E β)).Safe sem R I Q' s) s) :
    (p.thenOk f).Safe sem R I Q' s := by
  refine Safe.bind hr (h.mono ?_)
  intro r s hs
  cases r <;> exact hs

/-- The operation issued next may be, in every state the others can bring about. -/
theorem Safe.step {o : Op} {k : Res o → Prog Op Res α} (hr : ∀ s, R s s)
    (h : (call o k).Safe sem R I Q s) (e : ε) :
    I o s ∧ (k (sem o e s).2).Safe sem R I Q (sem o e s).1 :=
  ⟨(h s (hr s)).1, (h s (hr s)).2 e⟩

@[simp] theorem safe_alone_ret {a : α} :
    (ret a : Prog Op Res α).Safe sem Eq I Q s ↔ Q a s :=
  ⟨fun h => h s rfl, fun h _ hs => hs ▸ h⟩

@[simp] theorem safe_alone_call {o : Op} {k : Res o → Prog Op Res α} :
    (call o k).Safe sem Eq I Q s ↔
      I o s ∧ ∀ e, (k (sem o e s).2).Safe sem Eq I Q (sem o e s).1 :=
  ⟨fun h => h s rfl, fun h _ hs => hs ▸ h⟩

theorem Safe.and (h : p.Safe sem Eq I Q s) (h' : p.Safe sem Eq I Q' s) :
    p.Safe sem Eq I (fun a s => Q a s ∧ Q' a s) s := by
  induction p generalizing s with
  | ret a => exact safe_alone_ret.mpr ⟨safe_alone_ret.mp h, safe_alone_ret.mp h'⟩
  | call o k ih =>
    rw [safe_alone_call] at h h' ⊢; exact ⟨h.1, fun e => ih _ (h.2 e) (h'.2 e)⟩

/-- A run to the end returns where the postcondition holds. -/
theorem Safe.complete (h : p.Safe sem Eq I Q s) (es : Nat → ε) :
    Q (p.complete sem es s).2 (p.complete sem es s).1 := by
  induction p generalizing s es with
  | ret a => exact safe_alone_ret.mp h
  | call o k ih => exact ih _ ((safe_alone_call.mp h).2 (es 0)) _

theorem Safe.complete_given {G : ε → Prop} (h : p.Safe (sem.given G) Eq I Q s) {es : Nat → ε}
    (hes : ∀ n, G (es n)) : Q (p.complete sem es s).2 (p.complete sem es s).1 := by
  induction p generalizing s es with
  | ret a => exact safe_alone_ret.mp h
  | call o k ih => exact ih _ ((safe_alone_call.mp h).2 ⟨es 0, hes 0⟩) fun n => hes (n + 1)

theorem Safe.given {G : ε → Prop} (h : p.Safe sem Eq I Q s) : p.Safe (sem.given G) Eq I Q s := by
  induction p generalizing s with
  | ret a => exact h
  | call o k ih => rw [safe_alone_call] at h ⊢; exact ⟨h.1, fun e => ih _ (h.2 e.1)⟩

/-- An operation that all answers of that kind take to `x`. -/
theorem Safe.given_call {G : ε → Prop} {o : Op} {k : Res o → Prog Op Res α} {x : σ × Res o}
    (ho : ∀ e, G e → sem o e s = x) (hI : I o s) (hk : (k x.2).Safe (sem.given G) Eq I Q x.1) :
    (call o k).Safe (sem.given G) Eq I Q s := by
  refine safe_alone_call.mpr ⟨hI, ?_⟩
  rintro ⟨e, he⟩
  change (k (sem o e s).2).Safe (sem.given G) Eq I Q (sem o e s).1
  rw [ho e he]
  exact hk

/-- An invariant kept by every operation that may be issued survives a run cut anywhere. -/
theorem Safe.exec {J : σ → Prop} (h : p.Safe sem Eq I Q s)
    (hJ : ∀ o e s, I o s → J s → J (sem o e s).1) (hs : J s) (es : List ε) :
    J (p.exec sem es s).st := by
  induction p generalizing s es with
  | ret a => exact hs
  | call o k ih =>
    rw [safe_alone_call] at h
    cases es with
    | nil => exact hs
    | cons e es => exact ih _ (h.2 e) (hJ o e s h.1 hs) es

theorem Safe.exec_given {G : ε → Prop} {J : σ → Prop} (h : p.Safe (sem.given G) Eq I Q s)
    (hJ : ∀ o e s, I o s → J s → J (sem o e s).1) (hs : J s) {es : List ε}
    (hes : ∀ e ∈ es, G e) : J (p.exec sem es s).st := by
  induction p generalizing s es with
  | ret a => exact hs
  | call o k ih =>
    rw [safe_alone_call] at h
    cases es with
    | nil => exact hs
    | cons e es =>
      have he := hes e List.mem_cons_self
      exact ih _ (h.2 ⟨e, he⟩) (hJ o e s h.1 hs) fun e' he' => hes e' (List.mem_cons_of_mem e he')

/-- A run that is not cut returns where the postcondition holds. -/
theorem Safe.exec_val (h : p.Safe sem Eq I Q s) {es : List ε} {a : α}
    (ha : (p.exec sem es s).val = some a) : Q a (p.exec sem es s).st := by
  induction p generalizing s es with
  | ret b => cases ha; exact safe_alone_ret.mp h
  | call o k ih =>
    rw [safe_alone_call] at h
    cases es with
    | nil => cases ha
    | cons e es => exact ih _ (h.2 e) ha

theorem Safe.exec_val_given {G : ε → Prop} (h : p.Safe (sem.given G) Eq I Q s) {es : List ε}
    (hes : ∀ e ∈ es, G e) {a : α} (ha : (p.exec sem es s).val = some a) :
    Q a (p.exec sem es s).st := by
  induction p generalizing s es with
  | ret b => cases ha; exact safe_alone_ret.mp h
  | call o k ih =>
    rw [safe_alone_call] at h
    cases es with
    | nil => cases ha
    | cons e es =>
      exact ih _ (h.2 ⟨e, hes e List.mem_cons_self⟩)
        (fun e' he' => hes e' (List.mem_cons_of_mem e he')) ha

/-- A run that is cut leaves a state that allows the operation it was cut at. -/
theorem Safe.exec_cut (h : p.Safe sem Eq I Q s) {es : List ε} {o : Op}
    (ho : p.cutAt sem es s = some o) : I o (p.exec sem es s).st := by
  induction p generalizing s es with
  | ret b => cases ho
  | call o' k ih =>
    rw [safe_alone_call] at h
    cases es with
    | nil => cases ho; exact h.1
    | cons e es => exact ih _ (h.2 e) ho

/-- Every operation of a run is issued in a state that allows it. -/
theorem Safe.exec_ops (h : p.Safe sem Eq I Q s) (es : List ε) :
    ∀ o ∈ (p.exec sem es s).ops, ∃ s', I o s' := by
  induction p generalizing s es with
  | ret b => intro o ho; simp at ho
  | call o k ih =>
    rw [safe_alone_call] at h
    cases es with
    | nil => intro o' ho; simp at ho
    | cons e es =>
      intro o' ho
      rw [exec_call_cons] at ho
      rcases List.mem_cons.mp ho with rfl | ho
      · exact ⟨s, h.1⟩
      · exact ih _ (h.2 e) es o' ho

/-- Run alone from `s`, the code returns where `Q` holds. -/
abbrev Leads (sem : Sem Op Res σ ε) (Q : α → σ → Prop) (p : Prog Op Res α) (s : σ) : Prop :=
  p.Safe sem Eq (fun _ _ => True) Q s

theorem Safe.andThen {f : α → Prog Op Res β} {Q' : β → σ → Prop}
    (h : p.Safe sem Eq I (fun a s => (f a).Safe sem Eq I Q' s) s) : (p >>= f).Safe sem Eq I Q' s :=
  h.bind fun _ => rfl

theorem Safe.andThenOk {E : Type} {p : Prog Op Res (Except E α)}
    {f : α → Prog Op Res (Except E β)} {Q' : Except E β → σ → Prop}
    (h : p.Safe sem Eq I (fun r s =>
      match r with
      | .ok a => (f a).Safe sem Eq I Q' s
      | .error e => (ret (.error e) : Prog Op Res (Except E β)).Safe sem Eq I Q' s) s) :
    (p.thenOk f).Safe sem Eq I Q' s :=
  h.thenOk fun _ => rfl

theorem Safe.call {o : Op} {k : Res o → Prog Op Res α}
    (h : I o s ∧ ∀ e, (k (sem o e s).2).Safe sem Eq I Q (sem o e s).1) :
    (Prog.call o k).Safe sem Eq I Q s :=
  safe_alone_call.mpr h

theorem Safe.ret {a : α} (h : Q a s) : (Prog.ret a : Prog Op Res α).Safe sem Eq I Q s :=
  safe_alone_ret.mpr h

section Gives

variable {E E' : Type}

/-- Run alone from `s`, the code fails or returns a value for which `Q` holds. -/
def Gives (sem : Sem Op Res σ ε) (Q : α → σ → Prop) (p : Prog Op Res (Except E α))
    (s : σ) : Prop :=
  p.Safe sem Eq (fun _ _ => True) (fun r s => ∀ a, r = .ok a → Q a s) s

variable {p : Prog Op Res (Except E α)} {s : σ} {Q : α → σ → Prop} {Q' : β → σ → Prop}

@[simp] theorem gives_ok {a : α} :
    (ret (.ok a) : Prog Op Res (Except E α)).Gives sem Q s ↔ Q a s := by
  rw [Gives, safe_alone_ret]
  exact ⟨fun h => h a rfl, fun h _ ha => Except.ok.inj ha ▸ h⟩

@[simp] theorem gives_error {x : E} :
    (ret (.error x) : Prog Op Res (Except E α)).Gives sem Q s := by
  rw [Gives, safe_alone_ret]
  exact fun _ h => by cases h

@[simp] theorem gives_call {o : Op} {k : Res o → Prog Op Res (Except E α)} :
    (call o k).Gives sem Q s ↔ ∀ e, (k (sem o e s).2).Gives sem Q (sem o e s).1 := by
  rw [Gives, safe_alone_call]
  exact ⟨fun h => h.2, fun h => ⟨trivial, h⟩⟩

theorem safe_true (p : Prog Op Res α) (s : σ) :
    p.Safe sem Eq (fun _ _ => True) (fun _ _ => True) s := by
  induction p generalizing s with
  | ret a => exact safe_alone_ret.mpr trivial
  | call o k ih => exact safe_alone_call.mpr ⟨trivial, fun e => ih _ _⟩

theorem gives_true (p : Prog Op Res (Except E α)) (s : σ) : p.Gives sem (fun _ _ => True) s :=
  (safe_true p s).mono fun _ _ _ _ _ => trivial

theorem Gives.mono {Q' : α → σ → Prop} (h : p.Gives sem Q s) (hQ : ∀ a s, Q a s → Q' a s) :
    p.Gives sem Q' s :=
  Safe.mono h fun _ s hr a ha => hQ a s (hr a ha)

theorem gives_ite {b : Prop} [Decidable b] {q : Prog Op Res (Except E α)}
    (hp : b → p.Gives sem Q s) (hq : ¬ b → q.Gives sem Q s) :
    (if b then p else q).Gives sem Q s := by
  split
  · rename_i h; exact hp h
  · rename_i h; exact hq h

theorem Gives.thenOk {f : α → Prog Op Res (Except E β)} (h : p.Gives sem Q s)
    (hf : ∀ a s, Q a s → (f a).Gives sem Q' s) : (p.thenOk f).Gives sem Q' s := by
  refine Safe.thenOk (fun _ => rfl) (Safe.mono h ?_)
  intro r s hr
  cases r with
  | ok a => exact hf a s (hr a rfl)
  | error x => exact gives_error

theorem Gives.bind {p : Prog Op Res α} {f : α → Prog Op Res (Except E β)}
    (h : p.Safe sem Eq (fun _ _ => True) Q s) (hf : ∀ a s, Q a s → (f a).Gives sem Q' s) :
    (p >>= f).Gives sem Q' s :=
  Safe.bind (fun _ => rfl) (Safe.mono h hf)

theorem Gives.mapErr {g : E → E'} (h : p.Gives sem Q s) : (p.mapErr g).Gives sem Q s := by
  refine Safe.bind (fun _ => rfl) (Safe.mono h ?_)
  intro r s hr
  cases r with
  | ok a => exact gives_ok.mpr (hr a rfl)
  | error x => exact gives_error

end Gives

section Succeeds

variable {E E' : Type}

/-- Run alone from `s`, the code returns a value for which `Q` holds. -/
def Succeeds (sem : Sem Op Res σ ε) (Q : α → σ → Prop) (p : Prog Op Res (Except E α))
    (s : σ) : Prop :=
  p.Safe sem Eq (fun _ _ => True) (fun r s => ∃ a, r = .ok a ∧ Q a s) s

variable {p : Prog Op Res (Except E α)} {s : σ} {Q : α → σ → Prop} {Q' : β → σ → Prop}

@[simp] theorem succeeds_ok {a : α} :
    (ret (.ok a) : Prog Op Res (Except E α)).Succeeds sem Q s ↔ Q a s := by
  rw [Succeeds, safe_alone_ret]
  exact ⟨fun ⟨_, ha, h⟩ => Except.ok.inj ha ▸ h, fun h => ⟨a, rfl, h⟩⟩

@[simp] theorem succeeds_call {o : Op} {k : Res o → Prog Op Res (Except E α)} :
    (call o k).Succeeds sem Q s ↔ ∀ e, (k (sem o e s).2).Succeeds sem Q (sem o e s).1 := by
  rw [Succeeds, safe_alone_call]
  exact ⟨fun h => h.2, fun h => ⟨trivial, h⟩⟩

theorem Succeeds.mono {Q' : α → σ → Prop} (h : p.Succeeds sem Q s)
    (hQ : ∀ a s, Q a s → Q' a s) : p.Succeeds sem Q' s := by
  refine Safe.mono h ?_
  rintro _ s ⟨a, rfl, ha⟩
  exact ⟨a, rfl, hQ a s ha⟩

theorem Succeeds.thenOk {f : α → Prog Op Res (Except E β)} (h : p.Succeeds sem Q s)
    (hf : ∀ a s, Q a s → (f a).Succeeds sem Q' s) : (p.thenOk f).Succeeds sem Q' s := by
  refine Safe.thenOk (fun _ => rfl) (Safe.mono h ?_)
  rintro _ s ⟨a, rfl, ha⟩
  exact hf a s ha

theorem Succeeds.bind {p : Prog Op Res α} {f : α → Prog Op Res (Except E β)}
    (h : p.Safe sem Eq (fun _ _ => True) Q s) (hf : ∀ a s, Q a s → (f a).Succeeds sem Q' s) :
    (p >>= f).Succeeds sem Q' s :=
  Safe.bind (fun _ => rfl) (Safe.mono h hf)

theorem Succeeds.mapErr {g : E → E'} (h : p.Succeeds sem Q s) :
    (p.mapErr g).Succeeds sem Q s := by
  refine Safe.bind (fun _ => rfl) (Safe.mono h ?_)
  rintro _ s ⟨a, rfl, ha⟩
  exact succeeds_ok.mpr ha

/-- What success means holds of code that succeeds. -/
theorem Succeeds.and_gives {Q' : α → σ → Prop} (h : p.Succeeds sem Q s) (h' : p.Gives sem Q' s) :
    p.Succeeds sem (fun a s => Q a s ∧ Q' a s) s := by
  refine Safe.mono (Safe.and h h') ?_
  rintro _ s ⟨⟨a, rfl, ha⟩, hg⟩
  exact ⟨a, rfl, ha, hg a rfl⟩

end Succeeds

theorem only_true (p : Prog Op Res α) : p.Only fun _ => True := by
  induction p with
  | ret a => trivial
  | call o k ih => exact ⟨trivial, ih⟩

theorem Only.lift {D : Type} {DRes : D → Type} {inj : D → Op} {proj : ∀ d, Res (inj d) → DRes d}
    {P : D → Prop} {p : Prog D DRes α} (h : p.Only P) :
    (p.lift inj proj).Only fun o => ∃ d, o = inj d ∧ P d := by
  induction p with
  | ret a => trivial
  | call d k ih => exact ⟨⟨d, rfl, h.1⟩, fun r => ih _ (h.2 _)⟩

theorem Only.mono {P P' : Op → Prop} (h : p.Only P) (hP : ∀ o, P o → P' o) : p.Only P' := by
  induction p with
  | ret a => trivial
  | call o k ih => exact ⟨hP o h.1, fun r => ih r (h.2 r)⟩

theorem Only.bind {P : Op → Prop} {f : α → Prog Op Res β} (h : p.Only P)
    (hf : ∀ a, (f a).Only P) : (p >>= f).Only P := by
  induction p with
  | ret a => exact hf a
  | call o k ih => exact ⟨h.1, fun r => ih r (h.2 r)⟩

theorem Only.expand {Op' : Type} {Res' : Op' → Type} {h : (o : Op) → Prog Op' Res' (Res o)}
    {P : Op → Prop} {P' : Op' → Prop} (hp : p.Only P) (hh : ∀ o, P o → (h o).Only P') :
    (p.expand h).Only P' := by
  induction p with
  | ret a => trivial
  | call o k ih => exact (hh o hp.1).bind fun r => ih r (hp.2 r)

theorem Only.thenOk {E : Type} {P : Op → Prop} {p : Prog Op Res (Except E α)}
    {f : α → Prog Op Res (Except E β)} (h : p.Only P) (hf : ∀ a, (f a).Only P) :
    (p.thenOk f).Only P := by
  refine h.bind ?_
  intro r
  cases r with
  | ok a => exact hf a
  | error e => trivial

theorem Only.mapErr {E E' : Type} {P : Op → Prop} {g : E → E'} {p : Prog Op Res (Except E α)}
    (h : p.Only P) : (p.mapErr g).Only P := h.bind fun _ => trivial

theorem Only.ite {P : Op → Prop} {b : Prop} [Decidable b] {q : Prog Op Res α} (hp : p.Only P)
    (hq : q.Only P) : (if b then p else q).Only P := by
  split
  · exact hp
  · exact hq

/-- An invariant kept by every operation the code can issue survives a run cut anywhere. -/
theorem Only.exec {P : Op → Prop} {J : σ → Prop} (h : p.Only P)
    (hJ : ∀ o e s, P o → J s → J (sem o e s).1) (hs : J s) (es : List ε) :
    J (p.exec sem es s).st := by
  induction p generalizing s es with
  | ret a => exact hs
  | call o k ih =>
    cases es with
    | nil => exact hs
    | cons e es => exact ih _ (h.2 _) (hJ o e s h.1 hs) es

theorem Only.performed {P : Op → Prop} (h : p.Only P) (es : Nat → ε) :
    ∀ o ∈ p.performed sem es s, P o := by
  induction p generalizing s es with
  | ret a => intro o ho; cases ho
  | call o k ih =>
    intro o' ho
    rcases List.mem_cons.mp ho with rfl | ho
    · exact h.1
    · exact ih _ (h.2 _) _ o' ho

/-- Code held to a monitor that stays in one phase. -/
theorem Only.obeys {γ : Type} {M : Monitor Op Res α γ} {g : γ} {P : Op → Prop} (h : p.Only P)
    (hok : ∀ o, P o → M.ok g o) (hnext : ∀ o r, P o → M.next g o r = g) (hfin : ∀ a, M.fin g a) :
    p.Obeys M g := by
  induction p with
  | ret a => exact hfin a
  | call o k ih =>
    refine ⟨hok o h.1, ?_⟩
    intro r
    rw [hnext o r h.1]
    exact ih r (h.2 r)

/-- Code all of whose operations keep `F` is safe with `F` as postcondition. -/
theorem Only.safe {P : Op → Prop} {F : σ → Prop} (h : p.Only P)
    (hR : ∀ s s', R s s' → F s → F s') (hI : ∀ o s, P o → F s → I o s)
    (hF : ∀ o e s, P o → F s → F (sem o e s).1) (hs : F s) :
    p.Safe sem R I (fun _ s => F s) s := by
  induction p generalizing s with
  | ret a => exact fun s' hr => hR s s' hr hs
  | call o k ih =>
    intro s' hr
    have hs' := hR s s' hr hs
    exact ⟨hI o s' h.1 hs', fun e => ih _ (h.2 _) (hF o e s' h.1 hs')⟩

end Prog

end Atomic
