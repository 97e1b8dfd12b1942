import Capsule.Atomic.Rely

/-!
# Capsule.Atomic.Pipe

A synchronous pipe with a thread at each end: the writer takes chunks from a source, adds them up
and offers them, the reader runs code that reads from the pipe and works on a state of its own.

* `Ends`: the reader's code returns however the steps of the two are taken.
* `Over`: the code is right however the bytes come in, a read giving any non-empty part of them.
* `Over.ends`: code that is so is right at the end of the pipe, in every run.
-/

namespace Atomic.Pipe

variable {A X E γ σ ε α β : Type} {XRes : X → Type}

inductive Op (X : Type) where
  | read (n : Nat)
  | close
  /-- Receive what the writer ended with. -/
  | wait
  | other (x : X)

/-- A read answers nothing at the end of the stream. -/
@[reducible] def Res (A E γ : Type) (XRes : X → Type) : Op X → Type
  | .read _ => Option (List A)
  | .close => Unit
  | .wait => Option E × γ
  | .other x => XRes x

abbrev Code (A E γ : Type) (XRes : X → Type) := Prog (Op X) (Res A E γ XRes)

/-- The chunks to come, and the one that comes with the end. -/
structure Source (A : Type) where
  chunks : List (List A)
  last : List A

def Source.all (s : Source A) : List A := s.chunks.flatten ++ s.last

inductive Writer (A E : Type) where
  | asks (s : Source A)
  /-- A chunk is being written: what is left of it, and what comes after it. -/
  | writes (b : List A) (next : Option (Source A))
  | sent (e : Option E)
  | closed (e : Option E)

structure State (A E γ : Type) (XRes : X → Type) (σ α : Type) where
  writer : Writer A E
  sum : γ
  closed : Bool
  reader : Code A E γ XRes α
  st : σ

section Step

variable (add : γ → List A → γ) (refused : E) (sem : Sem X XRes σ ε)

def Writer.step (closed : Bool) (g : γ) : Writer A E → Option (Writer A E × γ)
  | .asks ⟨[] :: chunks, last⟩ => some (.asks ⟨chunks, last⟩, g)
  | .asks ⟨(a :: c) :: chunks, last⟩ =>
    some (.writes (a :: c) (some ⟨chunks, last⟩), add g (a :: c))
  | .asks ⟨[], []⟩ => some (.sent none, g)
  | .asks ⟨[], a :: c⟩ => some (.writes (a :: c) none, add g (a :: c))
  | .writes b next =>
    if closed then some (.sent (some refused), g)
    else
      match b, next with
      | _ :: _, _ => none
      | [], some s => some (.asks s, g)
      | [], none => some (.sent none, g)
  | .sent e => some (.closed e, g)
  | .closed _ => none

def readerStep (e : ε) (c : State A E γ XRes σ α) : Option (State A E γ XRes σ α) :=
  match c.reader with
  | .ret _ => none
  | .call (.read n) k =>
    match c.writer with
    | .writes (a :: b) next =>
      some { c with reader := k (some ((a :: b).take n)), writer := .writes ((a :: b).drop n) next }
    | .closed _ => some { c with reader := k none }
    | _ => none
  | .call .close k => some { c with reader := k (), closed := true }
  | .call .wait k =>
    match c.writer with
    | .sent e | .closed e => some { c with reader := k (e, c.sum) }
    | _ => none
  | .call (.other x) k => some { c with reader := k (sem x e c.st).2, st := (sem x e c.st).1 }

inductive Choice (ε : Type) where
  | writer
  | reader (e : ε)

/-- A step of one of the two; `none` if it cannot go on. -/
def step (c : State A E γ XRes σ α) : Choice ε → Option (State A E γ XRes σ α)
  | .writer =>
    (c.writer.step add refused c.closed c.sum).map fun x => { c with writer := x.1, sum := x.2 }
  | .reader e => readerStep sem e c

/-- However the steps are taken, the reader's code returns and `P` is true then. -/
inductive Ends (P : α → σ → Prop) : State A E γ XRes σ α → Prop where
  | ret {c : State A E γ XRes σ α} {a : α} : c.reader = .ret a → P a c.st → Ends P c
  | step {c : State A E γ XRes σ α} : (∃ x c', step add refused sem c x = some c') →
      (∀ x c', step add refused sem c x = some c' → Ends P c') → Ends P c

/-- The code ends with `Q`, however the bytes come in. `g` is the sum of all of them, which can be
received once they have been read. -/
def Over (g : γ) (Q : α → σ → Prop) : Code A E γ XRes α → List A → σ → Prop
  | .ret a, _, s => Q a s
  | .call (.read n) k, rest, s => 0 < n ∧ (rest = [] → (Over g Q (k none) [] s)) ∧
      ∀ b rest', b ≠ [] → b.length ≤ n → rest = b ++ rest' → Over g Q (k (some b)) rest' s
  | .call .close k, _, s => ∃ a, k () = .ret a ∧ Q a s
  | .call .wait k, rest, s => rest = [] ∧ Over g Q (k (none, g)) [] s
  | .call (.other x) k, rest, s => ∀ e, Over g Q (k (sem x e s).2) rest (sem x e s).1

end Step

/-- What is still to be read. -/
def Writer.rest : Writer A E → List A
  | .asks s => s.all
  | .writes b next => b ++ (next.map Source.all).getD []
  | _ => []

/-- What has not been added to the sum. -/
def Writer.ahead : Writer A E → List A
  | .asks s => s.all
  | .writes _ next => (next.map Source.all).getD []
  | _ => []

def Writer.Fine : Writer A E → Prop
  | .sent e | .closed e => e = none
  | _ => True

def Writer.size : Writer A E → Nat
  | .asks s => 2 * s.chunks.length + 4
  | .writes _ (some s) => 2 * s.chunks.length + 5
  | .writes _ none => 3
  | .sent _ => 1
  | .closed _ => 0

section Runs

variable {add : γ → List A → γ} {refused : E} {sem : Sem X XRes σ ε} {w w' : Writer A E}
  {g sum sum' : γ} {P : α → σ → Prop}

/-- The sum that the writer will come to. -/
def Comes (add : γ → List A → γ) (g : γ) (w : Writer A E) (sum : γ) : Prop :=
  add sum w.ahead = g ∧ w.Fine

theorem Writer.step_kept (hadd : ∀ g a b, add (add g a) b = add g (a ++ b))
    (h : w.step add refused false sum = some (w', sum')) (hw : Comes add g w sum) :
    w'.rest = w.rest ∧ Comes add g w' sum' ∧ w'.size < w.size := by
  obtain ⟨hsum, hfine⟩ := hw
  cases w with
  | asks s =>
    obtain ⟨chunks, last⟩ := s
    match chunks, last with
    | [] :: chunks, last => cases h; exact ⟨rfl, ⟨hsum, trivial⟩, by simp [size]⟩
    | (a :: c) :: chunks, last =>
      cases h
      refine ⟨by simp [rest, Source.all], ⟨?_, trivial⟩, by simp [size]; omega⟩
      rw [hadd, ← hsum]
      simp [ahead, Source.all]
    | [], [] => cases h; exact ⟨rfl, ⟨hsum, rfl⟩, by simp [size]⟩
    | [], a :: c =>
      cases h
      refine ⟨by simp [rest, Source.all], ⟨?_, trivial⟩, by simp [size]⟩
      rw [hadd, ← hsum]
      simp [ahead, Source.all]
  | writes b next =>
    match b, next with
    | _ :: _, _ => cases h
    | [], some s => cases h; exact ⟨rfl, ⟨hsum, trivial⟩, by simp [size]⟩
    | [], none => cases h; exact ⟨rfl, ⟨hsum, rfl⟩, by simp [size]⟩
  | sent e => cases h; exact ⟨rfl, ⟨hsum, hfine⟩, by simp [size]⟩
  | closed e => cases h

/-- A writer that cannot go on has something for the reader, or is done. -/
theorem Writer.step_eq_none (h : w.step add refused false sum = none) :
    (∃ a b next, w = .writes (a :: b) next) ∨ ∃ e, w = .closed e := by
  cases w with
  | asks s =>
    obtain ⟨chunks, last⟩ := s
    match chunks, last with
    | [] :: _, _ | (_ :: _) :: _, _ | [], [] | [], _ :: _ => cases h
  | writes b next =>
    match b, next with
    | a :: b, next => exact .inl ⟨a, b, next, rfl⟩
    | [], some s => cases h
    | [], none => cases h
  | sent e => cases h
  | closed e => exact .inr ⟨e, rfl⟩

/-- One of the two can go on. -/
theorem enabled [Nonempty ε] {o : Op X} {k : Res A E γ XRes o → Code A E γ XRes α} {s : σ}
    (hover : Over sem g P (.call o k) w.rest s) :
    ∃ x c', step add refused sem ⟨w, sum, false, .call o k, s⟩ x = some c' := by
  obtain ⟨e⟩ := ‹Nonempty ε›
  cases hw : w.step add refused false sum with
  | some x => exact ⟨.writer, ⟨x.1, x.2, false, .call o k, s⟩, by simp [step, hw]⟩
  | none =>
    refine ⟨.reader e, ?_⟩
    cases o with
    | close => exact ⟨_, rfl⟩
    | other x => exact ⟨_, rfl⟩
    | read n =>
      rcases Writer.step_eq_none hw with ⟨a, b, next, rfl⟩ | ⟨e', rfl⟩
      · exact ⟨_, rfl⟩
      · exact ⟨_, rfl⟩
    | wait =>
      rcases Writer.step_eq_none hw with ⟨a, b, next, rfl⟩ | ⟨e', rfl⟩
      · exact absurd hover.1 (by simp [Writer.rest])
      · exact ⟨_, rfl⟩

/-- Code that is right however the bytes come in is right at the end of the pipe, in every run. -/
theorem Over.ends [Nonempty ε] (hadd : ∀ g a b, add (add g a) b = add g (a ++ b))
    (hnil : ∀ g, add g [] = g) (p : Code A E γ XRes α) {s : σ} (hw : Comes add g w sum)
    (hover : Over sem g P p w.rest s) :
    Ends add refused sem P ⟨w, sum, false, p, s⟩ := by
  induction p generalizing w sum s with
  | ret a => exact .ret rfl hover
  | call o k ih =>
    -- the reader's code shrinks with each of its steps, the writer with each of its own
    induction hn : w.size using Nat.strongRecOn generalizing w sum with
    | _ n ihw =>
      refine .step (enabled hover) fun x c' hx => ?_
      cases x with
      | writer =>
        obtain ⟨⟨w', sum'⟩, hstep, rfl⟩ := Option.map_eq_some_iff.mp hx
        obtain ⟨hrest, hcomes, hlt⟩ := Writer.step_kept hadd hstep hw
        exact ihw _ (hn ▸ hlt) hcomes (hrest ▸ hover) rfl
      | reader e =>
        cases o with
        | read m =>
          cases w with
          | asks s => cases hx
          | sent e' => cases hx
          | writes b next =>
            cases b with
            | nil => cases hx
            | cons a b =>
              cases hx
              refine ih _ (w := .writes _ next) hw (hover.2.2 _ _ ?_ ?_ ?_)
              · simpa using Nat.ne_of_gt hover.1
              · exact List.length_take_le m _
              · simp [Writer.rest, ← List.append_assoc]
          | closed e' => cases hx; exact ih _ hw (hover.2.1 rfl)
        | close => cases hx; obtain ⟨a, hk, ha⟩ := hover; exact .ret hk ha
        | wait =>
          cases w with
          | asks s => cases hx
          | writes b next => cases hx
          | sent e' | closed e' =>
            cases hx
            obtain ⟨rfl, rfl⟩ : sum = g ∧ e' = none := ⟨(hnil sum).symm.trans hw.1, hw.2⟩
            exact ih _ hw hover.2
        | other x => cases hx; exact ih _ hw (hover e)

end Runs

/-! ## Code -/

/-- Code that only reads. -/
abbrev Reading (A : Type) := Prog Nat fun _ => Option (List A)

/-- However the bytes come in, the code has the result and leaves the rest. -/
def Reads : Reading A β → List A → β × List A → Prop
  | .ret b, rest, r => r = (b, rest)
  | .call n k, rest, r => 0 < n ∧ (rest = [] → Reads (k none) [] r) ∧
      ∀ b rest', b ≠ [] → b.length ≤ n → rest = b ++ rest' → Reads (k (some b)) rest' r

def onPipe (p : Reading A β) : Code A E γ XRes β := p.lift .read fun _ r => r

def onState (p : Prog X XRes β) : Code A E γ XRes β := p.lift .other fun _ r => r

/-- Read to the end, up to `n` at once and at most so many times. -/
def drain (n : Nat) : Nat → Reading A Unit
  | 0 => .ret ()
  | fuel + 1 => .call n fun r =>
    match r with
    | none => .ret ()
    | some _ => drain n fuel

section Rules

variable {sem : Sem X XRes σ ε} {g : γ} {Q : α → σ → Prop} {I : X → σ → Prop} {rest : List A}
  {s : σ}

theorem Reads.suffix {p : Reading A β} {r : β × List A} (h : Reads p rest r) : r.2 <:+ rest := by
  induction p generalizing rest with
  | ret b => cases h; exact List.suffix_rfl
  | call n k ih =>
    obtain ⟨hn, hend, hmore⟩ := h
    cases rest with
    | nil => exact ih _ (hend rfl)
    | cons a rest =>
      have hone := hmore [a] rest (List.cons_ne_nil a []) hn rfl
      exact (ih _ hone).trans (List.suffix_cons a rest)

theorem Reads.bind {δ : Type} {p : Reading A β} {f : β → Reading A δ} {r : β × List A}
    {r' : δ × List A} (hp : Reads p rest r) (hf : Reads (f r.1) r.2 r') :
    Reads (p >>= f) rest r' := by
  induction p generalizing rest with
  | ret b => cases hp; exact hf
  | call n k ih =>
    obtain ⟨hn, hend, hmore⟩ := hp
    exact ⟨hn, fun h => ih _ (hend h), fun b rest' hb hlen h => ih _ (hmore b rest' hb hlen h)⟩

theorem drain_reads {n fuel : Nat} (hn : 0 < n) (hfuel : rest.length < fuel) :
    Reads (drain n fuel) rest ((), []) := by
  induction fuel generalizing rest with
  | zero => exact absurd hfuel (Nat.not_lt_zero _)
  | succ fuel ih =>
    refine ⟨hn, fun _ => rfl, ?_⟩
    rintro b rest' hb - rfl
    refine ih ?_
    have hpos := List.length_pos_iff.mpr hb
    rw [List.length_append] at hfuel
    omega

/-- The rule for code that only reads. -/
theorem Over.reads {p : Reading A β} {f : β → Code A E γ XRes α} {r : β × List A}
    (hp : Reads p rest r) (hf : Over sem g Q (f r.1) r.2 s) :
    Over sem g Q (onPipe p >>= f) rest s := by
  induction p generalizing rest with
  | ret b => cases hp; exact hf
  | call n k ih =>
    obtain ⟨hn, hend, hmore⟩ := hp
    exact ⟨hn, fun h => ih _ (hend h), fun b rest' hb hlen h => ih _ (hmore b rest' hb hlen h)⟩

theorem Over.reads_thenOk {F : Type} {P : Except F α → σ → Prop} {δ : Type} {p : Reading A β}
    {f : β → Code A E γ XRes (Except F δ)} {f' : δ → Code A E γ XRes (Except F α)}
    {r : β × List A} (hp : Reads p rest r) (hf : Over sem g P ((f r.1).thenOk f') r.2 s) :
    Over sem g P ((onPipe p >>= f).thenOk f') rest s := by
  rw [Prog.thenOk, Prog.bind_assoc]
  exact Over.reads hp hf

theorem Over.of_ret {a : α} (h : (.ret a : Prog X XRes α).Safe sem Eq I Q s) :
    Over sem g Q (.ret a : Code A E γ XRes α) rest s :=
  (Prog.safe_alone_ret.mp h : Q a s)

/-- The rule for code on the state: what follows is simulated by what follows it there. -/
theorem Over.simulate {p : Prog X XRes β} {f : β → Prog X XRes α} {f' : β → Code A E γ XRes α}
    (h : (p >>= f).Safe sem Eq I Q s)
    (hf : ∀ b s', (f b).Safe sem Eq I Q s' → Over sem g Q (f' b) rest s') :
    Over sem g Q (onState p >>= f') rest s := by
  induction p generalizing s with
  | ret b => exact hf b s h
  | call x k ih => exact fun e => ih _ ((Prog.safe_alone_call.mp h).2 e)

theorem Over.simulate_thenOk {F : Type} {P : Except F α → σ → Prop}
    {p : Prog X XRes (Except F β)} {f : β → Prog X XRes (Except F α)}
    {f' : β → Code A E γ XRes (Except F α)} (h : (p.thenOk f).Safe sem Eq I P s)
    (hf : ∀ b s', (f b).Safe sem Eq I P s' → Over sem g P (f' b) rest s') :
    Over sem g P ((onState p).thenOk f') rest s := by
  refine Over.simulate h fun r s' hr => ?_
  cases r with
  | ok b => exact hf b s' hr
  | error e => exact Over.of_ret hr

theorem Over.of_safe {p : Prog X XRes α} (h : p.Safe sem Eq I Q s) :
    Over sem g Q (onState p : Code A E γ XRes α) rest s := by
  induction p generalizing s with
  | ret a => exact Over.of_ret h
  | call x k ih => exact fun e => ih _ ((Prog.safe_alone_call.mp h).2 e)

end Rules

end Atomic.Pipe
