import Capsule.Atomic.Rely
import Capsule.Store.Types

/-!
# Capsule.Auth.Certificate

The server's certificate on disk: `LoadOrGenerate`, `generate` and `writeAtomic` of `auth/tls.go`,
over a directory with the two files and the temporary ones. Power may be lost between any two
operations.

* `Dir.Sound`: the invariant. A key file is one half of a pair, since the certificate is renamed
  into place before it.
* `Op.Allowed`, `loadOrGenerate_safe`: renames happen only where they keep that.
* `certificate_stable`: every call that runs to its end succeeds, and all of them return the
  certificate that the first one did.
-/

namespace Capsule.Auth.TLS

open Atomic

inductive File where
  | cert
  | key
  deriving DecidableEq, Repr

/-- An error of a file operation; `notExist` is the one `errors.Is(err, os.ErrNotExist)` accepts. -/
inductive FileErr where
  | notExist
  | other (msg : String)
  deriving DecidableEq

def FileErr.err : FileErr → Err
  | .notExist => .text "no such file or directory"
  | .other m => .text m

/-- The steps of `generate` that may fail before anything is written. -/
inductive MintStep where
  | ed25519
  | serial
  | x509
  | pkcs8
  deriving DecidableEq, Repr

def MintStep.what : MintStep → String
  | .ed25519 => "auth: gen ed25519"
  | .serial => "auth: gen serial"
  | .x509 => "auth: x509 create"
  | .pkcs8 => "auth: marshal key"

inductive Op where
  | readFile (f : File)
  | stat (f : File)
  | mint (m : MintStep)
  /-- `pem.EncodeToMemory` of the certificate and the key that were minted. -/
  | pem
  | createTemp
  | write (t : Nat) (data : Bytes)
  | chmod (t : Nat)
  | close (t : Nat)
  | rename (t : Nat) (f : File)
  | remove (t : Nat)

@[reducible] def Res : Op → Type
  | .readFile _ => Except FileErr Bytes
  | .pem => Bytes × Bytes
  | .createTemp => Except FileErr Nat
  | .remove _ => Unit
  | _ => Except FileErr Unit

/-- The directory: the two files, and the temporary ones by the number they were made under. -/
structure Dir where
  files : File → Option Bytes
  temps : Nat → Option Bytes
  next : Nat

def Dir.empty : Dir := ⟨fun _ => none, fun _ => none, 0⟩

structure Params (C : Type) where
  /-- `tls.X509KeyPair`: the certificate, or why the two texts are no pair. -/
  keyPair : Bytes → Bytes → Except String C
  path : File → String
  tmpName : Nat → String

variable {C : Type}

/-- What `generate` mints: two texts that are a pair. -/
structure Minted (ps : Params C) where
  certPEM : Bytes
  keyPEM : Bytes
  cert : C
  ok : ps.keyPair certPEM keyPEM = .ok cert

structure Env (ps : Params C) where
  fault : Option String := none
  minted : Minted ps

def answer {α : Type} (fault : Option String) (a : α) : Except FileErr α :=
  match fault with
  | none => .ok a
  | some m => .error (.other m)

def guard {α : Type} (fault : Option String) (d : Dir) (act : Dir × Except FileErr α) :
    Dir × Except FileErr α :=
  match fault with
  | none => act
  | some m => (d, .error (.other m))

def sem (ps : Params C) : Sem Op Res Dir (Env ps)
  | .readFile f, e, d =>
    guard e.fault d (d, match d.files f with
      | some b => .ok b
      | none => .error .notExist)
  | .stat f, e, d =>
    guard e.fault d (d, if (d.files f).isSome then .ok () else .error .notExist)
  | .mint _, e, d => (d, answer e.fault ())
  | .pem, e, d => (d, (e.minted.certPEM, e.minted.keyPEM))
  | .createTemp, e, d =>
    guard e.fault d ({ d with temps := Function.update d.temps d.next (some []),
                              next := d.next + 1 }, .ok d.next)
  | .write t data, e, d =>
    guard e.fault d
      ({ d with temps := Function.update d.temps t ((d.temps t).map (· ++ data)) }, .ok ())
  | .chmod _, e, d => (d, answer e.fault ())
  | .close _, e, d => (d, answer e.fault ())
  | .rename t f, e, d =>
    guard e.fault d (match d.temps t with
      | none => (d, .error .notExist)
      | some b => ({ d with files := Function.update d.files f (some b),
                            temps := Function.update d.temps t none }, .ok ()))
  | .remove t, _, d => ({ d with temps := Function.update d.temps t none }, ())

abbrev Code := Prog Op Res

@[simp] def call (o : Op) : Code (Res o) := .call o .ret

/-- `tls.LoadX509KeyPair`: the certificate file is read first. -/
def loadX509KeyPair (ps : Params C) : Code (Except FileErr C) :=
  (call (.readFile .cert)).thenOk fun cert =>
  (call (.readFile .key)).thenOk fun key =>
  .ret (match ps.keyPair cert key with
    | .ok c => .ok c
    | .error m => .error (.other m))

/-- Give a temporary file up. -/
def discard (t : Nat) (e : Err) : Code (Except Err Unit) := do
  call (.remove t)
  return .error e

def writeAtomic (ps : Params C) (f : File) (data : Bytes) : Code (Except Err Unit) :=
  ((call .createTemp).mapErr fun e => e.err.ctx "auth: temp file").thenOk fun t => do
  match ← call (.write t data) with
  | .error e =>
    let _ ← call (.close t)
    discard t (e.err.ctx ("auth: write " ++ ps.path f))
  | .ok () =>
    match ← call (.chmod t) with
    | .error e =>
      let _ ← call (.close t)
      discard t (e.err.ctx ("auth: chmod " ++ ps.tmpName t))
    | .ok () =>
      match ← call (.close t) with
      | .error e => discard t (e.err.ctx ("auth: close " ++ ps.tmpName t))
      | .ok () =>
        match ← call (.rename t f) with
        | .error e =>
          discard t (e.err.ctx ("auth: rename " ++ ps.tmpName t ++ " -> " ++ ps.path f))
        | .ok () => return .ok ()

def mint (m : MintStep) : Code (Except Err Unit) :=
  (call (.mint m)).mapErr fun e => e.err.ctx m.what

def generate (ps : Params C) : Code (Except Err C) :=
  (mint .ed25519).thenOk fun _ =>
  (mint .serial).thenOk fun _ =>
  (mint .x509).thenOk fun _ =>
  (mint .pkcs8).thenOk fun _ => do
    let (certPEM, keyPEM) ← call .pem
    (writeAtomic ps .cert certPEM).thenOk fun _ =>
      (writeAtomic ps .key keyPEM).thenOk fun _ =>
        .ret (match ps.keyPair certPEM keyPEM with
          | .ok c => .ok c
          | .error m => .error ((Err.text m).ctx "auth: parse fresh keypair"))

def loadOrGenerate (ps : Params C) : Code (Except Err C) := do
  match ← loadX509KeyPair ps with
  | .ok c => return .ok c
  | .error .notExist => generate ps
  | .error (.other m) =>
    -- present but unreadable or corrupt: what is there is not overwritten
    match ← call (.stat .cert) with
    | .ok () => return .error ((Err.text m).ctx "auth: load cert")
    | .error _ => generate ps

section Calls

variable {ps : Params C} {d : Dir} {c : C}

/-- The directory holds a pair that makes the certificate `c`. -/
def Dir.Holds (ps : Params C) (d : Dir) (c : C) : Prop :=
  ∃ cert key, d.files .cert = some cert ∧ d.files .key = some key ∧ ps.keyPair cert key = .ok c

theorem Dir.Holds.unique {c' : C} (h : d.Holds ps c) (h' : d.Holds ps c') : c = c' := by
  obtain ⟨cert, key, hcert, hkey, hpair⟩ := h
  obtain ⟨cert', key', hcert', hkey', hpair'⟩ := h'
  rw [hcert] at hcert'
  rw [hkey] at hkey'
  cases hcert'
  cases hkey'
  rw [hpair] at hpair'
  exact Except.ok.inj hpair'

/-- A key file is one half of a pair. -/
def Dir.Sound (ps : Params C) (d : Dir) : Prop := d.files .key = none ∨ ∃ c, d.Holds ps c

/-- A rename happens only while there is no key file, and a key is put beside its certificate. -/
def Op.Allowed (ps : Params C) : Op → Dir → Prop
  | .rename t .cert, d => d.files .key = none ∧ (d.temps t).isSome
  | .rename t .key, d => d.files .key = none ∧ ∃ cert key c, d.files .cert = some cert ∧
      d.temps t = some key ∧ ps.keyPair cert key = .ok c
  | _, _ => True

theorem sem_files {o : Op} (ho : ∀ t f, o ≠ .rename t f) (e : Env ps) :
    (sem ps o e d).1.files = d.files := by
  cases o with
  | rename t f => exact absurd rfl (ho t f)
  | mint | pem | chmod | close | remove => rfl
  | readFile | stat | createTemp | write =>
    simp only [sem, guard]
    split <;> rfl

theorem Op.Allowed.files {o : Op} (ho : o.Allowed ps d) (e : Env ps) :
    (sem ps o e d).1.files = d.files ∨
      (d.files .key = none ∧ (sem ps o e d).1.Sound ps) := by
  cases o with
  | rename t f =>
    cases hfault : e.fault with
    | some m => exact .inl (by simp only [sem, guard, hfault])
    | none =>
      cases f with
      | cert =>
        obtain ⟨hkey, ht⟩ := ho
        obtain ⟨b, hb⟩ := Option.isSome_iff_exists.mp ht
        refine .inr ⟨hkey, .inl ?_⟩
        simp only [sem, guard, hfault, hb]
        exact hkey
      | key =>
        obtain ⟨hkey, cert, key, c, hcert, ht, hpair⟩ := ho
        refine .inr ⟨hkey, .inr ⟨c, cert, key, ?_⟩⟩
        simp only [sem, guard, hfault, ht]
        exact ⟨hcert, rfl, hpair⟩
  | _ => exact .inl (sem_files (fun _ _ h => by cases h) e)

theorem Dir.Holds.congr {d' : Dir} (h : d.Holds ps c) (hfiles : d'.files = d.files) :
    d'.Holds ps c := by
  unfold Dir.Holds
  rw [hfiles]
  exact h

theorem Op.Allowed.holds {o : Op} (ho : o.Allowed ps d) (hd : d.Holds ps c) (e : Env ps) :
    (sem ps o e d).1.Holds ps c := by
  rcases ho.files e with hsame | ⟨hnone, -⟩
  · exact hd.congr hsame
  · obtain ⟨cert, key, -, hkey, -⟩ := hd; rw [hnone] at hkey; cases hkey

theorem Op.Allowed.sound {o : Op} (ho : o.Allowed ps d) (hd : d.Sound ps) (e : Env ps) :
    (sem ps o e d).1.Sound ps := by
  rcases ho.files e with hsame | ⟨-, hsound⟩
  · rcases hd with hnone | ⟨c, hc⟩
    · exact .inl (by rw [hsame]; exact hnone)
    · exact .inr ⟨c, hc.congr hsame⟩
  · exact hsound

/-! ### One call -/

def NoFault (e : Env ps) : Prop := e.fault = none

variable {α : Type} {Q : α → Dir → Prop}

theorem safe_step {o : Op} {k : Res o → Code α} (ho : o.Allowed ps d)
    (h : ∀ e : Env ps, e.fault = none →
      (k (sem ps o e d).2).Safe ((sem ps).given NoFault) Eq (Op.Allowed ps) Q (sem ps o e d).1) :
    (Prog.call o k).Safe ((sem ps).given NoFault) Eq (Op.Allowed ps) Q d :=
  .call ⟨ho, fun e => h e.1 e.2⟩

theorem writeAtomic_safe {f : File} {data : Bytes} {Q : Except Err Unit → Dir → Prop}
    (hallowed : ∀ t d', d'.files = d.files → d'.temps t = some data →
      (Op.rename t f).Allowed ps d')
    (hQ : ∀ d', d'.files = Function.update d.files f (some data) → Q (.ok ()) d') :
    (writeAtomic ps f data).Safe ((sem ps).given NoFault) Eq (Op.Allowed ps) Q d := by
  refine safe_step trivial fun e he => ?_
  simp only [sem, guard, he]
  refine safe_step trivial fun e he => ?_
  simp only [sem, guard, he]
  refine safe_step trivial fun e he => ?_
  simp only [sem, answer, he]
  refine safe_step trivial fun e he => ?_
  simp only [sem, answer, he]
  have ht : ∀ t : Nat, Function.update (Function.update d.temps t (some [])) t
      ((Function.update d.temps t (some []) t).map (· ++ data)) t = some data := by
    intro t
    simp
  refine safe_step (hallowed _ _ rfl (ht _)) fun e he => ?_
  simp only [sem, guard, he, ht]
  exact .ret (hQ _ rfl)

theorem mint_safe {m : MintStep} {Q : Except Err Unit → Dir → Prop} (hQ : Q (.ok ()) d) :
    (mint m).Safe ((sem ps).given NoFault) Eq (Op.Allowed ps) Q d := by
  refine safe_step trivial fun e he => ?_
  simp only [sem, answer, he]
  exact .ret hQ

theorem generate_safe (hd : d.files .key = none) :
    (generate ps).Safe ((sem ps).given NoFault) Eq (Op.Allowed ps)
      (fun r d => ∃ c, r = .ok c ∧ d.Holds ps c) d := by
  refine .andThenOk (mint_safe ?_)
  refine .andThenOk (mint_safe ?_)
  refine .andThenOk (mint_safe ?_)
  refine .andThenOk (mint_safe ?_)
  refine safe_step trivial fun e _ => ?_
  simp only [sem]
  generalize e.minted = m
  -- the certificate first: there is no key yet
  refine .andThenOk (writeAtomic_safe ?_ ?_)
  · intro t d' hfiles ht; exact ⟨by rw [hfiles]; exact hd, by rw [ht]; rfl⟩
  · intro d₁ hcert
    -- then the key, beside it
    refine .andThenOk (writeAtomic_safe ?_ ?_)
    · intro t d' hfiles ht
      rw [hcert] at hfiles
      exact ⟨by rw [hfiles]; exact hd, m.certPEM, m.keyPEM, m.cert, by rw [hfiles]; rfl, ht, m.ok⟩
    · intro d₂ hkey
      rw [hcert] at hkey
      rw [m.ok]
      exact .ret
        ⟨m.cert, rfl, m.certPEM, m.keyPEM, by rw [hkey]; rfl, by rw [hkey]; rfl, m.ok⟩

theorem loadOrGenerate_safe (hd : d.Sound ps) :
    (loadOrGenerate ps).Safe ((sem ps).given NoFault) Eq (Op.Allowed ps)
      (fun r d => ∃ c, r = .ok c ∧ d.Holds ps c) d := by
  refine safe_step trivial fun e he => ?_
  simp only [sem, guard, he]
  cases hcert : d.files .cert with
  | none =>
    refine generate_safe ?_
    rcases hd with hnone | ⟨c, cert, key, hcert', -⟩
    · exact hnone
    · rw [hcert] at hcert'; cases hcert'
  | some cert =>
    refine safe_step trivial fun e he => ?_
    simp only [sem, guard, he]
    cases hkey : d.files .key with
    | none => exact generate_safe hkey
    | some key =>
      rcases hd with hnone | ⟨c, hc⟩
      · rw [hkey] at hnone; cases hnone
      · obtain ⟨cert', key', hcert', hkey', hpair⟩ := hc
        rw [hcert] at hcert'
        rw [hkey] at hkey'
        cases hcert'
        cases hkey'
        simp only [Prog.bind, hpair]
        exact .ret ⟨c, rfl, cert, key, hcert, hkey, hpair⟩

/-- Calls one after the other, each given the answers it gets before power is lost: what each
returned, if it did, and the directory after it. -/
def runCalls (ps : Params C) : List (List (Env ps)) → Dir → List (Option (Except Err C) × Dir)
  | [], _ => []
  | es :: calls, d =>
    let out := (loadOrGenerate ps).exec (sem ps) es d
    (out.val, out.st) :: runCalls ps calls out.st

variable {es : List (Env ps)} {calls : List (List (Env ps))}

theorem call_sound (hd : d.Sound ps) (hes : ∀ e ∈ es, e.fault = none) :
    ((loadOrGenerate ps).exec (sem ps) es d).st.Sound ps :=
  (loadOrGenerate_safe hd).exec_given (fun _ e _ ho hs => ho.sound hs e) hd hes

theorem call_holds (hd : d.Holds ps c) (hes : ∀ e ∈ es, e.fault = none) :
    ((loadOrGenerate ps).exec (sem ps) es d).st.Holds ps c :=
  (loadOrGenerate_safe (.inr ⟨c, hd⟩)).exec_given (fun _ e _ ho hs => ho.holds hs e) hd hes

theorem call_val (hd : d.Sound ps) (hes : ∀ e ∈ es, e.fault = none) {v : Except Err C}
    (hv : ((loadOrGenerate ps).exec (sem ps) es d).val = some v) :
    ∃ c, v = .ok c ∧ ((loadOrGenerate ps).exec (sem ps) es d).st.Holds ps c :=
  (loadOrGenerate_safe hd).exec_val_given hes hv

theorem runCalls_holds (hd : d.Holds ps c) (hcalls : ∀ es ∈ calls, ∀ e ∈ es, e.fault = none) :
    ∀ out ∈ runCalls ps calls d, out.2.Holds ps c ∧ ∀ v, out.1 = some v → v = .ok c := by
  induction calls generalizing d with
  | nil => intro out hout; cases hout
  | cons es calls ih =>
    rw [List.forall_mem_cons] at hcalls
    have hnext := call_holds hd hcalls.1
    intro out hout
    rcases List.mem_cons.mp hout with rfl | hout
    · refine ⟨hnext, fun v hv => ?_⟩
      obtain ⟨c', rfl, hc'⟩ := call_val (.inr ⟨c, hd⟩) hcalls.1 hv
      rw [hnext.unique hc']
    · exact ih hnext hcalls.2 out hout

theorem runCalls_sound (hd : d.Sound ps) (hcalls : ∀ es ∈ calls, ∀ e ∈ es, e.fault = none) :
    (∀ out ∈ runCalls ps calls d, out.1 = none) ∨
      ∃ c, ∀ out ∈ runCalls ps calls d, ∀ v, out.1 = some v → v = .ok c ∧ out.2.Holds ps c := by
  induction calls generalizing d with
  | nil =>
    refine .inl fun out hout => ?_
    cases hout
  | cons es calls ih =>
    rw [List.forall_mem_cons] at hcalls
    simp only [runCalls, List.forall_mem_cons]
    cases hv : ((loadOrGenerate ps).exec (sem ps) es d).val with
    | none =>
      rcases ih (call_sound hd hcalls.1) hcalls.2 with hall | ⟨c, hc⟩
      · exact .inl ⟨rfl, hall⟩
      · exact .inr ⟨c, fun v hv => (by cases hv), hc⟩
    | some v =>
      obtain ⟨c, rfl, hc⟩ := call_val hd hcalls.1 hv
      refine .inr ⟨c, ?_, ?_⟩
      · intro v hv; cases hv; exact ⟨rfl, hc⟩
      · intro out hout v hv
        obtain ⟨hholds, hval⟩ := runCalls_holds hc hcalls.2 out hout
        exact ⟨hval v hv, hholds⟩

theorem certificate_stable (hcalls : ∀ es ∈ calls, ∀ e ∈ es, e.fault = none) :
    (∀ out ∈ runCalls ps calls .empty, ∀ v, out.1 = some v → ∃ c, v = .ok c ∧ out.2.Holds ps c) ∧
      ∀ out ∈ runCalls ps calls .empty, ∀ out' ∈ runCalls ps calls .empty, ∀ v v',
        out.1 = some v → out'.1 = some v' → v = v' := by
  rcases runCalls_sound (d := .empty) (.inl rfl) hcalls with hall | ⟨c, hc⟩
  · refine ⟨fun out hout v hv => ?_, fun out hout _ _ v _ hv => ?_⟩
    · rw [hall out hout] at hv; cases hv
    · rw [hall out hout] at hv; cases hv
  · refine ⟨fun out hout v hv => ⟨c, hc out hout v hv⟩, fun out hout out' hout' v v' hv hv' => ?_⟩
    rw [(hc out hout v hv).1, (hc out' hout' v' hv').1]

end Calls

/-- Texts are a pair when they are equal. -/
def smallParams : Params Bytes where
  keyPair cert key :=
    if cert = key then .ok cert else .error "private key does not match public key"
  path _ := "/perm/tls/server"
  tmpName _ := "/perm/tls/.tls-1.tmp"

def minting (b : UInt8) : Env smallParams := ⟨none, [b], [b], [b], by simp [smallParams]⟩

/-- Power is lost between the two files; the next call mints anew, and the one after it loads. -/
theorem certificate_stable_cut :
    (runCalls smallParams [.replicate 11 (minting 1), .replicate 17 (minting 2),
        .replicate 17 (minting 3)] .empty).map Prod.fst =
      [none, some (.ok [2]), some (.ok [2])] ∧
    ∀ out ∈ runCalls smallParams [.replicate 11 (minting 1), .replicate 17 (minting 2),
        .replicate 17 (minting 3)] .empty,
      ∀ v, out.1 = some v → ∃ c, v = .ok c ∧ out.2.Holds smallParams c := by
  refine ⟨by rfl, (certificate_stable ?_).1⟩
  intro es hes e he
  simp only [List.mem_cons, List.not_mem_nil, or_false] at hes
  rcases hes with rfl | rfl | rfl <;> rw [List.eq_of_mem_replicate he] <;> rfl

end Capsule.Auth.TLS
