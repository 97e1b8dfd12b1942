import Capsule.Atomic.Steps
import Capsule.Install.Installer

/-!
# Capsule.Install.Session

An install as a session of two parties: `capsulectl install` from the generation of the operator's
key on, and the call it makes to the installer. The stream between them may break at any message,
and the installer goes on without the client.

* `KeySafe`: the operator has the private key of the bundle on the disk (`Held`).
* `Sound`: the condition on an event. The stream breaks only where it does no harm.
* `Underway`, `Inv`: how far the call is known to have got, against the disk and the client.
* `step_inv`: every event that is `Sound` keeps the invariant.
* `sealed_key_held`: so every state of such a session is `KeySafe`.
-/

namespace Capsule.Install

open Atomic Auth

/-- One entry of the client's configuration. -/
structure Context where
  addr : String
  capsuleID : String
  tlsFingerprint : String
  keyPath : String

structure Config where
  current : String
  contexts : String → Option Context

/-- What `runInstall` has settled when it comes to the key. -/
structure Args where
  noSeal : Bool
  target : String
  contextName : String
  installerAddr : String
  configDir : String

def Args.keyPath (args : Args) : String :=
  args.configDir ++ "/keys/" ++ args.contextName ++ ".ed25519"

def Args.request (ps : Params) (args : Args) (priv : Bytes) : InstallRequest :=
  ⟨args.target, ps.pub priv, args.contextName, !args.noSeal⟩

inductive Client where
  | start
  | keygen (cfg : Config)
  | opening (cfg : Config) (priv : Bytes)
  | receiving (cfg : Config) (result : Option Result)
  /-- The key is about to be removed, then the error returned. -/
  | removing (e : Err)
  | saving (cfg : Config) (result : Result)
  | returned (r : Except Err Unit)

/-- The installer: no call, a call that has not reached the handler, or what the handler has left
to do. -/
inductive Server where
  | idle
  | called (req : InstallRequest)
  | running (p : Code (Except Failure Unit))

structure Sys where
  client : Client
  config : Config
  /-- The files of the client that hold private keys. -/
  dir : String → Option Bytes
  server : Server
  host : Host

structure ClientEnv where
  fault : Option String := none
  priv : Bytes := []
  /-- A call that failed has reached the installer all the same. -/
  arrives : Bool := false

/-- The text of an error as the client sees it, without what gRPC puts around it. -/
def Failure.err : Failure → Err
  | .status st => .text st.msg
  | .send e => e

def generatePrivateKey (path : String) (e : ClientEnv) (dir : String → Option Bytes) :
    Except Err (Bytes × (String → Option Bytes)) :=
  if (dir path).isSome then .error (.text ("refusing to overwrite existing key at " ++ path))
  else
    match e.fault with
    | some m => .error (.text m)
    | none => .ok (e.priv, Function.update dir path (some e.priv))

/-- The loop over the stream, on what `Recv` returns. -/
def received (cfg : Config) (result : Option Result) :
    Received InstallProgress (Except Failure Unit) → Client
  | .msg m => .receiving cfg (m.result <|> result)
  | .failed => .removing ((Err.text "transport is closing").ctx "install stream")
  | .ended (.error x) => .removing (x.err.ctx "install stream")
  | .ended (.ok ()) =>
    match result with
    | none => .removing (.text "install completed without an InstallResult")
    | some r => .saving cfg r

/-- `runInstall` from `loadConfig` on. -/
def clientStep (ps : Params) (args : Args) (e : ClientEnv) (s : Sys) : Sys :=
  match s.client with
  | .start =>
    match e.fault, s.config.contexts args.contextName with
    | some m, _ => { s with client := .returned (.error (.text m)) }
    | none, some existing =>
      { s with client := .returned (.error (.text ("context " ++
          GoString.quote args.contextName ++ " already exists (addr=" ++ existing.addr ++
          "); pick another --name or `capsulectl context rm " ++ args.contextName ++ "`"))) }
    | none, none => { s with client := .keygen s.config }
  | .keygen cfg =>
    match generatePrivateKey args.keyPath e s.dir with
    | .error x => { s with client := .returned (.error x) }
    | .ok x => { s with client := .opening cfg x.1, dir := x.2 }
  | .opening cfg priv =>
    match e.fault with
    | some m =>
      { s with
        client := .removing ((Err.text m).ctx "install rpc")
        server := if e.arrives then .called (args.request ps priv) else s.server
        host := { s.host with stream := { broken := true } } }
    | none =>
      { s with
        client := .receiving cfg none
        server := .called (args.request ps priv)
        host := { s.host with stream := {} } }
  | .receiving cfg result =>
    match s.host.stream.recv with
    | none => s
    | some x =>
      { s with client := received cfg result x.1, host := { s.host with stream := x.2 } }
  | .removing x =>
    { s with
      client := .returned (.error x)
      dir := if e.fault = none then Function.update s.dir args.keyPath none else s.dir }
  | .saving cfg r =>
    match e.fault with
    | some m => { s with client := .returned (.error ((Err.text m).ctx "save config")) }
    | none =>
      { s with
        client := .returned (.ok ())
        config := ⟨args.contextName, Function.update cfg.contexts args.contextName
          (some ⟨args.installerAddr, r.capsuleID, r.tlsFingerprintSha256, args.keyPath⟩)⟩ }
  | .returned _ => s

/-- The installer's next step. -/
def serve (ps : Params) (c : InstallController) (e : Env) (v : Server) (h : Host) :
    Server × Host :=
  match v with
  | .idle => (.idle, h)
  | .called req => (.running (c.install ps req), h)
  | .running (.ret r) => (.running (.ret r), { h with stream := h.stream.finish r })
  | .running (.call o k) => (.running (k (sem o e h).2), (sem o e h).1)

inductive Event where
  | client (e : ClientEnv)
  | server (e : Env)
  /-- The stream breaks behind the first `kept` messages under way; a call that has not reached the
  handler may get there all the same. -/
  | cut (kept : Nat) (arrives : Bool)

def Server.cut (arrives : Bool) : Server → Server
  | .called req => if arrives then .called req else .idle
  | v => v

def step (ps : Params) (c : InstallController) (args : Args) (s : Sys) : Event → Sys
  | .client e => clientStep ps args e s
  | .server e =>
    let x := serve ps c e s.server s.host
    { s with server := x.1, host := x.2 }
  | .cut kept arrives =>
    { s with
      server := s.server.cut arrives
      host := { s.host with stream := s.host.stream.cut kept } }

/-- `firstboot.json` is there, with the operator's public key `P`. -/
def BundleFile.Names (ps : Params) (f : BundleFile) (P : Bytes) : Prop :=
  ∃ b, f = .whole b ∧ ps.codec.b64std b.operatorPubkey = some P

/-- The private key of `P` is in the client's key directory. -/
def Held (ps : Params) (dir : String → Option Bytes) (P : Bytes) : Prop :=
  ∃ path priv, dir path = some priv ∧ ps.pub priv = P

/-- The operator has the key that is sealed, and none is sealed against their will. -/
def KeySafe (ps : Params) (args : Args) (s : Sys) : Prop :=
  (∀ P, s.host.perm.Names ps P → Held ps s.dir P) ∧
    (args.noSeal = true → s.host.perm = .absent)

def Client.isOpening : Client → Bool
  | .opening _ _ => true
  | _ => false

def Client.isReceiving : Client → Bool
  | .receiving _ _ => true
  | _ => false

def Server.isCalled : Server → Bool
  | .called _ => true
  | _ => false

/-- The installer does nothing any more. -/
def Server.over : Server → Bool
  | .idle | .running (.ret _) => true
  | _ => false

/-- The next thing the installer does is to write `firstboot.json`. -/
def Server.writing : Server → Bool
  | .running (.call (.writeBundle _) _) => true
  | _ => false

def BundleFile.isWhole : BundleFile → Bool
  | .whole _ => true
  | _ => false

/-- A call that fails has not reached the installer; a write of the bundle that fails does not leave
one; and the stream breaks under a client that listens only when the installer is over without a
bundle, or never heard of the call. -/
def Sound (s : Sys) : Event → Prop
  | .client e => s.client.isOpening = true → e.fault ≠ none → e.arrives = false
  | .server e => s.server.writing = true → e.fault ≠ none → e.left ≠ .all
  | .cut _ arrives => s.client.isReceiving = true →
      (s.server.over = true ∧ s.host.perm.isWhole = false) ∨
        (s.server.isCalled = true ∧ arrives = false)

/-- How far the call with the key `P` is known to have got: the stage of the handler, against the
bundle on the disk and what the client has heard. `E` are the keys the client has in other files. -/
def Stage.Fits (ps : Params) (P : Bytes) (E : Bytes → Prop) (h : Host) (result : Option Result) :
    Stage → Prop
  | .before | .failed => ∀ Q, h.perm.Names ps Q → E Q
  | .written => ∀ Q, h.perm.Names ps Q → Q = P ∨ E Q
  | .told => (∀ Q, h.perm.Names ps Q → Q = P ∨ E Q) ∧
      (result.isSome = true ∨ ∃ m ∈ h.stream.queue, m.result.isSome = true)
  | .unheard => False

/-- A call the client listens to. -/
inductive Underway (ps : Params) (P : Bytes) (E : Bytes → Prop) :
    Server → Host → Option Result → Prop where
  /-- The installer is over and has sealed nothing. -/
  | settled {v : Server} {h : Host} {r : Option Result} (hover : v.over = true)
      (hperm : ∀ Q, h.perm.Names ps Q → E Q) : Underway ps P E v h r
  | called {req : InstallRequest} {h : Host} {r : Option Result} (hkey : req.operatorPubkey = P)
      (hstream : h.stream = {}) (hperm : ∀ Q, h.perm.Names ps Q → E Q) :
      Underway ps P E (.called req) h r
  | active {g : Stage} {p : Code (Except Failure Unit)} {h : Host} {r : Option Result}
      (hduty : p.Obeys (duty ps P) g) (hbroken : h.stream.broken = false)
      (hended : h.stream.ended = none) (hfits : g.Fits ps P E h r) :
      Underway ps P E (.running p) h r
  | finished {h : Host} {r : Option Result} (hbroken : h.stream.broken = false)
      (hended : ∀ t, h.stream.ended = some t → t = .ok ()) (hfits : Stage.told.Fits ps P E h r) :
      Underway ps P E (.running (.ret (.ok ()))) h r

section Call

variable {ps : Params} {P : Bytes} {E : Bytes → Prop} {v : Server} {h : Host} {r : Option Result}

theorem Stage.Fits.covered {g : Stage} (hg : g.Fits ps P E h r) {Q : Bytes}
    (hQ : h.perm.Names ps Q) : Q = P ∨ E Q := by
  cases g with
  | before | failed => exact .inr (hg Q hQ)
  | written => exact hg Q hQ
  | told => exact hg.1 Q hQ
  | unheard => exact hg.elim

theorem Underway.covered (hv : Underway ps P E v h r) {Q : Bytes} (hQ : h.perm.Names ps Q) :
    Q = P ∨ E Q := by
  cases hv with
  | settled _ hperm | called _ _ hperm => exact .inr (hperm Q hQ)
  | active _ _ _ hfits | finished _ _ hfits => exact hfits.covered hQ

theorem Stage.Fits.send {g : Stage} (hg : g.Fits ps P E h r) (hok : g = .before ∨ g = .failed ∨
    g = .written) (m : InstallProgress) :
    (g.afterSend m (.ok ())).Fits ps P E { h with stream := h.stream.send m } r := by
  simp only [Stage.afterSend]
  split
  · rcases hok with rfl | rfl | rfl <;> exact hg
  · rename_i hm
    refine ⟨fun Q hQ => hg.covered hQ, .inr ⟨m, by simp [Wire.send], ?_⟩⟩
    exact Option.isSome_iff_ne_none.mpr fun hnone => hm (by rw [hnone]; rfl)

theorem Stage.Fits.sem {g : Stage} {o : Op} {e : Env} (hok : (duty ps P).ok g o)
    (hg : g.Fits ps P E h r) (hbroken : h.stream.broken = false)
    (he : ∀ b, o = .writeBundle b → e.fault ≠ none → e.left ≠ .all) :
    ((duty ps P).next g o (sem o e h).2).Fits ps P E (sem o e h).1 r := by
  cases o with
  | send m =>
    have hsem : Install.sem (.send m) e h = ({ h with stream := h.stream.send m }, .ok ()) := by
      simp [Install.sem, hbroken]
    rw [hsem]
    cases g with
    | before => exact hg.send (.inl rfl) m
    | failed => exact hg.send (.inr (.inl rfl)) m
    | written => exact hg.send (.inr (.inr rfl)) m
    | told | unheard => exact hok.elim
  | writeBundle b =>
    cases g with
    | before =>
      simp only [Install.sem]
      cases hf : e.fault with
      | none => rintro Q ⟨b', ⟨⟩, hQ⟩; exact .inl (Option.some.inj (hQ.symm.trans hok))
      | some m =>
        have hleft := he b rfl (by simp [hf])
        cases hl : e.left with
        | nothing => exact hg
        | part => rintro Q ⟨b', hb', -⟩; cases hb'
        | all => exact absurd hl hleft
    | failed | written => cases hok
    | told | unheard => exact hok.elim
  | initTargetLVM dev =>
    cases g with
    | before =>
      have habsent : ∀ Q, BundleFile.absent.Names ps Q → E Q := by
        rintro Q ⟨b, hb, -⟩; cases hb
      simp only [Install.sem]
      cases e.fault with
      | none => exact habsent
      | some m =>
        cases e.kept with
        | false => exact habsent
        | true => exact hg
    | failed | written => cases hok
    | told | unheard => exact hok.elim
  | _ =>
    cases g with
    | told | unheard => exact hok.elim
    | before | failed | written => exact hg

theorem sem_stream (o : Op) (e : Env) (hbroken : h.stream.broken = false)
    (hended : h.stream.ended = none) :
    (sem o e h).1.stream.broken = false ∧ (sem o e h).1.stream.ended = none := by
  cases o with
  | send m => simp only [sem, hbroken]; exact ⟨hbroken, hended⟩
  | _ =>
    simp only [sem]
    repeat' split
    all_goals exact ⟨hbroken, hended⟩

theorem Underway.serve (c : InstallController) (hv : Underway ps P E v h r) {e : Env}
    (he : v.writing = true → e.fault ≠ none → e.left ≠ .all) :
    Underway ps P E (serve ps c e v h).1 (serve ps c e v h).2 r := by
  cases hv with
  | settled hover hperm =>
    cases v with
    | idle => exact .settled rfl hperm
    | called req => cases hover
    | running p =>
      cases p with
      | ret a => exact .settled rfl hperm
      | call o k => cases hover
  | called hkey hstream hperm =>
    refine .active (g := .before) (hkey ▸ install_duty ps c _) ?_ ?_ hperm
    · rw [Install.serve, hstream]
    · rw [Install.serve, hstream]
  | @active g p _ _ hduty hbroken hended hfits =>
    cases p with
    | call o k =>
      have hstream := sem_stream o e hbroken hended
      refine .active (hduty.2 _) hstream.1 hstream.2 (hfits.sem hduty.1 hbroken ?_)
      rintro b rfl
      exact he rfl
    | ret a =>
      -- the handler returns, and the stream learns how
      cases g with
      | before | failed => exact .settled rfl hfits
      | written => exact hduty.elim
      | told =>
        obtain rfl : a = .ok () := hduty
        refine .finished hbroken ?_ hfits
        rintro t ⟨⟩
        rfl
      | unheard => exact hfits.elim
  | finished hbroken hended hfits =>
    refine .finished hbroken ?_ hfits
    rintro t ⟨⟩
    rfl

theorem Server.cut_over {v : Server} (hv : v.over = true) (arrives : Bool) : v.cut arrives = v := by
  cases v with
  | called req => cases hv
  | idle | running p => rfl

theorem Underway.cut (hv : Underway ps P E v h r) {arrives : Bool} (kept : Nat)
    (hcut : (v.over = true ∧ h.perm.isWhole = false) ∨ (v.isCalled = true ∧ arrives = false)) :
    Underway ps P E (v.cut arrives) { h with stream := h.stream.cut kept } r := by
  rcases hcut with ⟨hover, hwhole⟩ | ⟨hcalled, rfl⟩
  · rw [Server.cut_over hover]
    refine .settled hover ?_
    rintro Q ⟨b, hb, -⟩
    change h.perm = .whole b at hb
    rw [hb] at hwhole
    cases hwhole
  · cases hv with
    | called hkey hstream hperm => exact .settled rfl hperm
    | settled hover hperm =>
      cases v with
      | called req => cases hover
      | idle | running p => cases hcalled
    | active | finished => cases hcalled

theorem Underway.msg (hv : Underway ps P E v h r) {m : InstallProgress} {q : List InstallProgress}
    (hq : h.stream.queue = m :: q) :
    Underway ps P E v { h with stream := { h.stream with queue := q } } (m.result <|> r) := by
  have hresult : ∀ g : Stage, g.Fits ps P E h r →
      g.Fits ps P E { h with stream := { h.stream with queue := q } } (m.result <|> r) := by
    intro g hg
    cases g with
    | told =>
      refine ⟨hg.1, ?_⟩
      rcases hg.2 with hr | ⟨m', hm', hsome⟩
      · left; cases m.result <;> simp [hr]
      · rw [hq] at hm'
        rcases List.mem_cons.mp hm' with rfl | hm'
        · left
          cases hres : m'.result with
          | none => rw [hres] at hsome; cases hsome
          | some x => rfl
        · exact .inr ⟨m', hm', hsome⟩
    | _ => exact hg
  cases hv with
  | settled hover hperm => exact .settled hover hperm
  | called hkey hstream hperm => rw [hstream] at hq; cases hq
  | active hduty hbroken hended hfits => exact .active hduty hbroken hended (hresult _ hfits)
  | finished hbroken hended hfits => exact .finished hbroken hended (hresult _ hfits)

theorem Underway.unsealed (hv : Underway ps P E v h r) (hq : h.stream.queue = [])
    (hend : h.stream.broken = true ∨ ∃ t, h.stream.ended = some t ∧ (t = .ok () → r = none)) :
    v.over = true ∧ ∀ Q, h.perm.Names ps Q → E Q := by
  cases hv with
  | settled hover hperm => exact ⟨hover, hperm⟩
  | called hkey hstream hperm =>
    rw [hstream] at hend
    rcases hend with hb | ⟨t, ht, -⟩
    · cases hb
    · cases ht
  | active hduty hbroken hended hfits =>
    rcases hend with hb | ⟨t, ht, -⟩
    · rw [hbroken] at hb; cases hb
    · rw [hended] at ht; cases ht
  | finished hbroken hended hfits =>
    rcases hend with hb | ⟨t, ht, hnone⟩
    · rw [hbroken] at hb; cases hb
    · -- the result was sent, so it has been heard
      rcases hfits.2 with hr | ⟨m, hm, -⟩
      · rw [hnone (hended t ht)] at hr; cases hr
      · rw [hq] at hm; cases hm

theorem Underway.over (hv : Underway ps P E v h r) {t : Except Failure Unit}
    (ht : h.stream.ended = some t) : v.over = true := by
  cases hv with
  | settled hover hperm => exact hover
  | called hkey hstream hperm => rw [hstream] at ht; cases ht
  | active hduty hbroken hended hfits => rw [hended] at ht; cases ht
  | finished => rfl

end Call

/-- The private key of `P` is in another file than the one the client is about to write. -/
def Elsewhere (ps : Params) (args : Args) (dir : String → Option Bytes) (P : Bytes) : Prop :=
  ∃ path priv, path ≠ args.keyPath ∧ dir path = some priv ∧ ps.pub priv = P

/-- What holds between the steps of a session, by where the client is. -/
def Inv (ps : Params) (args : Args) (s : Sys) : Prop :=
  match s.client with
  | .start | .keygen _ => s.server = .idle ∧ ∀ P, s.host.perm.Names ps P → Held ps s.dir P
  | .opening _ priv => s.server = .idle ∧ s.dir args.keyPath = some priv ∧
      ∀ P, s.host.perm.Names ps P → Elsewhere ps args s.dir P
  | .receiving _ result => ∃ priv, s.dir args.keyPath = some priv ∧
      Underway ps (ps.pub priv) (Elsewhere ps args s.dir) s.server s.host result
  | .removing _ => s.server.over = true ∧
      ∀ P, s.host.perm.Names ps P → Elsewhere ps args s.dir P
  | .saving _ _ | .returned _ => s.server.over = true ∧
      ∀ P, s.host.perm.Names ps P → Held ps s.dir P

section Session

variable {ps : Params} {c : InstallController} {args : Args} {s : Sys}

theorem Elsewhere.held {dir : String → Option Bytes} {P : Bytes} (h : Elsewhere ps args dir P) :
    Held ps dir P := by
  obtain ⟨path, priv, -, hdir, hpub⟩ := h
  exact ⟨path, priv, hdir, hpub⟩

theorem Elsewhere.update {dir : String → Option Bytes} {P : Bytes} (h : Elsewhere ps args dir P)
    (x : Option Bytes) : Elsewhere ps args (Function.update dir args.keyPath x) P := by
  obtain ⟨path, priv, hne, hdir, hpub⟩ := h
  exact ⟨path, priv, hne, by rw [Function.update_of_ne hne, hdir], hpub⟩

theorem Inv.held (hs : Inv ps args s) {P : Bytes} (hP : s.host.perm.Names ps P) :
    Held ps s.dir P := by
  unfold Inv at hs
  cases hc : s.client with
  | start | keygen | saving | returned => rw [hc] at hs; exact hs.2 P hP
  | opening cfg priv => rw [hc] at hs; exact (hs.2.2 P hP).held
  | removing e => rw [hc] at hs; exact (hs.2 P hP).held
  | receiving cfg result =>
    rw [hc] at hs
    obtain ⟨priv, hdir, hv⟩ := hs
    rcases hv.covered hP with rfl | hE
    · exact ⟨args.keyPath, priv, hdir, rfl⟩
    · exact hE.held

theorem received_inv {cfg : Config} {result : Option Result} {priv : Bytes}
    (hdir : s.dir args.keyPath = some priv)
    (hv : Underway ps (ps.pub priv) (Elsewhere ps args s.dir) s.server s.host result)
    {x : Received InstallProgress (Except Failure Unit)}
    {w : Wire InstallProgress (Except Failure Unit)} (hrecv : s.host.stream.recv = some (x, w)) :
    Inv ps args
      { s with client := received cfg result x, host := { s.host with stream := w } } := by
  rcases Wire.recv_cases hrecv with ⟨m, q, rfl, hq, rfl⟩ | ⟨rfl, hq, hbroken, rfl⟩ |
    ⟨t, rfl, hq, hbroken, hended, rfl⟩
  · exact ⟨priv, hdir, hv.msg hq⟩
  · exact hv.unsealed hq (.inl hbroken)
  · cases t with
    | error x => exact hv.unsealed hq (.inr ⟨_, hended, fun h => by cases h⟩)
    | ok _ =>
      cases result with
      | none => exact hv.unsealed hq (.inr ⟨_, hended, fun _ => rfl⟩)
      | some r =>
        refine ⟨hv.over hended, fun P hP => ?_⟩
        rcases hv.covered hP with rfl | hE
        · exact ⟨args.keyPath, priv, hdir, rfl⟩
        · exact hE.held

theorem keygen_inv {cfg : Config} {e : ClientEnv} (hserver : s.server = .idle)
    (hheld : ∀ P, s.host.perm.Names ps P → Held ps s.dir P) {priv : Bytes}
    {dir : String → Option Bytes}
    (hgen : generatePrivateKey args.keyPath e s.dir = .ok (priv, dir)) :
    Inv ps args { s with client := .opening cfg priv, dir := dir } := by
  unfold generatePrivateKey at hgen
  split at hgen
  · cases hgen
  rename_i hfree
  split at hgen
  · cases hgen
  cases hgen
  refine ⟨hserver, Function.update_self .., fun P hP => ?_⟩
  obtain ⟨path, priv, hdir, hpub⟩ := hheld P hP
  have hne : path ≠ args.keyPath := by
    rintro rfl; rw [hdir] at hfree; exact hfree rfl
  have helse : Elsewhere ps args s.dir P := ⟨path, priv, hne, hdir, hpub⟩
  exact helse.update _

theorem clientStep_inv (hs : Inv ps args s) {e : ClientEnv}
    (he : s.client.isOpening = true → e.fault ≠ none → e.arrives = false) :
    Inv ps args (clientStep ps args e s) := by
  have hheld : ∀ P, s.host.perm.Names ps P → Held ps s.dir P := fun P hP => hs.held hP
  unfold clientStep
  unfold Inv at hs
  cases hc : s.client with
  | start =>
    rw [hc] at hs
    dsimp only
    split
    · exact ⟨by rw [hs.1]; rfl, hheld⟩
    · exact ⟨by rw [hs.1]; rfl, hheld⟩
    · exact hs
  | keygen cfg =>
    rw [hc] at hs
    dsimp only
    cases hgen : generatePrivateKey args.keyPath e s.dir with
    | error x => exact ⟨by rw [hs.1]; rfl, hheld⟩
    | ok x => exact keygen_inv hs.1 hheld hgen
  | opening cfg priv =>
    rw [hc] at hs he
    obtain ⟨hserver, hdir, helse⟩ := hs
    dsimp only
    cases hf : e.fault with
    | some m =>
      refine ⟨?_, helse⟩
      simp only [he rfl (by simp [hf]), hserver]
      rfl
    | none => exact ⟨priv, hdir, .called rfl rfl helse⟩
  | receiving cfg result =>
    rw [hc] at hs
    obtain ⟨priv, hdir, hv⟩ := hs
    dsimp only
    cases hrecv : s.host.stream.recv with
    | none => unfold Inv; rw [hc]; exact ⟨priv, hdir, hv⟩
    | some x => exact received_inv hdir hv hrecv
  | removing x =>
    rw [hc] at hs
    refine ⟨hs.1, fun P hP => ?_⟩
    have helse := hs.2 P hP
    dsimp only
    split
    · exact (helse.update none).held
    · exact helse.held
  | saving cfg r => rw [hc] at hs; dsimp only; cases e.fault <;> exact hs
  | returned r =>
    rw [hc] at hs
    unfold Inv
    rw [hc]
    exact hs

theorem serve_over (ps : Params) (c : InstallController) {v : Server} (hv : v.over = true)
    (e : Env) (h : Host) :
    (serve ps c e v h).1 = v ∧ (serve ps c e v h).2.perm = h.perm := by
  cases v with
  | idle => exact ⟨rfl, rfl⟩
  | called req => cases hv
  | running p =>
    cases p with
    | ret r => exact ⟨rfl, rfl⟩
    | call o k => cases hv

theorem Inv.deaf (hs : Inv ps args s) (hclient : s.client.isReceiving = false) :
    s.server.over = true ∧
      ∀ h : Host, h.perm = s.host.perm → Inv ps args { s with host := h } := by
  unfold Inv at hs ⊢
  dsimp only
  cases hc : s.client with
  | receiving cfg result => rw [hc] at hclient; cases hclient
  | start | keygen | opening =>
    rw [hc] at hs
    refine ⟨by rw [hs.1]; rfl, fun h hperm => ?_⟩
    rw [hperm]
    exact hs
  | removing | saving | returned =>
    rw [hc] at hs
    refine ⟨hs.1, fun h hperm => ?_⟩
    rw [hperm]
    exact hs

theorem Inv.listening (hs : Inv ps args s) (hclient : s.client.isReceiving = true) {v : Server}
    {h : Host} (hkeep : ∀ P E r, Underway ps P E s.server s.host r → Underway ps P E v h r) :
    Inv ps args { s with server := v, host := h } := by
  unfold Inv at hs ⊢
  dsimp only
  cases hc : s.client with
  | receiving cfg result =>
    rw [hc] at hs; obtain ⟨priv, hdir, hv⟩ := hs; exact ⟨priv, hdir, hkeep _ _ _ hv⟩
  | _ => rw [hc] at hclient; cases hclient

theorem step_inv (hs : Inv ps args s) {ev : Event} (hev : Sound s ev) :
    Inv ps args (step ps c args s ev) := by
  cases ev with
  | client e => exact clientStep_inv hs hev
  | server e =>
    cases hc : s.client.isReceiving with
    | true => exact hs.listening hc fun P E r hv => hv.serve c hev
    | false =>
      obtain ⟨hover, hhost⟩ := hs.deaf hc
      obtain ⟨hserver, hperm⟩ := serve_over ps c hover e s.host
      rw [step, hserver]
      exact hhost _ hperm
  | cut kept arrives =>
    cases hc : s.client.isReceiving with
    | true => exact hs.listening hc fun P E r hv => hv.cut kept (hev hc)
    | false =>
      obtain ⟨hover, hhost⟩ := hs.deaf hc
      rw [step, Server.cut_over hover]
      exact hhost _ rfl

end Session

/-- In every state of such a session the operator has the key that is sealed. -/
theorem sealed_key_held (ps : Params) (c : InstallController) (args : Args) (s : Sys)
    (hclient : s.client = .start) (hserver : s.server = .idle) (hs : KeySafe ps args s)
    (hseal : args.noSeal = false) (w : List Event) (hw : Along (step ps c args) Sound s w) :
    KeySafe ps args (w.foldl (step ps c args) s) := by
  have hstart : Inv ps args s := by
    unfold Inv; rw [hclient]; exact ⟨hserver, hs.1⟩
  have hend := hw.invariant (fun _ _ h hev => step_inv h hev) hstart
  refine ⟨fun P hP => hend.held hP, fun hno => ?_⟩
  rw [hseal] at hno
  cases hno

/-! ## A session that goes well, and two that do not -/

/-- Every coding is one character for each byte, and a key is its own public key. -/
def plainParams : Params where
  codec :=
    { b64url := fun _ => none
      b64urlEncode := fun _ => ""
      b64std := fun s => some (GoString.toBytes s)
      headerJSON := fun _ => none
      claimsJSON := fun _ => none
      bundleJSON := fun _ => none
      sha256 := fun _ => []
      ed25519Verify := fun _ _ _ => false
      uuidHead := fun _ => none }
  b64stdEncode := GoString.ofBytes
  b64std_encode x := congrArg some (GoString.toBytes_ofBytes x)
  certPEM := GoString.ofBytes
  certBlock s := some (GoString.toBytes s)
  certBlock_certPEM x := congrArg some (GoString.toBytes_ofBytes x)
  keyPEM := GoString.ofBytes
  fingerprintRaw := GoString.ofBytes
  pub := id

/-- An installer on `/dev/sda`, with one disk of 16 GiB. -/
def oneDisk : InstallController := ⟨"/dev/sda", [⟨"/dev/nvme0n1", 17179869184⟩]⟩

def installNuc (noSeal : Bool) : Args :=
  ⟨noSeal, "/dev/nvme0n1", "nuc-1", "192.0.2.7:50000", "/home/ann/.config/capsule"⟩

/-- Nothing is on the disk and the client has no key. -/
def unsealedDisk : Sys where
  client := .start
  config := ⟨"", fun _ => none⟩
  dir := fun _ => none
  server := .idle
  host := ⟨.absent, {}⟩

theorem unsealedDisk_safe (args : Args) : KeySafe plainParams args unsealedDisk := by
  refine ⟨?_, fun _ => rfl⟩
  rintro P ⟨b, hb, -⟩
  cases hb

def calling : List Event := List.replicate 3 (.client { priv := List.replicate 32 7 })

/-- The installer to its end: the sources of the copies are empty. -/
def installing : List Event := List.replicate 60 (.server { read := .eof 0 })

def listening : List Event := List.replicate 40 (.client {})

def Sys.final (s : Sys) : Bool :=
  match s.client with
  | .returned _ => s.server.over
  | _ => false

/-- Nothing fails and the stream holds. -/
def smoothly (noSeal : Bool) : Sys :=
  (calling ++ installing ++ listening).foldl (step plainParams oneDisk (installNuc noSeal))
    unsealedDisk

theorem smoothly_sound (s : Sys) : ∀ ev ∈ calling ++ installing ++ listening, Sound s ev := by
  intro ev hev
  simp only [calling, installing, listening, List.mem_append, List.mem_replicate] at hev
  rcases hev with (⟨-, rfl⟩ | ⟨-, rfl⟩) | ⟨-, rfl⟩
  all_goals exact fun _ h => absurd rfl h

theorem sealed_key_held_nuc :
    (smoothly false).final = true ∧ (smoothly false).host.perm.isWhole = true ∧
      KeySafe plainParams (installNuc false) (smoothly false) :=
  ⟨by decide +kernel, by decide +kernel,
    sealed_key_held plainParams oneDisk (installNuc false) unsealedDisk rfl rfl
      (unsealedDisk_safe _) rfl _ (along_of_forall smoothly_sound _)⟩

/-- The stream breaks before the client has heard anything: it deletes its key and returns, and the
installer goes on. -/
def breakingOff : List Event :=
  calling ++ [.server {}, .cut 0 true, .client {}, .client {}] ++ installing

def brokenOff : Sys :=
  breakingOff.foldl (step plainParams oneDisk (installNuc false)) unsealedDisk

theorem brokenOff_sealed : brokenOff.host.perm.Names plainParams (List.replicate 32 7) :=
  ⟨⟨"", "", GoString.ofBytes [], GoString.ofBytes [], GoString.ofBytes (List.replicate 32 7),
    "nuc-1"⟩, rfl, plainParams.b64std_encode _⟩

theorem brokenOff_dir (path : String) : brokenOff.dir path = none := by
  let keyPath := (installNuc false).keyPath
  have hdir : brokenOff.dir = Function.update (Function.update (fun _ => none) keyPath
      (some (List.replicate 32 7))) keyPath none := rfl
  rw [hdir, Function.update_idem]
  exact congrFun (Function.update_eq_self _ _) path

/-- A client without a key and a disk sealed for it; and a sealed disk for an operator who asked for
none. -/
theorem sealed_without_key :
    (¬ ∀ (ps : Params) (c : InstallController) (args : Args) (s : Sys) (w : List Event),
      s.client = .start → s.server = .idle → KeySafe ps args s → args.noSeal = false →
      (w.foldl (step ps c args) s).final = true → KeySafe ps args (w.foldl (step ps c args) s)) ∧
    ¬ ∀ (ps : Params) (c : InstallController) (args : Args) (s : Sys) (w : List Event),
      s.client = .start → s.server = .idle → KeySafe ps args s → Along (step ps c args) Sound s w →
      (w.foldl (step ps c args) s).final = true →
        KeySafe ps args (w.foldl (step ps c args) s) := by
  refine ⟨fun hall => ?_, fun hall => ?_⟩
  · have hsafe : KeySafe plainParams (installNuc false) brokenOff :=
      hall plainParams oneDisk (installNuc false) unsealedDisk _ rfl rfl (unsealedDisk_safe _) rfl
        (by decide +kernel)
    obtain ⟨path, priv, hdir, -⟩ := hsafe.1 _ brokenOff_sealed
    rw [brokenOff_dir] at hdir
    cases hdir
  · have hsafe : KeySafe plainParams (installNuc true) (smoothly true) :=
      hall plainParams oneDisk (installNuc true) unsealedDisk _ rfl rfl (unsealedDisk_safe _)
        (along_of_forall smoothly_sound _) (by decide +kernel)
    have habsent := hsafe.2 rfl
    have hwhole : (smoothly true).host.perm.isWhole = true := by decide +kernel
    rw [habsent] at hwhole
    cases hwhole

end Capsule.Install
