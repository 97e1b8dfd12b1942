import Capsule.Identity.Startup

/-!
# Capsule.Identity.Serve

`main` of capsuled from the stores to `router.Serve`, with its log and its nil dereferences: `Main`
is code that logs and may panic at an expression.

* `Ends`, `Panics`: how such code comes out; each part of `main` has a lemma (`logState_ends`,
  `installSetup_ends`, `wire_ends`, `wire_panics`, ..).
* `ensureIdentity_ok_iff`: when the store answers `ensureIdentity`.
* `serve_reached_iff`: `main` gets to `router.Serve`, and serves no changes without an identity,
  exactly then.
-/

namespace Capsule.Identity

open Atomic Auth

/-- Code of `main`: it logs, and an error is the expression it panics at. -/
abbrev Main := ExceptT String (StateM (List String))

/-- `if err != nil { slog.Error(msg, "err", err) }`. -/
def logError {α : Type} (msg : String) : Except Err α → Main Unit
  | .ok _ => pure ()
  | .error _ => modify (· ++ [msg])

/-- A field of `identity`, with no check for nil. -/
def readField (expr : String) (identity : Option CapsuleIdentity)
    (field : CapsuleIdentity → String) : Main String :=
  match identity with
  | none => throw expr
  | some id => pure (field id)

def fingerprintRaw (c : Codec) (raw : Bytes) : String :=
  GoString.ofBytes ((c.sha256 raw).flatMap GoString.hexByte)

/-- Of a `tls.Certificate`, the DER chain. -/
def leafFingerprint (c : Codec) : List Bytes → Except Err String
  | [] => .error (.text "auth: empty certificate chain")
  | leaf :: _ => .ok (fingerprintRaw c leaf)

/-- What the calls from `OnStartup` on answer. -/
structure Wiring where
  onStartup : Except Err Unit
  loadOrGenerate : String → Except Err (List Bytes)
  announce : Except Err Unit
  bootDisk : Except Err String

/-- What the install controller is given of the identity. -/
structure InstallSetup where
  shortID : String
  capsuleID : String
  usbBootDisk : String

/-- `router.Config`, with the store behind it. -/
structure Config where
  store : State
  tlsCert : List Bytes
  auth : Authenticator
  window : Bool
  shortID : String
  identity : Controller
  install : Option InstallSetup

/-- `router.Serve` before it listens. The controllers and the authenticator are never nil. -/
def Config.check (cfg : Config) : Except Err Unit :=
  if cfg.tlsCert = [] then .error (.text "router: missing TLSCert") else .ok ()

namespace Startup

variable (c : Codec) (s : Startup) (w : Wiring)

/-- The announcer; with none wired the discovery degrades. -/
def announcer (identity : Option CapsuleIdentity) : Main Bool :=
  match identity with
  | none => pure false
  | some id =>
    if id.shortID = "" then pure false
    else do
      logError "mDNS announce failed; discovery degrades to --addr only" w.announce
      return w.announce.toBool

def installSetup (identity : Option CapsuleIdentity) : Main (Option InstallSetup) :=
  if s.installerMode then
    match w.bootDisk with
    | .error e => do
      logError "installer mode but cannot resolve USB boot disk" (.error e : Except Err String)
      return none
    | .ok usbDisk => do
      let shortID ← readField "identity.ShortID" identity (·.shortID)
      let capsuleID ← readField "identity.CapsuleID" identity (·.capsuleID)
      return some ⟨shortID, capsuleID, usbDisk⟩
  else return none

/-- The line on the state of the claim window. All three have the `capsule_id`. -/
def logState (claim : Bool) (identity : Option CapsuleIdentity) : Main Unit := do
  let msg :=
    if s.stateBroken then
      "capsule state UNREADABLE — claim window NOT opened; restore /perm or use RESET_AUTH"
    else if claim then "claim window OPEN — first capsulectl adopt within 30m0s wins"
    else "capsule adopted"
  let capsuleID ← readField "identity.CapsuleID" identity (·.capsuleID)
  modify (· ++ [msg ++ " capsule_id=" ++ capsuleID])

/-- From `ensureIdentity`'s result to `router.Serve`. -/
def wire (st : State) (identity : Option CapsuleIdentity) : Main Config := do
  let shortID := match identity with
    | none => ""
    | some id => id.shortID
  let loaded := w.loadOrGenerate (← readField "identity.CapsuleID" identity (·.capsuleID))
  logError "TLS keypair load/generate failed" loaded
  -- with the error comes an empty certificate
  let tlsCert := loaded.toOption.getD []
  let tlsFingerprint := (leafFingerprint c tlsCert).toOption.getD ""
  let claim := newClaimWindow (s.claimSeed st)
  s.logState claim identity
  let capsuleID ← readField "identity.CapsuleID" identity (·.capsuleID)
  let mdns ← announcer w identity
  let install ← s.installSetup w identity
  let authn : Authenticator := ⟨capsuleID, s.installerMode⟩
  return ⟨st, tlsCert, authn, claim, shortID, ⟨tlsFingerprint, mdns⟩, install⟩

/-- The stores once `IngestFirstBoot` and `ensureIdentity` have run, and what they returned;
`none` when power is lost on the way. -/
def loaded (d : Disk) : Option (State × Except Err Unit × Except Err CapsuleIdentity) :=
  let (d, up) := s.resetAuth d
  if up then do
    let ing := s.ingested c d
    let ingest ← ing.val
    let ens := (ensureIdentity c).exec sem s.ensure ing.st
    let identity ← ens.val
    return (ens.st, ingest, identity)
  else none

def startUpdates : Main Unit :=
  if s.activeSlot ≠ none then logError "update OnStartup failed" w.onStartup else pure ()

/-- `main` once the stores are loaded. -/
def up (st : State) (ingest : Except Err Unit) (identity : Except Err CapsuleIdentity) :
    Main Config := do
  logError "firstboot ingest failed; falling back to claim-window path" ingest
  s.startUpdates w
  logError "ensure identity failed; capsule will refuse all RPCs" identity
  s.wire c w st identity.toOption

end Startup

/-- A startup: what `ensureIdentity` returned, the configuration `router.Serve` is called with or
the expression `main` panics at, and what is in the log. -/
structure Launch where
  identity : Except Err CapsuleIdentity
  out : Except String Config
  log : List String

def Startup.launch (c : Codec) (s : Startup) (w : Wiring) (d : Disk) : Option Launch :=
  match s.loaded c d with
  | none => none
  | some (st, ingest, identity) =>
    let (out, log) := (s.up c w st ingest identity).run.run []
    some ⟨identity, out, log⟩

/-- The methods of the other services that change workloads, volumes or the OS. -/
def changingMethods : List String :=
  ["/capsule.v1.WorkloadService/Apply", "/capsule.v1.WorkloadService/Delete",
    "/capsule.v1.WorkloadService/Exec", "/capsule.v1.WorkloadService/Restart",
    "/capsule.v1.WorkloadService/Stop", "/capsule.v1.WorkloadService/Start",
    "/capsule.v1.WorkloadService/CopyTo", "/capsule.v1.VolumeService/Create",
    "/capsule.v1.VolumeService/Delete", "/capsule.v1.VolumeService/Resize",
    "/capsule.v1.CapsuleService/UpdateOS", "/capsule.v1.CapsuleService/UpdateConfirm",
    "/capsule.v1.InstallService/Install"]

def Request.Changes : Request → Prop
  | .adopt _ _ => True
  | .keyAdd _ _ => True
  | .keyRemove _ => True
  | .other m => m ∈ changingMethods
  | .whoAmI => False
  | .keyList => False

/-- No RPC that changes anything goes through. -/
def Config.RefusesChanges (c : Codec) (cfg : Config) : Prop :=
  cfg.check = .ok () → ∀ (md : List Bytes) (req : Request), req.Changes → ∀ es : Nat → Env,
    ∃ status, ((rpc c cfg.identity cfg.auth md req).complete sem es cfg.store).2 = .error status

/-- `main` gets to `router.Serve`, and does not serve changes without an identity. -/
def Launch.Survives (c : Codec) (l : Launch) : Prop :=
  ∃ cfg, l.out = .ok cfg ∧ (l.identity.toOption = none → cfg.RefusesChanges c)

namespace Main

variable {α β : Type} {P : α → Prop} {Q : β → Prop}

/-- The code comes to its end with a value of `Q`, whatever is in the log. -/
def Ends (Q : α → Prop) (p : Main α) : Prop :=
  ∀ log, ∃ a log', p.run.run log = (.ok a, log') ∧ Q a

def Panics (p : Main α) : Prop := ∀ log, ∃ expr log', p.run.run log = (.error expr, log')

theorem ends_pure {a : α} (h : P a) : Ends P (pure a) := fun log => ⟨a, log, rfl, h⟩

theorem run_bind {p : Main α} {f : α → Main β} {log log' : List String} {a : α}
    (h : p.run.run log = (.ok a, log')) : (p >>= f).run.run log = (f a).run.run log' := by
  simp only [ExceptT.run_bind, StateT.run_bind, h]
  rfl

theorem Ends.bind {p : Main α} {f : α → Main β} (hp : Ends P p) (hf : ∀ a, P a → Ends Q (f a)) :
    Ends Q (p >>= f) := by
  intro log
  obtain ⟨a, log', h, ha⟩ := hp log
  rw [run_bind h]
  exact hf a ha log'

theorem Ends.bind_panics {p : Main α} {f : α → Main β} (hp : Ends P p)
    (hf : ∀ a, P a → Panics (f a)) : Panics (p >>= f) := by
  intro log
  obtain ⟨a, log', h, ha⟩ := hp log
  rw [run_bind h]
  exact hf a ha log'

theorem logError_ends (msg : String) (r : Except Err α) :
    Ends (fun _ => True) (logError msg r) := by
  cases r with
  | ok a => exact ends_pure trivial
  | error e => exact fun log => ⟨(), log ++ [msg], rfl, trivial⟩

theorem readField_ends (expr : String) (id : CapsuleIdentity) (field : CapsuleIdentity → String) :
    Ends (· = field id) (readField expr (some id) field) :=
  ends_pure rfl

end Main

namespace Startup

open Main

variable {c : Codec} {s : Startup} {w : Wiring} {d : Disk} {st : State}

theorem logState_ends (claim : Bool) (id : CapsuleIdentity) :
    Ends (fun _ => True) (s.logState claim (some id)) :=
  (readField_ends _ id _).bind fun _ _ _ => ⟨(), _, rfl, trivial⟩

theorem announcer_ends (id : CapsuleIdentity) : Ends (fun _ => True) (announcer w (some id)) := by
  unfold announcer
  dsimp only
  split
  · exact ends_pure trivial
  · exact (logError_ends _ _).bind fun _ _ => ends_pure trivial

theorem installSetup_ends (id : CapsuleIdentity) :
    Ends (fun _ => True) (s.installSetup w (some id)) := by
  unfold installSetup
  split
  · cases w.bootDisk with
    | error e => exact (logError_ends _ _).bind fun _ _ => ends_pure trivial
    | ok usbDisk =>
      exact (readField_ends _ id _).bind fun _ _ => (readField_ends _ id _).bind fun _ _ =>
        ends_pure trivial
  · exact ends_pure trivial

theorem startUpdates_ends : Ends (fun _ => True) (s.startUpdates w) := by
  unfold startUpdates
  split
  · exact logError_ends _ _
  · exact ends_pure trivial

/-- What the server is given of the stores and the identity. -/
def Wired (s : Startup) (st : State) (id : CapsuleIdentity) (cfg : Config) : Prop :=
  cfg.store = st ∧ cfg.auth = ⟨id.capsuleID, s.installerMode⟩ ∧
    cfg.window = newClaimWindow (s.claimSeed st)

theorem wire_ends (id : CapsuleIdentity) : Ends (Wired s st id) (s.wire c w st (some id)) := by
  refine (readField_ends _ id _).bind fun _ _ => (logError_ends _ _).bind fun _ _ => ?_
  refine (logState_ends _ id).bind fun _ _ => (readField_ends _ id _).bind fun _ hid => ?_
  refine (announcer_ends id).bind fun _ _ => (installSetup_ends id).bind fun _ _ => ?_
  exact ends_pure ⟨rfl, by rw [hid], rfl⟩

theorem wire_panics : Panics (s.wire c w st none) := fun log => ⟨"identity.CapsuleID", log, rfl⟩

theorem up_ends (c : Codec) (s : Startup) (w : Wiring) (st : State) (ingest : Except Err Unit)
    (id : CapsuleIdentity) : Ends (Wired s st id) (s.up c w st ingest (.ok id)) :=
  (logError_ends _ _).bind fun _ _ => startUpdates_ends.bind fun _ _ =>
    (logError_ends _ _).bind fun _ _ => wire_ends id

theorem up_panics (c : Codec) (s : Startup) (w : Wiring) (st : State) (ingest : Except Err Unit)
    (e : Err) : Panics (s.up c w st ingest (.error e)) :=
  (logError_ends _ _).bind_panics fun _ _ => startUpdates_ends.bind_panics fun _ _ =>
    (logError_ends _ _).bind_panics fun _ _ => wire_panics

theorem launch_cases {l : Launch} (h : s.launch c w d = some l) :
    (∃ st ingest id cfg, s.loaded c d = some (st, ingest, .ok id) ∧ l.identity = .ok id ∧
      l.out = .ok cfg ∧ Wired s st id cfg) ∨
    ∃ e expr, l.identity = .error e ∧ l.out = .error expr := by
  unfold launch at h
  split at h
  · cases h
  · rename_i st ingest identity hloaded
    cases h
    cases identity with
    | ok id =>
      obtain ⟨cfg, log, hrun, hwired⟩ := up_ends c s w st ingest id []
      exact .inl ⟨st, ingest, id, cfg, hloaded, rfl, congrArg Prod.fst hrun, hwired⟩
    | error e =>
      obtain ⟨expr, log, hrun⟩ := up_panics c s w st ingest e []
      exact .inr ⟨e, expr, rfl, congrArg Prod.fst hrun⟩

/-- The identity row that `ensureIdentity` is called over. -/
def identityRow (c : Codec) (s : Startup) (d : Disk) : Option CapsuleIdentity :=
  (s.ingested c (s.resetAuth d).1).st.identity

theorem loaded_eq_some {ingest : Except Err Unit} {identity : Except Err CapsuleIdentity}
    (h : s.loaded c d = some (st, ingest, identity)) :
    (s.resetAuth d).2 = true ∧ (s.ingested c (s.resetAuth d).1).val = some ingest ∧
      ((ensureIdentity c).exec sem s.ensure (s.ingested c (s.resetAuth d).1).st).st = st ∧
      ((ensureIdentity c).exec sem s.ensure (s.ingested c (s.resetAuth d).1).st).val =
        some identity := by
  unfold loaded at h
  generalize s.resetAuth d = x at h
  obtain ⟨d, up⟩ := x
  dsimp only at h
  split at h
  · rename_i hup
    obtain ⟨r, hing, h⟩ := Option.bind_eq_some_iff.mp h
    obtain ⟨r', hens, h⟩ := Option.bind_eq_some_iff.mp h
    cases h
    exact ⟨hup, hing, rfl, hens⟩
  · cases h

theorem main_of_launch {l : Launch} {cfg : Config} (h : s.launch c w d = some l)
    (hcfg : l.out = .ok cfg) :
    (s.main c d).2 = some ⟨cfg.store, cfg.auth.capsuleID, cfg.window⟩ := by
  rcases launch_cases h with ⟨st, ingest, id, cfg', hload, -, hout, hstore, hauth, hwindow⟩ |
    ⟨e, expr, -, hout⟩
  · rw [hout] at hcfg
    cases hcfg
    obtain ⟨hup, hing, rfl, hens⟩ := loaded_eq_some hload
    simp only [hstore, hauth, hwindow, main, hup, if_true, hing, hens]
  · rw [hout] at hcfg; cases hcfg

end Startup

/-- The call that is answered at place `n` did not fail. -/
def NoFault (es : List Env) (n : Nat) : Prop := ∀ e ∈ es[n]?, e.fault = none

/-- Over a store with this identity row, neither the `Get` of `ensureIdentity` fails, nor the `Put`
that it makes of a new row or of one without a short id. -/
def IdentityAnswered (es : List Env) (row : Option CapsuleIdentity) : Prop :=
  NoFault es 0 ∧ (∀ id ∈ row, id.shortID = "" → NoFault es 1) ∧ (row = none → NoFault es 3)

section EnsureIdentity

variable {es : List Env} {st : State} {r : Except Err CapsuleIdentity}

theorem identityPut_ok_iff {id : CapsuleIdentity}
    (h : (((identityPut id).thenOk fun _ => .ret (.ok id)).exec sem es st).val = some r) :
    (∃ id, r = .ok id) ↔ NoFault es 0 := by
  rcases es with _ | ⟨put, es⟩
  · cases h
  · cases hf : put.fault <;>
      simp [identityPut, Prog.thenOk, Prog.exec_call_cons, sem, hf] at h <;>
      simp [← h, NoFault, hf]

theorem ensureIdentity_ok_iff {c : Codec} (h : ((ensureIdentity c).exec sem es st).val = some r) :
    (∃ id, r = .ok id) ↔ IdentityAnswered es st.identity := by
  rcases es with _ | ⟨get, es⟩
  · cases h
  · cases hf : get.fault with
    | some m =>
      simp [ensureIdentity, identityGet, Prog.exec_call_cons, sem, hf, Err.is] at h
      simp [← h, IdentityAnswered, NoFault, hf]
    | none =>
      cases hid : st.identity with
      | some id =>
        by_cases hs : id.shortID = ""
        · simp [ensureIdentity, identityGet, Prog.exec_call_cons, sem, hf, hid, hs] at h
          rw [identityPut_ok_iff h]
          simp [IdentityAnswered, NoFault, hf, hs]
        · simp [ensureIdentity, identityGet, Prog.exec_call_cons, sem, hf, hid, hs] at h
          simp [← h, IdentityAnswered, NoFault, hf, hs]
      | none =>
        -- the answers of `uuid.New` and the clock stand between the two
        rcases es with _ | ⟨u, _ | ⟨t, es⟩⟩ <;>
          simp [ensureIdentity, identityGet, newUUID, now, Prog.exec_call_cons, sem, hf, hid,
            Err.is] at h
        rw [identityPut_ok_iff h]
        simp [IdentityAnswered, NoFault, hf]

end EnsureIdentity

theorem Startup.launch_identity {c : Codec} {s : Startup} {w : Wiring} {d : Disk} {l : Launch}
    (h : s.launch c w d = some l) :
    (∃ id, l.identity = .ok id) ↔ IdentityAnswered s.ensure (s.identityRow c d) := by
  unfold launch at h
  split at h
  · cases h
  · rename_i hloaded
    cases h
    exact ensureIdentity_ok_iff (loaded_eq_some hloaded).2.2.2

/-- Whatever fails at startup, as long as power stays: `main` gets to `router.Serve`, and serves no
changes without an identity, exactly when the store answers `ensureIdentity`. -/
theorem serve_reached_iff (c : Codec) (s : Startup) (w : Wiring) (d : Disk) (l : Launch)
    (h : s.launch c w d = some l) :
    l.Survives c ↔ IdentityAnswered s.ensure (s.identityRow c d) := by
  rw [← Startup.launch_identity h]
  rcases Startup.launch_cases h with ⟨st, ingest, id, cfg, -, hid, hout, -⟩ | ⟨e, expr, hid, hout⟩
  · rw [Launch.Survives, hid]
    exact ⟨fun _ => ⟨id, rfl⟩, fun _ => ⟨cfg, hout, fun hnone => by cases hnone⟩⟩
  · rw [Launch.Survives, hid, hout]
    constructor
    · rintro ⟨cfg, hcfg, -⟩; cases hcfg
    · rintro ⟨id, hid⟩; cases hid

def nothingWired : Wiring where
  onStartup := .error (.text "disk I/O error")
  loadOrGenerate _ := .error (.text "auth: temp file")
  announce := .error (.text "no interface")
  bootDisk := .error (.text "no PARTUUID")

/-- A capsule whose row was written before there were short ids. -/
def olderDisk : Disk where
  db := { twoKeys with identity := some ⟨"id", "", 1, 1, "kid-a"⟩ }
  sentinel := none

def backfilling : Startup := { smooth with ensure := [answered, answered] }

theorem serve_reached_nothing_wired :
    ∃ l, backfilling.launch noCodec nothingWired olderDisk = some l ∧ l.Survives noCodec :=
  ⟨_, rfl, (serve_reached_iff noCodec backfilling nothingWired olderDisk _ rfl).mpr
    ⟨by rintro _ ⟨⟩; rfl, by rintro _ _ _ _ ⟨⟩; rfl, by rintro ⟨⟩⟩⟩

def allWired : Wiring where
  onStartup := .ok ()
  loadOrGenerate _ := .ok [[1]]
  announce := .ok ()
  bootDisk := .ok "/dev/sda"

/-- Everything works but the read of the identity row. The log says that all RPCs will be refused,
and the next line of `main` panics. -/
theorem identity_fault_panics :
    ∃ l, ({ smooth with ensure := [{ fault := some "disk I/O error" }] } : Startup).launch noCodec
        allWired adoptedDisk = some l ∧
      l.log = ["ensure identity failed; capsule will refuse all RPCs"] ∧
      l.out = .error "identity.CapsuleID" ∧ ¬ l.Survives noCodec :=
  ⟨_, rfl, rfl, rfl, fun ⟨_, h, _⟩ => by cases h⟩

end Capsule.Identity
