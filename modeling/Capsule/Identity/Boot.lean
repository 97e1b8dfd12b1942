import Capsule.Identity.Flow

/-!
# Capsule.Identity.Boot

A boot of a runtime capsule, as far as its keys and its identity go: the ingest, the seeding of the
identity row and the wipe at startup, then any number of RPCs and the sweeper, as the threads of a
`Pool`.

* `Job`: what runs; `Job.code` is its code and `Job.monitor` what it may do, stage by stage.
* `job_obeys`: every job keeps to its monitor. All that `Identity.Provenance` and `Identity.Sealed`
  use of the code follows from it.
-/

namespace Capsule.Identity

open Atomic Auth Keyed

inductive Job where
  | rpc (md : List Bytes) (req : Request)
  | ingestFirstBoot
  | ensureIdentity
  | wipeAuthOnDisk
  /-- The claim window times out. -/
  | timer
  | sweeper (ticks : Nat)

/-- The reply, if the job is an RPC. -/
def Job.code (c : Codec) (ctl : Controller) (a : Authenticator) : Job → Code (Option Reply)
  | .rpc md req => do return some (← Identity.rpc c ctl a md req)
  | .ingestFirstBoot => do
    let _ ← Identity.ingestFirstBoot c
    return none
  | .ensureIdentity => do
    let _ ← Identity.ensureIdentity c
    return none
  | .wipeAuthOnDisk => do
    let _ ← Identity.wipeAuthOnDisk
    return none
  | .timer => do
    claimClose
    return none
  | .sweeper n => do
    sweepLoop n
    return none

structure Boot (ι : Type) where
  /-- The audience of the tokens. -/
  capsuleID : String
  ctl : Controller
  /-- The claim window as `NewClaimWindow` made it: open when the count it was given is 0, which it
  also is when counting failed. -/
  claim : Bool
  /-- What `/perm/firstboot.json` holds when the boot starts. -/
  firstBoot : Option Bytes
  jobs : ι → Job
  schedule : List (ι × Env)

section

variable {ι : Type}

/-- `InstallerMode` is false. -/
def Boot.auth (b : Boot ι) : Authenticator := ⟨b.capsuleID, false⟩

/-- The boot before its first step, on the stores the last one left. -/
def Boot.start (c : Codec) (b : Boot ι) (s : State) : Pool ι Op Res State (Option Reply) :=
  ⟨{ s with claim := b.claim, jti := fun _ => none, firstBoot := b.firstBoot },
    fun i => (b.jobs i).code c b.ctl b.auth⟩

variable [DecidableEq ι]

def Boot.finish (c : Codec) (b : Boot ι) (s : State) : State :=
  ((b.start c s).run sem b.schedule).st

/-- A disk before its first boot. -/
def blank : State where
  keys := .empty
  identity := none
  claim := false
  jti := fun _ => none
  firstBoot := none
  tls := fun _ => none

/-- What a number of boots leaves. -/
def life (c : Codec) (boots : List (Boot ι)) : State :=
  boots.foldl (fun s b => b.finish c s) blank

end

/-- Where a job is. An RPC goes from `start` to `running` when its token is accepted. -/
inductive Stage where
  | start
  | signed (claims : Claims)
  /-- The clock is within the token's times. -/
  | timely (claims : Claims)
  | running (caller : String) (g : Phase)
  | refused

/-- `Adopt` passes the interceptor without a step. -/
def Job.first : Job → Stage
  | .rpc _ (.adopt _ _) => .running "" .idle
  | _ => .start

/-- The kid is that of its key, and the key has the length of an Ed25519 key. -/
def Formed (c : Codec) (k : AuthorizedKey) : Prop :=
  k.kid = kidFromPubkey c k.pubkey ∧ k.pubkey.length = 32

/-- What `Verify` makes of the answer to its key lookup. -/
def signedClaims (c : Codec) (a : Authenticator) (md : List Bytes) (k : Except Err AuthorizedKey) :
    Option Claims :=
  match parseHeader c (bearer md) with
  | .error _ => none
  | .ok t =>
    match enrolledKey k with
    | none => none
    | some pub => (checkSigned c a.capsuleID t pub).toOption

def Stage.afterLookup : Option Claims → Stage
  | some claims => .signed claims
  | none => .refused

def Stage.afterClock (claims : Claims) : Except Err Claims → Stage
  | .ok _ => .timely claims
  | .error _ => .refused

def rpcFlow (c : Codec) (a : Authenticator) (md : List Bytes) (req : Request) {α : Type} :
    Monitor Op Res α Stage where
  ok
    | .start, .keysGet kid => ∃ t, parseHeader c (bearer md) = .ok t ∧ kid = t.hdr.kid
    | .signed _, .now => True
    | .timely claims, .seenOrAdd jti exp => jti = claims.jti ∧ exp = claims.exp
    | .running caller g, o => (flow c ⟨caller, req⟩).ok g o
    | _, _ => False
  next
    | .start, .keysGet _, k => .afterLookup (signedClaims c a md k)
    | .signed claims, .now, n => .afterClock claims (checkTimes claims n)
    | .timely claims, .seenOrAdd _ _, seen => if seen then .refused else .running claims.sub .idle
    | .running caller g, o, r => .running caller ((flow c ⟨caller, req⟩).next g o r)
    | g, _, _ => g
  fin
    | .running _ g, _ => ¬ g.Active
    | _, _ => True

/-- What the first-boot ingest and the seeding of the identity do: keys are only added. -/
def StartupOp (c : Codec) : Op → Prop
  | .keysAdd k => Formed c k
  | .identityGet | .identityPut _ | .now | .newUUID => True
  | .readFirstBoot | .renameFirstBoot | .removeFirstBoot => True
  | .mkdirTLS | .statTLS _ | .writeTLS _ _ => True
  | _ => False

/-- What the other jobs may do. -/
def Job.Allows (c : Codec) (job : Job) : Op → Prop
  | .keysAdd k => job = .ingestFirstBoot ∧ Formed c k
  | _ => True

def Job.monitor (c : Codec) (a : Authenticator) : Job → Monitor Op Res (Option Reply) Stage
  | .rpc md req => rpcFlow c a md req
  | job => ⟨fun g o => g = .start ∧ job.Allows c o, fun g _ _ => g, fun _ _ => True⟩

section

variable {c : Codec} {ctl : Controller} {a : Authenticator} {md : List Bytes} {req : Request}

theorem handle_running (caller : String) :
    (handle c ctl caller req).Obeys (rpcFlow c a md req) (.running caller .idle) :=
  (handle_obeys c ctl ⟨caller, req⟩).embed (Stage.running caller) (fun _ _ h => h)
    (fun _ _ _ => rfl) fun _ _ => not_active_of_fin

/-- What `verify` returns, and the stage it leaves the RPC in. -/
def Stage.Verifies (g : Stage) : Except Err Claims → Prop
  | .ok claims => g = .timely claims
  | .error _ => ∀ caller ph, g ≠ .running caller ph

theorem verifyWith_stages {t : Parsed} (ht : parseHeader c (bearer md) = .ok t)
    (k : Except Err AuthorizedKey) :
    (verifyWith c a.capsuleID t (enrolledKey k)).Obeys
      ((rpcFlow c a md req : Monitor Op Res Reply Stage).post Stage.Verifies)
      (.afterLookup (signedClaims c a md k)) := by
  rw [signedClaims, ht]
  cases enrolledKey k with
  | none => exact fun _ _ h => by cases h
  | some pub =>
    unfold verifyWith
    dsimp only
    cases checkSigned c a.capsuleID t pub with
    | error e => exact fun _ _ h => by cases h
    | ok claims =>
      refine ⟨trivial, fun n => ?_⟩
      change Stage.Verifies (.afterClock claims (checkTimes claims n)) (checkTimes claims n)
      cases hn : checkTimes claims n with
      | error e => exact fun _ _ h => by cases h
      | ok claims' => rw [checkTimes_claims hn]; rfl

theorem verify_stages :
    (verify c (bearer md) a.capsuleID).Obeys
      ((rpcFlow c a md req : Monitor Op Res Reply Stage).post Stage.Verifies) .start := by
  unfold verify
  cases ht : parseHeader c (bearer md) with
  | error e => exact fun _ _ h => by cases h
  | ok t => exact ⟨⟨t, ht, rfl⟩, fun k => verifyWith_stages ht k⟩

theorem rpc_stages (hreq : req.fullMethod ≠ adoptMethod) (ha : a.installerMode = false) :
    (rpc c ctl a md req).Obeys (rpcFlow c a md req) .start := by
  have hopen : ¬ a.Open req.fullMethod := by
    rintro (h | ⟨h, -⟩)
    · exact hreq h
    · rw [ha] at h; cases h
  unfold rpc authorize
  rw [if_neg hopen]
  split
  · trivial
  · simp only [Prog.obeys_bind]
    refine verify_stages.mono ?_
    rintro g (e | claims) hg
    · cases g with
      | running caller ph => exact absurd rfl (hg caller ph)
      | _ => trivial
    · obtain rfl : g = .timely claims := hg
      refine ⟨⟨rfl, rfl⟩, fun seen => ?_⟩
      cases seen with
      | true => trivial
      | false => exact handle_running claims.sub

theorem rpc_obeys (ha : a.installerMode = false) :
    (rpc c ctl a md req).Obeys (rpcFlow c a md req) (Job.first (.rpc md req)) := by
  cases req with
  | adopt pubkey name => exact handle_running ""
  | whoAmI => exact rpc_stages (by decide) ha
  | keyAdd pubkey name => exact rpc_stages (by simp [Request.fullMethod, adoptMethod]) ha
  | keyList => exact rpc_stages (by decide) ha
  | keyRemove kid => exact rpc_stages (by simp [Request.fullMethod, adoptMethod]) ha
  | other m =>
    by_cases hm : m = adoptMethod
    · subst hm; trivial
    · exact rpc_stages hm ha

end

section

variable {c : Codec}

theorem putIdentity_only (b : FirstBootBundle) (id : CapsuleIdentity) :
    (putIdentity b id).Only (StartupOp c) :=
  Prog.Only.ite ⟨trivial, fun _ => ⟨trivial, fun _ => trivial⟩⟩ ⟨trivial, fun _ => trivial⟩

theorem applyIdentity_only (b : FirstBootBundle) : (applyIdentity b).Only (StartupOp c) := by
  refine ⟨trivial, fun r => ?_⟩
  cases r with
  | ok id => exact putIdentity_only b id
  | error e => exact .ite (putIdentity_only b _) trivial

theorem applyAuthorizedKey_only {P : Op → Prop} (hnow : P .now)
    (hadd : ∀ k, Formed c k → P (.keysAdd k)) (b : FirstBootBundle) :
    (applyAuthorizedKey c b).Only P := by
  refine .ite trivial ?_
  cases c.b64std b.operatorPubkey with
  | none => trivial
  | some pub =>
    dsimp only
    cases hp : parsePubkey pub with
    | error e => trivial
    | ok pub' =>
      obtain ⟨rfl, hlen⟩ := parsePubkey_ok hp
      refine ⟨hnow, fun t => ⟨hadd _ ⟨rfl, hlen⟩, fun r => ?_⟩⟩
      cases r with
      | ok _ => trivial
      | error e => exact .ite trivial trivial

theorem writeTLSMaterial_only {P : Op → Prop} (hmkdir : P .mkdirTLS) (hstat : ∀ f, P (.statTLS f))
    (hwrite : ∀ f pem, P (.writeTLS f pem)) (b : FirstBootBundle) :
    (writeTLSMaterial b).Only P := by
  have hfiles : (writeTLSFiles b).Only P :=
    Prog.Only.thenOk ⟨hwrite _ _, fun _ => trivial⟩ fun _ => ⟨hwrite _ _, fun _ => trivial⟩
  refine .ite trivial (.thenOk ⟨hmkdir, fun _ => trivial⟩ fun _ => ?_)
  refine ⟨hstat _, fun cert => ?_⟩
  cases cert with
  | false => exact hfiles
  | true =>
    refine ⟨hstat _, fun key => ?_⟩
    cases key with
    | false => exact hfiles
    | true => trivial

theorem ingestFirstBoot_only : (ingestFirstBoot c).Only (StartupOp c) := by
  refine .thenOk ⟨trivial, fun _ => trivial⟩ fun data => ?_
  cases data with
  | none => trivial
  | some data =>
    dsimp only
    cases c.bundleJSON data with
    | none => exact ⟨trivial, fun _ => trivial⟩
    | some b =>
      refine (applyIdentity_only b).thenOk fun _ =>
        (applyAuthorizedKey_only trivial (fun _ h => h) b).thenOk fun _ => ?_
      exact (writeTLSMaterial_only trivial (fun _ => trivial) (fun _ _ => trivial) b).thenOk
        fun _ => ⟨trivial, fun _ => trivial⟩

theorem ensureIdentity_only {P : Op → Prop} (hget : P .identityGet)
    (hput : ∀ id, P (.identityPut id)) (hnow : P .now) (huuid : P .newUUID) :
    (ensureIdentity c).Only P := by
  have hput' : ∀ id, ((identityPut id).thenOk fun _ => .ret (.ok id) :
      Code (Except Err CapsuleIdentity)).Only P :=
    fun _ => Prog.Only.thenOk ⟨hput _, fun _ => trivial⟩ fun _ => trivial
  refine ⟨hget, fun r => ?_⟩
  cases r with
  | ok id => exact .ite (hput' _) trivial
  | error e => exact .ite ⟨huuid, fun _ => ⟨hnow, fun _ => hput' _⟩⟩ trivial

theorem allows_of_startupOp {o : Op} (h : StartupOp c o) : Job.ingestFirstBoot.Allows c o := by
  cases o with
  | keysAdd k => exact ⟨rfl, h⟩
  | _ => trivial

theorem wipeAuthOnDisk_only {P : Op → Prop} (hall : P .keysDeleteAll) (hget : P .identityGet)
    (hput : ∀ id, P (.identityPut id)) : wipeAuthOnDisk.Only P := by
  refine .thenOk ⟨hall, fun _ => trivial⟩ fun _ => ⟨hget, fun r => ?_⟩
  cases r with
  | ok id => exact ⟨hput _, fun _ => trivial⟩
  | error e => exact .ite trivial trivial

theorem sweepLoop_only {P : Op → Prop} (hnow : P .now) (hsweep : ∀ t, P (.sweep t)) (n : Nat) :
    (sweepLoop n).Only P := by
  induction n with
  | zero => trivial
  | succ n ih => exact ⟨hnow, fun _ => ⟨hsweep _, fun _ => ih⟩⟩

theorem authorize_only {P : Op → Prop} (hget : ∀ kid, P (.keysGet kid)) (hnow : P .now)
    (hseen : ∀ jti exp, P (.seenOrAdd jti exp)) (a : Authenticator) (m : String)
    (md : List Bytes) : (authorize c a m md).Only P := by
  unfold authorize
  refine .ite trivial (.ite trivial (.bind ?_ ?_))
  · unfold verify
    cases parseHeader c (bearer md) with
    | error e => trivial
    | ok t =>
      refine ⟨hget _, fun r => ?_⟩
      change (verifyWith c a.capsuleID t (enrolledKey r)).Only P
      cases enrolledKey r with
      | none => trivial
      | some pub =>
        unfold verifyWith
        dsimp only
        cases checkSigned c a.capsuleID t pub with
        | error e => trivial
        | ok claims => exact ⟨hnow, fun _ => trivial⟩
  · intro r
    cases r with
    | error e => trivial
    | ok claims =>
      refine ⟨hseen _ _, fun seen => ?_⟩
      cases seen <;> trivial

end

theorem job_obeys (c : Codec) (ctl : Controller) {a : Authenticator} (ha : a.installerMode = false)
    (job : Job) : (job.code c ctl a).Obeys (job.monitor c a) job.first := by
  have hrest : ∀ {p : Code (Option Reply)}, p.Only (job.Allows c) → job.first = .start →
      job.monitor c a = ⟨fun g o => g = .start ∧ job.Allows c o, fun g _ _ => g, fun _ _ => True⟩ →
      p.Obeys (job.monitor c a) job.first := by
    intro p hp hfirst hmon
    rw [hfirst, hmon]
    exact hp.obeys (fun _ h => ⟨rfl, h⟩) (fun _ _ _ => rfl) fun _ => trivial
  cases job with
  | rpc md req =>
    rw [Job.code, Prog.obeys_bind]
    refine (rpc_obeys ha).embed id (fun _ _ h => h) (fun _ _ _ => rfl) ?_
    intro g r h
    cases g <;> exact h
  | ingestFirstBoot =>
    have honly := ingestFirstBoot_only.mono (fun _ h => allows_of_startupOp (c := c) h)
    exact hrest (honly.bind fun _ => trivial) rfl rfl
  | ensureIdentity =>
    have honly : (ensureIdentity c).Only (Job.ensureIdentity.Allows c) :=
      ensureIdentity_only trivial (fun _ => trivial) trivial trivial
    exact hrest (honly.bind fun _ => trivial) rfl rfl
  | wipeAuthOnDisk =>
    have honly : wipeAuthOnDisk.Only (Job.wipeAuthOnDisk.Allows c) :=
      wipeAuthOnDisk_only trivial trivial fun _ => trivial
    exact hrest (honly.bind fun _ => trivial) rfl rfl
  | timer => exact hrest ⟨trivial, fun _ => trivial⟩ rfl rfl
  | sweeper n =>
    have honly : (sweepLoop n).Only ((Job.sweeper n).Allows c) :=
      sweepLoop_only trivial (fun _ => trivial) n
    exact hrest (honly.bind fun _ => trivial) rfl rfl

end Capsule.Identity
