import Capsule.Atomic.Past
import Capsule.Atomic.Steps
import Capsule.Identity.Boot
import Capsule.Identity.LastKey

/-!
# Capsule.Identity.Startup

`main` of capsuled as PID 1, from the `RESET_AUTH` check to the claim window, in its order, with
`boot.Init` before it (`initPlatform`: the early mounts and the slot).

* `window_memory`, `window_onPerm`: when the claim window is open, on the store in memory and on the
  database.
* `Shut`, `keepsClosed_iff`: a window that is closed stays closed for the whole boot.
* `window_stays_closed`: on an adopted capsule it is, exactly if the early mounts succeed and
  `main` knows that its state is missing or gets its keys counted.
* `wipe_in_time`: keys are wiped in the five minutes after the sentinel only, if no boot reads a
  clock from before it.
-/

namespace Capsule.Identity

open Atomic Auth Keyed

structure Disk where
  db : State
  /-- The modification time of `/perm/capsule/RESET_AUTH`, in nanoseconds. -/
  sentinel : Option Int

structure MountSpec where
  target : String
  required : Bool

def earlyMounts : List MountSpec :=
  [⟨"/proc", true⟩, ⟨"/sys", true⟩, ⟨"/dev", true⟩, ⟨"/dev/pts", false⟩, ⟨"/run", false⟩,
    ⟨"/tmp", false⟩, ⟨"/sys/fs/cgroup", false⟩]

/-- `boot.Result`, as far as `main` decides by it. -/
structure BootResult where
  activeSlot : Option Slot
  mountedPerm : Bool
  installerMode : Bool

/-- What `boot.Init` meets. -/
structure Platform where
  /-- The kernel's command line, and the error of reading it from `/proc/cmdline`. -/
  cmdline : List UInt8
  cmdlineFault : Option String
  /-- `mountOne`, by target. -/
  mountFault : String → Option String
  /-- `DetectInstallerMode`. -/
  installer : Bool
  permFault : Option String

def detectActiveSlot (data : List UInt8) : Option Slot :=
  (GoString.fields data).findSome? fun f =>
    if f = GoString.utf8 "capsule.slot=a" then some .a
    else if f = GoString.utf8 "capsule.slot=b" then some .b else none

/-- The error that comes with the zero result is only logged. -/
def initPlatform (p : Platform) : BootResult :=
  if earlyMounts.any fun m => m.required && (p.mountFault m.target).isSome then ⟨none, false, false⟩
  else
    { activeSlot := if p.cmdlineFault = none then detectActiveSlot p.cmdline else none
      mountedPerm := !p.installer && p.permFault.isNone
      installerMode := p.installer }

/-- What a boot gets from outside: `boot.Result`, the clock, and the answers of the calls. -/
structure Startup extends BootResult where
  /-- `os.Stat` of the sentinel. -/
  statFault : Option String
  /-- The clock when the sentinel's age is taken. -/
  clock : Int
  /-- `wipeAuthOnDisk`: its `sqlite.Open` and its store calls. -/
  wipeOpen : Option String
  wipe : List Env
  removeFault : Option String
  /-- `sqlite.Open` of the store capsuled runs on. -/
  openFault : Option String
  ingest : List Env
  ensure : List Env
  count : Env

def resetAuthMaxAge : Int := 5 * 60 * 1000000000

/-- `time.Since`: a `Duration` saturates. -/
def since (clock t : Int) : Int := max (-2 ^ 63) (min (2 ^ 63 - 1) (clock - t))

/-- `NewClaimWindow`: whether the window is open. -/
def newClaimWindow (startEnrolled : Nat) : Bool := if startEnrolled > 0 then false else true

/-- What `main` has built when the server starts. -/
structure Serving where
  store : State
  capsuleID : String
  window : Bool

namespace Startup

/-- The `RESET_AUTH` check; `false` when power is lost during the wipe. -/
def resetAuth (s : Startup) (d : Disk) : Disk × Bool :=
  if s.mountedPerm = true ∧ s.statFault = none then
    match d.sentinel with
    | none => (d, true)
    | some mtime =>
      if since s.clock mtime ≤ resetAuthMaxAge then
        let left := if s.removeFault = none then none else d.sentinel
        if s.wipeOpen = none then
          let out := wipeAuthOnDisk.exec sem s.wipe d.db
          match out.val with
          | none => ({ d with db := out.st }, false)
          | some _ => (⟨out.st, left⟩, true)
        else (⟨d.db, left⟩, true)
      else (d, true)
  else (d, true)

def stateBroken (s : Startup) : Bool :=
  if s.activeSlot ≠ none ∧ s.mountedPerm = false ∧ s.installerMode = false then true
  else if s.mountedPerm then s.openFault.isSome
  else false

/-- The store is the database on `/perm`. -/
def onPerm (s : Startup) : Bool := s.mountedPerm && s.openFault.isNone

/-- The store capsuled runs on. The files on `/perm` are there in any case. -/
def store (s : Startup) (d : Disk) : State :=
  if s.onPerm then d.db else { blank with firstBoot := d.db.firstBoot, tls := d.db.tls }

def save (s : Startup) (d : Disk) (st : State) : Disk :=
  { d with db := if s.onPerm then st else { d.db with firstBoot := st.firstBoot, tls := st.tls } }

def ingested (c : Codec) (s : Startup) (d : Disk) : Prog.Outcome Op State Env (Except Err Unit) :=
  if s.mountedPerm = true ∧ s.installerMode = false then
    (ingestFirstBoot c).exec sem s.ingest (s.store d)
  else ⟨s.store d, [], s.ingest, some (.ok ())⟩

/-- `enrolledCount, _ := Count(ctx)`. -/
def enrolledCount (s : Startup) (st : State) : Nat :=
  match (sem .keysCount s.count st).2 with
  | .ok n => n
  | .error _ => 0

def claimSeed (s : Startup) (st : State) : Nat := if s.stateBroken then 1 else s.enrolledCount st

/-- From the `RESET_AUTH` check to the claim window. Nothing is served when power is lost on the
way, or when there is no identity: `main` then reads a field of it and panics. -/
def main (c : Codec) (s : Startup) (d : Disk) : Disk × Option Serving :=
  let (d, up) := s.resetAuth d
  if up then
    let ing := s.ingested c d
    match ing.val with
    | none => (s.save d ing.st, none)
    | some _ =>
      let ens := (ensureIdentity c).exec sem s.ensure ing.st
      match ens.val with
      | some (.ok id) =>
        (s.save d ens.st, some ⟨ens.st, id.capsuleID, newClaimWindow (s.claimSeed ens.st)⟩)
      | _ => (s.save d ens.st, none)
  else (d, none)

/-- The sentinel is there and young enough. -/
def Honours (s : Startup) (d : Disk) : Prop :=
  s.mountedPerm = true ∧ s.statFault = none ∧
    ∃ mtime ∈ d.sentinel, since s.clock mtime ≤ resetAuthMaxAge

/-- An installed capsule booted from one of its slots. -/
def Installed (s : Startup) : Prop := s.activeSlot ≠ none ∧ s.installerMode = false

end Startup

/-- The server of a boot, running these jobs. -/
def Serving.boot {ι : Type} (v : Serving) (ctl : Controller) (jobs : ι → Job) : Boot ι :=
  ⟨v.capsuleID, ctl, v.window, v.store.firstBoot, jobs, []⟩

namespace Startup

variable {c : Codec} {s : Startup} {d d' : Disk} {v : Serving}

theorem resetAuth_of_not_honours (h : ¬ s.Honours d) : s.resetAuth d = (d, true) := by
  unfold resetAuth
  split
  · rename_i hperm
    split
    · rfl
    · rename_i mtime hm; rw [if_neg fun hage => h ⟨hperm.1, hperm.2, mtime, hm, hage⟩]
  · rfl

theorem keys_startupOp {o : Op} (ho : StartupOp c o) (e : Env) {st : State}
    (h : 1 ≤ st.keys.count) : 1 ≤ (sem o e st).1.keys.count := by
  cases o with
  | keysAdd k =>
    simp only [sem]
    split
    · exact h
    · split
      · exact h
      · rename_i t ht
        have hadd := Table.count_add ht
        dsimp only
        omega
  | keysGet | keysList | keysDelete | keysCount | keysDeleteAll | claimOpen | claimClose |
    seenOrAdd | sweep | markAdopted => exact absurd ho id
  | identityGet => simp only [sem]; split <;> exact h
  | identityPut id => simp only [sem]; split <;> exact h
  | renameFirstBoot => simp only [sem]; split <;> exact h
  | removeFirstBoot => simp only [sem]; split <;> exact h
  | writeTLS f pem => simp only [sem]; split <;> exact h
  | _ => exact h

theorem keys_ingested (h : 1 ≤ (s.store d).keys.count) : 1 ≤ (s.ingested c d).st.keys.count := by
  unfold ingested
  split
  · exact ingestFirstBoot_only.exec (J := fun st : State => 1 ≤ st.keys.count)
      (fun _ e _ ho hj => keys_startupOp ho e hj) h s.ingest
  · exact h

/-- `ensureIdentity` touches no key. -/
theorem keys_ensured (es : List Env) (st : State) :
    ((ensureIdentity c).exec sem es st).st.keys = st.keys := by
  have honly : (ensureIdentity c).Only fun o => ∀ e (st : State), (sem o e st).1.keys = st.keys :=
    ensureIdentity_only (fun e st => by simp only [sem]; split <;> rfl)
      (fun id e st => by simp only [sem]; split <;> rfl) (fun _ _ => rfl) (fun _ _ => rfl)
  exact honly.exec (J := fun st' : State => st'.keys = st.keys)
    (fun _ e st' ho hj => (ho e st').trans hj) rfl es

theorem main_serving (hnot : ¬ s.Honours d) (h : s.main c d = (d', some v)) :
    v.window = newClaimWindow (s.claimSeed v.store) ∧ v.store.keys = (s.ingested c d).st.keys := by
  simp only [main, resetAuth_of_not_honours hnot, if_true] at h
  split at h
  · cases h
  · split at h
    · cases h; exact ⟨rfl, keys_ensured _ _⟩
    · cases h

theorem enrolledCount_zero {st : State} (h : st.keys.count = 0) : s.enrolledCount st = 0 := by
  cases hf : s.count.fault <;> simp [enrolledCount, sem, Env.answer, hf, h]

/-- On the store in memory the window is open. -/
theorem window_memory (hnot : ¬ s.Honours d) (h : s.main c d = (d', some v))
    (hperm : s.mountedPerm = false) (hbroken : s.stateBroken = false) : v.window = true := by
  obtain ⟨hw, hkeys⟩ := main_serving hnot h
  have hzero : v.store.keys.count = 0 := by rw [hkeys]; simp [ingested, store, onPerm, hperm]; rfl
  simp [hw, newClaimWindow, claimSeed, hbroken, enrolledCount_zero hzero]

/-- On the database the window is open if `Count` fails. -/
theorem window_onPerm (hk : 1 ≤ d.db.keys.count) (hnot : ¬ s.Honours d)
    (h : s.main c d = (d', some v)) (hperm : s.mountedPerm = true) :
    v.window = false ↔ s.openFault ≠ none ∨ s.count.fault = none := by
  obtain ⟨hw, hkeys⟩ := main_serving hnot h
  rw [hw, newClaimWindow, claimSeed]
  cases ho : s.openFault with
  | some m => simp [stateBroken, hperm, ho]
  | none =>
    have hcount : 0 < v.store.keys.count :=
      hkeys ▸ keys_ingested (by simpa [store, onPerm, hperm, ho] using hk)
    cases hf : s.count.fault with
    | none => simpa [stateBroken, hperm, ho, enrolledCount, sem, Env.answer, hf] using hcount
    | some m => simp [stateBroken, hperm, ho, enrolledCount, sem, Env.answer, hf]

end Startup

/-- How far an `Adopt` has come. -/
inductive Visit where
  | fresh
  | opened
  | closed
  | found
  | refused

/-- What the look at the window leads to. -/
def Visit.look (isOpen : Bool) : Visit := if isOpen then .opened else .closed

def Visit.lookup : Except Err AuthorizedKey → Visit
  | .ok _ => .found
  | .error _ => .refused

def adoptWatch (kid : String) : Monitor Op Res (Option Reply) Visit where
  ok
    | .closed, o => o = .keysGet kid
    | _, _ => True
  next
    | .fresh, .claimOpen, r => .look r
    | .closed, .keysGet _, r => .lookup r
    | g, _, _ => g
  fin
    | .opened, _ => True
    | .found, _ => True
    | _, r => ∀ resp, r ≠ some (.ok resp)

/-- The other jobs are not watched. -/
def watch (c : Codec) : Job → Monitor Op Res (Option Reply) Visit
  | .rpc _ (.adopt pub _) => adoptWatch (kidFromPubkey c pub)
  | _ => ⟨fun _ _ => True, fun g _ _ => g, fun _ _ => True⟩

section Watch

variable {c : Codec} {kid : String}

theorem adoptWatch_past {g : Visit} (hg : g = .opened ∨ g = .found) (p : Code (Option Reply)) :
    p.Obeys (adoptWatch kid) g := by
  refine Prog.obeys_of_closed (I := fun g => g = .opened ∨ g = .found) ?_ ?_ ?_ p hg
  · rintro _ o (rfl | rfl) <;> trivial
  · rintro _ o r (rfl | rfl)
    · exact .inl rfl
    · exact .inr rfl
  · rintro _ r (rfl | rfl) <;> trivial

theorem job_watched (ctl : Controller) (a : Authenticator) (job : Job) :
    (job.code c ctl a).Obeys (watch c job) .fresh := by
  have hfree : ∀ p : Code (Option Reply), p.Obeys
      (⟨fun _ _ => True, fun g _ _ => g, fun _ _ => True⟩ : Monitor Op Res _ Visit) .fresh :=
    fun p => Prog.obeys_of_closed (I := fun _ => True) (fun _ _ => id) (fun _ _ _ => id)
      (fun _ _ => id) p trivial
  cases job with
  | rpc md req =>
    cases req with
    | adopt pub name =>
      change (do return some (← adopt c ctl pub name) : Code (Option Reply)).Obeys
        (adoptWatch (kidFromPubkey c pub)) .fresh
      unfold adopt
      cases hp : parsePubkey pub with
      | error e => exact fun resp h => by cases h
      | ok pub' =>
        obtain ⟨rfl, -⟩ := parsePubkey_ok hp
        refine ⟨trivial, fun isOpen => ?_⟩
        cases isOpen with
        | true => exact adoptWatch_past (.inl rfl) _
        | false =>
          refine ⟨rfl, fun r => ?_⟩
          cases r with
          | error e => exact fun resp h => by cases h
          | ok k => exact adoptWatch_past (.inr rfl) _
    | _ => exact hfree _
  | _ => exact hfree _

theorem sem_claim {st : State} (h : st.claim = false) (o : Op) (e : Env) :
    (sem o e st).1.claim = false := by
  cases o with
  | claimClose => rfl
  | _ =>
    simp only [sem]
    repeat' split
    all_goals exact h

variable {ι : Type} [DecidableEq ι] {jobs : ι → Job} {p : Pool ι Op Res State (Option Reply)}
  {w : List (ι × Env)} {g : ι → Visit}

/-- The call found the key it adopts enrolled. -/
def FoundEnrolled (c : Codec) (p : Pool ι Op Res State (Option Reply)) (w : List (ι × Env)) (i : ι)
    (pub : Bytes) : Prop :=
  p.Performed sem w i (.keysGet (kidFromPubkey c pub))
    fun st _ => st.keys.get (kidFromPubkey c pub) ≠ none

/-- The window is closed, and every `Adopt` past its lookup found its key. -/
structure Shut (c : Codec) (jobs : ι → Job) (p : Pool ι Op Res State (Option Reply))
    (w : List (ι × Env)) (g : ι → Visit) : Prop where
  claim : (p.run sem w).st.claim = false
  adopts : ∀ i md pub name, jobs i = .rpc md (.adopt pub name) →
    g i ≠ .opened ∧ (g i = .found → FoundEnrolled c p w i pub)

theorem adopt_step {i : ι} {pub : Bytes} {vis : Visit} {o : Op} {k : Res o → Code (Option Reply)}
    (hclaim : (p.run sem w).st.claim = false) (hvis : vis ≠ .opened)
    (hfound : vis = .found → FoundEnrolled c p w i pub) (hp : (p.run sem w).thr i = .call o k)
    (hok : (adoptWatch (kidFromPubkey c pub)).ok vis o) (e : Env) :
    (adoptWatch (kidFromPubkey c pub)).next vis o (sem o e (p.run sem w).st).2 ≠ .opened ∧
      ((adoptWatch (kidFromPubkey c pub)).next vis o (sem o e (p.run sem w).st).2 = .found →
        FoundEnrolled c p (w ++ [(i, e)]) i pub) := by
  cases vis with
  | fresh =>
    cases o with
    | claimOpen =>
      change Visit.look (p.run sem w).st.claim ≠ .opened ∧
        (Visit.look (p.run sem w).st.claim = .found → _)
      rw [hclaim]
      exact ⟨fun h => (by cases h), fun h => by cases h⟩
    | _ => exact ⟨fun h => (by cases h), fun h => by cases h⟩
  | opened => exact absurd rfl hvis
  | closed =>
    obtain rfl : o = .keysGet (kidFromPubkey c pub) := hok
    change Visit.lookup _ ≠ .opened ∧ (Visit.lookup _ = .found → _)
    cases hr : (sem (.keysGet (kidFromPubkey c pub)) e (p.run sem w).st).2 with
    | error err => exact ⟨fun h => (by cases h), fun h => by cases h⟩
    | ok key =>
      refine ⟨fun h => (by cases h), fun _ => Pool.performed_last hp ?_⟩
      simp only [sem] at hr
      split at hr <;> cases hr
      rename_i hget
      simp [hget]
  | found => exact ⟨fun h => (by cases h), fun _ => (hfound rfl).append _⟩
  | refused => exact ⟨fun h => (by cases h), fun h => by cases h⟩

/-- The step lemma. -/
theorem Shut.step (h : Shut c jobs p w g)
    (hob : ∀ j, ((p.run sem w).thr j).Obeys (watch c (jobs j)) (g j)) {i : ι} {o : Op}
    {k : Res o → Code (Option Reply)} (hp : (p.run sem w).thr i = .call o k) (e : Env) :
    Shut c jobs p (w ++ [(i, e)])
      (Function.update g i ((watch c (jobs i)).next (g i) o (sem o e (p.run sem w).st).2)) := by
  refine ⟨?_, ?_⟩
  · rw [Pool.run_snoc, Pool.step_call hp]; exact sem_claim h.claim o e
  · intro j md pub name hj
    obtain ⟨hopened, hfound⟩ := h.adopts j md pub name hj
    by_cases hji : j = i
    · subst hji
      have hok := hob j
      rw [hp, hj] at hok
      rw [Function.update_self, hj]
      exact adopt_step h.claim hopened hfound hp hok.1 e
    · rw [Function.update_of_ne hji]; exact ⟨hopened, fun hg => (hfound hg).append _⟩

theorem Shut.idle (h : Shut c jobs p w g) {i : ι} {r : Option Reply}
    (hp : (p.run sem w).thr i = .ret r) (e : Env) : Shut c jobs p (w ++ [(i, e)]) g := by
  refine ⟨?_, ?_⟩
  · rw [Pool.run_snoc, Pool.step_ret hp]; exact h.claim
  · intro j md pub name hj
    exact ⟨(h.adopts j md pub name hj).1, fun hg => ((h.adopts j md pub name hj).2 hg).append _⟩

end Watch

/-- The window is closed in every state of the boot, and every `Adopt` that succeeds found the key
it adopts enrolled. -/
def KeepsClosed (c : Codec) (v : Serving) : Prop :=
  ∀ (ι : Type) [DecidableEq ι] (ctl : Controller) (jobs : ι → Job) (w : List (ι × Env)),
    (((v.boot ctl jobs).start c v.store).run sem w).st.claim = false ∧
      ∀ i md pub name resp, jobs i = .rpc md (.adopt pub name) →
        (((v.boot ctl jobs).start c v.store).run sem w).thr i = .ret (some (.ok resp)) →
        FoundEnrolled c ((v.boot ctl jobs).start c v.store) w i pub

/-- The run lemma. -/
theorem keepsClosed_iff (c : Codec) (v : Serving) : KeepsClosed c v ↔ v.window = false := by
  constructor
  · intro h; exact (h Unit ⟨"", false⟩ (fun _ => .timer) []).1
  · intro hw ι _ ctl jobs w
    obtain ⟨g, hshut, hob⟩ := Pool.track (c := (v.boot ctl jobs).start c v.store)
      (M := fun i => watch c (jobs i)) (P := Shut c jobs ((v.boot ctl jobs).start c v.store))
      (w := []) (g := fun _ => .fresh) (fun w g i e o k h hob hp => h.step hob hp e)
      (fun w g i e r h hp => h.idle hp e)
      ⟨hw, fun i md pub name _ => ⟨fun h => (by cases h), fun h => by cases h⟩⟩
      (fun i => job_watched ctl (v.boot ctl jobs).auth (jobs i)) w
    rw [List.nil_append] at hshut hob
    refine ⟨hshut.claim, ?_⟩
    intro i md pub name resp hj hret
    have hfin := hob i
    rw [hret, hj] at hfin
    obtain ⟨hopened, hfound⟩ := hshut.adopts i md pub name hj
    cases hg : g i with
    | opened => exact absurd hg hopened
    | found => exact hfound hg
    | fresh | closed | refused => rw [hg] at hfin; exact absurd rfl (hfin resp)

/-- The kernel was started for a slot, and not for an installation. -/
def Platform.OnSlot (p : Platform) : Prop :=
  detectActiveSlot p.cmdline ≠ none ∧ p.installer = false

/-- Every early mount that has to succeed does. -/
def Platform.EarlyMounted (p : Platform) : Prop :=
  ∀ m ∈ earlyMounts, m.required = true → p.mountFault m.target = none

/-- The early mounts succeed; and `main` knows that its state is missing, or gets its keys
counted. -/
def Platform.Shuts (p : Platform) (s : Startup) : Prop :=
  p.EarlyMounted ∧ ((p.permFault ≠ none ∧ p.cmdlineFault = none) ∨
    (p.permFault = none ∧ (s.openFault ≠ none ∨ s.count.fault = none)))

theorem initPlatform_mounted {p : Platform} (h : p.EarlyMounted) (hi : p.installer = false) :
    initPlatform p =
      ⟨if p.cmdlineFault = none then detectActiveSlot p.cmdline else none, p.permFault.isNone,
        false⟩ := by
  have hany : (earlyMounts.any fun m => m.required && (p.mountFault m.target).isSome) = false := by
    simpa [List.any_eq_false, Platform.EarlyMounted] using h
  simp [initPlatform, hany, hi]

theorem initPlatform_failed {p : Platform} (h : ¬ p.EarlyMounted) :
    initPlatform p = ⟨none, false, false⟩ := by
  have hany : (earlyMounts.any fun m => m.required && (p.mountFault m.target).isSome) = true := by
    simpa [Platform.EarlyMounted, Option.isSome_iff_ne_none] using h
  simp [initPlatform, hany]

/-- On a boot of a slot over a database with an enrolled key that does not honour `RESET_AUTH`,
whatever fails at startup: the claim window is closed for the whole boot, and no `Adopt` with a key
that is not enrolled succeeds, exactly under `Shuts`. -/
theorem window_stays_closed (c : Codec) (p : Platform) (s : Startup) (d d' : Disk) (v : Serving)
    (hp : p.OnSlot) (hinit : s.toBootResult = initPlatform p) (hk : 1 ≤ d.db.keys.count)
    (hnot : ¬ s.Honours d) (hmain : s.main c d = (d', some v)) :
    KeepsClosed c v ↔ p.Shuts s := by
  rw [keepsClosed_iff, Platform.Shuts]
  by_cases hearly : p.EarlyMounted
  · rw [initPlatform_mounted hearly hp.2] at hinit
    have hslot := congrArg BootResult.activeSlot hinit
    have hperm := congrArg BootResult.mountedPerm hinit
    have hinst := congrArg BootResult.installerMode hinit
    dsimp only at hslot hperm hinst
    cases hpf : p.permFault with
    | none =>
      rw [Startup.window_onPerm hk hnot hmain (by rw [hperm, hpf]; rfl)]
      simp [hearly]
    | some m =>
      rw [hpf] at hperm
      cases hcf : p.cmdlineFault with
      | none =>
        have hbroken : s.stateBroken = true := by
          simp [Startup.stateBroken, hslot, hperm, hinst, hcf, hp.1]
        simp [(Startup.main_serving hnot hmain).1, newClaimWindow, Startup.claimSeed, hbroken,
          hearly]
      | some m' =>
        have hbroken : s.stateBroken = false := by simp [Startup.stateBroken, hslot, hperm, hcf]
        simp [Startup.window_memory hnot hmain hperm hbroken]
  · rw [initPlatform_failed hearly] at hinit
    have hslot := congrArg BootResult.activeSlot hinit
    have hperm := congrArg BootResult.mountedPerm hinit
    have hbroken : s.stateBroken = false := by simp [Startup.stateBroken, hslot, hperm]
    simp [Startup.window_memory hnot hmain hperm hbroken, hearly]

def adoptedDisk : Disk where
  db := { twoKeys with identity := some ⟨"id", "capsule-0001", 1, 1, "kid-a"⟩ }
  sentinel := none

def answered : Env := {}

def smooth : Startup where
  activeSlot := some .a
  mountedPerm := true
  installerMode := false
  statFault := none
  clock := 0
  wipeOpen := none
  wipe := List.replicate 3 answered
  removeFault := none
  openFault := none
  ingest := [answered]
  ensure := [answered]
  count := answered

def healthy : Platform where
  cmdline := GoString.utf8 "ro capsule.slot=a"
  cmdlineFault := none
  mountFault _ := none
  installer := false
  permFault := none

theorem window_stays_closed_smooth :
    ∃ v, (smooth.main noCodec adoptedDisk).2 = some v ∧ KeepsClosed noCodec v :=
  ⟨_, rfl, (window_stays_closed noCodec healthy smooth adoptedDisk _ _ ⟨by decide, rfl⟩ rfl
    (by decide) (by rintro ⟨-, -, m, hm, -⟩; cases hm) rfl).mpr
    ⟨fun _ _ _ => rfl, .inr ⟨rfl, .inr rfl⟩⟩⟩

/-- Everything works but `Count`: two keys are enrolled and the window is open. -/
theorem window_opens_adopted :
    ¬ ∀ (c : Codec) (p : Platform) (s : Startup) (d d' : Disk) (v : Serving), p.OnSlot →
      s.toBootResult = initPlatform p → 1 ≤ d.db.keys.count → ¬ s.Honours d →
      s.main c d = (d', some v) → KeepsClosed c v := by
  intro hall
  have h := hall noCodec healthy { smooth with count := { fault := some "database is locked" } }
    adoptedDisk _ _ ⟨by decide, rfl⟩ rfl (by decide) (by rintro ⟨-, -, m, hm, -⟩; cases hm) rfl
  exact absurd ((keepsClosed_iff noCodec _).mp h) (by decide)

/-! ## The sentinel over many boots -/

/-- One boot: startup, and what is served until the power goes. -/
structure Uptime (ι : Type) where
  startup : Startup
  ctl : Controller
  jobs : ι → Job
  schedule : List (ι × Env)

section

variable {ι : Type}

/-- The `RESET_AUTH` check of the boot removes an enrolled key. -/
def Uptime.Wipes (d : Disk) (b : Uptime ι) : Prop :=
  ∃ k ∈ d.db.keys.rows, k ∉ (b.startup.resetAuth d).1.db.keys.rows

/-- The clock is between the sentinel's time and five minutes later. -/
def Uptime.InTime (mtime : Int) (b : Uptime ι) : Prop :=
  mtime ≤ b.startup.clock ∧ b.startup.clock ≤ mtime + resetAuthMaxAge

theorem Uptime.Wipes.honours {d : Disk} {b : Uptime ι} (h : b.Wipes d) : b.startup.Honours d := by
  by_contra hnot
  obtain ⟨k, hk, hgone⟩ := h
  rw [Startup.resetAuth_of_not_honours hnot] at hgone
  exact hgone hk

theorem resetAuth_sentinel (s : Startup) (d : Disk) :
    (s.resetAuth d).1.sentinel = d.sentinel ∨ (s.resetAuth d).1.sentinel = none := by
  unfold Startup.resetAuth
  dsimp only
  repeat' split
  all_goals first | exact .inl rfl | exact .inr rfl

theorem main_sentinel (c : Codec) (s : Startup) (d : Disk) :
    (s.main c d).1.sentinel = (s.resetAuth d).1.sentinel := by
  unfold Startup.main
  dsimp only
  repeat' split
  all_goals rfl

/-- The step lemma: under a clock that is not before the sentinel's time, a boot wipes in time. -/
theorem wipe_inTime {d : Disk} {b : Uptime ι} {mtime : Int}
    (hd : d.sentinel = some mtime ∨ d.sentinel = none)
    (hclock : d.sentinel ≠ none → mtime ≤ b.startup.clock) (hw : b.Wipes d) :
    b.InTime mtime := by
  obtain ⟨-, -, m, hm, hage⟩ := hw.honours
  rw [Option.mem_def] at hm
  rcases hd with hd | hd
  · cases hm.symm.trans hd
    have h := hclock (by simp [hd])
    refine ⟨h, ?_⟩
    simp only [since, resetAuthMaxAge] at hage ⊢
    omega
  · cases hm.symm.trans hd

variable [DecidableEq ι]

def Uptime.finish (c : Codec) (d : Disk) (b : Uptime ι) : Disk :=
  match b.startup.main c d with
  | (d', none) => d'
  | (d', some v) =>
    b.startup.save d' (((v.boot b.ctl b.jobs).start c v.store).run sem b.schedule).st

theorem finish_sentinel (c : Codec) (d : Disk) (b : Uptime ι) :
    (b.finish c d).sentinel = (b.startup.resetAuth d).1.sentinel := by
  rw [← main_sentinel c]
  unfold Uptime.finish
  split
  · rename_i d' hm; rw [hm]
  · rename_i d' v hm; rw [hm]; rfl

/-- In every sequence of boots none of which reads a clock from before the sentinel was made while
it is there, enrolled keys are wiped only at a boot whose clock is at most five minutes past it. -/
theorem wipe_in_time (c : Codec) (d : Disk) (mtime : Int) (hd : d.sentinel = some mtime)
    (boots : List (Uptime ι))
    (hclock : Along (Uptime.finish c)
      (fun d b => d.sentinel ≠ none → mtime ≤ b.startup.clock) d boots) :
    Along (Uptime.finish c) (fun d b => b.Wipes d → b.InTime mtime) d boots := by
  replace hd : d.sentinel = some mtime ∨ d.sentinel = none := .inl hd
  induction boots generalizing d with
  | nil => trivial
  | cons b boots ih =>
    refine ⟨fun hw => wipe_inTime hd hclock.1 hw, ih _ hclock.2 ?_⟩
    rw [finish_sentinel]
    rcases resetAuth_sentinel b.startup d with h | h
    · rw [h]; exact hd
    · exact .inr h

end

/-- The clock of a boot, an hour after the sentinel or long before it. -/
def bootAt (clock : Int) : Uptime Unit :=
  ⟨{ smooth with clock := clock }, ⟨"", false⟩, fun _ => .timer, []⟩

def sentinelTime : Int := 1000000000000000000

/-- Power-cycling with an old sentinel in place. -/
theorem wipe_in_time_hourLater :
    Along (Uptime.finish noCodec)
      (fun (d : Disk) (b : Uptime Unit) => b.Wipes d → b.InTime sentinelTime)
      { adoptedDisk with sentinel := some sentinelTime }
      [bootAt (sentinelTime + 3600000000000), bootAt (sentinelTime + 7200000000000)] :=
  wipe_in_time noCodec _ sentinelTime rfl _
    ⟨fun _ => by decide, fun _ => by decide, trivial⟩

/-- The same capsule comes up with a clock in 1970. -/
theorem stale_sentinel_wipes :
    ¬ ∀ (ι : Type) [DecidableEq ι] (c : Codec) (d : Disk) (mtime : Int), d.sentinel = some mtime →
      ∀ boots : List (Uptime ι),
        Along (Uptime.finish c) (fun d b => b.Wipes d → b.InTime mtime) d boots := by
  intro hall
  have h := (hall Unit noCodec { adoptedDisk with sentinel := some sentinelTime } sentinelTime rfl
    [bootAt (sentinelTime + 3600000000000), bootAt 0]).2.1
  have hw : (bootAt 0).Wipes
      ((bootAt (sentinelTime + 3600000000000)).finish noCodec
        { adoptedDisk with sentinel := some sentinelTime }) :=
    ⟨⟨"kid-a", [], "ann", "", 1⟩, by decide, by decide⟩
  exact absurd (h hw).1 (by decide)

end Capsule.Identity
