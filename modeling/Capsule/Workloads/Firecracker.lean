import Capsule.Workloads.Contract

/-!
# Capsule.Workloads.Firecracker

The VM driver, `runtime/microvm/firecracker.Driver`: `EnsureRunning`, `Remove` and `Status`, over
the map of tracked VMs and the processes that run.

* `View`: what there is of one name, and how an operation may change it (`View.Allows`). `Follows`
  is a triple for code on the view, with rules for sequences.
* `remove_follows`, `ensureRunning_follows`: a call that finds every process of the name in the map
  leaves it so, and `Remove` leaves none.
* `contract`: the driver keeps the contract of `Workloads.Contract`.
-/

namespace Capsule.Workloads.Firecracker

open Atomic

/-- `vmState`: the process, and whether there is a connection to a guest agent. -/
structure Machine where
  pid : Nat
  guest : Bool
  deriving DecidableEq

inductive Preparation where
  | mkdir
  | payloadDisk
  | tap
  | volumes
  | serialLog
  | newMachine
  deriving DecidableEq, Repr

inductive Op where
  | stat (name path : String)
  | tracked (name : String)
  | readSpecHash (name : String)
  | prepare (name : String) (p : Preparation)
  | start (name : String)
  | waitForGuestReady (name : String)
  | startPayload (name : String)
  /-- `Shutdown`, `StopVMM` and the cancel of the process's context. -/
  | stopMachine (name : String) (pid : Nat)
  | stopGuest (name : String)
  | applyPortMappings (name : String)
  | teardownPortMappings (name : String)
  | teardownTAP (name : String)
  | releasePayloadSnapshot (name : String)
  | removeStateDir (name : String)
  | writeSpecHash (name hash : String)
  | register (name : String) (m : Machine)
  /-- Look a VM up and drop it from the map. -/
  | take (name : String)

@[reducible] def Res : Op → Type
  | .tracked _ => Bool
  | .readSpecHash _ => String
  | .start _ => Except Err Nat
  | .take _ => Option Machine
  | .stat _ _ | .prepare _ _ | .waitForGuestReady _ | .startPayload _ | .applyPortMappings _
  | .writeSpecHash _ _ => Except Err Unit
  | _ => Unit

structure Host where
  vms : String → Option Machine
  /-- The running processes, by the name they were started for. -/
  live : String → List Nat
  specHash : String → Option String
  nextPid : Nat

/-- The answer to an operation that may fail. -/
def answer {α : Type} (fault : Option String) (a : α) : Except Err α :=
  match fault with
  | none => .ok a
  | some m => .error (.text m)

def sem : Sem Op Res Host (Option String)
  | .stat _ _, f, h => (h, answer f ())
  | .tracked name, _, h => (h, (h.vms name).isSome)
  | .readSpecHash name, f, h =>
    match f, h.specHash name with
    | none, some x => (h, x)
    | _, _ => (h, "")
  | .prepare _ _, f, h => (h, answer f ())
  | .start name, f, h =>
    match f with
    | some m => (h, .error (.text m))
    | none =>
      ({ h with live := Function.update h.live name (h.nextPid :: h.live name),
                nextPid := h.nextPid + 1 }, .ok h.nextPid)
  | .waitForGuestReady _, f, h => (h, answer f ())
  | .startPayload _, f, h => (h, answer f ())
  | .stopMachine name pid, _, h =>
    ({ h with live := Function.update h.live name ((h.live name).filter (· ≠ pid)) }, ())
  | .stopGuest _, _, h => (h, ())
  | .applyPortMappings _, f, h => (h, answer f ())
  | .teardownPortMappings _, _, h => (h, ())
  | .teardownTAP _, _, h => (h, ())
  | .releasePayloadSnapshot _, _, h => (h, ())
  | .removeStateDir name, f, h =>
    match f with
    | some _ => (h, ())
    | none => ({ h with specHash := Function.update h.specHash name none }, ())
  | .writeSpecHash name hash, f, h =>
    match f with
    | some m => (h, .error (.text m))
    | none => ({ h with specHash := Function.update h.specHash name (some hash) }, .ok ())
  | .register name m, _, h => ({ h with vms := Function.update h.vms name (some m) }, ())
  | .take name, _, h => ({ h with vms := Function.update h.vms name none }, h.vms name)

abbrev Code := Prog Op Res

@[simp] def call (o : Op) : Code (Res o) := .call o .ret

structure Params where
  specHash : Workload → Except Err String
  tapName : String → String

def isAbs (path : String) : Bool := path.toList.head? = some '/'

def vmDir (name : String) : String := "/run/capsule/vms/" ++ name

def checkAbs (field path : String) : Except Err Unit :=
  if isAbs path then .ok ()
  else .error (.text (field ++ " must be absolute, got " ++ GoString.quote path))

def validateSpec (name : String) (s : MicroVMSpec) : Code (Except Err Unit) :=
  if s.image ≠ "" then
    if s.kernelPath ≠ "" then .ret (checkAbs "kernel_path" s.kernelPath) else .ret (.ok ())
  else if s.kernelPath = "" then .ret (.error (.text "either image or kernel_path is required"))
  else
    (Prog.ret (checkAbs "kernel_path" s.kernelPath) : Code _).thenOk fun _ =>
    if s.rootfsPath = "" then
      .ret (.error (.text "rootfs_path is required when image is not set"))
    else
      (Prog.ret (checkAbs "rootfs_path" s.rootfsPath) : Code _).thenOk fun _ =>
      ((call (.stat name s.kernelPath)).mapErr (Err.ctx "kernel_path")).thenOk fun _ =>
      (call (.stat name s.rootfsPath)).mapErr (Err.ctx "rootfs_path")

def remove (name : String) : Code (Except Err Unit) := do
  let s ← call (.take name)
  call (.teardownPortMappings name)
  match s with
  | some m =>
    if m.guest then call (.stopGuest name)
    call (.stopMachine name m.pid)
  | none => pure ()
  call (.teardownTAP name)
  call (.releasePayloadSnapshot name)
  call (.removeStateDir name)
  return .ok ()

/-- Give a VM up after its process was started. -/
def abandon (name : String) (pid : Nat) (e : Err) : Code (Except Err Unit) := do
  call (.stopMachine name pid)
  call (.teardownTAP name)
  return .error e

/-- The last part of `EnsureRunning`: the process runs and is not yet in the map. -/
def register (name : String) (m : Machine) (desiredHash : String) : Code (Except Err Unit) := do
  let _ ← call (.applyPortMappings name)
  let _ ← call (.writeSpecHash name desiredHash)
  call (.register name m)
  return .ok ()

/-- From the start of the process on; only an image-mode VM has a guest agent. -/
def boot (name : String) (imageMode : Bool) (pid : Nat) (desiredHash : String) :
    Code (Except Err Unit) :=
  if imageMode then do
    match ← call (.waitForGuestReady name) with
    | .error e => abandon name pid (e.ctx ("guest agent on " ++ vmDir name ++ "/vsock.uds"))
    | .ok () =>
      match ← call (.startPayload name) with
      | .error e => abandon name pid (e.ctx "guest StartPayload")
      | .ok () => register name ⟨pid, true⟩ desiredHash
  else register name ⟨pid, false⟩ desiredHash

/-- `EnsureRunning` once no VM of the name is tracked. -/
def create (ps : Params) (name : String) (spec : MicroVMSpec) (desiredHash : String) :
    Code (Except Err Unit) :=
  ((call (.prepare name .mkdir)).mapErr (Err.ctx ("mkdir " ++ vmDir name))).thenOk fun _ =>
  (if spec.image ≠ "" then
    (call (.prepare name .payloadDisk)).mapErr (Err.ctx "prepare payload disk")
   else .ret (.ok ())).thenOk fun _ =>
  ((call (.prepare name .tap)).mapErr (Err.ctx ("tap setup " ++ ps.tapName name))).thenOk fun _ =>
  ((call (.prepare name .volumes)).mapErr (Err.ctx "prepare volumes")).thenOk fun _ =>
  ((call (.prepare name .serialLog)).mapErr
    (Err.ctx ("open serial log " ++ vmDir name ++ "/vm-serial.log"))).thenOk fun _ => do
    match ← call (.prepare name .newMachine) with
    | .error e =>
      call (.teardownTAP name)
      return .error (e.ctx ("new machine " ++ GoString.quote name))
    | .ok () =>
      match ← call (.start name) with
      | .error e =>
        call (.teardownTAP name)
        return .error (e.ctx ("start machine " ++ GoString.quote name))
      | .ok pid => boot name (spec.image ≠ "") pid desiredHash

def ensureRunning (ps : Params) (w : Workload) : Code (Except Err Unit) :=
  match w.microVm with
  | none =>
    .ret (.error (.text ("workload " ++ GoString.quote w.name ++ " has no micro_vm spec")))
  | some spec =>
    (validateSpec w.name spec).thenOk fun _ =>
    (Prog.ret (ps.specHash w) : Code _).thenOk fun desiredHash => do
      if ← call (.tracked w.name) then
        let runningHash ← call (.readSpecHash w.name)
        if runningHash = "" ∨ runningHash = desiredHash then return .ok ()
        else
          ((remove w.name).mapErr (Err.ctx ("remove stale vm " ++ GoString.quote w.name))).thenOk
            fun _ => create ps w.name spec desiredHash
      else create ps w.name spec desiredHash

def status (name : String) : Code (Except Err RuntimeStatus) := do
  if ← call (.tracked name) then return .ok ⟨.running, ""⟩
  else return .ok ⟨.unknown, ""⟩

def driver (ps : Params) : Driver Op Res where
  ensureRunning := ensureRunning ps
  remove := remove
  status := status

/-! ## One name's VM

What the driver's operations do to one name, apart from everything else on the host: the map entry
and the running processes. -/

@[simp] def Op.name : Op → String
  | .stat n _ | .tracked n | .readSpecHash n | .prepare n _ | .start n | .waitForGuestReady n
  | .startPayload n | .stopMachine n _ | .stopGuest n | .applyPortMappings n
  | .teardownPortMappings n | .teardownTAP n | .releasePayloadSnapshot n | .removeStateDir n
  | .writeSpecHash n _ | .register n _ | .take n => n

structure View where
  tracked : Option Machine
  live : List Nat

def view (n : String) (h : Host) : View := ⟨h.vms n, h.live n⟩

/-- The view after an operation about the name was answered. -/
@[simp] def View.next (v : View) : (o : Op) → Res o → View
  | .start _, .ok pid => { v with live := pid :: v.live }
  | .stopMachine _ pid, _ => { v with live := v.live.filter (· ≠ pid) }
  | .register _ m, _ => { v with tracked := some m }
  | .take _, _ => { v with tracked := none }
  | _, _ => v

/-- The answers the view leaves open. -/
@[simp] def View.Allows (v : View) : (o : Op) → Res o → Prop
  | .tracked _, b => b = v.tracked.isSome
  | .take _, m => m = v.tracked
  | _, _ => True

theorem view_other {o : Op} {n : String} (h : o.name ≠ n) (f : Option String) (s : Host) :
    view n (sem o f s).1 = view n s := by
  cases o with
  | start m =>
    cases f with
    | some x => rfl
    | none => exact congrArg (View.mk _) (Function.update_of_ne (Ne.symm h) _ _)
  | writeSpecHash m hash | removeStateDir m => cases f <;> rfl
  | readSpecHash m => simp only [sem]; split <;> rfl
  | stopMachine m pid => exact congrArg (View.mk _) (Function.update_of_ne (Ne.symm h) _ _)
  | register m x => exact congrArg (View.mk · _) (Function.update_of_ne (Ne.symm h) _ _)
  | take m => exact congrArg (View.mk · _) (Function.update_of_ne (Ne.symm h) _ _)
  | _ => rfl

theorem view_own {o : Op} {n : String} (h : o.name = n) (f : Option String) (s : Host) :
    view n (sem o f s).1 = (view n s).next o (sem o f s).2 ∧
      (view n s).Allows o (sem o f s).2 := by
  subst h
  cases o with
  | start m =>
    cases f with
    | some x => exact ⟨rfl, trivial⟩
    | none => exact ⟨by simp [sem, view], trivial⟩
  | writeSpecHash m hash | removeStateDir m => cases f <;> exact ⟨rfl, trivial⟩
  | readSpecHash m =>
    refine ⟨?_, trivial⟩
    simp only [sem]
    split <;> rfl
  | stopMachine m pid => exact ⟨by simp [sem, view], trivial⟩
  | register m x => exact ⟨by simp [sem, view], trivial⟩
  | take m => exact ⟨by simp [sem, view], rfl⟩
  | tracked m => exact ⟨rfl, rfl⟩
  | _ => exact ⟨rfl, trivial⟩

theorem view_others {n : String} {s s' : Host} (h : Others sem Op.name n s s') :
    view n s' = view n s := by
  induction h with
  | refl => rfl
  | tail _ hstep ih => obtain ⟨d, e, hd, rfl⟩ := hstep; rw [view_other hd, ih]

/-- Run alone on the view, the code returns only where `Q` holds. -/
def Follows {α : Type} (Q : α → View → Prop) : Code α → View → Prop
  | .ret a, v => Q a v
  | .call o k, v => ∀ r, v.Allows o r → Follows Q (k r) (v.next o r)

section Follows

variable {α β : Type} {Q Q' : α → View → Prop} {p : Code α} {v : View}

theorem Follows.safe {n : String} {s : Host} (h : Follows Q p (view n s))
    (hp : p.Only (Op.name · = n)) :
    p.Safe sem (Others sem Op.name n) (fun _ _ => True) (fun a s => Q a (view n s)) s := by
  induction p generalizing s with
  | ret a => intro s' hs; rw [view_others hs]; exact h
  | call o k ih =>
    intro s' hs
    refine ⟨trivial, ?_⟩
    intro f
    obtain ⟨hnext, hallows⟩ := view_own hp.1 f s'
    rw [view_others hs] at hnext hallows
    refine ih _ ?_ (hp.2 _)
    rw [hnext]
    exact h _ hallows

theorem Follows.mono (h : Follows Q p v) (hQ : ∀ a v, Q a v → Q' a v) : Follows Q' p v := by
  induction p generalizing v with
  | ret a => exact hQ a v h
  | call o k ih => exact fun r hr => ih r (h r hr)

theorem Follows.bind {f : α → Code β} {Q' : β → View → Prop}
    (h : Follows (fun a v => Follows Q' (f a) v) p v) : Follows Q' (p >>= f) v := by
  induction p generalizing v with
  | ret a => exact h
  | call o k ih => exact fun r hr => ih r (h r hr)

/-- The rule for sequences that end at an error. -/
theorem Follows.thenOk {E : Type} {p : Code (Except E α)} {f : α → Code (Except E β)}
    {Q' : Except E β → View → Prop} {v' : View}
    (h : Follows (fun _ w => w = v') p v) (hf : ∀ a, Follows Q' (f a) v')
    (herr : ∀ e, Q' (.error e) v') : Follows Q' (p.thenOk f) v := by
  refine Follows.bind (h.mono ?_)
  rintro r w rfl
  cases r with
  | ok a => exact hf a
  | error e => exact herr e

theorem Follows.mapErr {E E' : Type} {g : E → E'} {p : Code (Except E α)} {v' : View}
    (h : Follows (fun _ w => w = v') p v) : Follows (fun _ w => w = v') (p.mapErr g) v :=
  Follows.bind (h.mono fun _ _ hw => hw)

end Follows

/-- Every running process of the name is the one in the map. -/
def View.Quiet (v : View) : Prop := ∀ pid ∈ v.live, ∃ m, v.tracked = some m ∧ m.pid = pid

def View.none : View := ⟨Option.none, []⟩

theorem View.none_quiet : View.none.Quiet := fun _ h => nomatch h

theorem View.live_of_untracked {v : View} (hv : v.Quiet) (h : v.tracked = Option.none) :
    v = View.none := by
  obtain ⟨tracked, live⟩ := v
  cases h
  cases live with
  | nil => rfl
  | cons pid live => obtain ⟨m, hm, _⟩ := hv pid List.mem_cons_self; cases hm

theorem View.filter_tracked {v : View} (hv : v.Quiet) {m : Machine} (h : v.tracked = some m) :
    v.live.filter (· ≠ m.pid) = [] := by
  refine List.filter_eq_nil_iff.mpr ?_
  intro pid hpid
  obtain ⟨m', hm', hp⟩ := hv pid hpid
  rw [h] at hm'
  cases hm'
  simp [hp]

theorem remove_follows (n : String) {v : View} (hv : v.Quiet) :
    Follows (fun _ w => w = View.none) (remove n) v := by
  intro r hr
  have hr' : r = v.tracked := hr
  subst hr'
  intro _ _
  cases hm : v.tracked with
  | none =>
    have hlive : v.live = [] := congrArg View.live (View.live_of_untracked hv hm)
    intro _ _ _ _ _ _
    exact congrArg (View.mk Option.none) hlive
  | some m =>
    have hlive : v.live.filter (· ≠ m.pid) = [] := View.filter_tracked hv hm
    cases hg : m.guest with
    | true =>
      simp only [hg]
      intro _ _ _ _ _ _ _ _ _ _
      exact congrArg (View.mk Option.none) hlive
    | false =>
      simp only [hg]; intro _ _ _ _ _ _ _ _; exact congrArg (View.mk Option.none) hlive

theorem validateSpec_follows (n : String) (spec : MicroVMSpec) (v : View) :
    Follows (fun _ w => w = v) (validateSpec n spec) v := by
  unfold validateSpec
  split
  · split <;> rfl
  · split
    · rfl
    · refine Follows.thenOk rfl ?_ (fun _ => rfl)
      intro _
      split
      · rfl
      · refine Follows.thenOk rfl ?_ (fun _ => rfl)
        intro _
        refine Follows.thenOk (Follows.mapErr fun _ _ => rfl) ?_ (fun _ => rfl)
        intro _
        exact Follows.mapErr fun _ _ => rfl

theorem boot_follows (n hash : String) (imageMode : Bool) (pid : Nat) :
    Follows (fun _ w => w.Quiet) (boot n imageMode pid hash) ⟨none, [pid]⟩ := by
  have hreg : ∀ guest, Follows (fun _ w => w.Quiet) (register n ⟨pid, guest⟩ hash)
      ⟨none, [pid]⟩ := by
    intro guest _ _ _ _ _ _ p hp
    obtain rfl := List.mem_singleton.mp hp
    exact ⟨_, rfl, rfl⟩
  have hstop : ∀ e, Follows (fun _ w => w.Quiet) (abandon n pid e) ⟨none, [pid]⟩ := by
    intro e _ _ _ _ p hp; simp [View.next] at hp
  cases imageMode with
  | false => exact hreg false
  | true =>
    intro r _
    cases r with
    | error e => exact hstop _
    | ok _ =>
      intro r _
      cases r with
      | error e => exact hstop _
      | ok _ => exact hreg true

theorem create_follows (ps : Params) (n hash : String) (spec : MicroVMSpec) :
    Follows (fun _ w => w.Quiet) (create ps n spec hash) View.none := by
  have herr : ∀ e : Err, (fun (_ : Except Err Unit) (w : View) => w.Quiet) (.error e) View.none :=
    fun _ => View.none_quiet
  have hprep : ∀ (p : Preparation) (g : Err → Err),
      Follows (fun _ w => w = View.none) ((call (.prepare n p)).mapErr g) View.none :=
    fun _ _ => Follows.mapErr fun _ _ => rfl
  have himage : Follows (fun _ w => w = View.none) (if spec.image ≠ "" then
      (call (.prepare n .payloadDisk)).mapErr (Err.ctx "prepare payload disk")
      else .ret (.ok ())) View.none := by
    split
    · exact hprep _ _
    · rfl
  unfold create
  refine Follows.thenOk (hprep _ _) (fun _ => ?_) herr
  refine Follows.thenOk himage (fun _ => ?_) herr
  refine Follows.thenOk (hprep _ _) (fun _ => ?_) herr
  refine Follows.thenOk (hprep _ _) (fun _ => ?_) herr
  refine Follows.thenOk (hprep _ _) (fun _ => ?_) herr
  intro r _
  cases r with
  | error e => exact fun _ _ => View.none_quiet
  | ok _ =>
    intro r _
    cases r with
    | error e => exact fun _ _ => View.none_quiet
    | ok pid => exact boot_follows n hash _ pid

theorem ensureRunning_follows (ps : Params) (w : Workload) {v : View} (hv : v.Quiet) :
    Follows (fun _ w => w.Quiet) (ensureRunning ps w) v := by
  unfold ensureRunning
  cases w.microVm with
  | none => exact hv
  | some spec =>
    refine Follows.thenOk (validateSpec_follows w.name spec v) ?_ (fun _ => hv)
    intro _
    refine Follows.thenOk rfl ?_ (fun _ => hv)
    intro hash r hr
    have hr' : r = v.tracked.isSome := hr
    cases r with
    | true =>
      intro running _
      change Follows _ (if running = "" ∨ running = hash then .ret (Except.ok ()) else _) v
      split
      · exact hv
      · refine Follows.thenOk (Follows.mapErr (remove_follows w.name hv)) ?_
          (fun _ => View.none_quiet)
        exact fun _ => create_follows ps w.name hash spec
    | false =>
      have hnone : v = View.none := by
        refine View.live_of_untracked hv ?_
        exact Option.isNone_iff_eq_none.mp (by simpa using hr'.symm)
      rw [hnone]
      exact create_follows ps w.name hash spec

/-! ## The contract -/

section Only

variable (n : String)

theorem call_only {o : Op} (h : o.name = n) : (call o).Only (Op.name · = n) := ⟨h, fun _ => trivial⟩

theorem validateSpec_only (spec : MicroVMSpec) :
    (validateSpec n spec).Only (Op.name · = n) := by
  unfold validateSpec
  split
  · split <;> trivial
  · split
    · trivial
    · refine .thenOk trivial fun _ => ?_
      split
      · trivial
      · refine .thenOk trivial fun _ => ?_
        refine .thenOk (.mapErr (call_only n rfl)) fun _ => ?_
        exact .mapErr (call_only n rfl)

theorem remove_ops : (remove n).Only fun o => o.name = n ∧ ∀ m, o ≠ .start m := by
  refine ⟨⟨rfl, nofun⟩, fun s => ⟨⟨rfl, nofun⟩, fun _ => ?_⟩⟩
  have hrest : (do
      call (.teardownTAP n)
      call (.releasePayloadSnapshot n)
      call (.removeStateDir n)
      return .ok () : Code (Except Err Unit)).Only fun o => o.name = n ∧ ∀ m, o ≠ .start m :=
    ⟨⟨rfl, nofun⟩, fun _ => ⟨⟨rfl, nofun⟩, fun _ => ⟨⟨rfl, nofun⟩, fun _ => trivial⟩⟩⟩
  cases s with
  | none => exact hrest
  | some m =>
    cases hg : m.guest with
    | true =>
      simp only [hg]; exact ⟨⟨rfl, nofun⟩, fun _ => ⟨⟨rfl, nofun⟩, fun _ => hrest⟩⟩
    | false => simp only [hg]; exact ⟨⟨rfl, nofun⟩, fun _ => hrest⟩

theorem remove_only : (remove n).Only (Op.name · = n) := (remove_ops n).mono fun _ h => h.1

theorem boot_only (hash : String) (imageMode : Bool) (pid : Nat) :
    (boot n imageMode pid hash).Only (Op.name · = n) := by
  have hreg : ∀ m, (register n m hash).Only (Op.name · = n) :=
    fun _ => ⟨rfl, fun _ => ⟨rfl, fun _ => ⟨rfl, fun _ => trivial⟩⟩⟩
  have hstop : ∀ e, (abandon n pid e).Only (Op.name · = n) :=
    fun _ => ⟨rfl, fun _ => ⟨rfl, fun _ => trivial⟩⟩
  cases imageMode with
  | false => exact hreg _
  | true =>
    refine ⟨rfl, fun r => ?_⟩
    cases r with
    | error e => exact hstop _
    | ok _ =>
      refine ⟨rfl, fun r => ?_⟩
      cases r with
      | error e => exact hstop _
      | ok _ => exact hreg _

theorem create_only (ps : Params) (hash : String) (spec : MicroVMSpec) :
    (create ps n spec hash).Only (Op.name · = n) := by
  have hprep : ∀ (p : Preparation) (g : Err → Err),
      ((call (.prepare n p)).mapErr g).Only (Op.name · = n) :=
    fun _ _ => Prog.Only.mapErr (call_only n rfl)
  unfold create
  refine .thenOk (hprep _ _) fun _ => ?_
  refine .thenOk ?_ fun _ => ?_
  · split
    · exact hprep _ _
    · trivial
  refine .thenOk (hprep _ _) fun _ => ?_
  refine .thenOk (hprep _ _) fun _ => ?_
  refine .thenOk (hprep _ _) fun _ => ?_
  refine ⟨rfl, fun r => ?_⟩
  cases r with
  | error e => exact ⟨rfl, fun _ => trivial⟩
  | ok _ =>
    refine ⟨rfl, fun r => ?_⟩
    cases r with
    | error e => exact ⟨rfl, fun _ => trivial⟩
    | ok pid => exact boot_only n hash _ pid

end Only

theorem ensureRunning_only (ps : Params) (w : Workload) :
    (ensureRunning ps w).Only (Op.name · = w.name) := by
  unfold ensureRunning
  cases w.microVm with
  | none => trivial
  | some spec =>
    refine .thenOk (validateSpec_only w.name spec) fun _ => ?_
    refine .thenOk trivial fun hash => ?_
    refine ⟨rfl, fun r => ?_⟩
    cases r with
    | false => exact create_only w.name ps hash spec
    | true =>
      refine ⟨rfl, fun running => ?_⟩
      change Prog.Only _ (if running = "" ∨ running = hash then .ret (Except.ok ()) else _)
      split
      · trivial
      · exact .thenOk (.mapErr (remove_only w.name))
          fun _ => create_only w.name ps hash spec

theorem status_ops (n : String) : (status n).Only fun o => o.name = n ∧ ∀ m, o ≠ .start m := by
  refine ⟨⟨rfl, nofun⟩, fun r => ?_⟩
  cases r <;> trivial

theorem status_only (n : String) : (status n).Only (Op.name · = n) :=
  (status_ops n).mono fun _ h => h.1

/-- There is a map entry or a process of the name. -/
def Holds (h : Host) (n : String) : Prop := (h.vms n).isSome ∨ h.live n ≠ []

def contract (ps : Params) : Contract sem (some (driver ps)) where
  about := Op.name
  holds := Holds
  quiet h n := (view n h).Quiet
  unwired h := by cases h
  quiet_frame hd hq := by
    rw [view_other hd]; exact hq
  holds_frame {d e s n} hd hh := by
    have hview := view_other hd e s
    rw [view, view, View.mk.injEq] at hview
    rwa [Holds, hview.1, hview.2] at hh
  ensureRunning := by
    rintro d hd w
    cases hd
    refine ⟨ensureRunning_only ps w, ?_⟩
    intro s hs
    refine ((ensureRunning_follows ps w hs).safe (ensureRunning_only ps w)).mono ?_
    exact fun _ _ h => ⟨h, trivial⟩
  remove := by
    rintro d hd n
    cases hd
    refine ⟨remove_only n, ?_⟩
    intro s hs
    refine ((remove_follows n hs).safe (remove_only n)).mono ?_
    intro r s h
    have hquiet : (view n s).Quiet := by
      rw [h]; exact View.none_quiet
    refine ⟨hquiet, ?_⟩
    rintro - (hh | hh)
    · rw [show s.vms n = none from congrArg View.tracked h] at hh; cases hh
    · exact hh (congrArg View.live h)
  status := by
    rintro d hd n
    cases hd
    refine ⟨status_only n, ?_⟩
    intro s hs
    have hfollows : Follows (fun _ v => v.Quiet) (status n) (view n s) := by
      intro r _; cases r <;> exact hs
    refine (hfollows.safe (status_only n)).mono ?_
    exact fun _ _ h => ⟨h, trivial⟩

end Capsule.Workloads.Firecracker
