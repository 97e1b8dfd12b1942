import Capsule.Workloads.Containerd

/-!
# Capsule.Workloads.Restart

The pass after a container has crashed, when nothing fails but a second mount of a device on its
mount point. A container that is not running is deleted without its volumes being unmounted.

* `ensureBound`: `EnsureRunning` with the bind mounts of the container it creates;
  `ensureBound_unit` says it is the same code.
* `ensureBound_run`: a container that is down is created again with all its mounts, or the call
  fails.
* `crashed_restarts_iff`: it is created exactly if none of its volumes is mounted any more and the
  spec names none twice.
-/

namespace Capsule.Workloads.Containerd

open Atomic

/-- An OCI mount of type `bind`, with the options `rbind` and `ro` or `rw`. -/
structure Bind where
  source : String
  destination : String
  readOnly : Bool
  deriving DecidableEq

/-- A mount that has what it needs. -/
def VolumeMount.Declared (m : VolumeMount) : Prop := m.volumeName ≠ "" ∧ m.mountPath ≠ ""

def VolumeMount.bind (name : String) (m : VolumeMount) : Bind :=
  ⟨mountPoint name m.volumeName, m.mountPath, m.readOnly⟩

def bindMounts (name : String) (ms : List VolumeMount) (mounted : List String) : List Bind :=
  (ms.filter fun m => m.volumeName ∈ mounted ∧ m.mountPath ≠ "").map (VolumeMount.bind name)

def mountAndBind (ps : Params) (name : String) (spec : ContainerSpec) (desiredHash : String) :
    Code (Except Err (List Bind)) := do
  match ← mountContainerVolumes name (ps.mounts spec) [] with
  | (mounted, some e) =>
    unmountContainerVolumes name mounted
    return .error (e.ctx "mount volumes")
  | (mounted, none) =>
    (createContainer ps name spec desiredHash).thenOk fun _ =>
      .ret (.ok (bindMounts name (ps.mounts spec) mounted))

/-- `EnsureRunning`, with the bind mounts of the container it creates; `none` when it runs. -/
def ensureBound (ps : Params) (w : Workload) : Code (Except Err (Option (List Bind))) :=
  match w.container with
  | none =>
    .ret (.error (.text ("workload " ++ GoString.quote w.name ++ " has no container spec")))
  | some spec =>
    (Prog.ret (ps.specHash w) : Code _).thenOk fun desiredHash =>
    (settle w.name desiredHash).thenOk fun running =>
    if running then .ret (.ok none)
    else (pullImage w.name spec.image).thenOk fun _ =>
      (mountAndBind ps w.name spec desiredHash).thenOk fun binds => .ret (.ok (some binds))

theorem ensureBound_unit (ps : Params) (w : Workload) :
    ((ensureBound ps w).thenOk fun _ => .ret (.ok ())) = ensureRunning ps w := by
  have hmount : ∀ name spec hash, ((mountAndBind ps name spec hash).thenOk fun _ => .ret (.ok ())) =
      mountAndCreate ps name spec hash := by
    intro name spec hash
    unfold mountAndBind mountAndCreate
    rw [Prog.thenOk, Prog.bind_assoc]
    refine congrArg _ (funext ?_)
    rintro ⟨mounted, _ | e⟩
    · exact (Prog.thenOk_assoc _ _ _).trans (Prog.thenOk_ret _)
    · exact Prog.bind_assoc _ _ _
  unfold ensureBound ensureRunning
  cases w.container with
  | none => rfl
  | some spec =>
    dsimp only
    rw [Prog.thenOk_assoc]
    refine congrArg _ (funext fun hash => ?_)
    rw [Prog.thenOk_assoc]
    refine congrArg _ (funext fun running => ?_)
    cases running with
    | true => rfl
    | false =>
      refine (Prog.thenOk_assoc _ _ _).trans (congrArg _ (funext fun _ => ?_))
      rw [Prog.thenOk_assoc]
      exact hmount w.name spec hash

/-- The operation does what it can. -/
def Sound (e : Env) : Prop := e.fault = none

/-- The host among answers of that kind. -/
abbrev soundSem : Sem Op Res Host { e // Sound e } := sem.given Sound

theorem guard_sound {α : Type} {e : Env} (he : Sound e) (h : Host) (act : Host × Except Fault α) :
    e.guard h act = act := by
  rw [Env.guard, he]

theorem answer_sound {α : Type} {e : Env} (he : Sound e) (a : α) : e.answer a = .ok a := by
  rw [Env.answer, he]

/-- The volumes of these mounts. -/
def named (ms : List VolumeMount) : List String :=
  (ms.map VolumeMount.volumeName).filter (· ≠ "")

/-- They are all different, and none is mounted for the workload. -/
def Free (name : String) (ms : List VolumeMount) (h : Host) : Prop :=
  (named ms).Nodup ∧ ∀ v ∈ named ms, v ∉ h.mounted name

section Run

variable {h : Host} {name : String}

/-- What mounting a list of volumes comes to. -/
structure MountRun (name : String) (ms : List VolumeMount) (vs : List String) (h : Host)
    (r : List String × Option Err) (h' : Host) : Prop where
  containers : h'.containers = h.containers
  kept : ∀ v ∈ vs, v ∈ r.1
  free : Free name ms h → r.2 = none ∧ ∀ v ∈ named ms, v ∈ r.1
  taken : r.2 = none → Free name ms h

theorem named_cons {m : VolumeMount} {ms : List VolumeMount} (hm : m.volumeName ≠ "") :
    named (m :: ms) = m.volumeName :: named ms := by
  simp [named, hm]

theorem MountRun.cons {m : VolumeMount} {ms : List VolumeMount} {vs : List String} {h₁ h' : Host}
    {r : List String × Option Err} (hm : m.volumeName ≠ "")
    (hcontainers : h₁.containers = h.containers) (hfree : m.volumeName ∉ h.mounted name)
    (hmounted : h₁.mounted name = m.volumeName :: h.mounted name)
    (hr : MountRun name ms (vs.insert m.volumeName) h₁ r h') :
    MountRun name (m :: ms) vs h r h' := by
  have hiff : Free name (m :: ms) h ↔ Free name ms h₁ := by
    rw [Free, Free, named_cons hm, hmounted, List.nodup_cons]
    constructor
    · rintro ⟨⟨hnew, hnodup⟩, hall⟩
      refine ⟨hnodup, fun v hv => List.not_mem_cons_of_ne_of_not_mem ?_
        (hall v (List.mem_cons_of_mem _ hv))⟩
      rintro rfl
      exact hnew hv
    · rintro ⟨hnodup, hall⟩
      refine ⟨⟨fun hv => hall _ hv List.mem_cons_self, hnodup⟩, fun v hv => ?_⟩
      rcases List.mem_cons.mp hv with rfl | hv
      · exact hfree
      · exact fun hmem => hall v hv (List.mem_cons_of_mem _ hmem)
  refine ⟨hr.containers.trans hcontainers, fun v hv => hr.kept v (List.mem_insert_of_mem hv),
    fun hfree => ?_, fun hnone => hiff.mpr (hr.taken hnone)⟩
  obtain ⟨hnone, hall⟩ := hr.free (hiff.mp hfree)
  refine ⟨hnone, fun v hv => ?_⟩
  rw [named_cons hm] at hv
  rcases List.mem_cons.mp hv with rfl | hv
  · exact hr.kept _ List.mem_insert_self
  · exact hall v hv

theorem mountContainerVolumes_run (ms : List VolumeMount) (vs : List String) :
    (mountContainerVolumes name ms vs).Leads soundSem
      (MountRun name ms vs h) h := by
  induction ms generalizing vs h with
  | nil =>
    exact .ret ⟨rfl, fun _ => id, fun _ => ⟨rfl, fun _ hv => by cases hv⟩,
      fun _ => ⟨List.nodup_nil, fun _ hv => by cases hv⟩⟩
  | cons m ms ih =>
    unfold mountContainerVolumes
    split
    · rename_i hm
      refine (ih vs).mono fun r h' hr => ?_
      have hnamed : named (m :: ms) = named ms := by simp [named, hm]
      exact ⟨hr.containers, hr.kept, by rw [Free, hnamed]; exact hr.free,
        by rw [Free, hnamed]; exact hr.taken⟩
    · rename_i hm
      refine .given_call (fun _ he => congrArg (h, ·) (answer_sound he ())) trivial ?_
      let h₁ : Host :=
        { h with dirs := Function.update h.dirs name ((h.dirs name).insert m.volumeName) }
      refine .given_call (x := (h₁, .ok ())) (fun _ he => guard_sound he h _) trivial ?_
      by_cases hv : m.volumeName ∈ h.mounted name
      · have hmount : ∀ e, Sound e → sem (.mount name m.volumeName m.readOnly) e h₁ =
            (h₁, .error ⟨false, "already mounted or mount point busy"⟩) :=
          fun _ he => (guard_sound he h₁ _).trans (if_pos hv)
        refine .given_call hmount trivial ?_
        refine .ret ⟨rfl, fun _ => id, ?_, fun h => by cases h⟩
        rintro ⟨-, hall⟩
        rw [named_cons hm] at hall
        exact absurd hv (hall _ List.mem_cons_self)
      · let mounted := Function.update h₁.mounted name (m.volumeName :: h₁.mounted name)
        let h₂ : Host := { h₁ with mounted := mounted }
        have hmount : ∀ e, Sound e →
            sem (.mount name m.volumeName m.readOnly) e h₁ = (h₂, .ok ()) :=
          fun _ he => (guard_sound he h₁ _).trans (if_neg hv)
        refine .given_call hmount trivial ?_
        refine (ih (h := h₂) (vs.insert m.volumeName)).mono fun r h' hr => ?_
        have hcontainers : h₂.containers = h.containers := rfl
        have hmounted : h₂.mounted name = m.volumeName :: h.mounted name :=
          Function.update_self _ _ _
        exact MountRun.cons hm hcontainers hv hmounted hr

theorem onContainer_some {c : Container} (hc : h.containers name = some c)
    (f : Container → Option Container × Except Fault Unit) :
    h.onContainer name f =
      ({ h with containers := Function.update h.containers name (f c).1 }, (f c).2) := by
  rw [Host.onContainer, hc]

theorem taskOf_some {c : Container} (hc : h.containers name = some c) :
    h.taskOf name = match c.task with
      | none => .error (missing "task")
      | some st => .ok st := by
  rw [Host.taskOf, hc]
  rfl

def Running (name : String) (h : Host) : Prop :=
  ∃ l, h.containers name = some ⟨l, some .running⟩

theorem startTask_run {l : Labels} (mode : NetworkMode) (pm : List CNIMapping)
    (hc : h.containers name = some ⟨l, some .created⟩) :
    (startTask name mode pm).Leads soundSem
      (fun r h' => r = .ok () ∧ Running name h') h := by
  refine .given_call
    (fun _ he => (guard_sound he h _).trans (onContainer_some hc runTask)) trivial ?_
  exact .ret ⟨rfl, l, Function.update_self _ _ _⟩

theorem connectTask_run {l : Labels} (mode : NetworkMode) (pm : List CNIMapping)
    (hc : h.containers name = some ⟨l, some .created⟩) :
    (connectTask name mode pm).Leads soundSem
      (fun r h' => r = .ok () ∧ Running name h') h := by
  unfold connectTask
  split
  · refine .call ⟨trivial, fun e₀ => ?_⟩
    rw [show (soundSem (.cniTeardown name pm) e₀ h).1 = h from rfl]
    refine .given_call (fun _ he => congrArg (h, ·) (answer_sound he ())) trivial ?_
    exact startTask_run mode pm hc
  · exact startTask_run mode pm hc

theorem createContainer_run (ps : Params) (spec : ContainerSpec) (hash : String)
    (hnone : h.containers name = none) :
    (createContainer ps name spec hash).Leads soundSem
      (fun r h' => r = .ok () ∧ Running name h') h := by
  let l := ps.labels hash spec
  let h₁ : Host := { h with containers := Function.update h.containers name (some ⟨l, none⟩) }
  have h₁c : h₁.containers name = some ⟨l, none⟩ := Function.update_self _ _ _
  have hnew : ∀ e, Sound e → sem (.newContainer name l) e h = (h₁, .ok ()) := by
    intro e he
    refine (guard_sound he h _).trans (if_neg ?_)
    rw [hnone]
    exact Bool.false_ne_true
  refine .given_call hnew trivial ?_
  refine .given_call (fun _ he => congrArg (h₁, ·) (answer_sound he ())) trivial ?_
  refine .given_call
    (fun _ he => (guard_sound he h₁ _).trans (onContainer_some h₁c addTask)) trivial ?_
  exact connectTask_run _ _ (Function.update_self _ _ _)

def Down (name : String) (h : Host) : Prop :=
  ∀ c, h.containers name = some c → c.task = none ∨ ∃ n, c.task = some (.stopped n)

/-- The container is gone and its volumes are as they were. -/
def Gone (name : String) (h : Host) (r : Except Err Bool) (h' : Host) : Prop :=
  r = .ok false ∧ h'.containers name = none ∧ h'.mounted = h.mounted

theorem deleteStale_run {l : Labels} (hc : h.containers name = some ⟨l, none⟩) :
    (deleteStale name).Leads soundSem (Gone name h) h := by
  refine .given_call
    (fun _ he => (guard_sound he h _).trans (onContainer_some hc deleteTaskless)) trivial ?_
  exact .ret ⟨rfl, Function.update_self _ _ _, rfl⟩

theorem afterExit_stopped {l : Labels} {n : Nat} (exited : Option Nat)
    (hc : h.containers name = some ⟨l, some (.stopped n)⟩) :
    ∃ n', (h.afterExit name exited).containers name = some ⟨l, some (.stopped n')⟩ := by
  cases exited with
  | none => exact ⟨n, hc⟩
  | some status =>
    refine ⟨status, ?_⟩
    rw [Host.afterExit, onContainer_some hc]
    exact Function.update_self _ _ _

theorem settle_run (hash : String) (hdown : Down name h) :
    (settle name hash).Leads soundSem (Gone name h) h := by
  refine .given_call (fun _ he => guard_sound he h _) trivial ?_
  cases hc : h.containers name with
  | none => exact .ret ⟨rfl, hc, rfl⟩
  | some c =>
    refine .call ⟨trivial, ?_⟩
    rintro ⟨e, he⟩
    have hinfo : (soundSem (.info name) ⟨e, he⟩ h).1 = h := by
      simp only [Sem.given, sem]
      split <;> rfl
    rw [hinfo]
    refine .given_call (fun _ he => guard_sound he h _) trivial ?_
    rw [taskOf_some hc]
    dsimp only
    obtain ⟨l, task⟩ := c
    rcases hdown _ hc with rfl | ⟨n, rfl⟩
    · exact deleteStale_run hc
    · refine .call ⟨trivial, ?_⟩
      rintro ⟨e, he⟩
      obtain ⟨n', hstopped⟩ := afterExit_stopped e.exited hc
      rw [show sem.given Sound (.taskStatus name) ⟨e, he⟩ h = _ from guard_sound he _ _,
        taskOf_some hstopped]
      refine .given_call
        (fun _ he => (guard_sound he _ _).trans (onContainer_some hstopped deleteTask)) trivial ?_
      refine (deleteStale_run (Function.update_self _ _ _)).mono fun r h' hr => ?_
      exact ⟨hr.1, hr.2.1, hr.2.2.trans (afterExit_mounted h name e.exited)⟩

/-- What comes of a container that is down: it is created again with all its mounts, or the call
fails. -/
structure Again (name : String) (ms : List VolumeMount) (h : Host)
    (r : Except Err (Option (List Bind))) (h' : Host) : Prop where
  free : Free name ms h → ∃ binds, r = .ok (some binds) ∧ Running name h' ∧
    ∀ m ∈ ms, m.Declared → m.bind name ∈ binds
  taken : ¬ Free name ms h → ∃ err, r = .error err

theorem mem_bindMounts {ms : List VolumeMount} {vs : List String}
    (hvs : ∀ v ∈ named ms, v ∈ vs) {m : VolumeMount} (hm : m ∈ ms) (hd : m.Declared) :
    m.bind name ∈ bindMounts name ms vs := by
  refine List.mem_map_of_mem (List.mem_filter.mpr ⟨hm, decide_eq_true ⟨hvs _ ?_, hd.2⟩⟩)
  exact List.mem_filter.mpr ⟨List.mem_map_of_mem hm, decide_eq_true hd.1⟩

theorem mountAndBind_run (ps : Params) (spec : ContainerSpec) (hash : String)
    (hnone : h.containers name = none) :
    (mountAndBind ps name spec hash).Leads soundSem
      (fun r h' => Again name (ps.mounts spec) h (r.map some) h') h := by
  refine .andThen
    ((mountContainerVolumes_run (h := h) (ps.mounts spec) []).mono ?_)
  rintro ⟨vs, _ | e⟩ h' hr
  · refine .andThenOk
      ((createContainer_run ps spec hash (hr.containers ▸ hnone)).mono ?_)
    rintro _ h'' ⟨rfl, hrunning⟩
    have hfree := hr.taken rfl
    refine .ret ⟨fun _ => ⟨_, rfl, hrunning, fun m hm hd => ?_⟩,
      fun hnot => absurd hfree hnot⟩
    exact mem_bindMounts (hr.free hfree).2 hm hd
  · refine .andThen ((Prog.safe_true _ _).mono fun _ _ _ => ?_)
    refine .ret ⟨fun hfree => ?_, fun _ => ⟨_, rfl⟩⟩
    exact absurd (hr.free hfree).1 (Option.some_ne_none e)

theorem ensureBound_run (ps : Params) (w : Workload) {spec : ContainerSpec} {hash : String}
    (hspec : w.container = some spec) (hhash : ps.specHash w = .ok hash) (hdown : Down w.name h) :
    (ensureBound ps w).Leads soundSem
      (Again w.name (ps.mounts spec) h) h := by
  unfold ensureBound
  rw [hspec]
  dsimp only
  rw [hhash]
  change ((settle w.name hash).thenOk _).Safe _ _ _ _ h
  refine .andThenOk ((settle_run hash hdown).mono ?_)
  rintro _ h₁ ⟨rfl, hnone, hmounted⟩
  refine .given_call (fun _ he => congrArg (h₁, ·) (answer_sound he ())) trivial ?_
  refine .andThenOk ((mountAndBind_run ps spec hash hnone).mono ?_)
  intro r h₂ hr
  have hfree : Free w.name (ps.mounts spec) h₁ = Free w.name (ps.mounts spec) h := by
    rw [Free, Free, hmounted]
  have hagain : Again w.name (ps.mounts spec) h (r.map some) h₂ :=
    ⟨hfree ▸ hr.free, hfree ▸ hr.taken⟩
  cases r with
  | ok binds => exact .ret hagain
  | error err => exact .ret hagain

end Run

/-- The task of a name has exited with this status, or is gone. -/
def Host.crash (h : Host) (name : String) (left : Option Nat) : Host :=
  let crashed := (h.containers name).map fun c => { c with task := left.map TaskState.stopped }
  { h with containers := Function.update h.containers name crashed }

theorem crash_down (h : Host) (name : String) (left : Option Nat) :
    Down name (h.crash name left) := by
  intro c hc
  rw [Host.crash] at hc
  dsimp only at hc
  rw [Function.update_self] at hc
  obtain ⟨c', -, rfl⟩ := Option.map_eq_some_iff.mp hc
  cases left with
  | none => exact .inl rfl
  | some n => exact .inr ⟨n, rfl⟩

/-- The next pass after a crash, when nothing fails: `EnsureRunning` returns nil with the container
running and all its mounts bound exactly when no volume of it is mounted any more. -/
theorem crashed_restarts_iff (ps : Params) (w : Workload) (spec : ContainerSpec)
    (hspec : w.container = some spec) (h h₁ : Host) (es : Nat → Env)
    (hup : (ensureRunning ps w).complete sem es h = (h₁, .ok ())) (left : Option Nat)
    (es' : Nat → Env) (hes' : ∀ n, Sound (es' n)) :
    (((ensureRunning ps w).complete sem es' (h₁.crash w.name left)).2 = .ok () ∧
      ∃ binds, ((ensureBound ps w).complete sem es' (h₁.crash w.name left)).2 =
          .ok (some binds) ∧
        Running w.name ((ensureRunning ps w).complete sem es' (h₁.crash w.name left)).1 ∧
        ∀ m ∈ ps.mounts spec, m.Declared → m.bind w.name ∈ binds) ↔
      Free w.name (ps.mounts spec) h₁ := by
  obtain ⟨hash, hhash⟩ : ∃ hash, ps.specHash w = .ok hash := by
    cases hhash : ps.specHash w with
    | ok hash => exact ⟨hash, rfl⟩
    | error err =>
      rw [ensureRunning, hspec] at hup
      dsimp only at hup
      rw [hhash] at hup
      cases hup
  have hrun := (ensureBound_run ps w hspec hhash (crash_down h₁ w.name left)).complete_given hes'
  have hsame : (ensureRunning ps w).complete sem es' (h₁.crash w.name left) =
      (((ensureBound ps w).complete sem es' (h₁.crash w.name left)).1,
        ((ensureBound ps w).complete sem es' (h₁.crash w.name left)).2.map fun _ => ()) := by
    rw [← ensureBound_unit]
    exact Prog.complete_thenOk_ret sem _ _ es' _
  rw [hsame]
  constructor
  · rintro ⟨-, binds, hbinds, -⟩
    by_contra hnot
    obtain ⟨err, herr⟩ := hrun.taken hnot
    rw [hbinds] at herr
    cases herr
  · intro hfree
    obtain ⟨binds, hbinds, hrunning, hall⟩ := hrun.free hfree
    refine ⟨?_, binds, hbinds, hrunning, hall⟩
    rw [hbinds]
    rfl

/-- A database on two volumes. -/
def dbParams : Params where
  specHash _ := .ok "5d41"
  mounts _ := [⟨"data", "/data", false⟩, ⟨"wal", "/wal", false⟩]
  networkMode _ := .unspecified
  ports _ := []
  toLower := id

def db : Workload where
  name := "db"
  kind := .container
  container := some ⟨"postgres", []⟩
  microVm := none
  status := none
  desiredState := .running

def idle : Host := ⟨fun _ => none, fun _ => [], fun _ => []⟩

/-- The database runs, and its volumes have been unmounted by hand. -/
def unmounted : Host :=
  { idle with containers := fun _ => some ⟨⟨"5d41", "none", []⟩, some .running⟩ }

theorem crashed_restarts_unmounted :
    ∃ binds, ((ensureBound dbParams db).complete sem (fun _ => {})
        (unmounted.crash "db" (some 1))).2 = .ok (some binds) ∧
      ∀ m ∈ dbParams.mounts ⟨"postgres", []⟩, m.Declared → m.bind "db" ∈ binds := by
  have hrestart := (crashed_restarts_iff dbParams db ⟨"postgres", []⟩ rfl unmounted unmounted
    (fun _ => {}) rfl (some 1) (fun _ => {}) fun _ => rfl).mpr ⟨by decide, by decide⟩
  obtain ⟨-, binds, hbinds, -, hall⟩ := hrestart
  exact ⟨binds, hbinds, hall⟩

/-- The first `EnsureRunning` mounts the volumes; the task exits; the second cannot mount them. -/
theorem restart_refused :
    let pass := fun h => (ensureRunning dbParams db).complete sem (fun _ => {}) h
    let up := pass idle
    let again := pass (up.1.crash "db" (some 1))
    up.2 = .ok () ∧ (up.1.containers "db").bind Container.task = some .running ∧
      again.2 = .error (((Err.text "already mounted or mount point busy").ctx
        "mount /dev/capsule/vol-data at /run/capsule/mounts/db/data").ctx "mount volumes") ∧
      again.1.containers "db" = none ∧ (pass again.1).2 = .ok () := by
  decide

end Capsule.Workloads.Containerd
