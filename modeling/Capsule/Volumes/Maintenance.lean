import Capsule.Atomic.Pool
import Capsule.Volumes.Service

/-!
# Capsule.Volumes.Maintenance

`Delete` and `Resize` of a volume beside the calls and passes that use it: any number of threads,
interleaved at their store operations and driver effects.

A volume call looks at the workload rows once and then runs its commands with nothing held. `watch`
follows what it has seen: it is `clear` from the look that found no user to its last command.

* `Careful`: the rows tell of every use when a volume call looks at them, and nobody takes a volume
  up that another call is about to work on.
* `Unused.step`: a volume stays unused over any operation that does not take it up.
* `maintenance_unused`: in every run whose steps are careful, no command of LVM or `e2fsck` is run
  on a volume in use.
-/

namespace Capsule.Volumes.Maintenance

open Atomic Keyed Workloads
open Containerd (VolumeMount)

inductive Call where
  | apply (w : Option Workload)
  | start (name : String)
  | stop (name : String)
  | delete (name : String)
  | tick
  | deleteVolume (name : String)
  | resizeVolume (name : String) (sizeMiB : Nat)

def Call.code (ps : Params) : Call → Code Unit
  | .apply w => do
    let _ ← onWorkloads (Workloads.apply w)
    return ()
  | .start name => do
    let _ ← onWorkloads (Workloads.start name)
    return ()
  | .stop name => do
    let _ ← onWorkloads (Workloads.stop (service ps) name)
    return ()
  | .delete name => do
    let _ ← onWorkloads (Workloads.delete (service ps) name)
    return ()
  | .tick => onWorkloads (Workloads.tick (service ps))
  | .deleteVolume name => do
    let _ ← Maintenance.delete ps name false
    return ()
  | .resizeVolume name sizeMiB => do
    let _ ← resize ps name sizeMiB
    return ()

/-- The volume a call is for. -/
def Call.volume : Call → Option String
  | .deleteVolume name | .resizeVolume name _ => some name
  | _ => none

def pool {ι : Type} (ps : Params) (calls : ι → Call) (s : State) : Pool ι Op Res State Unit :=
  ⟨s, fun i => (calls i).code ps⟩

/-- The volume a command of LVM or `e2fsck` works on. -/
def Op.maintains : Op → Option String
  | .lvremove name | .lvresize name _ | .ext4 .e2fsck _ name => some name
  | _ => none

/-- The same, and the reading of the size before. -/
def Op.handles : Op → Option String
  | .blockDeviceSize name _ => some name
  | o => o.maintains

/-- No row references the volume, no container has it mounted and no running VM has it attached. -/
def Unused (ps : Params) (s : State) (v : String) : Prop :=
  (∀ w ∈ s.host.rows.rows, ¬ References ps v w) ∧
    (∀ n, ¬ Mounted s.host v n) ∧ ∀ n, ¬ Attached s.host v n

/-- If the volume is in use, some row has it among its mounts. -/
def Accounted (ps : Params) (s : State) (v : String) : Prop :=
  ¬ Unused ps s v → ∃ w ∈ s.host.rows.rows, Mentions ps v w

/-- The operation takes the volume up: a row that references it, a mount, or a VM with it. -/
def Op.Claims (ps : Params) (v : String) : Op → Prop
  | .wl (.put w) => References ps v w
  | .wl (.drv .container (.mount _ vol _)) => vol = v
  | .wl (.drv .vm d) => (∃ n, d.op = .start n) ∧ v ∈ d.volumes
  | _ => False

/-- When a volume call looks at the rows they tell of every use of its volume, and nobody takes a
volume up that another call is about to work on. -/
def Careful {ι : Type} (ps : Params) (calls : ι → Call) (c : Pool ι Op Res State Unit) (i : ι)
    (_ : Env) : Prop :=
  (∀ v, (calls i).volume = some v → (c.thr i).next? = some (.wl .list) → Accounted ps c.st v) ∧
    ∀ j o o' v, j ≠ i → (c.thr j).next? = some o' → o'.handles = some v →
      (c.thr i).next? = some o → ¬ o.Claims ps v

/-- Whether a call has just seen that nothing mentions its volume. -/
inductive Watch where
  | unsure
  | clear
  deriving DecidableEq

/-- After an answer. -/
def Watch.next (ps : Params) (vol : Option String) (g : Watch) : (o : Op) → Res o → Watch
  | .wl .list, .ok ws =>
    if ∃ v ∈ vol, usersFromWorkloads ps ws v = [] then .clear else .unsure
  | o, _ => if o.handles.isSome then g else .unsure

/-- A call works on its own volume, and only while it is clear. -/
def watch (ps : Params) (vol : Option String) : Monitor Op Res Unit Watch where
  ok g o := ∀ v, o.handles = some v → g = .clear ∧ vol = some v
  next g o r := g.next ps vol o r
  fin _ _ := True

section Obeys

variable {α : Type} {ps : Params}

theorem ok_of_handles_none {vol : Option String} {Q : Watch → α → Prop} {g : Watch} {o : Op}
    (h : o.handles = none) : ((watch ps vol).post Q).ok g o := by
  intro v hv
  rw [h] at hv
  cases hv

theorem ok_of_clear {v : String} {Q : Watch → α → Prop} {o : Op} (h : o.handles = some v) :
    ((watch ps (some v)).post Q).ok .clear o := by
  intro u hu
  rw [h] at hu
  cases hu
  exact ⟨rfl, rfl⟩

theorem onWorkloads_obeys (p : Workloads.Code DRes α) {Q : Watch → α → Prop}
    (hQ : ∀ a, Q .unsure a) : (onWorkloads p).Obeys ((watch ps none).post Q) .unsure := by
  refine Prog.obeys_lift ?_ ?_ p hQ
  · intro o; exact ok_of_handles_none rfl
  · intro o r
    cases o with
    | list =>
      cases r with
      | error e => rfl
      | ok ws => simp [watch, Watch.next]
    | _ => rfl

variable {v : String}

theorem runExt4BinIn_obeys (bin : Ext4Bin) (dirs : List SbinDir)
    {Q : Watch → Except BinErr Unit → Prop} (hQ : ∀ g r, Q g r) {g : Watch}
    (hg : bin = .e2fsck → g = .clear) :
    (runExt4BinIn bin v dirs).Obeys ((watch ps (some v)).post Q) g := by
  induction dirs generalizing g with
  | nil => exact hQ _ _
  | cons dir dirs ih =>
    refine ⟨?_, ?_⟩
    · cases bin with
      | e2fsck => rw [hg rfl]; exact ok_of_clear rfl
      | resize2fs => exact ok_of_handles_none rfl
    · intro r
      have hnext : bin = .e2fsck →
          (watch ps (some v)).next g (.ext4 bin dir v) r = .clear := by
        rintro rfl
        exact hg rfl
      cases r with
      | ok _ => exact hQ _ _
      | error c => exact .ite (fun _ => ih hnext) fun _ => hQ _ _

theorem growFilesystem_obeys {Q : Watch → Except Err Unit → Prop} (hQ : ∀ g r, Q g r)
    (g : Watch) : (growFilesystem v).Obeys ((watch ps (some v)).post Q) g :=
  Prog.obeys_mapErr.mpr (runExt4BinIn_obeys .resize2fs _ (fun _ _ => hQ _ _) nofun)

theorem checkAndGrow_obeys {Q : Watch → Except Err Unit → Prop} (hQ : ∀ g r, Q g r) :
    (checkAndGrow v).Obeys ((watch ps (some v)).post Q) .clear := by
  refine Prog.obeys_bind.mpr (runExt4BinIn_obeys .e2fsck _ ?_ fun _ => rfl)
  intro g r
  cases r with
  | ok _ => exact growFilesystem_obeys hQ g
  | error b => exact .ite (fun _ => growFilesystem_obeys hQ g) fun _ => hQ _ _

theorem resizeVolumeLV_obeys (sizeMiB : Nat) {Q : Watch → Except Err Unit → Prop}
    (hQ : ∀ g r, Q g r) :
    (resizeVolumeLV v sizeMiB).Obeys ((watch ps (some v)).post Q) .clear := by
  refine ⟨ok_of_clear rfl, ?_⟩
  intro r
  cases r with
  | error c => exact hQ _ _
  | ok _ => exact checkAndGrow_obeys hQ

theorem answerDerived_obeys (u : Volume) {Q : Watch → Except Err Volume → Prop}
    (hQ : ∀ g r, Q g r) (g : Watch) :
    (answerDerived ps v u).Obeys ((watch ps (some v)).post Q) g :=
  ⟨ok_of_handles_none rfl, fun _ => hQ _ _⟩

theorem resizeUnused_obeys (sizeMiB : Nat) (u : Volume) {Q : Watch → Except Err Volume → Prop}
    (hQ : ∀ g r, Q g r) :
    (resizeUnused ps v sizeMiB u).Obeys ((watch ps (some v)).post Q) .clear := by
  refine ⟨ok_of_clear rfl, ?_⟩
  intro current
  refine .ite (fun _ => hQ _ _) fun _ => ?_
  refine .ite (fun _ => answerDerived_obeys u hQ _) fun _ => ?_
  refine Prog.obeys_thenOk.mpr (resizeVolumeLV_obeys sizeMiB ?_)
  intro g r
  cases r with
  | ok _ => exact answerDerived_obeys u hQ g
  | error e => exact hQ _ _

theorem removeVolumeLV_obeys {Q : Watch → Except Err Unit → Prop} (hQ : ∀ g r, Q g r) :
    (removeVolumeLV v).Obeys ((watch ps (some v)).post Q) .clear := by
  refine ⟨ok_of_clear rfl, ?_⟩
  intro r
  cases r with
  | ok _ => exact hQ _ _
  | error c => exact .ite (fun _ => hQ _ _) fun _ => hQ _ _

theorem refsTo_obeys {Q : Watch → Except Err (List String) → Prop} (herr : ∀ g e, Q g (.error e))
    (hok : ∀ g users, (users = [] → g = .clear) → Q g (.ok users)) (g : Watch) :
    (refsTo ps v).Obeys ((watch ps (some v)).post Q) g := by
  refine ⟨ok_of_handles_none rfl, ?_⟩
  intro r
  cases r with
  | error e => exact herr _ _
  | ok ws =>
    refine hok _ _ ?_
    intro hnone
    exact if_pos ⟨v, rfl, hnone⟩

theorem delete_obeys {Q : Watch → Except Err Unit → Prop} (hQ : ∀ g r, Q g r) :
    (Maintenance.delete ps v false).Obeys ((watch ps (some v)).post Q) .unsure := by
  refine ⟨ok_of_handles_none rfl, ?_⟩
  intro r
  cases r with
  | error e => exact .ite (fun _ => hQ _ _) fun _ => hQ _ _
  | ok u =>
    refine Prog.obeys_thenOk.mpr (refsTo_obeys (fun _ _ => hQ _ _) ?_ _)
    intro g users hclear
    refine .ite (fun _ => hQ _ _) fun hnone => ?_
    rw [hclear (by simpa using hnone)]
    refine Prog.obeys_thenOk.mpr (Prog.obeys_mapErr.mpr (removeVolumeLV_obeys ?_))
    intro g r
    cases r with
    | error e => exact hQ _ _
    | ok _ => exact ⟨ok_of_handles_none rfl, fun _ => hQ _ _⟩

theorem resize_obeys (sizeMiB : Nat) {Q : Watch → Except Err Volume → Prop} (hQ : ∀ g r, Q g r) :
    (resize ps v sizeMiB).Obeys ((watch ps (some v)).post Q) .unsure := by
  unfold resize
  cases validateName v with
  | error e => exact hQ _ _
  | ok _ =>
    cases validateSize sizeMiB with
    | error e => exact hQ _ _
    | ok _ =>
      refine ⟨ok_of_handles_none rfl, ?_⟩
      intro r
      cases r with
      | error e => exact hQ _ _
      | ok u =>
        refine Prog.obeys_thenOk.mpr (refsTo_obeys (fun _ _ => hQ _ _) ?_ _)
        intro g users hclear
        refine .ite (fun _ => hQ _ _) fun hnone => ?_
        rw [hclear (by simpa using hnone)]
        exact resizeUnused_obeys sizeMiB u hQ

end Obeys

theorem Call.code_obeys (ps : Params) (x : Call) :
    (x.code ps).Obeys (watch ps x.volume) .unsure := by
  cases x with
  | apply w => exact Prog.obeys_bind.mpr (onWorkloads_obeys _ fun _ => trivial)
  | start name => exact Prog.obeys_bind.mpr (onWorkloads_obeys _ fun _ => trivial)
  | stop name => exact Prog.obeys_bind.mpr (onWorkloads_obeys _ fun _ => trivial)
  | delete name => exact Prog.obeys_bind.mpr (onWorkloads_obeys _ fun _ => trivial)
  | tick => exact onWorkloads_obeys _ fun _ => trivial
  | deleteVolume name => exact Prog.obeys_bind.mpr (delete_obeys fun _ _ => trivial)
  | resizeVolume name sizeMiB =>
    exact Prog.obeys_bind.mpr (resize_obeys sizeMiB fun _ _ => trivial)

/-! ## One operation -/

section Step

variable {ps : Params} {s : State} {o : Op} {e : Env} {v : String}

theorem host_of_step (h : ∀ x, o ≠ .wl x) : (sem o e s).1.host = s.host := by
  cases o with
  | wl x => exact absurd rfl (h x)
  | getVolume name | putVolume u | deleteVolume name | populateDerived name path =>
    simp only [sem]
    split <;> rfl
  | blockDeviceSize name path => rfl
  | mkfs dir name | ext4 bin dir name =>
    simp only [sem, Env.command]
    split <;> rfl
  | lvcreate name sizeMiB =>
    simp only [sem, Env.command]
    split
    · rfl
    · split <;> rfl
  | lvremove name | lvresize name sizeMiB =>
    simp only [sem, Env.onVolume, Env.command]
    split
    · split <;> rfl
    · rfl

theorem Unused.step (h : Unused ps s v) (ho : ¬ o.Claims ps v) : Unused ps (sem o e s).1 v := by
  by_cases hwl : ∃ x, o = .wl x
  · obtain ⟨x, rfl⟩ := hwl
    refine ⟨?_, ?_, ?_⟩
    · intro w hw href
      rcases row_of_step hw with hw | rfl
      · exact h.1 w hw href
      · exact ho href
    · intro n hm
      rcases mounted_of_step hm with hm | ⟨readOnly, rfl⟩
      · exact h.2.1 n hm
      · exact ho rfl
    · intro n ha
      rcases attached_of_step ha with ha | ⟨d, rfl, hd, hv⟩
      · exact h.2.2 n ha
      · exact ho ⟨⟨n, hd⟩, hv⟩
  · unfold Unused
    rw [host_of_step fun x hx => hwl ⟨x, hx⟩]
    exact h

theorem not_claims_of_handles (h : o.handles = some v) (u : String) : ¬ o.Claims ps u := by
  cases o with
  | wl x => cases h
  | _ => exact id

theorem unused_of_list {ws : List Workload} (hst : (sem (.wl .list) e s).2 = .ok ws)
    (hnone : usersFromWorkloads ps ws v = []) (hacc : Accounted ps s v) : Unused ps s v := by
  have hws : ws = s.host.rows.list := by
    simp only [sem, Workloads.sem, Workloads.Env.answer] at hst
    split at hst
    · exact (Except.ok.inj hst).symm
    · cases hst
  by_contra hused
  obtain ⟨w, hw, hm⟩ := hacc hused
  have hmem : w.name ∈ usersFromWorkloads ps ws v := by
    refine List.mem_map_of_mem (List.mem_filter.mpr ⟨?_, by simpa using hm⟩)
    rw [hws]
    exact Table.mem_list.mpr hw
  rw [hnone] at hmem
  cases hmem

theorem Watch.next_of_ne {vol : Option String} (g : Watch) (h : o ≠ .wl .list) (r : Res o) :
    g.next ps vol o r = if o.handles.isSome then g else .unsure := by
  cases o with
  | wl x =>
    cases x with
    | list => exact absurd rfl h
    | _ => rfl
  | _ => rfl

/-- The step lemma for the call that makes the step: if it is clear afterwards, its volume is
unused. -/
theorem unused_own {vol : Option String} {g : Watch}
    (hok : ∀ u, o.handles = some u → g = .clear ∧ vol = some u)
    (hclear : ∀ u, g = .clear → o.handles = some u → Unused ps s u)
    (hacc : vol = some v → o = .wl .list → Accounted ps s v) (hv : vol = some v)
    (hnext : g.next ps vol o (sem o e s).2 = .clear) : Unused ps (sem o e s).1 v := by
  by_cases hlist : o = .wl .list
  · subst hlist
    have hacc := hacc hv rfl
    cases hr : (sem (.wl .list) e s).2 with
    | error err => rw [hr] at hnext; cases hnext
    | ok ws =>
      rw [hr] at hnext
      simp only [Watch.next] at hnext
      split at hnext
      · rename_i husers
        obtain ⟨u, hu, hnone⟩ := husers
        rw [hv] at hu
        cases hu
        exact (unused_of_list hr hnone hacc).step id
      · cases hnext
  · rw [Watch.next_of_ne g hlist] at hnext
    split at hnext
    · rename_i hsome
      obtain ⟨u, hu⟩ := Option.isSome_iff_exists.mp hsome
      have huv : u = v := Option.some.inj ((hok u hu).2.symm.trans hv)
      subst huv
      exact (hclear u hnext hu).step (not_claims_of_handles hu u)
    · cases hnext

end Step

section Runs

variable {ι : Type} [DecidableEq ι] {ps : Params} {calls : ι → Call}

/-- A call that is about to work on a volume, having found it clear, finds it unused. -/
def Safe (ps : Params) (g : ι → Watch) (c : Pool ι Op Res State Unit) : Prop :=
  ∀ j o v, g j = .clear → (c.thr j).next? = some o → o.handles = some v → Unused ps c.st v

theorem safe_step {g : ι → Watch} {c : Pool ι Op Res State Unit} {i : ι} {e : Env} {o : Op}
    {k : Res o → Code Unit} (hsafe : Safe ps g c)
    (hob : ∀ j, (c.thr j).Obeys (watch ps (calls j).volume) (g j)) (hp : c.thr i = .call o k)
    (hcare : Careful ps calls c i e) :
    Safe ps (Function.update g i ((g i).next ps (calls i).volume o (sem o e c.st).2))
      (c.step sem (i, e)) := by
  have hnext : (c.thr i).next? = some o := by rw [hp]; rfl
  intro j o' v hg hj hv
  have hobj : ((c.step sem (i, e)).thr j).Obeys (watch ps (calls j).volume)
      (Function.update g i ((g i).next ps (calls i).volume o (sem o e c.st).2) j) :=
    Pool.obeys_step hob hp e j
  have hst : (c.step sem (i, e)).st = (sem o e c.st).1 := by rw [Pool.step_call hp]
  rw [hst]
  by_cases hji : j = i
  · subst hji
    rw [Function.update_self] at hg
    have hokj := hob j
    rw [hp, Prog.obeys_call] at hokj
    -- the operation it is about to perform is one the monitor allows, so the volume is its own
    have hvol : (calls j).volume = some v := (hobj.next_ok hj v hv).2
    refine unused_own hokj.1 (fun u hgu hu => hsafe j o u hgu hnext hu) ?_ hvol hg
    intro hv ho
    exact hcare.1 v hv (by rw [hnext, ho])
  · rw [Function.update_of_ne hji] at hg
    rw [Pool.step_thr_ne hji] at hj
    exact (hsafe j o' v hg hj hv).step (hcare.2 j o o' v hji hj hv hnext)

end Runs

theorem Op.handles_of_maintains {o : Op} {v : String} (h : o.maintains = some v) :
    o.handles = some v := by
  cases o with
  | blockDeviceSize name path => cases h
  | _ => exact h

/-- In every run whose steps are all careful, a volume that `lvremove`, `lvresize` or `e2fsck` is
about to work on is mentioned by no row, mounted for no container and attached to no running VM. -/
theorem maintenance_unused {ι : Type} [DecidableEq ι] (ps : Params) (calls : ι → Call) (s : State)
    (w : List (ι × Env)) (hw : (pool ps calls s).Allowed sem (Careful ps calls) w) (i : ι) (o : Op)
    (v : String) (hi : (((pool ps calls s).run sem w).thr i).next? = some o)
    (ho : o.maintains = some v) : Unused ps ((pool ps calls s).run sem w).st v := by
  obtain ⟨g, hsafe, hob⟩ := Pool.run_monitor (M := fun j => watch ps (calls j).volume)
    (P := fun _ g c => Safe ps g c) (c := pool ps calls s) (g := fun _ => .unsure)
    (fun _ g c i e o k hsafe hob hp hcare => safe_step hsafe hob hp hcare)
    (fun j => Call.code_obeys ps (calls j)) (fun _ _ _ hg => nomatch hg) hw
  have hhandles := Op.handles_of_maintains ho
  exact hsafe i o v ((hob i).next_ok hi v hhandles).1 hi hhandles

def site (rest : Bytes) : Workload where
  name := "site"
  kind := .container
  container := some ⟨"nginx", rest⟩
  microVm := none
  status := none
  desiredState := .running

/-- No workloads, and the volume `data` of 64 MiB. -/
def withData : State where
  host := fresh
  volumes := Table.empty.put ⟨"data", hostPath "data", [], 0⟩
  lvs name := if name = "data" then some (64 * 1024 * 1024) else none

/-- `true` deletes the volume while `false` applies the workload. -/
def deleteBeside (v : String) (w : Workload) : Bool → Call
  | true => .deleteVolume v
  | false => .apply (some w)

def smoothEnv : Env := ⟨⟨none, {}⟩, none⟩

/-- The workload is applied between the look at the rows and `lvremove`. -/
def applyBetween : List (Bool × Env) :=
  [(true, smoothEnv), (true, smoothEnv), (false, smoothEnv), (false, smoothEnv)]

/-- A container has `data` mounted and a VM has `os` as its root drive; `old` is not in use. -/
def busy : State where
  host :=
    { rows := Table.empty.put (site [1])
      dev
        | .container =>
          { containers _ := none
            mounted n := if n = "site" then ["data"] else []
            dirs n := if n = "site" then ["data"] else [] }
        | .vm => ⟨⟨fun _ => none, fun n => if n = "vm" then [7] else [], fun _ => none, 8⟩,
            fun _ _ => ["os"]⟩ }
  volumes := Table.empty.put ⟨"old", hostPath "old", [], 0⟩
  lvs _ := some (64 * 1024 * 1024)

theorem busy_unused : Unused dataParams busy "old" := by
  refine ⟨by decide, ?_, ?_⟩
  · intro n hm
    simp only [Mounted, busy] at hm
    split at hm
    · exact absurd hm (by decide)
    · cases hm
  · rintro n ⟨pid, -, hv⟩
    have hroot : "old" ∈ ["os"] := hv
    exact absurd hroot (by decide)

/-- `old` is deleted while the container that has `data` is applied again. -/
theorem maintenance_unused_busy :
    Unused dataParams
      ((pool dataParams (deleteBeside "old" (site [1])) busy).run sem applyBetween).st "old" := by
  refine maintenance_unused dataParams (deleteBeside "old" (site [1])) busy applyBetween
    ⟨⟨?_, ?_⟩, ⟨?_, ?_⟩, ⟨?_, ?_⟩, ⟨?_, ?_⟩, trivial⟩ true (.lvremove "old") "old" rfl rfl
  · rintro v - h; cases h
  · rintro (_ | _) o o' v hne hj hv ho
    · cases hj; cases hv
    · exact absurd rfl hne
  · rintro v hv - hused
    cases hv
    exact absurd busy_unused hused
  · rintro (_ | _) o o' v hne hj hv ho
    · cases hj; cases hv
    · exact absurd rfl hne
  · rintro v h; cases h
  · rintro (_ | _) o o' v hne hj hv ho
    · exact absurd rfl hne
    · cases ho; exact id
  · rintro v h; cases h
  · rintro (_ | _) o o' v hne hj hv ho
    · exact absurd rfl hne
    · cases ho
      cases hj
      cases hv
      exact (by decide : ¬ References dataParams "old" (merge (site [1]) (some (site [1]))))

/-- `Delete` has seen no user, the workload is applied with the volume, and `lvremove` is next. -/
theorem lvremove_of_referenced :
    ¬ ∀ (ps : Params) (calls : Bool → Call) (vols : Table Volume.name) (lvs : String → Option Nat)
      (w : List (Bool × Env)) (i : Bool) (o : Op) (v : String),
      (((pool ps calls ⟨fresh, vols, lvs⟩).run sem w).thr i).next? = some o →
      o.maintains = some v → Unused ps ((pool ps calls ⟨fresh, vols, lvs⟩).run sem w).st v := by
  intro h
  have hunused := h dataParams (deleteBeside "data" (site [1])) withData.volumes withData.lvs
    applyBetween true (.lvremove "data") "data" rfl rfl
  exact hunused.1 (site [1]) (by decide) (by decide)

end Capsule.Volumes.Maintenance
