import Mathlib.Data.List.Induction
import Capsule.Atomic.Steps
import Capsule.Workloads.Containerd

/-!
# Capsule.Workloads.CniPaired

CNI's ADD and DEL on one workload name: what `cniSetup` was called with, `cniTeardown` has to be
called with before the next `cniSetup` and before a `Remove` returns nil.

The driver learns the mappings from the labels of the container (`PortMap`), so that what is set up
has to stand there (`Tracked`).

* `Paired`, `outstanding`: the property, on the trace of CNI calls, and what is set up at its end.
* `ensureRunning_tracked`, `remove_tracked`: the two calls keep `Tracked`, if they are `Careful`.
* `cni_paired`: so every run of careful calls is paired.
-/

namespace Capsule.Workloads.Containerd

open Atomic

/-- What a run shows of one name: the CNI calls, and the calls of `Remove` that returned nil. -/
inductive Event where
  | setup (pm : List CNIMapping) (ok : Bool)
  | teardown (pm : List CNIMapping)
  | removed
  deriving DecidableEq

/-- The event of an operation on the name. -/
def Event.of (name : String) : (o : Op) → Res o → Option Event
  | .cniSetup n pm, r => if n = name then some (.setup pm r.isOk) else none
  | .cniTeardown n pm, _ => if n = name then some (.teardown pm) else none
  | _, _ => none

/-- Before the event nothing may be set up. -/
def Event.closes : Event → Bool
  | .teardown _ => false
  | _ => true

/-- Between a `cniSetup` that succeeded and the next one, and before `Remove` returns nil, there is
a `cniTeardown` with the same mappings. -/
def Paired (t : List Event) : Prop :=
  ∀ a pm b x c, t = a ++ .setup pm true :: (b ++ x :: c) → x.closes → .teardown pm ∈ b

def Event.after (pms : List (List CNIMapping)) : Event → List (List CNIMapping)
  | .setup pm true => pm :: pms
  | .teardown pm => pms.filter (· ≠ pm)
  | _ => pms

/-- The mappings that are set up at the end of a trace. -/
def outstanding (t : List Event) : List (List CNIMapping) := t.foldl Event.after []

@[simp] theorem outstanding_snoc (t : List Event) (x : Event) :
    outstanding (t ++ [x]) = x.after (outstanding t) := by
  simp [outstanding]

theorem mem_after {pms : List (List CNIMapping)} {x : Event} {pm : List CNIMapping} :
    pm ∈ x.after pms ↔ x = .setup pm true ∨ pm ∈ pms ∧ x ≠ .teardown pm := by
  cases x with
  | setup pm' ok => cases ok <;> simp [Event.after, @eq_comm _ pm]
  | teardown pm' => simp [Event.after, @eq_comm _ pm]
  | removed => simp [Event.after]

theorem mem_outstanding {t : List Event} {pm : List CNIMapping} {a b : List Event}
    (ht : t = a ++ .setup pm true :: b) (hb : .teardown pm ∉ b) : pm ∈ outstanding t := by
  subst ht
  induction b using List.reverseRecOn with
  | nil => rw [outstanding_snoc, mem_after]; exact .inl rfl
  | append_singleton b x ih =>
    rw [List.mem_append, not_or, List.mem_singleton] at hb
    rw [← List.cons_append, ← List.append_assoc, outstanding_snoc, mem_after]
    exact .inr ⟨ih hb.1, fun h => hb.2 h.symm⟩

theorem Paired.snoc {t : List Event} {x : Event} (ht : Paired t)
    (hx : x.closes → outstanding t = []) : Paired (t ++ [x]) := by
  intro a pm b y c heq hy
  rcases List.eq_nil_or_concat c with rfl | ⟨c, z, rfl⟩
  · have heq' : t ++ [x] = (a ++ .setup pm true :: b) ++ [y] := by simpa using heq
    obtain ⟨ht', hxy⟩ := List.append_inj' heq' rfl
    cases hxy
    by_contra hb
    have hmem := mem_outstanding ht' hb
    rw [hx hy] at hmem
    cases hmem
  · have heq' : t ++ [x] = (a ++ .setup pm true :: (b ++ y :: c)) ++ [z] := by simpa using heq
    exact ht a pm b y c (List.append_inj' heq' rfl).1 hy

abbrev Traced := Host × List Event

/-- containerd and CNI, with the trace of one name. What the environment answers may depend on the
operation. -/
def cniSem (name : String) : Sem Op Res Traced (Op → Env) := fun o a s =>
  sem.logged (Event.of name) o (a o) s

inductive DriverCall where
  | ensureRunning (w : Workload)
  | remove

def DriverCall.code (ps : Params) (name : String) : DriverCall → Code (Except Err Unit)
  | .ensureRunning w => Containerd.ensureRunning ps { w with name := name }
  | .remove => Containerd.remove name

/-- What the return of a call adds to the trace. -/
def DriverCall.returned : DriverCall → Except Err Unit → List Event
  | .remove, .ok () => [.removed]
  | _, _ => []

structure Turn where
  call : DriverCall
  answers : Nat → Op → Env

def Turn.result (ps : Params) (name : String) (s : Traced) (x : Turn) : Traced × Except Err Unit :=
  (x.call.code ps name).complete (cniSem name) x.answers s

def Turn.run (ps : Params) (name : String) (s : Traced) (x : Turn) : Traced :=
  ((x.result ps name s).1.1,
    (x.result ps name s).1.2 ++ x.call.returned (x.result ps name s).2)

/-- The trace of some calls on a name, one after the other. -/
def cniTrace (ps : Params) (name : String) (h : Host) (xs : List Turn) : List Event :=
  (xs.foldl (Turn.run ps name) (h, [])).2

/-- The mappings `EnsureRunning` sets up for a spec, if any. -/
def Params.setsUp (ps : Params) (spec : ContainerSpec) : Option (List CNIMapping) :=
  if ps.networkMode spec = .bridge then some (gocniPortMappings ps.toLower (ps.ports spec))
  else none

/-- containerd says not-found only of what is not there, and tells the labels of what is. -/
structure Honest (name : String) (a : Op → Env) : Prop where
  load : ∀ f, (a (.loadContainer name)).fault = some f → f.notFound = false
  delete : ∀ f, (a (.deleteContainer name)).fault = some f → f.notFound = false
  info : (a (.info name)).fault = none

/-- The status is told, and the task does not turn out to have exited. -/
def StatusKept (name : String) (a : Op → Env) : Prop :=
  (a (.taskStatus name)).fault = none ∧ (a (.taskStatus name)).exited = none

/-- What a call has to keep to while `pm` is set up. -/
def Turn.KeepsTo (ps : Params) (name : String) (s : Traced) (x : Turn) (pm : List CNIMapping) :
    Prop :=
  match x.call with
  | .remove => (s.1.taskOf name).isOk ∧ ∀ n, Honest name (x.answers n)
  | .ensureRunning w => ∀ spec, w.container = some spec → ps.setsUp spec = some pm ∨
      s.1.taskOf name = .ok .running ∧
        ∀ n, Honest name (x.answers n) ∧ StatusKept name (x.answers n)

/-- The protocols of a spec survive the label. -/
def DriverCall.Plain (ps : Params) : DriverCall → Prop
  | .ensureRunning w => ∀ spec, w.container = some spec →
      ∀ m ∈ gocniPortMappings ps.toLower (ps.ports spec), Containerd.Plain m.protocol
  | .remove => True

def Turn.Careful (ps : Params) (name : String) (s : Traced) (x : Turn) : Prop :=
  x.call.Plain ps ∧ ∀ pm ∈ outstanding s.2, x.KeepsTo ps name s pm

def Op.Quiet : Op → Prop
  | .newContainer _ _ | .cniSetup _ _ => False
  | _ => True

theorem Op.quiet_of_creates (o : Op) (h : o.creates = false) : o.Quiet := by
  cases o with
  | newContainer name l => cases h
  | cniSetup name pm => cases h
  | _ => trivial

theorem Op.quiet_of_tasks (o : Op) (h : o.tasks = true) : o.Quiet :=
  o.quiet_of_creates (Op.of_tasks h).1

theorem Op.quiet_of_aside (o : Op) (h : o.aside = true) : o.Quiet :=
  o.quiet_of_creates (Op.creates_of_aside h)

/-- The container has the labels that one had before. -/
def SameLabels (h h' : Host) : Prop :=
  ∀ n c', h'.containers n = some c' → ∃ c, h.containers n = some c ∧ c.labels = c'.labels

theorem SameLabels.refl (h : Host) : SameLabels h h := fun _ c' hc => ⟨c', hc, rfl⟩

def KeepsLabels (f : Container → Option Container × Except Fault Unit) : Prop :=
  ∀ c c', (f c).1 = some c' → c.labels = c'.labels

theorem stopTask_labels (status : Nat) : KeepsLabels (stopTask status) := by
  intro c c' h; cases h; rfl

theorem deleteTask_labels : KeepsLabels deleteTask := by
  intro c c' h
  unfold deleteTask at h
  split at h <;> cases h <;> rfl

theorem deleteTaskless_labels : KeepsLabels deleteTaskless := by
  intro c c' h
  unfold deleteTaskless at h
  split at h <;> cases h
  rfl

theorem addTask_labels : KeepsLabels addTask := by
  intro c c' h
  unfold addTask at h
  split at h <;> cases h <;> rfl

theorem runTask_labels : KeepsLabels runTask := by
  intro c c' h
  unfold runTask at h
  split at h <;> cases h <;> rfl

theorem onContainer_labels {h : Host} {name : String}
    {f : Container → Option Container × Except Fault Unit} (hf : KeepsLabels f) :
    SameLabels h (h.onContainer name f).1 := by
  intro n c' hc
  unfold Host.onContainer at hc
  split at hc
  · exact ⟨c', hc, rfl⟩
  · rename_i c hname
    dsimp only at hc
    by_cases hn : n = name
    · subst hn; rw [Function.update_self] at hc; exact ⟨c, hname, hf c c' hc⟩
    · rw [Function.update_of_ne hn] at hc; exact ⟨c', hc, rfl⟩

theorem afterExit_labels {h : Host} {name : String} (exited : Option Nat) :
    SameLabels h (h.afterExit name exited) := by
  cases exited with
  | none => exact SameLabels.refl h
  | some status => exact onContainer_labels (stopTask_labels status)

theorem guard_labels {α : Type} {e : Env} {h h' : Host} {act : Host × Except Fault α}
    (hself : SameLabels h h') (hact : SameLabels h act.1) :
    SameLabels h (e.guard h' act).1 := by
  unfold Env.guard
  split
  · exact hself
  · exact hact

theorem sem_labels {o : Op} (hq : o.Quiet) (e : Env) (h : Host) : SameLabels h (sem o e h).1 := by
  have hself := SameLabels.refl h
  cases o with
  | newContainer name l => exact hq.elim
  | cniSetup name pm => exact hq.elim
  | taskKill name => exact guard_labels hself (onContainer_labels (stopTask_labels 137))
  | taskDelete name => exact guard_labels hself (onContainer_labels deleteTask_labels)
  | deleteContainer name => exact guard_labels hself (onContainer_labels deleteTaskless_labels)
  | newTask name => exact guard_labels hself (onContainer_labels addTask_labels)
  | taskStart name => exact guard_labels hself (onContainer_labels runTask_labels)
  | taskStatus name => exact guard_labels (afterExit_labels e.exited) (afterExit_labels e.exited)
  | info name =>
    simp only [sem]
    split <;> exact hself
  | mount name vol readOnly | umount name vol | rmdir name vol =>
    refine guard_labels hself ?_
    split <;> exact hself
  | loadContainer name | task name | mkdirMount name vol => exact guard_labels hself hself
  | getImage name | pull name | statDevice name vol | rmdirRoot name | readDir name
  | mkdirLogs name | cniTeardown name pm => exact hself

theorem event_quiet (name : String) {o : Op} (hq : o.Quiet) (r : Res o) :
    Event.of name o r = none ∨ ∃ pm, Event.of name o r = some (.teardown pm) := by
  cases o with
  | newContainer n l => exact hq.elim
  | cniSetup n pm => exact hq.elim
  | cniTeardown n pm =>
    by_cases hn : n = name
    · exact .inr ⟨pm, if_pos hn⟩
    · exact .inl (if_neg hn)
  | _ => exact .inl rfl

/-! ## The invariant -/

/-- What is set up stands in the labels of the container, if there is one; and `K` holds of it. -/
structure Tracked (name : String) (K : List CNIMapping → Prop) (s : Traced) : Prop where
  paired : Paired s.2
  labelled : ∀ pm ∈ outstanding s.2, ∀ c, s.1.containers name = some c →
    c.labels.mode = "bridge" ∧ decodePortMappings c.labels.portmap = pm
  only : ∀ pm ∈ outstanding s.2, K pm

section Quiet

variable {name : String} {o : Op} (hq : o.Quiet) (a : Op → Env) (s : Traced)
include hq

theorem trace_quiet : (cniSem name o a s).1.2 = s.2 ∨
    ∃ pm, (cniSem name o a s).1.2 = s.2 ++ [.teardown pm] := by
  rcases event_quiet name hq (sem o (a o) s.1).2 with h | ⟨pm, h⟩
  · exact .inl (by simp [cniSem, Sem.logged, h])
  · exact .inr ⟨pm, by simp [cniSem, Sem.logged, h]⟩

theorem outstanding_quiet {pm : List CNIMapping}
    (h : pm ∈ outstanding (cniSem name o a s).1.2) : pm ∈ outstanding s.2 := by
  rcases trace_quiet hq a s with ht | ⟨pm', ht⟩
  · rwa [ht] at h
  · rw [ht, outstanding_snoc, mem_after] at h
    rcases h with h | h
    · cases h
    · exact h.1

end Quiet

namespace Tracked

variable {name : String} {K K' : List CNIMapping → Prop} {s : Traced}

theorem mono (hs : Tracked name K s) (hK : ∀ pm, K pm → K' pm) : Tracked name K' s :=
  ⟨hs.paired, hs.labelled, fun pm hpm => hK pm (hs.only pm hpm)⟩

theorem nothing (hs : Tracked name K s) (hK : ∀ pm, ¬ K pm) : outstanding s.2 = [] :=
  List.eq_nil_iff_forall_not_mem.mpr fun pm hpm => hK pm (hs.only pm hpm)

theorem of_nothing (hs : Tracked name K s) (h : outstanding s.2 = []) : Tracked name K' s := by
  refine ⟨hs.paired, hs.labelled, ?_⟩
  intro pm hpm
  rw [h] at hpm
  cases hpm

theorem quiet {o : Op} (hq : o.Quiet) (a : Op → Env) (hs : Tracked name K s) :
    Tracked name K (cniSem name o a s).1 where
  paired := by
    rcases trace_quiet hq a s with ht | ⟨pm, ht⟩
    · rw [ht]; exact hs.paired
    · rw [ht]
      exact hs.paired.snoc nofun
  labelled := by
    intro pm hpm c' hc'
    obtain ⟨c, hc, hl⟩ := sem_labels hq (a o) s.1 name c' hc'
    rw [← hl]
    exact hs.labelled pm (outstanding_quiet hq a s hpm) c hc
  only := fun pm hpm => hs.only pm (outstanding_quiet hq a s hpm)

theorem teardown (pm : List CNIMapping) (a : Op → Env) (hs : Tracked name K s) :
    Tracked name (fun pm' => K pm' ∧ pm' ≠ pm) (cniSem name (.cniTeardown name pm) a s).1 := by
  have hq := hs.quiet (o := .cniTeardown name pm) trivial a
  refine ⟨hq.paired, hq.labelled, ?_⟩
  intro pm' hpm'
  refine ⟨hq.only pm' hpm', ?_⟩
  have ht : (cniSem name (.cniTeardown name pm) a s).1.2 = s.2 ++ [.teardown pm] := by
    simp [cniSem, Sem.logged, Event.of]
  rw [ht, outstanding_snoc, mem_after] at hpm'
  rcases hpm' with h | h
  · cases h
  · rintro rfl; exact h.2 rfl

theorem setup {pm : List CNIMapping} (a : Op → Env) (hs : Tracked name K s) (hK : ∀ pm, ¬ K pm)
    (hl : ∀ c, s.1.containers name = some c →
      c.labels.mode = "bridge" ∧ decodePortMappings c.labels.portmap = pm) :
    Tracked name (· = pm) (cniSem name (.cniSetup name pm) a s).1 := by
  have hnone := hs.nothing hK
  obtain ⟨ok, ht⟩ : ∃ ok, (cniSem name (.cniSetup name pm) a s).1.2 = s.2 ++ [.setup pm ok] :=
    ⟨(cniSem name (.cniSetup name pm) a s).2.isOk, by simp [cniSem, Sem.logged, Event.of]⟩
  have hout : ∀ pm' ∈ outstanding (cniSem name (.cniSetup name pm) a s).1.2, pm' = pm := by
    intro pm' hpm'
    rw [ht, outstanding_snoc, mem_after, hnone] at hpm'
    rcases hpm' with h | h
    · cases h; rfl
    · cases h.1
  refine ⟨?_, ?_, hout⟩
  · rw [ht]; exact hs.paired.snoc fun _ => hnone
  · intro pm' hpm' c hc; rw [hout pm' hpm']; exact hl c hc

end Tracked

section Calls

variable {name : String} {G : (Op → Env) → Prop} {K : List CNIMapping → Prop} {s : Traced}
  {α : Type}

theorem quiet_safe {p : Code α} {F : Traced → Prop} (hp : p.Only Op.Quiet)
    (hF : ∀ o a s, o.Quiet → F s → F (cniSem name o a s).1) (hs : F s) :
    p.Leads ((cniSem name).given G) (fun _ s => F s) s := by
  refine hp.safe ?_ (fun _ _ _ _ => trivial) (fun o a s ho => hF o a.1 s ho) hs
  rintro s _ rfl hs
  exact hs

theorem tracked_safe {p : Code α} (hp : p.Only Op.Quiet) (hs : Tracked name K s) :
    p.Leads ((cniSem name).given G) (fun _ s => Tracked name K s) s :=
  quiet_safe hp (fun _ a _ ho hs => hs.quiet ho a) hs

theorem safe_call {o : Op} {k : Res o → Code α} {Q : α → Traced → Prop}
    (h : ∀ a, G a → (k (cniSem name o a s).2).Leads ((cniSem name).given G) Q
      (cniSem name o a s).1) :
    (Prog.call o k).Leads ((cniSem name).given G) Q s :=
  .call ⟨trivial, fun a => h a.1 a.2⟩

end Calls

section Answers

variable {name : String} {s : Traced} {c : Container} {st : TaskState} {a : Op → Env}

theorem load_eq (hc : s.1.containers name = some c) :
    cniSem name (.loadContainer name) a s = (s, (a (.loadContainer name)).answer ()) := by
  cases hf : (a (.loadContainer name)).fault <;>
    simp [cniSem, Sem.logged, Event.of, sem, Env.guard, Env.answer, hf, hc]

theorem info_eq (hc : s.1.containers name = some c) (ha : (a (.info name)).fault = none) :
    cniSem name (.info name) a s = (s, some c.labels) := by
  simp [cniSem, Sem.logged, Event.of, sem, ha, hc]

theorem task_eq (hc : s.1.containers name = some c) (ht : c.task = some st) :
    cniSem name (.task name) a s = (s, (a (.task name)).answer ()) := by
  cases hf : (a (.task name)).fault <;>
    simp [cniSem, Sem.logged, Event.of, sem, Env.guard, Env.answer, hf, Host.taskOf, hc, ht,
      Except.map]

theorem status_eq (hc : s.1.containers name = some c) (ht : c.task = some .running)
    (ha : StatusKept name a) : cniSem name (.taskStatus name) a s = (s, .ok .running) := by
  simp [cniSem, Sem.logged, Event.of, sem, Env.guard, ha.1, ha.2, Host.afterExit, Host.taskOf, hc,
    ht]

theorem delete_eq (hc : s.1.containers name = some c) (ht : c.task = some st) :
    ∃ f, cniSem name (.deleteContainer name) a s = (s, .error f) ∧
      (Honest name a → f.notFound = false) := by
  cases hf : (a (.deleteContainer name)).fault with
  | some f =>
    exact ⟨f, by simp [cniSem, Sem.logged, Event.of, sem, Env.guard, hf], fun ha => ha.delete f hf⟩
  | none =>
    have hsame : Function.update s.1.containers name (some c) = s.1.containers := by
      rw [← hc, Function.update_eq_self]
    refine ⟨⟨false, "cannot delete running task: failed precondition"⟩, ?_, fun _ => rfl⟩
    simp [cniSem, Sem.logged, Event.of, sem, Env.guard, hf, Host.onContainer, hc, deleteTaskless,
      ht, hsame]

end Answers

theorem taskOf_isOk {h : Host} {name : String} (ht : (h.taskOf name).isOk) :
    ∃ c st, h.containers name = some c ∧ c.task = some st ∧ h.taskOf name = .ok st := by
  unfold Host.taskOf at ht ⊢
  cases hc : h.containers name with
  | none => rw [hc] at ht; cases ht
  | some c =>
    cases hst : c.task with
    | none => rw [hc, Option.bind_some, hst] at ht; cases ht
    | some st => exact ⟨c, st, rfl, hst, by rw [Option.bind_some, hst]⟩

section Remove

variable {name : String} {G : (Op → Env) → Prop} {K : List CNIMapping → Prop} {s : Traced}

theorem removeContainer_safe_task (hG : ∀ a, G a → Honest name a) {c : Container} {st : TaskState}
    (hs : Tracked name K s) (hc : s.1.containers name = some c) (ht : c.task = some st) :
    (removeContainer name).Leads ((cniSem name).given G)
      (fun r s => Tracked name (fun _ => r ≠ .ok ()) s) s := by
  refine safe_call fun a ha => ?_
  obtain ⟨f, hdel, hfound⟩ := delete_eq (a := a) hc ht
  rw [hdel]
  simp only [Prog.bind, hfound (hG a ha), Bool.false_eq_true, if_false]
  exact .ret (hs.mono fun _ _ => nofun)

theorem remove_safe_task (hG : ∀ a, G a → Honest name a) {c : Container} {st : TaskState}
    (hs : Tracked name K s) (hc : s.1.containers name = some c) (ht : c.task = some st)
    (hmode : c.labels.mode = "bridge") :
    (remove name).Leads ((cniSem name).given G)
      (fun r s => Tracked name (fun _ => r ≠ .ok ()) s) s := by
  refine safe_call fun a ha => ?_
  rw [load_eq hc]
  cases hf : (a (.loadContainer name)).fault with
  | some f =>
    simp only [Env.answer, hf, Prog.bind, (hG a ha).load f hf, Bool.false_eq_true, if_false]
    exact .ret (hs.mono fun _ _ => nofun)
  | none =>
    simp only [Env.answer, hf, Prog.bind]
    refine safe_call fun a ha => ?_
    rw [info_eq hc (hG a ha).info]
    simp only [Prog.bind, Option.map_some, hmode, decide_true, Option.getD_some]
    refine safe_call fun a ha => ?_
    rw [task_eq hc ht]
    cases hf : (a (.task name)).fault with
    | some f =>
      simp only [Env.answer, hf, Prog.bind]; exact removeContainer_safe_task hG hs hc ht
    | none =>
      simp only [Env.answer, hf, Prog.bind]
      refine safe_call fun a ha => ?_
      -- everything set up has the mappings of the label, so this teardown ends it
      have hs' : Tracked name (· = decodePortMappings c.labels.portmap) s :=
        ⟨hs.paired, hs.labelled, fun pm hpm => (hs.labelled pm hpm c hc).2.symm⟩
      have hfree : Tracked name (fun _ => False) (cniSem name (.cniTeardown name _) a s).1 :=
        (hs'.teardown _ a).mono fun pm hpm => hpm.2 hpm.1
      refine (tracked_safe ?_ hfree).mono fun _ _ h => h.mono nofun
      exact ⟨trivial, fun _ => ⟨trivial, fun _ => removeContainer_only Op.quiet_of_creates name⟩⟩

theorem remove_safe (hs : Tracked name K s)
    (htask : outstanding s.2 ≠ [] → (s.1.taskOf name).isOk ∧ ∀ a, G a → Honest name a) :
    (remove name).Leads ((cniSem name).given G)
      (fun r s => Tracked name (fun _ => r ≠ .ok ()) s) s := by
  by_cases hout : outstanding s.2 = []
  · have hfree : Tracked name (fun _ => False) s := hs.of_nothing hout
    exact (tracked_safe (remove_only Op.quiet_of_creates name) hfree).mono
      fun _ _ h => h.mono nofun
  · obtain ⟨hok, hG⟩ := htask hout
    obtain ⟨c, st, hc, ht, -⟩ := taskOf_isOk hok
    obtain ⟨pm, hpm⟩ := List.exists_mem_of_ne_nil _ hout
    exact remove_safe_task hG hs hc ht (hs.labelled pm hpm c hc).1

theorem settle_safe (hG : ∀ a, G a → Honest name a ∧ StatusKept name a) (hs : Tracked name K s)
    (hrun : s.1.taskOf name = .ok .running) (desiredHash : String) :
    (settle name desiredHash).Leads ((cniSem name).given G)
      (fun r s => Tracked name (fun _ => r ≠ .ok false) s) s := by
  have hok : (s.1.taskOf name).isOk := by rw [hrun]; rfl
  obtain ⟨c, st, hc, ht, hst⟩ := taskOf_isOk hok
  obtain rfl : st = .running := Except.ok.inj (hst.symm.trans hrun)
  refine safe_call fun a ha => ?_
  rw [load_eq hc]
  cases hf : (a (.loadContainer name)).fault with
  | some f =>
    simp only [Env.answer, hf, Prog.bind, (hG a ha).1.load f hf, Bool.false_eq_true, if_false]
    exact .ret (hs.mono fun _ _ => nofun)
  | none =>
    simp only [Env.answer, hf, Prog.bind]
    refine safe_call fun a ha => ?_
    rw [info_eq hc (hG a ha).1.info]
    simp only [Prog.bind, Option.map_some, Option.getD_some]
    refine safe_call fun a ha => ?_
    rw [task_eq hc ht]
    cases hf : (a (.task name)).fault with
    | some f =>
      simp only [Env.answer, hf, Prog.bind]
      refine safe_call fun a ha => ?_
      obtain ⟨f, hdel, -⟩ := delete_eq (a := a) hc ht
      rw [hdel]
      exact .ret (hs.mono fun _ _ => nofun)
    | none =>
      simp only [Env.answer, hf, Prog.bind]
      refine safe_call fun a ha => ?_
      rw [status_eq hc ht (hG a ha).2]
      simp only [Prog.bind]
      split
      · refine .andThenOk (.andThen ?_)
        refine (remove_safe hs fun _ => ⟨hok, fun a ha => (hG a ha).1⟩).mono ?_
        intro r s' hs'
        cases r with
        | ok _ => exact .ret (.ret (hs'.mono nofun))
        | error e => exact .ret (.ret (hs'.mono nofun))
      · exact .ret (hs.mono fun _ _ => nofun)

end Remove

/-! ### `EnsureRunning` -/

section Ensure

variable {ps : Params} {name : String} {spec : ContainerSpec} {G : (Op → Env) → Prop}
  {s : Traced}

/-- Nothing is set up but the mappings of the spec, and the container has its labels. -/
def Labelled (ps : Params) (name : String) (spec : ContainerSpec) (s : Traced) : Prop :=
  Tracked name (fun pm => ps.setsUp spec = some pm) s ∧
    ∀ c, s.1.containers name = some c → ∃ hash, c.labels = ps.labels hash spec

theorem Labelled.quiet {o : Op} (hq : o.Quiet) (a : Op → Env) (hs : Labelled ps name spec s) :
    Labelled ps name spec (cniSem name o a s).1 := by
  refine ⟨hs.1.quiet hq a, ?_⟩
  intro c' hc'
  obtain ⟨c, hc, hl⟩ := sem_labels hq (a o) s.1 name c' hc'
  rw [← hl]
  exact hs.2 c hc

theorem sem_newContainer (name : String) (l : Labels) (e : Env) (h : Host) :
    (sem (.newContainer name l) e h).1 = h ∧ (sem (.newContainer name l) e h).2 ≠ .ok () ∨
      (sem (.newContainer name l) e h).1.containers name = some ⟨l, none⟩ := by
  simp only [sem, Env.guard]
  split
  · exact .inl ⟨rfl, fun h => by cases h⟩
  · split
    · exact .inl ⟨rfl, fun h => by cases h⟩
    · exact .inr (Function.update_self ..)

section Plain

variable (hplain : ∀ m ∈ gocniPortMappings ps.toLower (ps.ports spec), Plain m.protocol)
include hplain

theorem labels_of_setsUp {pm : List CNIMapping} {l : Labels} {hash : String}
    (hl : l = ps.labels hash spec) (hpm : ps.setsUp spec = some pm) :
    l.mode = "bridge" ∧ decodePortMappings l.portmap = pm := by
  subst hl
  unfold Params.setsUp at hpm
  split at hpm
  · rename_i hmode
    cases hpm
    refine ⟨?_, decode_encode hplain⟩
    rw [Params.labels, hmode]
    rfl
  · cases hpm

theorem newContainer_labelled (hash : String) (a : Op → Env)
    (hs : Tracked name (fun pm => ps.setsUp spec = some pm) s) :
    Tracked name (fun pm => ps.setsUp spec = some pm)
        (cniSem name (.newContainer name (ps.labels hash spec)) a s).1 ∧
      ((cniSem name (.newContainer name (ps.labels hash spec)) a s).2 = .ok () →
        Labelled ps name spec (cniSem name (.newContainer name (ps.labels hash spec)) a s).1) := by
  have ht : (cniSem name (.newContainer name (ps.labels hash spec)) a s).1.2 = s.2 := by
    simp [cniSem, Sem.logged, Event.of]
  rcases sem_newContainer name (ps.labels hash spec) (a (.newContainer name _)) s.1 with
    ⟨hst, hres⟩ | hnew
  · have hst' : (cniSem name (.newContainer name (ps.labels hash spec)) a s).1 = s :=
      Prod.ext hst ht
    rw [hst']
    exact ⟨hs, fun hok => absurd hok hres⟩
  · have hlabels : ∀ c, (cniSem name (.newContainer name (ps.labels hash spec)) a
        s).1.1.containers name = some c → c.labels = ps.labels hash spec := by
      intro c hc
      cases hnew.symm.trans hc
      rfl
    have htracked : Tracked name (fun pm => ps.setsUp spec = some pm)
        (cniSem name (.newContainer name (ps.labels hash spec)) a s).1 := by
      refine ⟨ht ▸ hs.paired, ?_, ht ▸ hs.only⟩
      intro pm hpm c hc
      rw [ht] at hpm
      exact labels_of_setsUp hplain (hlabels c hc) (hs.only pm hpm)
    exact ⟨htracked, fun _ => ⟨htracked, fun c hc => ⟨hash, hlabels c hc⟩⟩⟩

theorem connectTask_safe {mode : NetworkMode} {pm : List CNIMapping}
    (hsets : ps.setsUp spec = if mode = .bridge then some pm else none)
    (hs : Labelled ps name spec s) :
    (connectTask name mode pm).Leads ((cniSem name).given G)
      (fun _ s => Tracked name (fun pm => ps.setsUp spec = some pm) s) s := by
  unfold connectTask
  split
  · rename_i hmode
    rw [if_pos hmode] at hsets
    refine safe_call fun a _ => ?_
    -- what may have been set up has just been torn down
    have hfree : Tracked name (fun _ => False) (cniSem name (.cniTeardown name pm) a s).1 :=
      (hs.1.teardown pm a).mono fun pm' h => h.2 (Option.some.inj (h.1.symm.trans hsets))
    have hlabels := (Labelled.quiet (o := .cniTeardown name pm) trivial a hs).2
    refine safe_call fun a' _ => ?_
    have hset := hfree.setup a' (fun _ => id) fun c hc =>
      (hlabels c hc).elim fun _ hl => labels_of_setsUp hplain hl hsets
    refine tracked_safe ?_ (hset.mono fun pm' h => hsets.trans (congrArg some h.symm))
    cases (cniSem name (.cniSetup name pm) a' (cniSem name (.cniTeardown name pm) a s).1).2 with
    | ok _ => exact startTask_only Op.quiet_of_tasks name _ _
    | error e => exact giveUpTask_only Op.quiet_of_tasks name _
  · exact tracked_safe (startTask_only Op.quiet_of_tasks name _ _) hs.1

theorem createContainer_safe (hash : String)
    (hs : Tracked name (fun pm => ps.setsUp spec = some pm) s) :
    (createContainer ps name spec hash).Leads ((cniSem name).given G)
      (fun _ s => Tracked name (fun pm => ps.setsUp spec = some pm) s) s := by
  refine safe_call fun a _ => ?_
  obtain ⟨htracked, hlabelled⟩ := newContainer_labelled hplain hash a hs
  cases hr : (cniSem name (.newContainer name (ps.labels hash spec)) a s).2 with
  | error e => exact .ret htracked
  | ok _ =>
    replace hlabelled := hlabelled hr
    refine safe_call fun a' _ => ?_
    replace hlabelled := hlabelled.quiet (o := .mkdirLogs name) trivial a'
    generalize (cniSem name (.mkdirLogs name) a' _).2 = r
    cases r with
    | error e => exact tracked_safe (giveUp_only Op.quiet_of_tasks name _) hlabelled.1
    | ok _ =>
      refine safe_call fun a'' _ => ?_
      replace hlabelled := hlabelled.quiet (o := .newTask name) trivial a''
      generalize (cniSem name (.newTask name) a'' _).2 = r
      cases r with
      | error e => exact tracked_safe (giveUp_only Op.quiet_of_tasks name _) hlabelled.1
      | ok _ => exact connectTask_safe hplain rfl hlabelled

theorem mountAndCreate_safe (hash : String)
    (hs : Tracked name (fun pm => ps.setsUp spec = some pm) s) :
    (mountAndCreate ps name spec hash).Leads ((cniSem name).given G)
      (fun _ s => Tracked name (fun pm => ps.setsUp spec = some pm) s) s := by
  refine .andThen ((tracked_safe ?_ hs).mono ?_)
  · exact mountContainerVolumes_only Op.quiet_of_aside name (fun _ _ => trivial) []
  · rintro ⟨mounted, _ | e⟩ s' hs'
    · exact createContainer_safe hplain hash hs'
    · exact tracked_safe ((unmountContainerVolumes_only Op.quiet_of_aside name mounted).bind
        fun _ => trivial) hs'

theorem ensureRunning_safe {w : Workload} {K : List CNIMapping → Prop} (hname : w.name = name)
    (hspec : w.container = some spec) (hs : Tracked name K s)
    (h : Tracked name (fun pm => ps.setsUp spec = some pm) s ∨ s.1.taskOf name = .ok .running ∧
      ∀ a, G a → Honest name a ∧ StatusKept name a) :
    (ensureRunning ps w).Leads ((cniSem name).given G)
      (fun _ s => Tracked name (fun _ => True) s) s := by
  have hsettle : ∀ hash, (settle name hash).Leads ((cniSem name).given G)
      (fun r s => Tracked name (fun pm => r = .ok false → ps.setsUp spec = some pm) s) s := by
    intro hash
    rcases h with hsame | ⟨hrun, hG⟩
    · exact (tracked_safe (settle_only Op.quiet_of_creates name hash) hsame).mono
        fun _ _ h => h.mono fun _ hpm _ => hpm
    · exact (settle_safe hG hs hrun hash).mono fun _ _ h => h.mono fun _ hne heq => absurd heq hne
  unfold ensureRunning
  rw [hspec, hname]
  refine .andThenOk (.ret ?_)
  cases ps.specHash w with
  | error e => exact .ret (hs.mono fun _ _ => trivial)
  | ok hash =>
    refine .andThenOk ((hsettle hash).mono ?_)
    intro r s' hs'
    cases r with
    | error e => exact .ret (hs'.mono fun _ _ => trivial)
    | ok running =>
      cases running with
      | true => exact .ret (hs'.mono fun _ _ => trivial)
      | false =>
        have hsame : Tracked name (fun pm => ps.setsUp spec = some pm) s' :=
          hs'.mono fun _ h => h rfl
        refine .andThenOk ((tracked_safe
          (pullImage_only Op.quiet_of_aside name spec.image) hsame).mono ?_)
        intro r s'' hs''
        cases r with
        | error e => exact .ret (hs''.mono fun _ _ => trivial)
        | ok _ =>
          exact (mountAndCreate_safe hplain hash hs'').mono fun _ _ h => h.mono fun _ _ => trivial

end Plain

end Ensure

section Turns

variable {ps : Params} {name : String} {s : Traced} {answers : Nat → Op → Env}

theorem Tracked.returned {r : Except Err Unit} (hs : Tracked name (fun _ => r ≠ .ok ()) s) :
    Tracked name (fun _ => True) (s.1, s.2 ++ DriverCall.remove.returned r) := by
  cases r with
  | error e =>
    rw [show DriverCall.remove.returned (.error e) = [] from rfl, List.append_nil]
    exact hs.mono fun _ _ => trivial
  | ok _ =>
    have hnone := hs.nothing fun _ h => h rfl
    refine ⟨hs.paired.snoc fun _ => hnone, ?_, fun _ _ => trivial⟩
    intro pm hpm
    rw [show DriverCall.remove.returned (.ok ()) = [.removed] from rfl, outstanding_snoc,
      mem_after, hnone] at hpm
    rcases hpm with h | h
    · cases h
    · cases h.1

theorem remove_tracked (hs : Tracked name (fun _ => True) s)
    (hx : (Turn.mk .remove answers).Careful ps name s) :
    Tracked name (fun _ => True) ((Turn.mk .remove answers).run ps name s) := by
  have htask : outstanding s.2 ≠ [] → (s.1.taskOf name).isOk ∧ ∀ n, Honest name (answers n) := by
    intro hne; obtain ⟨pm, hpm⟩ := List.exists_mem_of_ne_nil _ hne; exact hx.2 pm hpm
  have hsafe := remove_safe (G := fun a => outstanding s.2 ≠ [] → Honest name a) hs
    fun hne => ⟨(htask hne).1, fun a ha => ha hne⟩
  exact (hsafe.complete_given fun n hne => (htask hne).2 n).returned

theorem ensureRunning_tracked {w : Workload} (hs : Tracked name (fun _ => True) s)
    (hx : (Turn.mk (.ensureRunning w) answers).Careful ps name s) :
    Tracked name (fun _ => True) ((Turn.mk (.ensureRunning w) answers).run ps name s) := by
  have hcall : ∀ w' : Workload, w'.name = name → w'.container = w.container →
      Tracked name (fun _ => True)
        ((ensureRunning ps w').complete (cniSem name) answers s).1 := by
    intro w' hname hw
    cases hspec : w.container with
    | none => rw [ensureRunning, hw, hspec]; exact hs
    | some spec =>
      rw [hspec] at hw
      by_cases h : s.1.taskOf name = .ok .running ∧
          ∀ n, Honest name (answers n) ∧ StatusKept name (answers n)
      · exact (ensureRunning_safe (hx.1 spec hspec) hname hw hs
          (.inr ⟨h.1, fun _ ha => ha⟩)).complete_given h.2
      · have hsame : Tracked name (fun pm => ps.setsUp spec = some pm) s :=
          ⟨hs.paired, hs.labelled, fun pm hpm => (hx.2 pm hpm spec hspec).resolve_right h⟩
        exact (ensureRunning_safe (hx.1 spec hspec) hname hw hs (.inl hsame)).complete_given
          (G := fun _ => True) fun _ => trivial
  have hrun : (Turn.mk (.ensureRunning w) answers).run ps name s =
      ((ensureRunning ps { w with name := name }).complete (cniSem name) answers s).1 :=
    Prod.ext rfl (List.append_nil _)
  rw [hrun]
  exact hcall _ rfl rfl

end Turns

theorem Turn.run_tracked {ps : Params} {name : String} {s : Traced} {x : Turn}
    (hs : Tracked name (fun _ => True) s) (hx : x.Careful ps name s) :
    Tracked name (fun _ => True) (x.run ps name s) := by
  obtain ⟨_ | w, answers⟩ := x
  · exact ensureRunning_tracked hs hx
  · exact remove_tracked hs hx

/-- CNI is asked to tear down what it set up, before it sets anything up again and before `Remove`
returns nil, if every call of the run is careful. -/
theorem cni_paired (ps : Params) (name : String) (h : Host) (xs : List Turn)
    (hxs : Along (Turn.run ps name) (Turn.Careful ps name) (h, []) xs) :
    Paired (cniTrace ps name h xs) := by
  have hstart : Tracked name (fun _ => True) (h, []) := by
    refine ⟨?_, nofun, nofun⟩
    intro a pm b x c ht
    simp at ht
  exact (hxs.invariant (fun s x hs hx => Turn.run_tracked hs hx) hstart).paired

/-! A web server behind port 80 of the host, or another one. -/

def webParams : Params where
  specHash w := .ok (toString (w.container.map ContainerSpec.rest))
  mounts _ := []
  networkMode _ := .bridge
  ports spec := spec.rest.map fun b => ⟨8080, b.toUInt32, []⟩
  toLower := List.map GoString.lower

def web (port : UInt8) : Workload where
  name := "web"
  kind := .container
  container := some ⟨"nginx", [port]⟩
  microVm := none
  status := none
  desiredState := .running

def noContainers : Host := ⟨fun _ => none, fun _ => [], fun _ => []⟩

/-- Every operation succeeds; the task, where its status is asked for, has exited or not. -/
def allWell (exited : Option Nat) : Nat → Op → Env := fun _ _ => { exited := exited }

def onPort (port : Int32) : List CNIMapping := [⟨port, 8080, tcp⟩]

/-- The server is started again after its task exited, and removed. -/
def restartAndRemove : List Turn :=
  [⟨.ensureRunning (web 80), allWell none⟩, ⟨.ensureRunning (web 80), allWell (some 1)⟩,
    ⟨.remove, allWell none⟩]

theorem allWell_honest (name : String) (exited : Option Nat) (n : Nat) :
    Honest name (allWell exited n) :=
  ⟨nofun, nofun, rfl⟩

theorem web_plain (port : UInt8) : (DriverCall.ensureRunning (web port)).Plain webParams := by
  rintro spec ⟨⟩ m hm
  obtain rfl := List.mem_singleton.mp hm
  exact (by decide : Plain tcp)

theorem cni_paired_web : Paired (cniTrace webParams "web" noContainers restartAndRemove) := by
  refine cni_paired webParams "web" noContainers restartAndRemove ⟨⟨web_plain 80, nofun⟩, ?_⟩
  refine ⟨⟨web_plain 80, ?_⟩, ⟨trivial, ?_⟩, trivial⟩
  · rintro pm hpm spec ⟨⟩; exact .inl (by decide +revert)
  · intro pm hpm; exact ⟨by decide, allWell_honest "web" none⟩

/-- The task exits, and the next `EnsureRunning` has another port. -/
def otherPort : List Turn :=
  [⟨.ensureRunning (web 80), allWell none⟩, ⟨.ensureRunning (web 81), allWell (some 1)⟩]

/-- The mappings set up first are never torn down. -/
theorem ports_leaked :
    cniTrace webParams "web" noContainers otherPort =
        [.teardown (onPort 80), .setup (onPort 80) true, .teardown (onPort 81),
          .setup (onPort 81) true] ∧
      ¬ Paired (cniTrace webParams "web" noContainers otherPort) := by
  have ht : cniTrace webParams "web" noContainers otherPort =
      [.teardown (onPort 80), .setup (onPort 80) true, .teardown (onPort 81),
        .setup (onPort 81) true] := by
    decide
  refine ⟨ht, ?_⟩
  intro h
  have hmem := h [.teardown (onPort 80)] (onPort 80) [.teardown (onPort 81)]
    (.setup (onPort 81) true) [] ht rfl
  revert hmem
  decide

end Capsule.Workloads.Containerd
