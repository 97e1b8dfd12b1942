import Capsule.Workloads.Firecracker
import Capsule.Workloads.Passes

/-!
# Capsule.Workloads.DeleteFinal

`Delete` beside the reconciler, for any drivers that keep their contract. A pass works on a list of
rows that it took at its start, and so may start what a `Delete` has removed since.

* `Timely`: the store answers the lookup of `Delete`, which puts its tombstone between two passes.
* `Stage`: how far a run has come, for the name.
* `Stage.lookup`, `Stage.tombstone`, `Stage.finish`, `Stage.delete`: the invariant over its steps.
* `delete_final`: once it has returned nil in such a run, no driver has an instance of the name, and
  no later pass makes one.
-/

namespace Capsule.Workloads

open Atomic Keyed

inductive Actor where
  | delete
  | reconciler
  deriving DecidableEq

section

variable {D : Side → Type} {DRes : (s : Side) → D s → Type} {δ : Side → Type} {ε : Type}

/-- `Delete` of the name, and the reconciler for `m` ticks. -/
def deletePool (svc : Service DRes) (n : String) (m : Nat) (s : State δ) :
    Pool Actor (Op D) (Res DRes) (State δ) (Except Err Unit) where
  st := s
  thr
    | .delete => delete svc n
    | .reconciler => ticks svc m >>= fun _ => .ret (.ok ())

/-- The kind `Delete` finds. -/
def kindOf (n : String) (s : State δ) : Kind :=
  match s.rows.get n with
  | some w => w.kind
  | none => .unspecified

/-- No pass is under way. -/
def passIdle (p : Code DRes (Except Err Unit)) : Bool :=
  match p.next? with
  | some .list | none => true
  | _ => false

/-- The store answers `Delete`'s lookup, and `Delete` writes its tombstone between two passes. -/
def timely (c : Pool Actor (Op D) (Res DRes) (State δ) (Except Err Unit)) (e : Env ε) : Bool :=
  match (c.thr .delete).next? with
  | some (.get _) => e.fault.isNone
  | some (.put _) => passIdle (c.thr .reconciler)
  | _ => true

def Timely (c : Pool Actor (Op D) (Res DRes) (State δ) (Except Err Unit)) (i : Actor)
    (e : Env ε) : Prop :=
  i = .delete → timely c e = true

instance (c : Pool Actor (Op D) (Res DRes) (State δ) (Except Err Unit)) (i : Actor) (e : Env ε) :
    Decidable (Timely c i e) :=
  inferInstanceAs (Decidable (i = .delete → timely c e = true))

variable {dsem : (s : Side) → Sem (D s) (DRes s) (δ s) ε} {svc : Service DRes}
  {C : (s : Side) → Contract (dsem s) (svc s)} {n : String}

/-- After its tombstone `Delete` puts nothing. -/
def finishAt : Op D → State δ → Prop
  | .put _, _ => False
  | _, _ => True

variable (C n) in
/-- The promise of a `Delete` that returns nil. -/
def NoneLeft (r : Except Err Unit) (s : State δ) : Prop :=
  r = .ok () → ∀ side, ¬ (C side).holds (s.dev side) n

theorem NoneLeft.apart {r : Except Err Unit} {s s' : State δ} (h : NoneLeft C n r s)
    (ha : Apart C n s s') : NoneLeft C n r s' :=
  fun hr side hh => h hr side ((C side).holds_others (ha.2 side) hh)

theorem removeRuntime_safe {kind : Kind} {s : State δ} (hs : Rested C n (sideOf kind) s) :
    (removeRuntime svc kind n).Safe (sem dsem) (Apart C n) finishAt (NoneLeft C n) s := by
  unfold removeRuntime
  cases hd : svc (sideOf kind) with
  | none =>
    intro s' ha _ side
    have hs' := hs.apart ha
    by_cases hside : side = sideOf kind
    · subst hside; exact (C _).unwired hd _ n
    · exact hs'.2 side hside
  | some d =>
    have hcall := ((C (sideOf kind)).remove d hd n).2 _ hs.1
    refine Prog.Safe.bind Apart.refl ((onDriver_safe
      (F := fun s => ∀ side, side ≠ sideOf kind → ¬ (C side).holds (s.dev side) n)
      hcall (fun s s' ha => ha.2 _) ?_ (fun d s _ => trivial) ?_ hs.2).mono ?_)
    · intro s s' ha hF side hne hh
      exact hF side hne ((C side).holds_others (ha.2 side) hh)
    · intro d e s hF side hne; rw [sem_drv_ne hne]; exact hF side hne
    · intro r s ⟨hF, _, hgone⟩
      have hnone : NoneLeft C n (r.mapError
          (Err.ctx (removeText (sideOf kind) ++ GoString.quote n))) s := by
        intro hr side
        by_cases hside : side = sideOf kind
        · subst hside
          refine hgone ?_
          cases r with
          | error e => cases hr
          | ok _ => rfl
        · exact hF side hside
      exact fun s' ha => hnone.apart ha

theorem finish_safe {kind : Kind} {s : State δ} (hs : Rested C n (sideOf kind) s) :
    (finish svc n kind).Safe (sem dsem) (Apart C n) finishAt (NoneLeft C n) s := by
  refine Prog.Safe.thenOk Apart.refl ((removeRuntime_safe hs).mono ?_)
  intro r s hnone
  cases r with
  | error e => intro s' _ h; cases h
  | ok _ =>
    intro s' ha
    refine ⟨trivial, ?_⟩
    intro e s'' ha' _
    have hdev : (sem dsem (.delete n) e s').1.dev = s'.dev := by
      simp only [sem]; cases e.fault <;> rfl
    have hleft : NoneLeft C n (.ok ()) (sem dsem (.delete n) e s').1 := by
      intro _ side; rw [hdev]; exact hnone.apart ha rfl side
    exact hleft.apart ha' rfl

/-- How far a run has come, for the name. -/
inductive Stage (C : (s : Side) → Contract (dsem s) (svc s)) (n : String)
    (c : Pool Actor (Op D) (Res DRes) (State δ) (Except Err Unit)) : Prop where
  /-- No tombstone yet: the reconciler is the only one that has changed anything. -/
  | alone {b : Workload} (hb : b.desiredState ≠ .deleting) (hrow : rowBody n c.st = some b)
      (hrec : (c.thr .reconciler).Safe (sem dsem) Eq (aloneAt C n b)
        (fun _ s => Lone C n b s) c.st)
      (hcold : ∃ hot, (c.thr .reconciler).Obeys (coldMonitor C n) hot)
      (hdel : c.thr .delete = delete svc n ∨
        ∃ w, w.name = n ∧ w.body = b ∧ c.thr .delete = tombstone svc n w)
  /-- The run began without a row, or with a tombstone, and `Delete` has not begun. -/
  | marked (hrow : ∀ w, c.st.rows.get n = some w → w.desiredState = .deleting)
      (hrest : Rested C n (sideOf (kindOf n c.st)) c.st)
      (hcold : (c.thr .reconciler).Obeys (coldMonitor C n) false)
      (hdel : c.thr .delete = delete svc n)
  /-- `Delete` is past its tombstone. -/
  | late (hrow : ∀ w, c.st.rows.get n = some w → w.desiredState = .deleting)
      (hcold : (c.thr .reconciler).Obeys (coldMonitor C n) false)
      (hdel : (c.thr .delete).Safe (sem dsem) (Apart C n) finishAt (NoneLeft C n) c.st)
  | failed (hdel : ∃ e, c.thr .delete = .ret (.error e))

variable {c : Pool Actor (Op D) (Res DRes) (State δ) (Except Err Unit)} {e : Env ε}

theorem kindOf_apart {s s' : State δ} (h : Apart C n s s') : kindOf n s' = kindOf n s := by
  simp only [kindOf, h.1]

theorem Stage.reconciler {o : Op D} {k : Res DRes o → Code DRes (Except Err Unit)}
    (h : Stage C n c) (hp : c.thr .reconciler = .call o k) :
    Stage C n (c.step (sem dsem) (.reconciler, e)) := by
  have hdelete : (c.step (sem dsem) (.reconciler, e)).thr .delete = c.thr .delete :=
    Pool.step_thr_ne (by decide)
  have hst : (c.step (sem dsem) (.reconciler, e)).st = (sem dsem o e c.st).1 := by
    rw [Pool.step_call hp]
  have hthr : (c.step (sem dsem) (.reconciler, e)).thr .reconciler = k (sem dsem o e c.st).2 := by
    rw [Pool.step_call hp]; simp
  cases h with
  | alone hb hrow hrec hcold hdel =>
    rw [hp] at hrec hcold
    obtain ⟨hat, hrec'⟩ := hrec.step (fun _ => rfl) e
    obtain ⟨hot, hcold⟩ := hcold
    refine .alone hb ?_ ?_ ?_ ?_
    · rw [hst]; exact (hat.rowBody e).trans hrow
    · rw [hst, hthr]; exact hrec'
    · rw [hthr]; exact ⟨_, hcold.2 _⟩
    · rwa [hdelete]
  | marked hrow hrest hcold hdel =>
    rw [hp] at hcold
    obtain ⟨hapart, hcold'⟩ := cold_step hcold e hrow
    refine .marked ?_ ?_ ?_ ?_
    · rw [hst, hapart.1]; exact hrow
    · rw [hst, kindOf_apart hapart]; exact hrest.apart hapart
    · rwa [hthr]
    · rwa [hdelete]
  | late hrow hcold hdel =>
    rw [hp] at hcold
    obtain ⟨hapart, hcold'⟩ := cold_step hcold e hrow
    refine .late ?_ ?_ ?_
    · rw [hst, hapart.1]; exact hrow
    · rwa [hthr]
    · rw [hst, hdelete]; exact hdel.rely Apart.trans hapart
  | failed hdel => rw [← hdelete] at hdel; exact .failed hdel

theorem Stage.lookup (h : Stage C n c) (hp : c.thr .delete = delete svc n)
    (hfault : e.fault = none) : Stage C n (c.step (sem dsem) (.delete, e)) := by
  have hcall : c.thr .delete = .call (.get n) (afterGet svc n) := hp.trans (delete_eq svc n)
  have hrec : (c.step (sem dsem) (.delete, e)).thr .reconciler = c.thr .reconciler :=
    Pool.step_thr_ne (by decide)
  have hst : (c.step (sem dsem) (.delete, e)).st = c.st := by
    rw [Pool.step_call hcall]; exact get_state dsem
  have hthr : (c.step (sem dsem) (.delete, e)).thr .delete = afterGet svc n (getRow c.st n) := by
    rw [Pool.step_call hcall]; simp [sem, hfault]
  cases h with
  | @alone b hb hrow hsafe hcold hdel =>
    refine .alone hb (hst ▸ hrow) (hst ▸ hrec ▸ hsafe) (hrec ▸ hcold) (.inr ?_)
    obtain ⟨w, hw, hwb⟩ := Option.map_eq_some_iff.mp hrow
    have hdes : w.desiredState ≠ .deleting := by
      intro hd; exact hb (hwb ▸ hd)
    refine ⟨w, Table.get_some_key hw, hwb, ?_⟩
    rw [hthr, getRow, hw]
    exact if_neg hdes
  | marked hrow hrest hcold hdel =>
    refine .late (hst ▸ hrow) (hrec ▸ hcold) ?_
    have hafter : afterGet svc n (getRow c.st n) = finish svc n (kindOf n c.st) := by
      unfold getRow kindOf
      cases hw : c.st.rows.get n with
      | none => rfl
      | some w => exact if_pos (hrow w hw)
    rw [hst, hthr, hafter]
    exact finish_safe hrest
  | late hrow hcold hdel =>
    -- from the tombstone on the lookup is behind `Delete`
    refine .late (hst ▸ hrow) (hrec ▸ hcold) ?_
    rw [hcall] at hdel
    have hnext := (hdel.step Apart.refl e).2
    rw [Pool.step_call hcall]
    simpa using hnext
  | failed hdel => obtain ⟨err, hdel⟩ := hdel; rw [hcall] at hdel; cases hdel

theorem Stage.tombstone {b w : Workload}
    (hrec : (c.thr .reconciler).Safe (sem dsem) Eq (aloneAt C n b) (fun _ s => Lone C n b s) c.st)
    (hcold : ∃ hot, (c.thr .reconciler).Obeys (coldMonitor C n) hot) (hname : w.name = n)
    (hbody : w.body = b) (hp : c.thr .delete = tombstone svc n w)
    (hidle : passIdle (c.thr .reconciler) = true) :
    Stage C n (c.step (sem dsem) (.delete, e)) := by
  have hnext : (c.thr .reconciler).next? = some .list ∨ (c.thr .reconciler).next? = none := by
    unfold passIdle at hidle
    split at hidle
    · exact .inl ‹_›
    · exact .inr ‹_›
    · cases hidle
  have hlone : Lone C n b c.st := by
    cases hr : c.thr .reconciler with
    | ret a => rw [hr] at hrec; exact hrec _ rfl
    | call o k =>
      rw [hr] at hrec hnext
      obtain rfl : o = .list := by simpa using hnext
      exact (hrec _ rfl).1
  obtain ⟨hot, hcold⟩ := hcold
  have hcold' := cold_of_idle hcold hnext
  have hkind : w.kind = b.kind := by rw [← hbody]; rfl
  have hthr : (c.step (sem dsem) (.delete, e)).thr .reconciler = c.thr .reconciler :=
    Pool.step_thr_ne (by decide)
  rw [Workloads.tombstone] at hp
  cases hf : e.fault with
  | some m =>
    refine .failed ?_
    rw [Pool.step_call hp]
    simp only [sem, hf, Function.update_self]
    exact ⟨_, rfl⟩
  | none =>
    refine .late ?_ (hthr ▸ hcold') ?_
    · intro v hv
      rw [Pool.step_call hp] at hv
      simp only [sem, hf] at hv
      subst hname
      rw [show w.name = ({ w with desiredState := .deleting } : Workload).name from rfl,
        Table.get_put_self] at hv
      cases hv
      rfl
    · rw [Pool.step_call hp]
      simp only [sem, hf, Function.update_self]
      refine finish_safe ?_
      rw [hkind]
      exact hlone.1

theorem Stage.finish {o : Op D} {k : Res DRes o → Code DRes (Except Err Unit)}
    (hrow : ∀ w, c.st.rows.get n = some w → w.desiredState = .deleting)
    (hcold : (c.thr .reconciler).Obeys (coldMonitor C n) false)
    (hdel : (c.thr .delete).Safe (sem dsem) (Apart C n) finishAt (NoneLeft C n) c.st)
    (hp : c.thr .delete = .call o k) : Stage C n (c.step (sem dsem) (.delete, e)) := by
  have hrec : (c.step (sem dsem) (.delete, e)).thr .reconciler = c.thr .reconciler :=
    Pool.step_thr_ne (by decide)
  rw [hp] at hdel
  obtain ⟨hat, hdel'⟩ := hdel.step Apart.refl e
  refine .late ?_ (hrec ▸ hcold) ?_
  · intro w hw
    rw [Pool.step_call hp] at hw
    refine hrow w ?_
    cases o with
    | get m => rwa [get_state] at hw
    | list => exact hw
    | put v => exact absurd hat id
    | drv side d => exact hw
    | delete m =>
      simp only [sem] at hw
      cases hf : e.fault with
      | some m => rwa [hf] at hw
      | none =>
        rw [hf] at hw
        by_cases hm : n = m
        · subst hm; rw [Table.get_del_self] at hw; cases hw
        · rwa [Table.get_del_ne _ hm] at hw
  · rw [Pool.step_call hp]; simpa using hdel'

theorem Stage.delete {o : Op D} {k : Res DRes o → Code DRes (Except Err Unit)}
    (h : Stage C n c) (hp : c.thr .delete = .call o k) (hok : Timely c .delete e) :
    Stage C n (c.step (sem dsem) (.delete, e)) := by
  have htimely := hok rfl
  cases h with
  | alone hb hrow hrec hcold hdel =>
    rcases hdel with hdel | ⟨w, hname, hbody, hdel⟩
    · rw [timely, hdel, delete_eq] at htimely
      exact Stage.lookup (.alone hb hrow hrec hcold (.inl hdel)) hdel
        (Option.isNone_iff_eq_none.mp htimely)
    · rw [timely, hdel] at htimely
      exact Stage.tombstone hrec hcold hname hbody hdel htimely
  | marked hrow hrest hcold hdel =>
    rw [timely, hdel, delete_eq] at htimely
    exact Stage.lookup (.marked hrow hrest hcold hdel) hdel
      (Option.isNone_iff_eq_none.mp htimely)
  | late hrow hcold hdel => exact Stage.finish hrow hcold hdel hp
  | failed hdel => obtain ⟨err, hdel⟩ := hdel; rw [hp] at hdel; cases hdel

theorem stage_init (C : (s : Side) → Contract (dsem s) (svc s)) (n : String) (m : Nat)
    (s : State δ) (hs : Rested C n (sideOf (kindOf n s)) s) :
    Stage C n (deletePool svc n m s) := by
  have hcold : ∀ hot, ((deletePool svc n m s).thr .reconciler).Obeys (coldMonitor C n) hot := by
    intro hot; exact Prog.obeys_bind.mpr ((ticks_cold m).mono fun _ _ _ => trivial)
  by_cases hmark : ∀ w, s.rows.get n = some w → w.desiredState = .deleting
  · exact .marked hmark hs (hcold false) rfl
  · simp only [not_forall] at hmark
    obtain ⟨w, hw, hdes⟩ := hmark
    have hkind : kindOf n s = w.kind := by
      rw [kindOf, hw]
    have hlone : Lone C n w.body s := by
      refine ⟨?_, ?_⟩
      · rw [hkind] at hs; exact hs
      · rw [rowBody, hw]; rfl
    refine .alone (b := w.body) hdes hlone.2 ?_ ⟨true, hcold true⟩ (.inl rfl)
    refine .andThen ((ticks_alone m hlone).mono ?_)
    rintro _ s hs s' rfl
    exact hs

/-- Start with no driver call under way and no instance under the other kind. If the store
answers `Delete`'s lookup and no pass is under way when it writes its tombstone, then a `Delete`
that has returned nil leaves no instance of the name in either driver, at any later moment. -/
theorem delete_final (C : (s : Side) → Contract (dsem s) (svc s)) (n : String) (m : Nat)
    (s : State δ) (hs : Rested C n (sideOf (kindOf n s)) s) (w : List (Actor × Env ε))
    (hw : (deletePool svc n m s).Allowed (sem dsem) Timely w)
    (hret : ((deletePool svc n m s).run (sem dsem) w).thr .delete = .ret (.ok ())) :
    ∀ side, ¬ (C side).holds (((deletePool svc n m s).run (sem dsem) w).st.dev side) n := by
  have hstage : Stage C n ((deletePool svc n m s).run (sem dsem) w) := by
    refine Pool.run_induct (P := fun _ c => Stage C n c) ?_ w [] _ (stage_init C n m s hs) hw
    intro h c i e o k hc hp hok
    cases i with
    | delete => exact hc.delete hp hok
    | reconciler => exact hc.reconciler hp
  cases hstage with
  | alone hb hrow hrec hcold hdel =>
    rcases hdel with hdel | ⟨v, -, -, hdel⟩
    · rw [hdel, delete_eq] at hret; cases hret
    · rw [hdel] at hret; cases hret
  | marked hrow hrest hcold hdel => rw [hdel, delete_eq] at hret; cases hret
  | late hrow hcold hdel => rw [hret] at hdel; exact hdel _ (Apart.refl _) rfl
  | failed hdel => obtain ⟨err, hdel⟩ := hdel; rw [hdel] at hret; cases hret

end

/-! ## A VM beside no containers -/

def VmOp : Side → Type
  | .container => Empty
  | .vm => Firecracker.Op

def VmRes : (s : Side) → VmOp s → Type
  | .container, _ => Unit
  | .vm, o => Firecracker.Res o

def VmState : Side → Type
  | .container => Unit
  | .vm => Firecracker.Host

def vmSem : (s : Side) → Sem (VmOp s) (VmRes s) (VmState s) (Option String)
  | .container => fun d _ _ => nomatch d
  | .vm => Firecracker.sem

def vmParams : Firecracker.Params := ⟨fun _ => .ok "5d41", fun n => "kv-" ++ n⟩

/-- A capsule without containerd. -/
def vmService : Service VmRes
  | .container => none
  | .vm => some (Firecracker.driver vmParams)

def vmContract : (s : Side) → Contract (vmSem s) (vmService s)
  | .container =>
    { about := fun d => nomatch d
      holds := fun _ _ => False
      quiet := fun _ _ => True
      unwired := fun _ _ _ h => h
      quiet_frame := fun _ _ => trivial
      holds_frame := fun _ h => h
      ensureRunning := fun _ h => nomatch h
      remove := fun _ h => nomatch h
      status := fun _ h => nomatch h }
  | .vm => Firecracker.contract vmParams

def db : Workload where
  name := "db"
  kind := .microVm
  container := none
  microVm := some ⟨"postgres", "", "", []⟩
  status := none
  desiredState := .running

/-- The store holds `db` alone, and no VM runs. -/
def dbStored : State VmState where
  rows := Table.empty.put db
  dev
    | .container => ()
    | .vm => ⟨fun _ => none, fun _ => [], fun _ => none, 1⟩

/-- `k` steps of one side, all answered. -/
def steps (i : Actor) (k : Nat) : List (Actor × Env (Option String)) :=
  List.replicate k (i, ⟨none, none⟩)

theorem dbStored_rested : Rested vmContract "db" (sideOf (kindOf "db" dbStored)) dbStored := by
  refine ⟨fun _ h => (nomatch h), ?_⟩
  intro side hside
  cases side with
  | container => exact id
  | vm => exact absurd rfl hside

/-- A pass starts the VM, then `Delete` stops it. -/
def startThenDelete : List (Actor × Env (Option String)) :=
  steps .reconciler 17 ++ steps .delete 10

theorem delete_final_db :
    ((deletePool vmService "db" 1 dbStored).run (sem vmSem) startThenDelete).thr .delete =
        .ret (.ok ()) ∧
      ¬ (vmContract .container).holds
        (((deletePool vmService "db" 1 dbStored).run (sem vmSem) startThenDelete).st.dev .container)
        "db" ∧
      ¬ (vmContract .vm).holds
        (((deletePool vmService "db" 1 dbStored).run (sem vmSem) startThenDelete).st.dev .vm)
        "db" := by
  have hnone := delete_final vmContract "db" 1 dbStored dbStored_rested startThenDelete
    (by decide) rfl
  exact ⟨rfl, hnone .container, hnone .vm⟩

/-- The VM's process is up and not yet in the driver's map when `Delete` runs from its lookup to
its end; then the pass enters it. -/
def lateRegistration : List (Actor × Env (Option String)) :=
  steps .reconciler 9 ++ steps .delete 8 ++ steps .reconciler 7

/-- `Delete` returned nil, the pass is over, there is no row, and the VM runs on. -/
theorem vm_outlives_delete :
    ((deletePool vmService "db" 1 dbStored).run (sem vmSem) lateRegistration).thr .delete =
        .ret (.ok ()) ∧
      ((deletePool vmService "db" 1 dbStored).run (sem vmSem) lateRegistration).thr .reconciler =
        .ret (.ok ()) ∧
      ((deletePool vmService "db" 1 dbStored).run (sem vmSem) lateRegistration).st.rows.get "db" =
        none ∧
      (vmContract .vm).holds
        (((deletePool vmService "db" 1 dbStored).run (sem vmSem) lateRegistration).st.dev .vm)
        "db" :=
  ⟨rfl, rfl, by decide, .inl rfl⟩

end Capsule.Workloads
