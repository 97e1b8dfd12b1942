import Capsule.Atomic.Steps
import Capsule.Workloads.Acts

/-!
# Capsule.Workloads.OneInstance

Which driver has an instance of a name, over sequential runs of requests, passes and reboots, with
drivers that keep a contract on their calls (`CallContract`).

* `Placed`: the invariant. Every instance is under a wired driver, for a row of its kind.
* `Permits`, `Placed.step`: the operations that keep it.
* `Act.Orderly`, `Act.Orderly.placed`: `Apply` changes a kind only when the old one has no instance,
  and `Delete` gets to read the row while there is a VM.
* `one_instance`: after each act of such a run a name has at most one instance, of the row's kind;
  and a `Delete` that returns nil leaves none.
-/

namespace Capsule.Workloads

open Atomic Keyed

/-- What is expected of a driver call: only `EnsureRunning` brings an instance about, one of the
workload's name, and `Remove` that returns nil leaves none of its name. -/
structure CallContract {δ ε : Type} (dsem : Sem DriverCall DriverCall.Res δ ε) where
  holds : δ → String → Prop
  created : ∀ {d e s n}, holds (dsem d e s).1 n →
    holds s n ∨ ∃ w, d = .ensureRunning w ∧ w.name = n
  removed : ∀ {n e s}, (dsem (.remove n) e s).2 = .ok () → ¬ holds (dsem (.remove n) e s).1 n

section

variable {δ : Side → Type} {ε : Type} {dsem : (s : Side) → Sem DriverCall DriverCall.Res (δ s) ε}
  (C : (side : Side) → CallContract (dsem side)) (wired : Side → Bool)

/-- The name has at most one instance, which is of the row's kind. -/
structure Single (s : State δ) (n : String) : Prop where
  unique : ∀ side side', (C side).holds (s.dev side) n → (C side').holds (s.dev side') n →
    side = side'
  kind : ∀ side, (C side).holds (s.dev side) n →
    ∃ w, s.rows.get n = some w ∧ side? w.kind = some side

/-- Every instance is under a wired driver, for a row of its kind. -/
def Placed (s : State δ) : Prop :=
  ∀ side n, (C side).holds (s.dev side) n →
    wired side = true ∧ ∃ w, s.rows.get n = some w ∧ side? w.kind = some side

/-- `Apply` is of the kind of every instance the name has, `Delete` reads the row unless there is no
virtual machine, and no instance appears over a reboot. -/
def Act.Orderly (s : State δ) : Act δ ε → Prop
  | .request (.apply (some w)) _ => validate w = .ok () →
    ∀ side, (C side).holds (s.dev side) w.name → side? w.kind = some side
  | .request (.delete n) (e :: _) => e.fault ≠ none → ¬ (C .vm).holds (s.dev .vm) n
  | .reboot dev => ∀ side n, (C side).holds (dev side) n → (C side).holds (s.dev side) n
  | _ => True

/-- The operations that keep every instance in its place. -/
def Permits : Op Calls → State δ → Prop
  | .put w, s => ∀ side, (C side).holds (s.dev side) w.name → side? w.kind = some side
  | .delete n, s => ∀ side, ¬ (C side).holds (s.dev side) n
  | .drv side (.ensureRunning w), s =>
    wired side = true ∧ ∃ r, s.rows.get w.name = some r ∧ side? r.kind = some side
  | _, _ => True

variable {C wired}

theorem Placed.single {s : State δ} (hs : Placed C wired s) (n : String) : Single C s n where
  unique := by
    intro side side' h h'
    obtain ⟨-, w, hw, hk⟩ := hs side n h
    obtain ⟨-, w', hw', hk'⟩ := hs side' n h'
    rw [hw, Option.some.injEq] at hw'
    subst hw'
    exact Option.some.inj (hk.symm.trans hk')
  kind side h := (hs side n h).2

theorem Placed.put {s : State δ} (hs : Placed C wired s) {w : Workload}
    (hw : Permits C wired (.put w) s) : Placed C wired { s with rows := s.rows.put w } := by
  intro side n h
  obtain ⟨hwired, r, hr, hk⟩ := hs side n h
  by_cases hn : n = w.name
  · subst hn; exact ⟨hwired, w, Table.get_put_self _ w, hw side h⟩
  · exact ⟨hwired, r, (Table.get_put_ne _ hn).trans hr, hk⟩

/-- The step lemma. -/
theorem Placed.step {s : State δ} (hs : Placed C wired s) {o : Op Calls}
    (ho : Permits C wired o s) (e : Env ε) : Placed C wired (sem dsem o e s).1 := by
  cases o with
  | get n => rwa [get_state]
  | list => exact hs
  | put w =>
    simp only [sem]
    cases e.fault with
    | some m => exact hs
    | none => exact hs.put ho
  | delete m =>
    simp only [sem]
    cases e.fault with
    | some m => exact hs
    | none =>
      intro side n h
      obtain ⟨hwired, r, hr, hk⟩ := hs side n h
      have hn : n ≠ m := by
        rintro rfl; exact ho side h
      exact ⟨hwired, r, (Table.get_del_ne _ hn).trans hr, hk⟩
  | drv side d =>
    intro side' n h
    by_cases hside : side' = side
    · subst hside
      rw [sem_drv_self] at h
      rcases (C side').created h with h | ⟨w, rfl, rfl⟩
      · exact hs side' n h
      · exact ho
    · rw [sem_drv_ne hside] at h; exact hs side' n h

theorem row_of_body {s : State δ} {w : Workload} (h : rowBody w.name s = some w.body) :
    ∃ r, s.rows.get w.name = some r ∧ r.kind = w.kind := by
  obtain ⟨r, hr, hb⟩ := Option.map_eq_some_iff.mp h
  have hk : r.body.kind = w.body.kind := congrArg Workload.kind hb
  exact ⟨r, hr, hk⟩

theorem Act.Puts.permits {a : Act δ ε} {s₀ s : State δ} {w : Workload} (ha : a.Orderly C s₀)
    (hp : a.Puts s₀ s w) (hs : Placed C wired s) (side : Side)
    (h : (C side).holds (s.dev side) w.name) : side? w.kind = some side := by
  obtain ⟨-, v, hv, hk⟩ := hs side w.name h
  -- a row that is replaced by one of its kind
  have hsame : ∀ r, s.rows.get w.name = some r → w.kind = r.kind → side? w.kind = some side := by
    intro r hr hkind
    rw [hv, Option.some.injEq] at hr
    rw [hkind, ← hr]
    exact hk
  have hbody : rowBody w.name s = some w.body → side? w.kind = some side := by
    intro hb; obtain ⟨r, hr, hkind⟩ := row_of_body hb; exact hsame r hr hkind.symm
  cases a with
  | request r es =>
    cases r with
    | apply u =>
      obtain ⟨rfl, u', rfl, hvalid, hname, hkind, -⟩ := hp
      rw [hkind]
      exact ha hvalid side (hname ▸ h)
    | start n | stop n | delete n =>
      obtain ⟨⟨rfl, r, hr, hkind⟩, -⟩ := hp; exact hsame r hr hkind
    | restart n => exact absurd hp id
  | setStatus n st es => exact hbody hp
  | tick es => exact hbody hp
  | reboot dev => exact absurd hp id

theorem Act.At.permits {a : Act δ ε} {s₀ s : State δ} {o : Op Calls} (ha : a.Orderly C s₀)
    (hdel : ∀ n, ¬ a.Deletes n) (ho : a.At wired s₀ o s) (hs : Placed C wired s) :
    Permits C wired o s := by
  cases o with
  | put w => exact fun side h => Act.Puts.permits ha ho hs side h
  | delete n => exact absurd ho (hdel n)
  | get n => trivial
  | list => trivial
  | drv side d =>
    cases d with
    | ensureRunning w =>
      obtain ⟨hsame, hrow, hside, hwired, -⟩ := ho
      obtain ⟨r, hr, hk⟩ := row_of_body ((hsame w.name).trans hrow)
      exact ⟨hwired, r, hr, hk ▸ hside⟩
    | remove n => trivial
    | status n => trivial

theorem Placed.after {a : Act δ ε} {s : State δ} (ha : a.Orderly C s) (hdel : ∀ n, ¬ a.Deletes n)
    (hs : Placed C wired s) : Placed C wired (a.after dsem wired s) := by
  have hrun : Placed C wired (a.outcome dsem wired s).st :=
    (a.safe s).exec (fun o e s' ho hs' => hs'.step (Act.At.permits ha hdel ho hs') e) hs a.answers
  cases a with
  | reboot dev => exact fun side n h => hs side n (ha side n h)
  | _ => exact hrun

variable (C) in
/-- No driver has an instance of the name. -/
def Vacant (s : State δ) (n : String) : Prop := ∀ side, ¬ (C side).holds (s.dev side) n

theorem deleteRow_permits {n : String} {s : State δ} (h : Vacant C s n) :
    (deleteRow n : Code CallsRes _).Safe (sem dsem) Eq (Permits C wired)
      (fun r s => r = .ok () → Vacant C s n) s :=
  safe_delete h (fun _ => .ret fun h => nomatch h)
    (.ret fun _ => h)

theorem finish_permits {kind : Kind} {n : String} {s : State δ} (hs : Placed C wired s)
    (hother : ∀ side, side ≠ sideOf kind → ¬ (C side).holds (s.dev side) n) :
    (finish (callService wired) n kind).Safe (sem dsem) Eq (Permits C wired)
      (fun r s => r = .ok () → Vacant C s n) s := by
  unfold finish removeRuntime callService
  cases hwired : wired (sideOf kind) with
  | false =>
    refine deleteRow_permits ?_
    intro side h
    by_cases hside : side = sideOf kind
    · have hw := (hs side n h).1
      rw [hside, hwired] at hw
      cases hw
    · exact hother side hside h
  | true =>
    refine .call ⟨trivial, fun e => ?_⟩
    have hgone : (sem dsem (.drv (sideOf kind) (.remove n)) e s).2 = .ok () →
        Vacant C (sem dsem (.drv (sideOf kind) (.remove n)) e s).1 n := by
      intro hr side h
      by_cases hside : side = sideOf kind
      · subst hside; rw [sem_drv_self] at h; exact (C _).removed hr h
      · rw [sem_drv_ne hside] at h; exact hother side hside h
    generalize sem dsem (.drv (sideOf kind) (.remove n)) e s = out at hgone ⊢
    obtain ⟨s₁, r⟩ := out
    cases r with
    | error err => exact .ret fun h => nomatch h
    | ok _ => exact deleteRow_permits (hgone rfl)

theorem Placed.other {s : State δ} (hs : Placed C wired s) {w : Workload} {n : String}
    (hw : s.rows.get n = some w) (side : Side) (hside : side ≠ sideOf w.kind) :
    ¬ (C side).holds (s.dev side) n := by
  intro h
  obtain ⟨-, r, hr, hk⟩ := hs side n h
  rw [hw, Option.some.injEq] at hr
  subst hr
  cases hkind : w.kind with
  | unspecified => rw [hkind] at hk; cases hk
  | container | microVm => rw [hkind] at hk hside; cases hk; exact hside rfl

theorem afterGet_permits {n : String} {s : State δ} (hs : Placed C wired s)
    {r : Except Err Workload} (hr : ∀ w, r = .ok w → s.rows.get n = some w)
    (hvm : ∀ e, r = .error e → ¬ (C .vm).holds (s.dev .vm) n) :
    (afterGet (callService wired) n r).Safe (sem dsem) Eq (Permits C wired)
      (fun r s => r = .ok () → Vacant C s n) s := by
  cases r with
  | error e =>
    refine finish_permits hs ?_
    intro side hside
    cases side with
    | container => exact absurd rfl hside
    | vm => exact hvm e rfl
  | ok w =>
    have hw := hr w rfl
    have hn : w.name = n := Table.get_some_key hw
    have hput : Permits C wired (.put { w with desiredState := .deleting }) s := by
      intro side h
      obtain ⟨-, r, hr, hk⟩ := hs side w.name h
      rw [hn, hw, Option.some.injEq] at hr
      subst hr
      exact hk
    dsimp only [afterGet]
    split
    · exact finish_permits hs (hs.other hw)
    · refine safe_put hput (fun _ => .ret fun h => nomatch h) ?_
      exact finish_permits (hs.put hput) (hs.other hw)

theorem delete_permits {n : String} {es : List (Env ε)} {s : State δ} (hs : Placed C wired s)
    (ha : (Act.request (.delete n) es : Act δ ε).Orderly C s) :
    Placed C wired ((Act.request (.delete n) es).outcome dsem wired s).st ∧
      (((Act.request (.delete n) es).outcome dsem wired s).val = some (.ok ()) →
        Vacant C ((Act.request (.delete n) es).outcome dsem wired s).st n) := by
  simp only [Act.outcome, Act.code, Act.answers, Request.code, delete_eq]
  cases es with
  | nil => exact ⟨hs, fun h => nomatch h⟩
  | cons e es =>
    rw [Prog.exec_call_cons, get_state]
    have hsafe : (afterGet (callService wired) n (sem dsem (.get n) e s).2).Safe (sem dsem) Eq
        (Permits C wired) (fun r s => r = .ok () → Vacant C s n) s := by
      refine afterGet_permits hs (fun w hw => get_answer dsem hw) ?_
      intro err herr h
      by_cases hf : e.fault = none
      · -- the store has answered: there is no row, so there is no instance
        obtain ⟨-, w, hw, -⟩ := hs .vm n h
        simp [sem, hf, getRow, hw] at herr
      · exact ha hf h
    exact ⟨hsafe.exec (fun o e s ho hs => hs.step ho e) hs es, fun h => hsafe.exec_val h rfl⟩

/-! ## Runs -/

/-- The step lemma for acts. -/
theorem Act.Orderly.placed {a : Act δ ε} {s : State δ} (ha : a.Orderly C s)
    (hs : Placed C wired s) : Placed C wired (a.after dsem wired s) := by
  by_cases hdel : ∃ n, a.Deletes n
  · obtain ⟨n, es, rfl⟩ := hdel; exact (delete_permits hs ha).1
  · exact hs.after ha fun n hn => hdel ⟨n, hn⟩

/-- Over every sequential run in which `Apply` changes the kind of a workload only when the driver
of the old kind has no instance of it, and the lookup of `Delete` is answered when there is a
virtual machine: after each act every name has at most one instance, which is of its row's kind, and
none once `Delete` has returned nil. -/
theorem one_instance (dsem : (s : Side) → Sem DriverCall DriverCall.Res (δ s) ε)
    (C : (side : Side) → CallContract (dsem side)) (wired : Side → Bool) (s : State δ)
    (hs : Placed C wired s) (acts : List (Act δ ε))
    (hacts : Along (Act.after dsem wired) (Act.Orderly C) s acts) :
    Along (Act.after dsem wired)
      (fun s a => (∀ n, Single C (a.after dsem wired s) n) ∧
        ∀ n es, a = .request (.delete n) es →
          (a.outcome dsem wired s).val = some (.ok ()) → Vacant C (a.after dsem wired s) n)
      s acts := by
  refine hacts.of_invariant (I := Placed C wired) (fun s a hs ha => ha.placed hs) ?_ hs
  intro s a hs ha
  refine ⟨fun n => (ha.placed hs).single n, ?_⟩
  rintro n es rfl hok
  exact (delete_permits hs ha).2 hok

end

/-- Drivers that keep the names they have an instance of. -/
def register (_ : Side) : Sem DriverCall DriverCall.Res (String → Bool) Unit
  | .ensureRunning w, _, t => (Function.update t w.name true, .ok ())
  | .remove n, _, t => (Function.update t n false, .ok ())
  | .status n, _, t => (t, .ok ⟨if t n then .running else .unknown, ""⟩)

def registered (side : Side) : CallContract (register side) where
  holds t n := t n = true
  created := by
    intro d e t n h
    cases d with
    | ensureRunning w =>
      by_cases hn : n = w.name
      · exact .inr ⟨w, rfl, hn.symm⟩
      · exact .inl (by simpa [register, Function.update_of_ne hn] using h)
    | remove m =>
      by_cases hn : n = m
      · simp [register, hn] at h
      · exact .inl (by simpa [register, Function.update_of_ne hn] using h)
    | status m => exact .inl h
  removed := by simp [register]

def unused : State fun _ => String → Bool := ⟨Table.empty, fun _ _ => false⟩

def appContainer : Workload where
  name := "app"
  kind := .container
  container := some ⟨"app", []⟩
  microVm := none
  status := none
  desiredState := .running

def appVm : Workload where
  name := "app"
  kind := .microVm
  container := none
  microVm := some ⟨"app", "", "", []⟩
  status := none
  desiredState := .running

def answered : List (Env Unit) := List.replicate 6 ⟨none, ()⟩

theorem one_instance_app :
    Along (Act.after register fun _ => true)
      (fun s a => (∀ n, Single registered (a.after register (fun _ => true) s) n) ∧
        ∀ n es, a = .request (.delete n) es →
          (a.outcome register (fun _ => true) s).val = some (.ok ()) →
            Vacant registered (a.after register (fun _ => true) s) n)
      unused [.request (.apply (some appContainer)) answered, .tick answered,
        .request (.delete "app") answered] :=
  one_instance register registered (fun _ => true) unused (fun _ _ h => nomatch h) _
    ⟨fun _ _ h => (nomatch h), trivial, fun h => absurd rfl h, trivial⟩

def afterActs (acts : List (Act (fun _ => String → Bool) Unit)) : State fun _ => String → Bool :=
  acts.foldl (Act.after register fun _ => true) unused

/-- The kind is changed while the container runs. -/
def bothKinds : List (Act (fun _ => String → Bool) Unit) :=
  [.request (.apply (some appContainer)) answered, .tick answered,
    .request (.apply (some appVm)) answered, .tick answered]

/-- A virtual machine is started. -/
def vmOnly : List (Act (fun _ => String → Bool) Unit) :=
  [.request (.apply (some appVm)) answered, .tick answered]

/-- The lookup fails. -/
def blindDelete : Act (fun _ => String → Bool) Unit :=
  .request (.delete "app") (⟨some "database is locked", ()⟩ :: answered)

/-- A container that is applied again as a virtual machine stays beside it; and `Delete` that cannot
read the row of a virtual machine returns nil and leaves it. -/
theorem instance_left :
    (afterActs bothKinds).dev .container "app" = true ∧
      (afterActs bothKinds).dev .vm "app" = true ∧
      (blindDelete.outcome register (fun _ => true) (afterActs vmOnly)).val = some (.ok ()) ∧
      (blindDelete.after register (fun _ => true) (afterActs vmOnly)).dev .vm "app" = true :=
  ⟨by decide, by decide, rfl, by decide⟩

end Capsule.Workloads
