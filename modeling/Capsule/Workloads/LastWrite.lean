import Capsule.Workloads.Calls

/-!
# Capsule.Workloads.LastWrite

Whether what the operator wrote last survives the reconciler's status writes, which put back a row
they have read before.

* `lastWritten`: the operator's `Put` that came last, in the history of a run.
* `Unstraddled`: when an operator's call puts, no status write is between its `Get` and its `Put`.
* `Kept`, `Kept.step`: the invariant. The row has the body of `lastWritten`, and so has every row
  that a status write is about to put.
* `desired_kept`: so it has in every interleaving that is unstraddled.
-/

namespace Capsule.Workloads

open Atomic Keyed

section

variable {D : Side → Type} {DRes : (s : Side) → D s → Type} {ι : Type} {δ : Side → Type}
  {ε : Type}

/-- The row an event of an operator's call stored. -/
def written (calls : ι → Call) : Event ι (Op D) (Res DRes) → Option Workload
  | ⟨i, .put w, .ok ()⟩ => if (calls i).operator then some w else none
  | _ => none

/-- The operator `Put` that came last. -/
def lastWritten (calls : ι → Call) (h : List (Event ι (Op D) (Res DRes))) : Option Workload :=
  (h.filterMap (written calls)).getLast?

theorem lastWritten_append (calls : ι → Call) (h : List (Event ι (Op D) (Res DRes)))
    (ev : Event ι (Op D) (Res DRes)) :
    lastWritten calls (h ++ [ev]) = (written calls ev).or (lastWritten calls h) := by
  unfold lastWritten
  rw [List.filterMap_append]
  cases hw : written calls ev with
  | none => simp [hw]
  | some w => simp [hw]

theorem Call.write_name {name : String} {call : Call} {r : Except Err Workload} {w : Workload}
    (hr : ∀ x, r = .ok x → x.name = name) (h : call.write name r = some w) : w.name = name := by
  cases r with
  | ok x =>
    have hx := hr x rfl
    cases call with
    | apply v =>
      cases v with
      | none => cases h
      | some v => cases h; rfl
    | start => cases h; exact hx
    | stop => cases h; exact hx
    | mark => simp only [write] at h; split at h <;> cases h; exact hx
    | delete => simp only [write] at h; split at h <;> cases h; exact hx
    | setStatus st => simp only [write] at h; split at h <;> cases h; exact hx
  | error e =>
    cases call with
    | apply v =>
      cases v with
      | none => cases h
      | some v => simp only [write] at h; split at h <;> cases h; rfl
    | _ => cases h

theorem Call.write_body {name : String} {call : Call} {r : Except Err Workload} {w : Workload}
    (hc : call.operator = false) (h : call.write name r = some w) :
    ∃ x, r = .ok x ∧ w.body = x.body := by
  cases call with
  | setStatus st =>
    cases r with
    | error e => cases h
    | ok x =>
      simp only [write] at h
      split at h <;> cases h
      exact ⟨x, rfl, rfl⟩
  | _ => cases hc

theorem Phase.after_eq_writing {o : Option Workload} {w : Workload}
    (h : Phase.after o = .writing w) : o = some w := by
  cases o with
  | none => cases h
  | some x => cases h; rfl

/-- What holds while no status write straddles an operator's. -/
structure Kept (name : String) (calls : ι → Call) (init : Option Workload)
    (h : List (Event ι (Op D) (Res DRes))) (g : ι → Phase) (s : State δ) : Prop where
  named : ∀ i w, g i = .writing w → w.name = name
  fresh : ∀ i w, (calls i).operator = false → g i = .writing w → rowBody name s = some w.body
  last : rowBody name s = ((lastWritten calls h).or init).map Workload.body

/-- When an operator's call puts, no status write has been read but not yet put. -/
def Unstraddled (calls : ι → Call) (c : Pool ι (Op D) (Res DRes) (State δ) (Except Err Unit))
    (i : ι) (_ : Env ε) : Prop :=
  (calls i).operator = true → putting (c.thr i) = true →
    ∀ j, (calls j).operator = false → putting (c.thr j) = false

instance [Fintype ι] (calls : ι → Call)
    (c : Pool ι (Op D) (Res DRes) (State δ) (Except Err Unit)) (i : ι) (e : Env ε) :
    Decidable (Unstraddled calls c i e) :=
  inferInstanceAs (Decidable ((calls i).operator = true → putting (c.thr i) = true →
    ∀ j, (calls j).operator = false → putting (c.thr j) = false))

theorem Unstraddled.clear {name : String} {calls : ι → Call} {g : ι → Phase} {i : ι} {e : Env ε}
    {c : Pool ι (Op D) (Res DRes) (State δ) (Except Err Unit)}
    (hob : ∀ j, (c.thr j).Obeys (monitor DRes name (calls j)) (g j))
    (hok : Unstraddled calls c i e) (hop : (calls i).operator = true)
    (hi : ∃ w, g i = .writing w) (j : ι) (hj : (calls j).operator = false) (w : Workload) :
    g j ≠ .writing w := by
  obtain ⟨v, hv⟩ := hi
  intro hw
  have hputi : putting (c.thr i) = true := putting_of_writing (hv ▸ hob i)
  have hputj : putting (c.thr j) = true := putting_of_writing (hw ▸ hob j)
  rw [hok hop hputi j hj] at hputj
  cases hputj

variable [DecidableEq ι]

theorem writing_update {g : ι → Phase} {i j : ι} {g' : Phase} {w : Workload}
    (h : Function.update g i g' j = .writing w) :
    (j = i ∧ g' = .writing w) ∨ (j ≠ i ∧ g j = .writing w) := by
  by_cases hji : j = i
  · subst hji; exact .inl ⟨rfl, by simpa using h⟩
  · exact .inr ⟨hji, by simpa [hji] using h⟩

section Kept

variable {name : String} {calls : ι → Call} {init : Option Workload}
  {h : List (Event ι (Op D) (Res DRes))} {g : ι → Phase} {s s' : State δ} {i : ι}
  {ev : Event ι (Op D) (Res DRes)} {gi g' : Phase}

theorem Kept.idle (hk : Kept name calls init h g s) (hrow : rowBody name s' = rowBody name s)
    (hev : written calls ev = none) :
    Kept name calls init (h ++ [ev]) (Function.update g i .rest) s' := by
  refine ⟨?_, ?_, ?_⟩
  · intro j w hj
    rcases writing_update hj with ⟨-, hw⟩ | ⟨-, hw⟩
    · cases hw
    · exact hk.named j w hw
  · intro j w hop hj
    rcases writing_update hj with ⟨-, hw⟩ | ⟨-, hw⟩
    · cases hw
    · rw [hrow]; exact hk.fresh j w hop hw
  · rw [lastWritten_append, hrow, hev, Option.none_or]; exact hk.last

theorem Kept.read {r : Except Err Workload} (hk : Kept name calls init h g s)
    (hr : ∀ w, r = .ok w → s.rows.get name = some w) :
    Kept name calls init (h ++ [⟨i, .get name, r⟩])
      (Function.update g i (.after ((calls i).write name r))) s := by
  have hname : ∀ x, r = .ok x → x.name = name := fun x hx => Table.get_some_key (hr x hx)
  refine ⟨?_, ?_, ?_⟩
  · intro j w hj
    rcases writing_update hj with ⟨-, hw⟩ | ⟨-, hw⟩
    · exact Call.write_name hname (Phase.after_eq_writing hw)
    · exact hk.named j w hw
  · intro j w hop hj
    rcases writing_update hj with ⟨rfl, hw⟩ | ⟨-, hw⟩
    · obtain ⟨x, hx, hbody⟩ := Call.write_body hop (Phase.after_eq_writing hw)
      rw [rowBody, hr x hx, Option.map_some, hbody]
    · exact hk.fresh j w hop hw
  · rw [lastWritten_append]; exact hk.last

theorem Kept.put {w : Workload} (hk : Kept name calls init h g s) (hgi : g i = .writing w)
    (hclear : (calls i).operator → ∀ j, (calls j).operator = false → ∀ v, g j ≠ .writing v) :
    Kept name calls init (h ++ [⟨i, .put w, .ok ()⟩]) (Function.update g i .rest)
      { s with rows := s.rows.put w } := by
  have hrow : rowBody name { s with rows := s.rows.put w } = some w.body := by
    obtain rfl := hk.named i w hgi; simp [rowBody]
  cases hi : (calls i).operator with
  | false =>
    -- the row keeps its body, so for the invariant nothing was stored
    have hsame := hrow.trans (hk.fresh i w hi hgi).symm
    exact hk.idle hsame (by simp [written, hi])
  | true =>
    have hothers := hclear hi
    refine ⟨?_, ?_, ?_⟩
    · intro j v hj
      rcases writing_update hj with ⟨-, hw⟩ | ⟨-, hw⟩
      · cases hw
      · exact hk.named j v hw
    · intro j v hop hj
      rcases writing_update hj with ⟨-, hw⟩ | ⟨-, hw⟩
      · cases hw
      · exact absurd hw (hothers j hop v)
    · rw [lastWritten_append, hrow]; simp [written, hi]

theorem Kept.step (hk : Kept name calls init h g s)
    (hs : CallStep name (calls i) i s gi ev s' g') (hgi : g i = gi) (hcall : calls i ≠ .delete)
    (hclear : (calls i).operator → (∃ w, g i = .writing w) →
      ∀ j, (calls j).operator = false → ∀ w, g j ≠ .writing w) :
    Kept name calls init (h ++ [ev]) (Function.update g i g') s' := by
  cases hs with
  | read hr => exact hk.read hr
  | put => exact hk.put hgi fun hop => hclear hop ⟨_, hgi⟩
  | putFailed => exact hk.idle rfl rfl
  | driver => exact hk.idle rfl rfl
  | remove h => exact absurd h hcall
  | removeFailed h => exact absurd h hcall

end Kept

section Run

variable (dsem : (s : Side) → Sem (D s) (DRes s) (δ s) ε)

theorem kept_run (svc : Service DRes) (name : String) (calls : ι → Call)
    (hcalls : ∀ i, calls i ≠ .delete) (s : State δ) {w : List (ι × Env ε)}
    (hw : (pool svc name calls s).Allowed (sem dsem) (Unstraddled calls) w) :
    ∃ g, Kept name calls (s.rows.get name) ((pool svc name calls s).events (sem dsem) w) g
        ((pool svc name calls s).run (sem dsem) w).st ∧
      ∀ j, (((pool svc name calls s).run (sem dsem) w).thr j).Obeys
        (monitor DRes name (calls j)) (g j) := by
  refine Pool.run_monitor (P := fun h g c => Kept name calls (s.rows.get name) h g c.st)
    (g := fun _ => .reading) ?_ ?_ ?_ hw
  · intro h g c i e o k hk hob hp hok
    have hs := callStep_of_obeys dsem (hp ▸ hob i) i e c.st
    rw [Pool.step_call hp]
    exact hk.step hs rfl (hcalls i) (hok.clear hob)
  · exact fun j => (calls j).code_obeys svc name
  · exact ⟨fun i w hi => (by cases hi), fun i w _ hi => (by cases hi), rfl⟩

/-- While no operator's `Put` falls between the `Get` and the `Put` of a status write, the row
has the spec and the desired state the operator wrote last, and a step of a status write changes
neither. -/
theorem desired_kept (svc : Service DRes) (name : String) (calls : ι → Call)
    (hcalls : ∀ i, calls i ≠ .delete) (s : State δ) (w : List (ι × Env ε))
    (hw : (pool svc name calls s).Allowed (sem dsem) (Unstraddled calls) w) :
    rowBody name ((pool svc name calls s).run (sem dsem) w).st =
        ((lastWritten calls ((pool svc name calls s).events (sem dsem) w)).or
          (s.rows.get name)).map Workload.body ∧
      ∀ i e, (calls i).operator = false →
        rowBody name (((pool svc name calls s).run (sem dsem) w).step (sem dsem) (i, e)).st =
          rowBody name ((pool svc name calls s).run (sem dsem) w).st := by
  obtain ⟨g, hk, hob⟩ := kept_run dsem svc name calls hcalls s hw
  refine ⟨hk.last, ?_⟩
  intro i e hop
  cases hp : ((pool svc name calls s).run (sem dsem) w).thr i with
  | ret r => rw [Pool.step_ret hp]
  | call o k =>
    have hs := callStep_of_obeys dsem (hp ▸ hob i) i e ((pool svc name calls s).run (sem dsem) w).st
    have hk' := hk.step hs rfl (hcalls i) (fun h => absurd h (by simp [hop]))
    have hev : ∀ a, written calls (⟨i, o, a⟩ : Event ι (Op D) (Res DRes)) = none := by
      intro a
      unfold written
      split
      · rename_i heq; cases heq; simp [hop]
      · rfl
    rw [Pool.step_call hp, hk'.last, hk.last, lastWritten_append, hev, Option.none_or]

end Run

end

/-- No driver is wired, so there is no driver operation. -/
def noDrivers : Service (fun (_ : Side) (_ : Empty) => Unit) := fun _ => none

def noDriverSem (s : Side) : Sem Empty (fun _ => Unit) Unit Unit := fun d _ _ => nomatch s, d

def web : Workload where
  name := "web"
  kind := .container
  container := some ⟨"nginx", []⟩
  microVm := none
  status := none
  desiredState := .running

/-- The store holds `web` alone. -/
def webStored : State fun _ => Unit := ⟨Table.empty.put web, fun _ => ()⟩

def answers : Env Unit := ⟨none, ()⟩

/-- `Stop` (`true`) beside a status write (`false`). -/
def stopBeside : Bool → Call
  | true => .stop
  | false => .setStatus ⟨.running, "", 0⟩

theorem desired_kept_stop :
    rowBody "web" ((pool noDrivers "web" stopBeside webStored).run (sem noDriverSem)
        [(false, answers), (false, answers), (true, answers), (true, answers)]).st =
      some { web with desiredState := .stopped } :=
  (desired_kept noDriverSem noDrivers "web" stopBeside (by decide) webStored
    [(false, answers), (false, answers), (true, answers), (true, answers)] (by decide)).1.trans
      (by decide)

/-- The status write reads the row before `Stop` and puts it back after. -/
def straddling : List (Bool × Env Unit) :=
  [(false, answers), (true, answers), (true, answers), (false, answers)]

/-- The operator's last write says stopped, the row says running. -/
theorem stop_undone :
    ((pool noDrivers "web" stopBeside webStored).run (sem noDriverSem) straddling).Done ∧
      lastWritten stopBeside
          ((pool noDrivers "web" stopBeside webStored).events (sem noDriverSem) straddling) =
        some { web with desiredState := .stopped } ∧
      ((pool noDrivers "web" stopBeside webStored).run (sem noDriverSem) straddling).st.rows.get
          "web" = some { web with status := some ⟨.running, "", 0⟩ } := by
  decide

end Capsule.Workloads
