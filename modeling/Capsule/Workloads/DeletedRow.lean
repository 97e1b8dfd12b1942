import Capsule.Workloads.LastWrite

/-!
# Capsule.Workloads.DeletedRow

Whether a deleted row stays deleted while `SetStatus`, `Start` and `Stop` are under way: each of
them reads a row and puts it back.

* `Settled`: when a `Delete` removes the row, no other call is between its `Get` and its `Put`.
* `Away`, `Away.step`: the invariant. Then the row is away, and no call is about to put one.
* `deleted_stays`: in every interleaving that is so settled, it stays gone.
-/

namespace Capsule.Workloads

open Atomic Keyed

section

variable {D : Side → Type} {DRes : (s : Side) → D s → Type} {ι : Type} {δ : Side → Type}
  {ε : Type}

/-- Once a call has removed the row, the row is away and no call is about to put one. -/
def Away (name : String) (g : ι → Phase) (s : State δ) : Prop :=
  (∃ i, g i = .gone) → s.rows.get name = none ∧ ∀ j w, g j ≠ .writing w

theorem Call.write_error {name : String} {call : Call} (hcall : ∀ w, call ≠ .apply w) (e : Err) :
    call.write name (.error e) = none := by
  cases call with
  | apply w => exact absurd rfl (hcall w)
  | _ => rfl

/-- When a row is removed, no other call has read a row it has not put yet. -/
def Settled (c : Pool ι (Op D) (Res DRes) (State δ) (Except Err Unit)) (i : ι) (_ : Env ε) :
    Prop :=
  removing (c.thr i) = true → ∀ j, j ≠ i → putting (c.thr j) = false

theorem Settled.clear {name : String} {calls : ι → Call} {g : ι → Phase} {i : ι} {e : Env ε}
    {c : Pool ι (Op D) (Res DRes) (State δ) (Except Err Unit)} {o : Op D}
    {k : Res DRes o → Code DRes (Except Err Unit)} (hp : c.thr i = .call o k)
    (hob : ∀ j, (c.thr j).Obeys (monitor DRes name (calls j)) (g j)) (hok : Settled c i e)
    (ho : o = .delete name) (j : ι) (hj : j ≠ i) (w : Workload) : g j ≠ .writing w := by
  intro hw
  have hrem : removing (c.thr i) = true := by
    subst ho; rw [hp]; rfl
  have hput : putting (c.thr j) = true := putting_of_writing (hw ▸ hob j)
  rw [hok hrem j hj] at hput
  cases hput

variable [DecidableEq ι]

instance [Fintype ι] (c : Pool ι (Op D) (Res DRes) (State δ) (Except Err Unit)) (i : ι)
    (e : Env ε) : Decidable (Settled c i e) :=
  inferInstanceAs (Decidable
    (removing (c.thr i) = true → ∀ j, j ≠ i → putting (c.thr j) = false))

section Away

variable {name : String} {calls : ι → Call} {g : ι → Phase} {s s' : State δ} {i : ι}
  {ev : Event ι (Op D) (Res DRes)} {gi g' : Phase}

theorem Away.idle (ha : Away name g s) (hi : g i ≠ .gone)
    (hrow : s'.rows.get name = s.rows.get name) : Away name (Function.update g i .rest) s' := by
  rintro ⟨j, hj⟩
  have hji : j ≠ i := by
    rintro rfl; simp at hj
  have hold := ha ⟨j, by simpa [hji] using hj⟩
  refine ⟨hrow.trans hold.1, ?_⟩
  intro l w hl
  rcases writing_update hl with ⟨-, hw⟩ | ⟨-, hw⟩
  · cases hw
  · exact hold.2 l w hw

theorem Away.step (ha : Away name g s) (hs : CallStep name (calls i) i s gi ev s' g')
    (hgi : g i = gi) (hcall : ∀ w, calls i ≠ .apply w)
    (hclear : ev.op = .delete name → ∀ j, j ≠ i → ∀ w, g j ≠ .writing w) :
    Away name (Function.update g i g') s' := by
  cases hs with
  | @read r hr =>
    rintro ⟨j, hj⟩
    have hji : j ≠ i := by
      rintro rfl
      simp only [Function.update_self] at hj
      cases hx : (calls j).write name r <;> rw [hx] at hj <;> cases hj
    have hold := ha ⟨j, by simpa [hji] using hj⟩
    -- the row is away, so the read failed and the call writes nothing
    have herr : (calls i).write name r = none := by
      cases r with
      | error e => exact Call.write_error hcall e
      | ok w =>
        have hrow := hr w rfl
        rw [hold.1] at hrow
        cases hrow
    refine ⟨hold.1, ?_⟩
    intro l w hl
    rcases writing_update hl with ⟨-, hw⟩ | ⟨-, hw⟩
    · rw [herr] at hw; cases hw
    · exact hold.2 l w hw
  | @put w =>
    rintro ⟨j, hj⟩
    have hji : j ≠ i := by
      rintro rfl; simp at hj
    exact absurd hgi ((ha ⟨j, by simpa [hji] using hj⟩).2 i w)
  | putFailed => exact ha.idle (by simp [hgi]) rfl
  | driver => exact ha.idle (by simp [hgi]) rfl
  | remove h =>
    intro _
    refine ⟨Table.get_del_self _ _, ?_⟩
    intro l w hl
    rcases writing_update hl with ⟨-, hw⟩ | ⟨hli, hw⟩
    · cases hw
    · exact hclear rfl l hli w hw
  | removeFailed h => exact ha.idle (by simp [hgi]) rfl

end Away

/-- While every row removal finds the other calls without a `Put` outstanding, a `Delete` that
has returned nil leaves no row, whatever the calls still under way do. -/
theorem deleted_stays (dsem : (s : Side) → Sem (D s) (DRes s) (δ s) ε) (svc : Service DRes)
    (name : String) (calls : ι → Call) (hcalls : ∀ i w, calls i ≠ .apply w) (s : State δ)
    (w : List (ι × Env ε)) (hw : (pool svc name calls s).Allowed (sem dsem) Settled w)
    (d : ι) (hd : calls d = .delete)
    (hret : ((pool svc name calls s).run (sem dsem) w).thr d = .ret (.ok ())) :
    ((pool svc name calls s).run (sem dsem) w).st.rows.get name = none := by
  obtain ⟨g, ha, hob⟩ := Pool.run_monitor
    (M := fun i => monitor DRes name (calls i)) (P := fun _ g c => Away name g c.st)
    (g := fun _ => .reading) (by
      intro h g c i e o k ha hob hp hok
      have hs := callStep_of_obeys dsem (hp ▸ hob i) i e c.st
      rw [Pool.step_call hp]
      exact ha.step hs rfl (hcalls i) (hok.clear hp hob))
    (fun j => (calls j).code_obeys svc name)
    (fun ⟨_, hi⟩ => by cases hi) hw
  have hfin := hob d
  rw [hret] at hfin
  have hgone : g d = .gone := by
    cases hg : g d with
    | gone => rfl
    | writing v => rw [hg] at hfin; exact absurd hfin id
    | reading => rw [hg] at hfin; exact absurd rfl (hfin hd)
    | rest => rw [hg] at hfin; exact absurd rfl (hfin hd)
  exact (ha ⟨d, hgone⟩).1

/-- `Delete` (`true`) beside a status write (`false`). -/
def deleteBeside : Bool → Call
  | true => .delete
  | false => .setStatus ⟨.running, "", 0⟩

theorem deleted_stays_web :
    ((pool noDrivers "web" deleteBeside webStored).run (sem noDriverSem)
      [(false, answers), (true, answers), (false, answers), (true, answers),
        (true, answers)]).st.rows.get "web" = none :=
  deleted_stays noDriverSem noDrivers "web" deleteBeside
    (by intro i w; cases i <;> exact fun h => by cases h) webStored _ (by decide) true rfl rfl

/-- The status write reads the row before `Delete` removes it and puts it back after. -/
def putAfterDelete : List (Bool × Env Unit) :=
  [(false, answers), (true, answers), (true, answers), (true, answers), (false, answers)]

/-- `Delete` returned nil, every call is done, and the row is there, without its tombstone. -/
theorem deleted_row_returns :
    ((pool noDrivers "web" deleteBeside webStored).run (sem noDriverSem) putAfterDelete).Done ∧
      ((pool noDrivers "web" deleteBeside webStored).run (sem noDriverSem)
          putAfterDelete).thr true =
        .ret (.ok ()) ∧
      ((pool noDrivers "web" deleteBeside webStored).run (sem noDriverSem)
          putAfterDelete).st.rows.get "web" =
        some { web with status := some ⟨.running, "", 0⟩ } :=
  ⟨by decide, rfl, by decide⟩

end

end Capsule.Workloads
