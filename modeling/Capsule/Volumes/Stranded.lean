import Capsule.Atomic.Past
import Capsule.Atomic.Steps
import Capsule.Volumes.Service

/-!
# Capsule.Volumes.Stranded

Rows and logical volumes over `Create`, `Delete` and `Resize`: boots one after the other, in each of
which any number of calls is interleaved until the power goes.

* `monitor`, `Call.code_obeys`: in what order a call works on its name.
* `Effect`, `effect_of_step`: what one operation can do to the row and the logical volume.
* `Tidy`: the invariant. A logical volume has a row or is being made, and what a `Delete` in flight
  has removed is gone. `Tidy.step` keeps it in steps that are `Careful`.
* `volume_cleared`: after careful boots that are cut clean, a `Delete` that returns nil leaves
  neither row nor volume, and a `Create` succeeds.
-/

namespace Capsule.Volumes.Stranded

open Atomic Keyed Maintenance

inductive Call where
  | create (name : String) (sizeMiB : Nat)
  | delete (name : String) (force : Bool)
  | resize (name : String) (sizeMiB : Nat)

def Call.name : Call → String
  | .create name _ | .delete name _ | .resize name _ => name

def Call.creates : Call → Bool
  | .create _ _ => true
  | _ => false

def Call.deletes : Call → Bool
  | .delete _ _ => true
  | _ => false

def Call.code (ps : Params) : Call → Code (Except Err Unit)
  | .create name sizeMiB => (Maintenance.create name sizeMiB).thenOk fun _ => .ret (.ok ())
  | .delete name force => Maintenance.delete ps name force
  | .resize name sizeMiB => (Maintenance.resize ps name sizeMiB).thenOk fun _ => .ret (.ok ())

/-- What a call has seen and done of its name. -/
inductive Phase where
  | looking
  /-- There was no row. -/
  | absent
  /-- `Create` has made the logical volume, and not stored the row. -/
  | made
  /-- `Create` has stored the row or undone what it made. -/
  | settled
  /-- `Delete` has removed the logical volume. -/
  | removed
  /-- And the row. -/
  | cleared
  deriving DecidableEq

def Phase.next : Phase → (o : Op) → Res o → Phase
  | g, .getVolume _, .error e => if e.is .notFound then .absent else g
  | _, .lvcreate _ _, .ok () => .made
  | _, .putVolume _, .ok () => .settled
  | .made, .lvremove _, _ => .settled
  | _, .lvremove _, .ok () => .removed
  | g, .lvremove _, .error c => if c.saysGone then .removed else g
  | _, .deleteVolume _, .ok () => .cleared
  | g, _, _ => g

/-- A call works on its own name, and in this order. -/
def Phase.allows (x : Call) : Phase → Op → Prop
  | .looking, .getVolume name | .looking, .lvresize name _ => name = x.name
  | .looking, .lvremove name => name = x.name ∧ x.creates = false
  | .looking, .wl .list | .looking, .blockDeviceSize _ _ | .looking, .ext4 _ _ _
  | .looking, .populateDerived _ _ => True
  | .absent, .lvcreate name _ => name = x.name ∧ x.creates = true
  | .made, .mkfs _ _ => x.creates = true
  | .made, .putVolume v => v.name = x.name ∧ x.creates = true
  | .made, .lvremove name => name = x.name ∧ x.creates = true
  | .removed, .deleteVolume name => name = x.name
  | _, _ => False

def monitor (x : Call) : Monitor Op Res (Except Err Unit) Phase where
  ok g o := g.allows x o
  next g o r := g.next o r
  fin g r := g ≠ .made ∧ (x.deletes = true → r = .ok () → g = .absent ∨ g = .cleared)

section Obeys

variable {x : Call}

theorem undo_obeys (hx : x.creates = true) {Q : Phase → Except Err Unit → Prop}
    (hQ : ∀ r, Q .settled r) :
    (removeVolumeLV x.name).Obeys ((monitor x).post Q) .made := by
  refine ⟨⟨rfl, hx⟩, ?_⟩
  intro r
  cases r with
  | ok _ => exact hQ _
  | error c => exact .ite (fun _ => hQ _) fun _ => hQ _

theorem removeVolumeLV_obeys (hx : x.creates = false) {Q : Phase → Except Err Unit → Prop}
    (hok : Q .removed (.ok ())) (herr : ∀ e, Q .looking (.error e)) :
    (removeVolumeLV x.name).Obeys ((monitor x).post Q) .looking := by
  refine ⟨⟨rfl, hx⟩, ?_⟩
  intro r
  cases r with
  | ok _ => exact hok
  | error c =>
    change Prog.Obeys _ (if c.saysGone then Phase.removed else .looking)
      (if c.saysGone then _ else _)
    by_cases hc : c.saysGone = true
    · rw [if_pos hc, if_pos hc]; exact hok
    · rw [if_neg hc, if_neg hc]; exact herr _

theorem storeNew_obeys (hx : x.creates = true) {Q : Phase → Except Err Volume → Prop}
    (hQ : ∀ r, Q .settled r) : (storeNew x.name).Obeys ((monitor x).post Q) .made := by
  refine ⟨⟨rfl, hx⟩, ?_⟩
  intro r
  cases r with
  | ok _ => exact hQ _
  | error e =>
    change Prog.Obeys _ Phase.made (removeVolumeLV x.name >>= fun _ => .ret (Except.error e))
    exact Prog.obeys_bind.mpr (undo_obeys hx fun _ => hQ _)

theorem createVolumeLV_obeys (hx : x.creates = true) (sizeMiB : Nat)
    {Q : Phase → Except Err Unit → Prop} (hok : Q .made (.ok ()))
    (herr : ∀ g e, g ≠ .made → Q g (.error e)) :
    (createVolumeLV x.name sizeMiB).Obeys ((monitor x).post Q) .absent := by
  refine ⟨⟨rfl, hx⟩, ?_⟩
  intro r
  cases r with
  | error c => exact herr .absent _ (by decide)
  | ok _ =>
    refine ⟨hx, ?_⟩
    intro r
    cases r with
    | ok _ => exact hok
    | error c =>
      refine ⟨hx, ?_⟩
      intro r
      cases r with
      | ok _ => exact hok
      | error c' => exact ⟨⟨rfl, hx⟩, fun _ => herr .settled _ (by decide)⟩

theorem createSized_obeys (hx : x.creates = true) (sizeMiB : Nat)
    {Q : Phase → Except Err Volume → Prop} (hQ : ∀ g r, g ≠ .made → Q g r) :
    (createSized x.name sizeMiB).Obeys ((monitor x).post Q) .looking := by
  refine ⟨rfl, ?_⟩
  intro r
  cases r with
  | ok u => exact hQ .looking _ (by decide)
  | error e =>
    change Prog.Obeys _ (if e.is .notFound then Phase.absent else .looking)
      (if e.is .notFound then _ else _)
    split
    · refine Prog.obeys_thenOk.mpr (createVolumeLV_obeys hx sizeMiB ?_ fun g e hg => hQ g _ hg)
      exact storeNew_obeys hx fun r => hQ .settled r (by decide)
    · exact hQ .looking _ (by decide)

theorem create_obeys (name : String) (sizeMiB : Nat) {Q : Phase → Except Err Volume → Prop}
    (hQ : ∀ g r, g ≠ .made → Q g r) :
    (Maintenance.create name sizeMiB).Obeys ((monitor (.create name sizeMiB)).post Q)
      .looking := by
  unfold Maintenance.create
  cases validateName name with
  | error e => exact hQ .looking _ (by decide)
  | ok _ =>
    cases validateSize (sizeFor sizeMiB) with
    | error e => exact hQ .looking _ (by decide)
    | ok _ => exact createSized_obeys (x := .create name sizeMiB) rfl (sizeFor sizeMiB) hQ

theorem delete_obeys (ps : Params) (name : String) (force : Bool) :
    (Maintenance.delete ps name force).Obeys (monitor (.delete name force)) .looking := by
  have herr : ∀ e, (monitor (.delete name force)).fin .looking (.error e) :=
    fun e => ⟨by decide, fun _ h => nomatch h⟩
  refine ⟨rfl, ?_⟩
  intro r
  cases r with
  | error e =>
    change Prog.Obeys _ (if e.is .notFound then Phase.absent else .looking)
      (if e.is .notFound then _ else _)
    split
    · exact ⟨by decide, fun _ _ => .inl rfl⟩
    · exact herr _
  | ok u =>
    refine ⟨trivial, ?_⟩
    intro r
    cases r with
    | error e => exact herr _
    | ok ws =>
      refine .ite (fun _ => herr _) fun _ => ?_
      refine Prog.obeys_thenOk.mpr (Prog.obeys_mapErr.mpr
        (removeVolumeLV_obeys (x := .delete name force) rfl ?_ fun e => herr _))
      refine ⟨rfl, ?_⟩
      intro r
      cases r with
      | ok _ => exact ⟨(nofun : Phase.cleared ≠ .made), fun _ _ => .inr rfl⟩
      | error e => exact ⟨(nofun : Phase.removed ≠ .made), fun _ h => nomatch h⟩

theorem resize_obeys (ps : Params) (name : String) (sizeMiB : Nat)
    {Q : Phase → Except Err Volume → Prop} (hQmade : ∀ g r, g ≠ .made → Q g r) :
    (Maintenance.resize ps name sizeMiB).Obeys ((monitor (.resize name sizeMiB)).post Q)
      .looking := by
  have hQ : ∀ r, Q .looking r := fun r => hQmade .looking r (by decide)
  unfold Maintenance.resize
  cases validateName name with
  | error e => exact hQ _
  | ok _ =>
    cases validateSize sizeMiB with
    | error e => exact hQ _
    | ok _ =>
      refine ⟨rfl, ?_⟩
      intro r
      cases r with
      | error e =>
        refine hQmade (if e.is .notFound then .absent else .looking) _ ?_
        split <;> decide
      | ok u =>
        refine ⟨trivial, ?_⟩
        intro r
        cases r with
        | error e => exact hQ _
        | ok ws =>
          refine .ite (fun _ => hQ _) fun _ => ?_
          have honly : (resizeUnused ps name sizeMiB u).Only fun o =>
              Phase.looking.allows (.resize name sizeMiB) o ∧
                ∀ r, Phase.looking.next o r = .looking :=
            resizeUnused_only (fun _ => ⟨trivial, fun _ => rfl⟩) ⟨rfl, fun _ => rfl⟩
              (fun _ _ => ⟨trivial, fun _ => rfl⟩) (fun _ => ⟨trivial, fun _ => rfl⟩) ps u
          exact honly.obeys (fun _ h => h.1) (fun _ r h => h.2 r) hQ

theorem Call.code_obeys (ps : Params) (x : Call) : (x.code ps).Obeys (monitor x) .looking := by
  cases x with
  | create name sizeMiB =>
    refine Prog.obeys_thenOk.mpr (create_obeys name sizeMiB ?_)
    intro g r hg
    cases r with
    | ok _ => exact ⟨hg, fun h => nomatch h⟩
    | error e => exact ⟨hg, fun h => nomatch h⟩
  | delete name force => exact delete_obeys ps name force
  | resize name sizeMiB =>
    refine Prog.obeys_thenOk.mpr (resize_obeys ps name sizeMiB ?_)
    intro g r hg
    cases r with
    | ok _ => exact ⟨hg, fun h => nomatch h⟩
    | error e => exact ⟨hg, fun h => nomatch h⟩

end Obeys

/-- The call has begun and not returned; the row is what each call reads first. -/
def inFlight (p : Code (Except Err Unit)) : Bool :=
  match p.next? with
  | none | some (.getVolume _) => false
  | _ => true

/-- `lvremove` of a volume that is there fails in `Delete` only, and not with the complaint that it
is missing. -/
def honest (x : Call) (s : State) (e : Env) : Option Op → Bool
  | some (.lvremove v) =>
    match s.lvs v, e.cmd with
    | some _, some err => !x.creates && !err.saysGone
    | _, _ => true
  | _ => true

section

variable {ι : Type}

/-- No other call for the name is in flight, and `lvremove` fails honestly. -/
def Careful (calls : ι → Call) (c : Pool ι Op Res State (Except Err Unit)) (i : ι) (e : Env) :
    Prop :=
  (∀ j, j ≠ i → (calls j).name = (calls i).name → inFlight (c.thr j) = false) ∧
    honest (calls i) c.st e (c.thr i).next? = true

instance [Fintype ι] [DecidableEq ι] (calls : ι → Call) (c : Pool ι Op Res State (Except Err Unit))
    (i : ι) (e : Env) : Decidable (Careful calls c i e) :=
  inferInstanceAs (Decidable (_ ∧ _))

/-- Every logical volume has a row. -/
def Synced (s : State) : Prop := ∀ v, s.lvs v ≠ none → s.volumes.get v ≠ none

end

/-! ## One operation -/

/-- What an operation of the call `x` does to rows and logical volumes, and what the call then
knows. -/
inductive Effect (x : Call) (s s' : State) (g : Phase) : Phase → Prop where
  | nothing (hlvs : s'.lvs = s.lvs) (hrows : s'.volumes = s.volumes) : Effect x s s' g g
  | absent (hg : g = .looking) (hlvs : s'.lvs = s.lvs) (hrows : s'.volumes = s.volumes)
      (hrow : s.volumes.get x.name = none) : Effect x s s' g .absent
  | resized (size : Nat) (hlv : s.lvs x.name ≠ none) (hg : g = .looking)
      (hlvs : s'.lvs = Function.update s.lvs x.name (some size)) (hrows : s'.volumes = s.volumes) :
      Effect x s s' g g
  | made (size : Nat) (hlvs : s'.lvs = Function.update s.lvs x.name (some size))
      (hrows : s'.volumes = s.volumes) : Effect x s s' g .made
  | stored (u : Volume) (hu : u.name = x.name) (hlvs : s'.lvs = s.lvs)
      (hrows : s'.volumes = s.volumes.put u) : Effect x s s' g .settled
  | undone (hlvs : s'.lvs = Function.update s.lvs x.name none) (hrows : s'.volumes = s.volumes) :
      Effect x s s' g .settled
  | removed (hlvs : s'.lvs = Function.update s.lvs x.name none) (hrows : s'.volumes = s.volumes) :
      Effect x s s' g .removed
  | cleared (hg : g = .removed) (hlvs : s'.lvs = s.lvs)
      (hrows : s'.volumes = s.volumes.del x.name) : Effect x s s' g .cleared

section Step

variable {x : Call} {g : Phase} {o : Op} {e : Env} {s : State}

theorem effect_getVolume (name : String) (hok : g.allows x (.getVolume name)) :
    Effect x s (sem (.getVolume name) e s).1 g
      (g.next (.getVolume name) (sem (.getVolume name) e s).2) := by
  cases g with
  | looking =>
    obtain rfl : name = x.name := hok
    simp only [sem]
    cases e.host.fault with
    | some m => exact .nothing rfl rfl
    | none =>
      dsimp only [getVolumeRow]
      cases hr : s.volumes.get x.name with
      | none => exact .absent rfl rfl rfl hr
      | some u => exact .nothing rfl rfl
  | absent | made | settled | removed | cleared => exact absurd hok id

theorem effect_lvremove (name : String) (hok : g.allows x (.lvremove name))
    (hgood : ∀ err, s.lvs name ≠ none → e.cmd = some err →
      x.creates = false ∧ err.saysGone = false) :
    Effect x s (sem (.lvremove name) e s).1 g
      (g.next (.lvremove name) (sem (.lvremove name) e s).2) := by
  have hname : name = x.name := by
    cases g with
    | looking | made => exact hok.1
    | absent | settled | removed | cleared => exact absurd hok id
  subst hname
  simp only [sem, Env.onVolume, Env.command]
  cases hlv : s.lvs x.name with
  | none =>
    -- it is missing: whatever is answered, nothing changes
    have hsame : s.lvs = Function.update s.lvs x.name none := by rw [← hlv, Function.update_eq_self]
    dsimp only
    cases g with
    | looking =>
      dsimp only [Phase.next]
      split
      · exact .removed hsame rfl
      · exact .nothing rfl rfl
    | made => exact .undone hsame rfl
    | absent | settled | removed | cleared => exact absurd hok id
  | some size =>
    dsimp only
    cases he : e.cmd with
    | none =>
      cases g with
      | looking => exact .removed rfl rfl
      | made => exact .undone rfl rfl
      | absent | settled | removed | cleared => exact absurd hok id
    | some err =>
      obtain ⟨hcreates, hgone⟩ := hgood err (by simp [hlv]) he
      cases g with
      | looking => dsimp only [Phase.next]; rw [hgone]; exact .nothing rfl rfl
      | made => rw [hok.2] at hcreates; cases hcreates
      | absent | settled | removed | cleared => exact absurd hok id

/-- The step lemma. -/
theorem effect_of_step (hok : g.allows x o)
    (hgood : ∀ v err, o = .lvremove v → s.lvs v ≠ none → e.cmd = some err →
      x.creates = false ∧ err.saysGone = false) :
    Effect x s (sem o e s).1 g (g.next o (sem o e s).2) := by
  cases o with
  | getVolume name => exact effect_getVolume name hok
  | lvremove name => exact effect_lvremove name hok fun err => hgood name err rfl
  | wl w =>
    cases w with
    | list =>
      cases g with
      | looking => exact .nothing rfl rfl
      | absent | made | settled | removed | cleared => exact absurd hok id
    | get n | put u | delete n | drv side d => cases g <;> exact absurd hok id
  | putVolume u =>
    cases g with
    | made =>
      simp only [sem]
      cases e.host.fault with
      | some m => exact .nothing rfl rfl
      | none => exact .stored u hok.1 rfl rfl
    | looking | absent | settled | removed | cleared => exact absurd hok id
  | deleteVolume name =>
    cases g with
    | removed =>
      obtain rfl : name = x.name := hok
      simp only [sem]
      cases e.host.fault with
      | some m => exact .nothing rfl rfl
      | none => exact .cleared rfl rfl rfl
    | looking | absent | made | settled | cleared => exact absurd hok id
  | lvcreate name sizeMiB =>
    cases g with
    | absent =>
      obtain rfl : name = x.name := hok.1
      simp only [sem, Env.command]
      cases s.lvs x.name with
      | some size => exact .nothing rfl rfl
      | none =>
        cases e.cmd with
        | none => exact .made _ rfl rfl
        | some err => exact .nothing rfl rfl
    | looking | made | settled | removed | cleared => exact absurd hok id
  | lvresize name sizeMiB =>
    cases g with
    | looking =>
      obtain rfl : name = x.name := hok
      simp only [sem, Env.onVolume, Env.command]
      cases hlv : s.lvs x.name with
      | none => exact .nothing rfl rfl
      | some size =>
        cases e.cmd with
        | none => exact .resized _ (by simp [hlv]) rfl rfl rfl
        | some err => exact .nothing rfl rfl
    | absent | made | settled | removed | cleared => exact absurd hok id
  | mkfs dir name =>
    cases g with
    | made => simp only [sem, Env.command]; cases e.cmd <;> exact .nothing rfl rfl
    | looking | absent | settled | removed | cleared => exact absurd hok id
  | ext4 bin dir name =>
    cases g with
    | looking => simp only [sem, Env.command]; cases e.cmd <;> exact .nothing rfl rfl
    | absent | made | settled | removed | cleared => exact absurd hok id
  | blockDeviceSize name path =>
    cases g with
    | looking => exact .nothing rfl rfl
    | absent | made | settled | removed | cleared => exact absurd hok id
  | populateDerived name path =>
    cases g with
    | looking => simp only [sem]; cases e.host.fault <;> exact .nothing rfl rfl
    | absent | made | settled | removed | cleared => exact absurd hok id

end Step

namespace Effect

variable {x : Call} {s s' : State} {g g' : Phase}

theorem frame (h : Effect x s s' g g') {v : String} (hv : v ≠ x.name) :
    s'.lvs v = s.lvs v ∧ s'.volumes.get v = s.volumes.get v := by
  cases h with
  | nothing hlvs hrows | absent _ hlvs hrows => rw [hlvs, hrows]; exact ⟨rfl, rfl⟩
  | resized size _ _ hlvs hrows | made size hlvs hrows | undone hlvs hrows | removed hlvs hrows =>
    rw [hlvs, hrows]; exact ⟨Function.update_of_ne hv _ _, rfl⟩
  | stored u hu hlvs hrows => rw [hlvs, hrows]; exact ⟨rfl, Table.get_put_ne _ (hu ▸ hv)⟩
  | cleared _ hlvs hrows => rw [hlvs, hrows]; exact ⟨rfl, Table.get_del_ne _ hv⟩

theorem synced (h : Effect x s s' g g')
    (hs : s.lvs x.name ≠ none → s.volumes.get x.name ≠ none ∨ g = .made)
    (hgone : g = .removed → s.lvs x.name = none) (hlv : s'.lvs x.name ≠ none) :
    s'.volumes.get x.name ≠ none ∨ g' = .made := by
  cases h with
  | nothing hlvs hrows => rw [hlvs] at hlv; rw [hrows]; exact hs hlv
  | absent hg hlvs hrows hrow =>
    rw [hlvs] at hlv
    rw [hrows]
    refine (hs hlv).imp_right ?_
    intro hmade
    rw [hg] at hmade
    cases hmade
  | resized size hlv' hg hlvs hrows => rw [hrows]; exact hs hlv'
  | made size hlvs hrows => exact .inr rfl
  | stored u hu hlvs hrows => rw [hrows, ← hu, Table.get_put_self]; exact .inl (by simp)
  | undone hlvs hrows | removed hlvs hrows =>
    rw [hlvs, Function.update_self] at hlv; exact absurd rfl hlv
  | cleared hg hlvs hrows => rw [hlvs] at hlv; exact absurd (hgone hg) hlv

theorem gone (h : Effect x s s' g .removed) (hgone : g = .removed → s.lvs x.name = none) :
    s'.lvs x.name = none := by
  cases h with
  | nothing hlvs hrows => rw [hlvs]; exact hgone rfl
  | resized size _ hg hlvs hrows => cases hg
  | removed hlvs hrows => rw [hlvs, Function.update_self]

theorem vacant (h : Effect x s s' g g') (hg' : g' = .absent ∨ g' = .cleared)
    (hg : g ≠ .absent ∧ g ≠ .cleared)
    (hs : s.lvs x.name ≠ none → s.volumes.get x.name ≠ none ∨ g = .made)
    (hgone : g = .removed → s.lvs x.name = none) :
    s'.volumes.get x.name = none ∧ s'.lvs x.name = none := by
  cases h with
  | nothing | resized => exact absurd hg' (not_or.mpr hg)
  | made | stored | undone | removed => simp at hg'
  | absent hlooking hlvs hrows hrow =>
    rw [hlvs, hrows]
    refine ⟨hrow, ?_⟩
    by_contra hlv
    rcases hs hlv with hrow' | hmade
    · exact hrow' hrow
    · rw [hlooking] at hmade; cases hmade
  | cleared hremoved hlvs hrows =>
    rw [hlvs, hrows]; exact ⟨Table.get_del_self _ _, hgone hremoved⟩

end Effect

section Runs

variable {ι : Type} {ps : Params} {calls : ι → Call} {g : ι → Phase}
  {c : Pool ι Op Res State (Except Err Unit)}

/-- Every logical volume has a row or is being made, and what a `Delete` in flight has removed is
gone. -/
structure Tidy (calls : ι → Call) (g : ι → Phase) (c : Pool ι Op Res State (Except Err Unit)) :
    Prop where
  synced : ∀ v, c.st.lvs v ≠ none →
    c.st.volumes.get v ≠ none ∨ ∃ i, (calls i).name = v ∧ g i = .made
  gone : ∀ i, inFlight (c.thr i) = true → g i = .removed → c.st.lvs (calls i).name = none

theorem inFlight_of_call {x : Call} {i : ι} {o : Op} {k : Res o → Code (Except Err Unit)}
    (hob : (c.thr i).Obeys (monitor x) (g i)) (hp : c.thr i = .call o k)
    (hg : g i ≠ .looking) : inFlight (c.thr i) = true := by
  rw [hp] at hob ⊢
  have hok := hob.1
  cases o with
  | getVolume v =>
    revert hok hg
    cases g i with
    | looking => exact fun h => absurd rfl h
    | absent | made | settled | removed | cleared => exact fun _ h => absurd h id
  | _ => rfl

theorem call_of_made {x : Call} {i : ι} (hob : (c.thr i).Obeys (monitor x) (g i))
    (hg : g i = .made) : ∃ o k, c.thr i = .call o k ∧ x.creates = true := by
  cases hp : c.thr i with
  | ret r => rw [hp, hg] at hob; exact absurd rfl hob.1
  | call o k =>
    rw [hp, hg] at hob
    refine ⟨o, k, rfl, ?_⟩
    have hok := hob.1
    cases o with
    | mkfs dir name => exact hok
    | putVolume u => exact hok.2
    | lvremove name => exact hok.2
    | _ => exact absurd hok id

section Own

variable {i : ι} {e : Env} {o : Op} {k : Res o → Code (Except Err Unit)}

theorem effect_of_careful (hob : ∀ j, (c.thr j).Obeys (monitor (calls j)) (g j))
    (hp : c.thr i = .call o k) (hcare : Careful calls c i e) :
    Effect (calls i) c.st (sem o e c.st).1 (g i) ((g i).next o (sem o e c.st).2) := by
  have hobi := hob i
  rw [hp, Prog.obeys_call] at hobi
  refine effect_of_step hobi.1 ?_
  rintro v err rfl hlv herr
  obtain ⟨size, hsize⟩ := Option.ne_none_iff_exists'.mp hlv
  simpa [honest, hp, hsize, herr] using hcare.2

theorem Tidy.gone_own (hT : Tidy calls g c)
    (hob : ∀ j, (c.thr j).Obeys (monitor (calls j)) (g j)) (hp : c.thr i = .call o k)
    (hg : g i = .removed) : c.st.lvs (calls i).name = none :=
  hT.gone i (inFlight_of_call (hob i) hp (by simp [hg])) hg

theorem Tidy.synced_own (hT : Tidy calls g c)
    (hob : ∀ j, (c.thr j).Obeys (monitor (calls j)) (g j)) (hcare : Careful calls c i e)
    (hlv : c.st.lvs (calls i).name ≠ none) :
    c.st.volumes.get (calls i).name ≠ none ∨ g i = .made := by
  refine (hT.synced _ hlv).imp_right ?_
  rintro ⟨j, hj, hg⟩
  by_cases hji : j = i
  · rw [← hji]; exact hg
  · obtain ⟨o', k', hp', -⟩ := call_of_made (hob j) hg
    have hfl := inFlight_of_call (hob j) hp' (by simp [hg])
    rw [hcare.1 j hji hj] at hfl
    cases hfl

theorem Tidy.cleared (hT : Tidy calls g c)
    (hob : ∀ j, (c.thr j).Obeys (monitor (calls j)) (g j)) (hp : c.thr i = .call o k)
    (hcare : Careful calls c i e) (hx : (calls i).deletes = true)
    (hret : k (sem o e c.st).2 = .ret (.ok ())) :
    (sem o e c.st).1.volumes.get (calls i).name = none ∧
      (sem o e c.st).1.lvs (calls i).name = none := by
  have hobi := hob i
  rw [hp, Prog.obeys_call] at hobi
  obtain ⟨hok, hnext⟩ := hobi
  have hfin := hnext (sem o e c.st).2
  rw [hret] at hfin
  refine (effect_of_careful hob hp hcare).vacant (hfin.2 hx rfl) ?_ (hT.synced_own hob hcare)
    (hT.gone_own hob hp)
  -- a `Delete` that knows as much does nothing more
  have hcreates : (calls i).creates = false := by
    cases hc : calls i with
    | delete name force => rfl
    | create name sizeMiB | resize name sizeMiB => rw [hc] at hx; cases hx
  revert hok
  cases g i with
  | absent =>
    intro hok
    cases o with
    | lvcreate name sizeMiB => rw [hok.2] at hcreates; cases hcreates
    | _ => exact absurd hok id
  | cleared => exact fun hok => absurd hok id
  | looking | made | settled | removed => exact fun _ => ⟨nofun, nofun⟩

/-- The step lemma. -/
theorem Tidy.step [DecidableEq ι] (hT : Tidy calls g c)
    (hob : ∀ j, (c.thr j).Obeys (monitor (calls j)) (g j)) (hp : c.thr i = .call o k)
    (hcare : Careful calls c i e) :
    Tidy calls (Function.update g i ((g i).next o (sem o e c.st).2)) (c.step sem (i, e)) := by
  have heff := effect_of_careful hob hp hcare
  have hst : (c.step sem (i, e)).st = (sem o e c.st).1 := by rw [Pool.step_call hp]
  refine ⟨?_, ?_⟩
  · intro v hv
    rw [hst] at hv ⊢
    by_cases hname : v = (calls i).name
    · subst hname
      refine (heff.synced (hT.synced_own hob hcare) (hT.gone_own hob hp) hv).imp_right ?_
      exact fun hg => ⟨i, rfl, by rw [Function.update_self, hg]⟩
    · rw [(heff.frame hname).1] at hv
      rw [(heff.frame hname).2]
      refine (hT.synced v hv).imp_right ?_
      rintro ⟨j, hj, hg⟩
      have hji : j ≠ i := by
        rintro rfl; exact hname hj.symm
      exact ⟨j, hj, by rw [Function.update_of_ne hji, hg]⟩
  · intro j hfl hg
    rw [hst]
    by_cases hji : j = i
    · subst hji
      rw [Function.update_self] at hg
      rw [hg] at heff
      exact heff.gone (hT.gone_own hob hp)
    · rw [Function.update_of_ne hji] at hg
      rw [Pool.step_thr_ne hji] at hfl
      have hname : (calls j).name ≠ (calls i).name := by
        intro h; rw [hcare.1 j hji h] at hfl; cases hfl
      rw [(heff.frame hname).1]
      exact hT.gone j hfl hg

end Own

end Runs

/-! ## Boots -/

/-- What comes next is what `Create` does between its `lvcreate` and the end. -/
def halfMade (p : Code (Except Err Unit)) : Bool :=
  match p.next? with
  | some (.mkfs _ _) | some (.putVolume _) | some (.lvremove _) => true
  | _ => false

/-- One boot: the calls it serves in some order, until the power is lost; the rest of the host is as
the boot finds it. -/
structure Boot (ι : Type) where
  host : HostState
  calls : ι → Call
  sched : List (ι × Env)

namespace Boot

variable {ι : Type} [DecidableEq ι] (ps : Params) (s : State) (b : Boot ι)

def start : Pool ι Op Res State (Except Err Unit) :=
  ⟨{ s with host := b.host }, fun i => (b.calls i).code ps⟩

def ends : Pool ι Op Res State (Except Err Unit) := (b.start ps s).run sem b.sched

def after : State := (b.ends ps s).st

/-- Every step of the boot is careful. -/
def IsCareful : Prop := (b.start ps s).Allowed sem (Careful b.calls) b.sched

instance [Fintype ι] : Decidable (b.IsCareful ps s) :=
  inferInstanceAs (Decidable (Pool.Allowed _ _ _ _))

/-- No `Create` is cut between its `lvcreate` and the storing of its row. -/
def CutClean : Prop :=
  ∀ i, (b.calls i).creates = true → halfMade ((b.ends ps s).thr i) = false

variable {ps s b}

theorem tidy (hs : Synced s) (hb : b.IsCareful ps s) :
    ∃ g, Tidy b.calls g (b.ends ps s) ∧
      ∀ i, ((b.ends ps s).thr i).Obeys (monitor (b.calls i)) (g i) := by
  refine Pool.run_monitor (M := fun i => monitor (b.calls i)) (P := fun _ g c => Tidy b.calls g c)
    (fun _ g c i e o k hT hob hp hcare => hT.step hob hp hcare) (g := fun _ => .looking)
    (fun i => Call.code_obeys ps (b.calls i)) ?_ hb
  exact ⟨fun v hv => .inl (hs v hv), fun i _ h => nomatch h⟩

theorem synced_after (hs : Synced s) (hb : b.IsCareful ps s) (hcut : b.CutClean ps s) :
    Synced (b.after ps s) := by
  obtain ⟨g, hT, hob⟩ := tidy hs hb
  intro v hv
  rcases hT.synced v hv with hrow | ⟨i, -, hg⟩
  · exact hrow
  · obtain ⟨o, k, hp, hx⟩ := call_of_made (hob i) hg
    have hobi := hob i
    rw [hp, hg] at hobi
    have hok := hobi.1
    have hnot := hcut i hx
    rw [hp] at hnot
    cases o with
    | mkfs dir name | putVolume u | lvremove name => cases hnot
    | _ => exact absurd hok id

end Boot

/-- Every command and every call of the store succeeds. -/
def Smooth (es : Nat → Env) : Prop := ∀ n, (es n).cmd = none ∧ (es n).host.fault = none

theorem create_succeeds {name : String} {sizeMiB : Nat} (hname : validateName name = .ok ())
    (hsize : validateSize (sizeFor sizeMiB) = .ok ()) {s : State}
    (hrow : s.volumes.get name = none) (hlv : s.lvs name = none) {es : Nat → Env}
    (hes : Smooth es) :
    ((Maintenance.create name sizeMiB).complete sem es s).2 = .ok (newVolume name) := by
  simp [Maintenance.create, createSized, createVolumeLV, storeNew, Prog.thenOk, Prog.complete, sem,
    getVolumeRow, Env.command, hname, hsize, hrow, hlv, (hes _).1, (hes _).2, Err.is]

/-- After any number of boots that are careful and cut clean, a careful boot in which `Delete` of a
name has just returned nil: there is neither the row nor the logical volume, and `Create` of the
name succeeds when its commands do. -/
theorem volume_cleared {ι : Type} [DecidableEq ι] (ps : Params) (s : State) (hs : Synced s)
    (boots : List (Boot ι))
    (hboots : Along (Boot.after ps) (fun s b => b.IsCareful ps s ∧ b.CutClean ps s) s boots)
    (host : HostState) (calls : ι → Call) (w : List (ι × Env)) (i : ι) (e : Env)
    (hcare : (Boot.mk host calls (w ++ [(i, e)])).IsCareful ps (boots.foldl (Boot.after ps) s))
    (name : String) (force : Bool) (hi : calls i = .delete name force)
    (hbefore :
      (((Boot.mk host calls w).ends ps (boots.foldl (Boot.after ps) s)).thr i).next? ≠ none)
    (hret : ((Boot.mk host calls (w ++ [(i, e)])).ends ps (boots.foldl (Boot.after ps) s)).thr i =
      .ret (.ok ())) :
    let s' := (Boot.mk host calls (w ++ [(i, e)])).after ps (boots.foldl (Boot.after ps) s)
    s'.volumes.get name = none ∧ s'.lvs name = none ∧
      ∀ sizeMiB es, validateName name = .ok () → validateSize (sizeFor sizeMiB) = .ok () →
        Smooth es → ∃ v, ((Maintenance.create name sizeMiB).complete sem es s').2 = .ok v := by
  have hsynced : Synced (boots.foldl (Boot.after ps) s) :=
    hboots.invariant (fun s b hs hb => Boot.synced_after hs hb.1 hb.2) hs
  generalize boots.foldl (Boot.after ps) s = s₀ at hcare hbefore hret hsynced ⊢
  -- the boot up to the step with which `Delete` returns
  obtain ⟨hw, hlast⟩ := Pool.allowed_snoc hcare
  obtain ⟨g, hT, hob⟩ := Boot.tidy (b := Boot.mk host calls w) hsynced hw
  have hi' : (Boot.mk host calls w).calls i = .delete name force := hi
  have hend : (Boot.mk host calls (w ++ [(i, e)])).ends ps s₀ =
      ((Boot.mk host calls w).ends ps s₀).step sem (i, e) :=
    Pool.run_snoc ((Boot.mk host calls w).start ps s₀) w (i, e)
  have hclear : ((Boot.mk host calls (w ++ [(i, e)])).after ps s₀).volumes.get name = none ∧
      ((Boot.mk host calls (w ++ [(i, e)])).after ps s₀).lvs name = none := by
    cases hp : ((Boot.mk host calls w).ends ps s₀).thr i with
    | ret r => simp [hp] at hbefore
    | call o k =>
      rw [hend, Pool.step_call hp] at hret
      have hout := hT.cleared hob hp hlast (by rw [hi']; rfl) (by simpa using hret)
      rw [hi'] at hout
      rw [Boot.after, hend, Pool.step_call hp]
      exact hout
  refine ⟨hclear.1, hclear.2, ?_⟩
  intro sizeMiB es hname hsize hes
  exact ⟨_, create_succeeds hname hsize hclear.1 hclear.2 hes⟩

def calm : Env := ⟨⟨none, {}⟩, none⟩

def noVolumes : State := ⟨fresh, Table.empty, fun _ => none⟩

/-- `true` creates the volume and `false` deletes it. -/
def createOrDelete : Bool → Call
  | true => .create "data" 64
  | false => .delete "data" true

theorem volume_cleared_data :
    ((Boot.mk fresh createOrDelete
        (List.replicate 4 (true, calm) ++ List.replicate 3 (false, calm) ++ [(false, calm)])).after
          dataParams noVolumes).lvs "data" = none :=
  (volume_cleared dataParams noVolumes (fun _ h => absurd rfl h) [] trivial fresh createOrDelete _
    false calm (by decide) "data" true rfl (by decide) rfl).2.1

/-- The power is lost right after `lvcreate`. -/
def cutCreate : Boot Bool := ⟨fresh, createOrDelete, [(true, calm), (true, calm)]⟩

/-- `Delete` in the next boot. -/
def lateDelete : Boot Bool := ⟨fresh, createOrDelete, [(false, calm)]⟩

/-- `Delete` finds no row and returns nil; the logical volume stays, and no `Create` of the name
succeeds any more. -/
theorem volume_stranded :
    (lateDelete.ends dataParams (cutCreate.after dataParams noVolumes)).thr false =
        .ret (.ok ()) ∧
      (lateDelete.after dataParams (cutCreate.after dataParams noVolumes)).lvs "data" =
        some (64 * 1024 * 1024) ∧
      ((Maintenance.create "data" 64).complete sem (fun _ => calm)
          (lateDelete.after dataParams (cutCreate.after dataParams noVolumes))).2 =
        .error (.text ("lvcreate vol-data: exit status 5: " ++
          "Logical Volume already exists: capsule/vol-data")) :=
  ⟨rfl, by decide, by decide⟩

end Capsule.Volumes.Stranded
