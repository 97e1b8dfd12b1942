import Capsule.Atomic.Steps
import Capsule.Identity.Provenance

/-!
# Capsule.Identity.Revocation

Whether a key is of no use as soon as it is removed, over boots that may wipe the keys.

`Capsuled` is the machine: a boot with its tasks. What `Happens` is a step of a task or a reboot.

* `Capsuled.gone_run`: a kid that is gone stays so until an `Add` of it takes effect.
* `lookWatch`, `removeWatch`: an `authorize` that succeeds has found the key of its token, and a
  `KeyRemove` that succeeds has deleted its key.
* `revocation_immediate`: so no `authorize` that starts after the removal accepts the key's tokens.
-/

namespace Capsule.Identity

open Atomic Auth Keyed

inductive Task where
  | authorize (fullMethod : String) (md : List Bytes)
  | job (j : Job)

/-- What a task returns: the verdict of `authorize`, or the reply to an RPC. -/
abbrev Answer := Except Status String ⊕ Option Reply

def Task.code (c : Codec) (ctl : Controller) (a : Authenticator) : Task → Code Answer
  | .authorize m md => do return .inl (← Auth.authorize c a m md)
  | .job j => do return .inr (← j.code c ctl a)

structure Session (ι : Type) where
  auth : Authenticator
  ctl : Controller
  claim : Bool
  firstBoot : Option Bytes
  /-- `RESET_AUTH` is honoured, with these answers. When the database does not open,
  `wipeAuthOnDisk` returns the error as it does when `DeleteAll` fails. -/
  wipe : Option (List Env)
  tasks : ι → Task

structure Capsuled (ι : Type) where
  session : Session ι
  pool : Pool ι Op Res State Answer

inductive Happens (ι : Type) where
  | step (i : ι) (e : Env)
  | reboot (b : Session ι)

section

variable {ι : Type}

def Session.wiped (b : Session ι) (s : State) : Prog.Outcome Op State Env (Except Err Unit) :=
  match b.wipe with
  | none => ⟨s, [], [], some (.ok ())⟩
  | some es => wipeAuthOnDisk.exec sem es s

/-- The server starts after the wipe. When power is lost during the wipe it does not start. -/
def Session.boot (c : Codec) (b : Session ι) (s : State) : Capsuled ι where
  session := b
  pool :=
    ⟨{ (b.wiped s).st with claim := b.claim, jti := fun _ => none, firstBoot := b.firstBoot },
      fun i =>
        if (b.wiped s).val.isSome then (b.tasks i).code c b.ctl b.auth else .ret (.inr none)⟩

/-- The task has not performed its first operation. -/
def Capsuled.Unstarted (c : Codec) (y : Capsuled ι) (i : ι) : Prop :=
  y.pool.thr i = (y.session.tasks i).code c y.session.ctl y.session.auth

/-- The kid in the header of a request's token. -/
def namedKid (c : Codec) (md : List Bytes) : Option String :=
  match splitN (bearer md) 46 3 with
  | p0 :: _ => ((c.b64url p0).bind c.headerJSON).map JwtHeader.kid
  | [] => none

/-- `authorize` has succeeded with a token whose header names `kid`. -/
def Capsuled.Accepts (c : Codec) (y : Capsuled ι) (kid : String) (i : ι) : Prop :=
  ∃ m md caller, y.session.tasks i = .authorize m md ∧ ¬ y.session.auth.Open m ∧
    namedKid c md = some kid ∧ y.pool.thr i = .ret (.inl (.ok caller))

variable [DecidableEq ι]

def Capsuled.after (c : Codec) (y : Capsuled ι) : Happens ι → Capsuled ι
  | .step i e => ⟨y.session, y.pool.step sem (i, e)⟩
  | .reboot b => b.boot c y.pool.st

def Capsuled.run (c : Codec) (y : Capsuled ι) (v : List (Happens ι)) : Capsuled ι :=
  v.foldl (Capsuled.after c) y

/-- A `KeyRemove` of the kid returns success, or a boot wipes the keys. -/
def Capsuled.Revokes (c : Codec) (y : Capsuled ι) (kid : String) : Happens ι → Prop
  | .step j e => ∃ md, y.session.tasks j = .job (.rpc md (.keyRemove kid)) ∧
      (y.pool.thr j).next? ≠ none ∧
      (y.after c (.step j e)).pool.thr j = .ret (.inr (some (.ok .keyRemove)))
  | .reboot b => b.wipe ≠ none ∧ (b.wiped y.pool.st).val = some (.ok ())

/-- An `Add` of the kid takes effect. -/
def Capsuled.Adds (y : Capsuled ι) (kid : String) : Happens ι → Prop
  | .step j e => ∃ key, (y.pool.thr j).next? = some (.keysAdd key) ∧ key.kid = kid ∧
      (sem (.keysAdd key) e y.pool.st).2 = .ok ()
  | .reboot _ => False

/-- Steps of the tasks of one boot. -/
def steps (w : List (ι × Env)) : List (Happens ι) := w.map fun x => .step x.1 x.2

variable {c : Codec} {y : Capsuled ι} {kid : String}

theorem Capsuled.run_append (y : Capsuled ι) (v v' : List (Happens ι)) :
    y.run c (v ++ v') = (y.run c v).run c v' :=
  List.foldl_append

theorem Capsuled.run_steps (y : Capsuled ι) (w : List (ι × Env)) :
    y.run c (steps w) = ⟨y.session, y.pool.run sem w⟩ := by
  induction w generalizing y with
  | nil => rfl
  | cons x w ih => exact ih _

end

theorem sem_gone {st : State} {kid : String} (h : st.keys.get kid = none) (o : Op) (e : Env) :
    (sem o e st).1.keys.get kid = none ∨
      ∃ key, o = .keysAdd key ∧ key.kid = kid ∧ (sem (.keysAdd key) e st).2 = .ok () := by
  cases o with
  | keysAdd key =>
    rcases sem_keysAdd key e st with ⟨err, hr⟩ | ⟨t, keys, hadd, hr⟩
    · rw [hr]; exact .inl h
    · by_cases hk : key.kid = kid
      · exact .inr ⟨key, rfl, hk, by rw [hr]⟩
      · refine .inl ?_
        rw [hr]
        rw [Table.get_eq_none_iff] at h ⊢
        dsimp only
        rw [(Table.add_eq_some hadd).1]
        simp only [List.map_cons, List.mem_cons, not_or]
        exact ⟨Ne.symm hk, h⟩
  | keysDelete kid' =>
    refine .inl ?_
    simp only [sem]
    split
    · exact h
    · rw [Table.get_eq_none_iff] at h ⊢
      intro hmem
      obtain ⟨x, hx, rfl⟩ := List.mem_map.mp hmem
      exact h (List.mem_map_of_mem (Table.mem_del.mp hx).1)
  | keysDeleteAll =>
    refine .inl ?_
    simp only [sem]
    split
    · exact h
    · rfl
  | _ =>
    refine .inl ?_
    simp only [sem]
    repeat' split
    all_goals exact h

/-- What `wipeAuthOnDisk` does. -/
def WipeOp : Op → Prop
  | .keysDeleteAll | .identityGet | .identityPut _ => True
  | _ => False

theorem wipeAuthOnDisk_wipeOp : wipeAuthOnDisk.Only WipeOp :=
  wipeAuthOnDisk_only trivial trivial fun _ => trivial

theorem wipeOp_gone {o : Op} (ho : WipeOp o) (e : Env) {st : State} {kid : String}
    (h : st.keys.get kid = none) : (sem o e st).1.keys.get kid = none := by
  rcases sem_gone h o e with h' | ⟨key, rfl, -⟩
  · exact h'
  · exact absurd ho id

theorem wipe_gone {es : List Env} {st : State}
    (h : (wipeAuthOnDisk.exec sem es st).val = some (.ok ())) (kid : String) :
    (wipeAuthOnDisk.exec sem es st).st.keys.get kid = none := by
  cases es with
  | nil => cases h
  | cons e es =>
    have hrest : ∀ {p : Code (Except Err Unit)} {st' : State}, p.Only WipeOp →
        st'.keys.get kid = none → (p.exec sem es st').st.keys.get kid = none :=
      fun hp hst' => hp.exec (J := fun st : State => st.keys.get kid = none)
        (fun _ e _ ho hj => wipeOp_gone ho e hj) hst' es
    have honly := (wipeAuthOnDisk_wipeOp.2 (sem .keysDeleteAll e st).2)
    cases hf : e.fault with
    | some m =>
      simp only [wipeAuthOnDisk, keysDeleteAll, Prog.thenOk, Prog.call_bind, Prog.ret_bind,
        Prog.exec_call_cons, sem, hf] at h
      cases h
    | none =>
      refine hrest honly ?_
      simp only [sem, hf]
      rfl

section

variable {ι : Type} {c : Codec} {kid : String}

theorem boot_gone {s : State} (h : s.keys.get kid = none) (b : Session ι) :
    (b.boot c s).pool.st.keys.get kid = none := by
  change (b.wiped s).st.keys.get kid = none
  unfold Session.wiped
  split
  · exact h
  · exact wipeAuthOnDisk_wipeOp.exec (J := fun st : State => st.keys.get kid = none)
      (fun _ e _ ho hj => wipeOp_gone ho e hj) h _

variable [DecidableEq ι] {y : Capsuled ι}

/-- The step lemma. -/
theorem Capsuled.gone_after (h : y.pool.st.keys.get kid = none) (x : Happens ι) :
    (y.after c x).pool.st.keys.get kid = none ∨ y.Adds kid x := by
  cases x with
  | reboot b => exact .inl (boot_gone h b)
  | step i e =>
    cases hp : y.pool.thr i with
    | ret r =>
      refine .inl ?_
      change (y.pool.step sem (i, e)).st.keys.get kid = none
      rw [Pool.step_ret hp]
      exact h
    | call o k =>
      rcases sem_gone h o e with h' | ⟨key, rfl, hk, hr⟩
      · refine .inl ?_
        change (y.pool.step sem (i, e)).st.keys.get kid = none
        rw [Pool.step_call hp]
        exact h'
      · exact .inr ⟨key, by rw [hp]; rfl, hk, hr⟩

/-- The run lemma. -/
theorem Capsuled.gone_run (h : y.pool.st.keys.get kid = none) {v : List (Happens ι)}
    (hv : Along (Capsuled.after c) (fun y x => ¬ y.Adds kid x) y v) :
    (y.run c v).pool.st.keys.get kid = none :=
  Along.invariant (I := fun y : Capsuled ι => y.pool.st.keys.get kid = none)
    (fun _ x hgone hx => (gone_after hgone x).resolve_right hx) hv h

end

/-- An `authorize` call with a token: whether the lookup of its kid has found a key. -/
def lookWatch (kid : String) : Monitor Op Res Answer Bool where
  ok
    | false, .keysGet k => k = kid
    | _, _ => True
  next
    | _, .keysGet _, .ok _ => true
    | g, _, _ => g
  fin g r := (∃ caller, r = .inl (.ok caller)) → g = true

/-- A `KeyRemove`: whether its `Delete` has succeeded, after which it does nothing more. -/
def removeWatch (kid : String) : Monitor Op Res Answer Bool where
  ok
    | false, .keysDelete k => k = kid
    | false, _ => True
    | true, _ => False
  next
    | _, .keysDelete _, .ok _ => true
    | g, _, _ => g
  fin g r := r = .inr (some (.ok .keyRemove)) → g = true

/-- The other tasks are not watched. -/
def unwatched : Monitor Op Res Answer Bool := ⟨fun _ _ => True, fun g _ _ => g, fun _ _ => True⟩

def Task.watch (c : Codec) (a : Authenticator) : Task → Monitor Op Res Answer Bool
  | .authorize m md => if a.Open m then unwatched else lookWatch ((namedKid c md).getD "")
  | .job (.rpc _ (.keyRemove kid)) => removeWatch kid
  | .job _ => unwatched

section

variable {c : Codec} {kid : String}

theorem parseHeader_named {md : List Bytes} {t : Parsed}
    (h : parseHeader c (bearer md) = .ok t) : namedKid c md = some t.hdr.kid := by
  have hparts := parseHeader_parts h
  simp only [parseHeader, hparts] at h
  simp only [namedKid, hparts]
  cases hb : c.b64url t.part0 with
  | none => simp [hb] at h
  | some hdr =>
    simp only [hb] at h
    cases hj : c.headerJSON hdr with
    | none => simp [hj] at h
    | some hd =>
      simp only [hj] at h
      split at h
      · cases h
      · split at h
        · cases h
        · have hhdr : hd = t.hdr := congrArg Parsed.hdr (Except.ok.inj h)
          simp [hj, hhdr]

theorem lookWatch_found (p : Code Answer) : p.Obeys (lookWatch kid) true := by
  refine Prog.obeys_of_closed (I := fun g => g = true) ?_ ?_ ?_ p rfl
  · rintro _ o rfl; cases o <;> trivial
  · rintro _ o r rfl
    cases o with
    | keysGet k' => cases r <;> rfl
    | _ => rfl
  · rintro _ r rfl _; rfl

theorem authorize_watched {a : Authenticator} {m : String} (hm : ¬ a.Open m) (md : List Bytes) :
    (do return .inl (← authorize c a m md) : Code Answer).Obeys
      (lookWatch ((namedKid c md).getD "")) false := by
  unfold authorize
  rw [if_neg hm]
  split
  · rintro ⟨caller, h⟩; cases h
  · unfold verify
    cases ht : parseHeader c (bearer md) with
    | error e => rintro ⟨caller, h⟩; cases h
    | ok t =>
      refine ⟨by rw [parseHeader_named ht]; rfl, fun r => ?_⟩
      cases r with
      | ok key => exact lookWatch_found _
      | error e => rintro ⟨caller, h⟩; cases h

/-- `authorize` deletes no key. -/
def NoDelete : Op → Prop
  | .keysDelete _ => False
  | _ => True

theorem authorize_noDelete (a : Authenticator) (m : String) (md : List Bytes) :
    (authorize c a m md).Only NoDelete :=
  authorize_only (fun _ => trivial) trivial (fun _ _ => trivial) a m md

theorem keyRemove_watched (caller : String) :
    (keyRemove caller kid).Obeys ((removeWatch kid).post fun g r => r = .ok .keyRemove → g = true)
      false := by
  unfold keyRemove
  split
  · intro h; cases h
  · split
    · intro h; cases h
    · refine ⟨trivial, fun r => ?_⟩
      cases r with
      | error e => intro h; cases h
      | ok n =>
        change Prog.Obeys _ false (if n ≤ 1 then _ else _)
        split
        · intro h; cases h
        · refine ⟨rfl, fun r => ?_⟩
          cases r with
          | error e => intro h; cases h
          | ok _ => exact fun _ => rfl

theorem task_watched (ctl : Controller) (a : Authenticator) (task : Task) :
    (task.code c ctl a).Obeys (task.watch c a) false := by
  have hfree : ∀ p : Code Answer, p.Obeys unwatched false := fun p =>
    Prog.obeys_of_closed (I := fun _ => True) (fun _ _ => id) (fun _ _ _ => id) (fun _ _ => id) p
      trivial
  cases task with
  | authorize m md =>
    rw [Task.watch]
    by_cases hm : a.Open m
    · rw [if_pos hm]; exact hfree _
    · rw [if_neg hm]; exact authorize_watched hm md
  | job j =>
    cases j with
    | rpc md req =>
      cases req with
      | keyRemove kid =>
        rw [Task.code, Job.code, rpc]
        simp only [Prog.obeys_bind]
        refine (authorize_noDelete a _ md).obeys ?_ ?_ ?_
        · intro o ho; cases o <;> trivial
        · intro o r ho; cases o <;> first | rfl | exact absurd ho id
        · intro verdict
          cases verdict with
          | error st => intro h; cases h
          | ok caller =>
            refine (keyRemove_watched caller).mono ?_
            intro g r hr h
            cases h
            exact hr rfl
      | _ => exact hfree _
    | _ => exact hfree _

end

/-! ## Revocation -/

section

variable {ι : Type} {c : Codec} {kid : String}

/-- Every task of the boot keeps to its watch. -/
def Capsuled.Watched (c : Codec) (y : Capsuled ι) : Prop :=
  ∃ g : ι → Bool, ∀ j,
    (y.pool.thr j).Obeys ((y.session.tasks j).watch c y.session.auth) (g j)

theorem boot_watched (b : Session ι) (s : State) : (b.boot c s).Watched c := by
  refine ⟨fun _ => false, fun j => ?_⟩
  change Prog.Obeys _ false (if (b.wiped s).val.isSome = true then _ else _)
  split
  · exact task_watched b.ctl b.auth (b.tasks j)
  · change ((b.tasks j).watch c b.auth).fin false (.inr none)
    cases b.tasks j with
    | authorize m md =>
      rw [Task.watch]
      by_cases hm : b.auth.Open m
      · rw [if_pos hm]; trivial
      · rw [if_neg hm]; rintro ⟨caller, h⟩; cases h
    | job j =>
      cases j with
      | rpc md req =>
        cases req with
        | keyRemove kid => intro h; cases h
        | _ => trivial
      | _ => trivial

variable [DecidableEq ι] {y : Capsuled ι}

theorem Capsuled.Watched.after (h : y.Watched c) (x : Happens ι) : (y.after c x).Watched c := by
  cases x with
  | reboot b => exact boot_watched b y.pool.st
  | step i e =>
    obtain ⟨g, hg⟩ := h
    cases hp : y.pool.thr i with
    | ret r =>
      refine ⟨g, ?_⟩
      change ∀ j, ((y.pool.step sem (i, e)).thr j).Obeys _ (g j)
      rw [Pool.step_ret hp]
      exact hg
    | call o k => exact ⟨_, fun j => Pool.obeys_step hg hp e j⟩

theorem Capsuled.Watched.run (h : y.Watched c) (v : List (Happens ι)) : (y.run c v).Watched c := by
  induction v generalizing y with
  | nil => exact h
  | cons x v ih => exact ih (h.after x)

theorem Capsuled.Revokes.gone (hw : y.Watched c) {x : Happens ι} (hx : y.Revokes c kid x) :
    (y.after c x).pool.st.keys.get kid = none := by
  cases x with
  | reboot b =>
    obtain ⟨hsome, hok⟩ := hx
    change (b.wiped y.pool.st).st.keys.get kid = none
    unfold Session.wiped at hok ⊢
    cases hb : b.wipe with
    | none => exact absurd hb hsome
    | some es => rw [hb] at hok; exact wipe_gone hok kid
  | step j e =>
    obtain ⟨md, hj, hnext, hret⟩ := hx
    obtain ⟨g, hg⟩ := hw
    cases hp : y.pool.thr j with
    | ret r => exact absurd (by rw [hp]; rfl) hnext
    | call o k =>
      change (y.pool.step sem (j, e)).thr j = _ at hret
      change (y.pool.step sem (j, e)).st.keys.get kid = none
      have hob := hg j
      have hob' : ((y.pool.step sem (j, e)).thr j).Obeys _ _ := Pool.obeys_step hg hp e j
      rw [hret, Function.update_self, hj] at hob'
      rw [hp, hj] at hob
      have hdone : (removeWatch kid).next (g j) o (sem o e y.pool.st).2 = true := hob' rfl
      rw [Pool.step_call hp]
      -- the operation that returned success is the `Delete` of the kid
      cases hgj : g j with
      | true => rw [hgj] at hob; exact absurd hob.1 (by cases o <;> exact id)
      | false =>
        rw [hgj] at hob hdone
        cases o with
        | keysDelete k' =>
          obtain rfl : k' = kid := hob.1
          dsimp only
          cases hf : e.fault with
          | some m => simp [removeWatch, sem, hf] at hdone
          | none => simp [sem, hf]
        | _ => cases hdone

theorem looked_step {p : Pool ι Op Res State Answer} {i : ι} {g : Bool} {w : List (ι × Env)}
    {o : Op} {k : Res o → Code Answer} {e : Env}
    (hlooked : g = true →
      p.Performed sem w i (.keysGet kid) fun st _ => st.keys.get kid ≠ none)
    (hp : (p.run sem w).thr i = .call o k) (hok : (lookWatch kid).ok g o)
    (hnext : (lookWatch kid).next g o (sem o e (p.run sem w).st).2 = true) :
    p.Performed sem (w ++ [(i, e)]) i (.keysGet kid) fun st _ => st.keys.get kid ≠ none := by
  cases g with
  | true => exact (hlooked rfl).append _
  | false =>
    cases o with
    | keysGet k' =>
      obtain rfl : k' = kid := hok
      refine Pool.performed_last hp ?_
      intro hnone
      cases hf : e.fault <;> simp [sem, hnone, hf, lookWatch] at hnext
    | _ => cases hnext

theorem Capsuled.Accepts.looked (hw : y.Watched c) {i : ι} (hi : y.Unstarted c i)
    {w : List (ι × Env)} (ha : (y.run c (steps w)).Accepts c kid i) :
    y.pool.Performed sem w i (.keysGet kid) fun st _ => st.keys.get kid ≠ none := by
  rw [run_steps] at ha
  obtain ⟨m, md, caller, htask, hopen, hnamed, hret⟩ := ha
  obtain ⟨g, hg⟩ := hw
  have hwatch : (y.session.tasks i).watch c y.session.auth = lookWatch kid := by
    have h := htask
    dsimp only at h
    rw [h, Task.watch, if_neg hopen, hnamed]
    rfl
  have hstart : ∀ j, (y.pool.thr j).Obeys ((y.session.tasks j).watch c y.session.auth)
      (Function.update g i false j) := by
    intro j
    by_cases hj : j = i
    · subst hj; rw [Function.update_self, hi]; exact task_watched _ _ _
    · rw [Function.update_of_ne hj]; exact hg j
  -- the phase of the call says whether its lookup has found the key
  obtain ⟨g', hlooked, hob⟩ := Pool.track (c := y.pool) (w := [])
    (M := fun j => (y.session.tasks j).watch c y.session.auth)
    (P := fun w g => g i = true →
      y.pool.Performed sem w i (.keysGet kid) fun st _ => st.keys.get kid ≠ none)
    (by
      intro w g j e o k hP hob hp hgi
      by_cases hj : i = j
      · subst hj
        rw [Function.update_self, hwatch] at hgi
        have hok := hob i
        rw [hp, hwatch] at hok
        exact looked_step hP hp hok.1 hgi
      · rw [Function.update_of_ne hj] at hgi; exact (hP hgi).append _)
    (fun w g j e r hP _ hgi => (hP hgi).append _)
    (g := Function.update g i false) (fun h => by simp at h) hstart w
  rw [List.nil_append] at hlooked hob
  refine hlooked ?_
  have hfin := hob i
  dsimp only at hret
  rw [hret, hwatch] at hfin
  exact hfin ⟨caller, rfl⟩

/-- Once a `KeyRemove` of a kid or a wipe has returned success, an `authorize` call that starts
later does not succeed with a token whose header names the kid, unless an `Add` of it has taken
effect since. -/
theorem revocation_immediate (c : Codec) (b : Session ι) (s : State) (u : List (Happens ι))
    (x : Happens ι) (kid : String) (hx : ((b.boot c s).run c u).Revokes c kid x)
    (v : List (Happens ι)) (i : ι) (hi : ((b.boot c s).run c (u ++ x :: v)).Unstarted c i)
    (w : List (ι × Env))
    (hno : Along (Capsuled.after c) (fun y x => ¬ y.Adds kid x) ((b.boot c s).run c (u ++ [x]))
      (v ++ steps w)) :
    ¬ ((b.boot c s).run c (u ++ x :: v ++ steps w)).Accepts c kid i := by
  intro ha
  have hrun : (b.boot c s).run c (u ++ x :: v) = ((b.boot c s).run c (u ++ [x])).run c v := by
    rw [← Capsuled.run_append]; simp
  rw [Capsuled.run_append, hrun] at ha
  rw [hrun] at hi
  have hgone : ((b.boot c s).run c (u ++ [x])).pool.st.keys.get kid = none := by
    rw [Capsuled.run_append]; exact hx.gone ((boot_watched b s).run u)
  have hw := ((boot_watched (c := c) b s).run (u ++ [x])).run v
  -- the call looked the kid up and found it, when nothing had added it
  obtain ⟨w₁, e, w₂, rfl, -, hfound⟩ := ha.looked hw hi
  have hsplit : v ++ steps (w₁ ++ (i, e) :: w₂) = (v ++ steps w₁) ++ steps ((i, e) :: w₂) := by
    simp [steps]
  rw [hsplit] at hno
  have hnone := Capsuled.gone_run hgone hno.left
  rw [Capsuled.run_append, Capsuled.run_steps] at hnone
  exact hfound hnone

end

/-- Ann and Bob are enrolled. -/
def bothEnrolled : State where
  keys := (Table.empty.put ⟨"kid-a", List.replicate 32 1, "ann", "", 1⟩).put bobsKey
  identity := none
  claim := false
  jti _ := none
  firstBoot := none
  tls _ := none

/-- Ann's token removes their key, and is presented again. -/
def annLeaves : Session Bool where
  auth := ⟨"cap", false⟩
  ctl := ⟨"", false⟩
  claim := false
  firstBoot := none
  wipe := none
  tasks
    | true => .job (.rpc [bearerScheme ++ [1, 46, 2, 46, 3]] (.keyRemove "kid-a"))
    | false => .authorize "/capsule.v1.IdentityService/WhoAmI" [bearerScheme ++ [1, 46, 2, 46, 3]]

theorem revocation_immediate_ann :
    ¬ ((annLeaves.boot annsToken bothEnrolled).run annsToken
      (List.replicate 4 (.step true atThousand) ++ .step true atThousand :: [.reboot annLeaves] ++
        steps (List.replicate 3 (false, atThousand)))).Accepts annsToken "kid-a" false :=
  revocation_immediate annsToken annLeaves bothEnrolled (List.replicate 4 (.step true atThousand))
    (.step true atThousand) "kid-a" ⟨_, rfl, by decide, rfl⟩ [.reboot annLeaves] false rfl
    (List.replicate 3 (false, atThousand))
    ⟨id, (by rintro ⟨_, h, -⟩; cases h), (by rintro ⟨_, h, -⟩; cases h),
      (by rintro ⟨_, h, -⟩; cases h), trivial⟩

end Capsule.Identity
