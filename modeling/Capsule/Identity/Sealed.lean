import Capsule.Identity.Ingest
import Capsule.Identity.Startup

/-!
# Capsule.Identity.Sealed

A sealed bundle over the boots of an installed capsule. In each boot `/perm` may mount or not, the
database may open or not, and every call may fail or be the last before power is lost.

* `rowWatch`, `job_row`: every job writes the identity row back with the ids that it read.
* `Consumes`, `ingestFirstBoot_sealed`: the ingest removes the bundle only once the key is in.
* `finish_induct`: the invariant rule for a boot; `finish_sealed` is its step for the bundle.
* `sealed_key_kept`: once the bundle is gone the database has its identity and its key, if every
  boot that mounts `/perm` with the bundle on it opens the database.
-/

namespace Capsule.Identity

open Atomic Auth Keyed

/-- The row names the capsule as the bundle does. A short id that the bundle leaves out is derived
at the first boot. -/
def IdsOf (b : FirstBootBundle) (id : CapsuleIdentity) : Prop :=
  id.capsuleID = b.capsuleID ∧ (b.shortID ≠ "" → id.shortID = b.shortID)

def Named (b : FirstBootBundle) (st : State) : Prop := ∃ id, st.identity = some id ∧ IdsOf b id

def HasKey (kid : String) (st : State) : Prop := st.keys.get kid ≠ none

/-- The bundle is there, or the database names the capsule as it did. -/
def Intact (data : Bytes) (b : FirstBootBundle) (st : State) : Prop :=
  st.firstBoot = some data ∨ st.firstBoot = none ∧ Named b st

/-- Once the bundle is gone the key is enrolled. -/
def KeyIn (kid : String) (st : State) : Prop := st.firstBoot = none → HasKey kid st

section Frame

variable {data : Bytes} {b : FirstBootBundle} {kid : String} {st st' : State}

theorem sem_firstBoot {o : Op} (hrename : o ≠ .renameFirstBoot) (hremove : o ≠ .removeFirstBoot)
    (e : Env) (st : State) : (sem o e st).1.firstBoot = st.firstBoot := by
  cases o with
  | renameFirstBoot => exact absurd rfl hrename
  | removeFirstBoot => exact absurd rfl hremove
  | _ =>
    simp only [sem]
    repeat' split
    all_goals rfl

theorem sem_identity {o : Op} (hput : ∀ id, o ≠ .identityPut id) (e : Env) (st : State) :
    (sem o e st).1.identity = st.identity := by
  cases o with
  | identityPut id => exact absurd rfl (hput id)
  | _ =>
    simp only [sem]
    repeat' split
    all_goals rfl

theorem HasKey.sem (h : HasKey kid st) {o : Op} (hdelete : o ≠ .keysDelete kid)
    (hall : o ≠ .keysDeleteAll) (e : Env) : HasKey kid (sem o e st).1 := by
  cases o with
  | keysAdd k =>
    simp only [Identity.sem]
    split
    · exact h
    · split
      · exact h
      · exact Table.get_add ‹_› (.inr h)
  | keysDelete k =>
    simp only [Identity.sem]
    split
    · exact h
    · have hne : kid ≠ k := fun heq => hdelete (heq ▸ rfl)
      rw [HasKey, Table.get_del_ne _ hne]
      exact h
  | keysDeleteAll => exact absurd rfl hall
  | _ =>
    simp only [Identity.sem]
    repeat' split
    all_goals exact h

theorem Intact.stays (h : Intact data b st) (hfirst : st'.firstBoot = st.firstBoot)
    (hnamed : Named b st → Named b st') : Intact data b st' := by
  rcases h with h | ⟨h, hn⟩
  · exact .inl (hfirst.trans h)
  · exact .inr ⟨hfirst.trans h, hnamed hn⟩

theorem KeyIn.stays (h : KeyIn kid st) (hfirst : st'.firstBoot = st.firstBoot)
    (hkey : HasKey kid st → HasKey kid st') : KeyIn kid st' :=
  fun hnone => hkey (h (hfirst ▸ hnone))

end Frame

/-- What a piece of code knows of the identity row. -/
inductive Row where
  | unread
  | missing
  | read (id : CapsuleIdentity)

def Row.after (g : Row) : Except Err CapsuleIdentity → Row
  | .ok id => .read id
  | .error e => if e.is .notFound then .missing else g

/-- A row that was read is written back with its ids, except that a missing short id is filled. -/
def Row.Writes : Row → CapsuleIdentity → Prop
  | .unread, _ => False
  | .missing, _ => True
  | .read old, id => id.capsuleID = old.capsuleID ∧ (old.shortID ≠ "" → id.shortID = old.shortID)

def Row.Fits (b : FirstBootBundle) : Row → Prop
  | .unread => True
  | .missing => False
  | .read id => IdsOf b id

/-- The bundle is left alone, and of the other operations those that satisfy `P` are done. -/
def Row.Allows (P : Op → Prop) (g : Row) : Op → Prop
  | .identityPut id => g.Writes id
  | .renameFirstBoot => False
  | .removeFirstBoot => False
  | o => P o

def Row.next (g : Row) : (o : Op) → Res o → Row
  | .identityGet, r => g.after r
  | _, _ => g

def rowWatch (P : Op → Prop) {α : Type} : Monitor Op Res α Row :=
  ⟨Row.Allows P, Row.next, fun _ _ => True⟩

section RowWatch

variable {P : Op → Prop} {b : FirstBootBundle} {st : State} {g : Row} {o : Op}

theorem Row.Allows.firstBoot (ho : g.Allows P o) (e : Env) (st : State) :
    (sem o e st).1.firstBoot = st.firstBoot :=
  sem_firstBoot (by rintro rfl; exact ho) (by rintro rfl; exact ho) e st

theorem Row.Allows.named (ho : g.Allows P o) (hst : Named b st) (hg : g.Fits b) (e : Env) :
    Named b (sem o e st).1 ∧ (g.next o (sem o e st).2).Fits b := by
  cases o with
  | identityGet =>
    obtain ⟨id, hid, hnames⟩ := hst
    simp only [sem, hid]
    cases e.fault with
    | none => exact ⟨⟨id, hid, hnames⟩, hnames⟩
    | some m => exact ⟨⟨id, hid, hnames⟩, hg⟩
  | identityPut id =>
    refine ⟨?_, hg⟩
    cases g with
    | unread => exact absurd ho not_false
    | missing => exact absurd hg not_false
    | read old =>
      obtain ⟨hcapsule, hshort⟩ : id.capsuleID = old.capsuleID ∧
        (old.shortID ≠ "" → id.shortID = old.shortID) := ho
      obtain ⟨hcapsule', hshort'⟩ : IdsOf b old := hg
      simp only [sem]
      split
      · exact hst
      · refine ⟨_, rfl, hcapsule.trans hcapsule', fun hb => ?_⟩
        have hold := hshort' hb
        exact (hshort (hold ▸ hb)).trans hold
  | _ =>
    obtain ⟨id, hid, hnames⟩ := hst
    exact ⟨⟨id, (sem_identity (fun _ h => by cases h) e st).trans hid, hnames⟩, hg⟩

end RowWatch

/-- The operations that leave the bundle and the row alone. -/
def Aside : Op → Prop
  | .identityGet | .identityPut _ | .renameFirstBoot | .removeFirstBoot => False
  | _ => True

/-- What capsuled runs while it serves. -/
def Job.Served : Job → Prop
  | .rpc _ _ | .timer | .sweeper _ => True
  | _ => False

/-- A job removes at most the key that its `KeyRemove` names. -/
def Job.MayDo (job : Job) : Op → Prop
  | .keysDelete kid => ∃ md, job = .rpc md (.keyRemove kid)
  | .keysDeleteAll => False
  | _ => True

section Code

variable {α β : Type} {c : Codec} {ctl : Controller} {job : Job}

theorem rowWatch_aside {P : Op → Prop} {p : Code α} {g : Row} {Q : Row → α → Prop}
    (hp : p.Only fun o => Aside o ∧ P o) (hQ : ∀ a, Q g a) :
    p.Obeys ((rowWatch P : Monitor Op Res β Row).post Q) g := by
  refine hp.obeys ?_ ?_ hQ
  · rintro o ⟨haside, ho⟩
    cases o with
    | identityGet | identityPut | renameFirstBoot | removeFirstBoot => exact haside.elim
    | _ => exact ho
  · rintro o r ⟨haside, -⟩
    cases o with
    | identityGet => exact haside.elim
    | _ => rfl

theorem wipeAuthOnDisk_row : wipeAuthOnDisk.Obeys (rowWatch fun _ => True) .unread := by
  refine ⟨trivial, fun r => ?_⟩
  cases r with
  | error e => trivial
  | ok _ =>
    refine ⟨trivial, fun r => ?_⟩
    cases r with
    | ok id => exact ⟨⟨rfl, fun _ => rfl⟩, fun _ => trivial⟩
    | error e => exact .ite (fun _ => trivial) fun _ => trivial

theorem ensureIdentity_row :
    (ensureIdentity c).Obeys (rowWatch Job.ensureIdentity.MayDo) .unread := by
  refine ⟨trivial, fun r => ?_⟩
  cases r with
  | ok id =>
    refine .ite (fun hshort => ⟨⟨rfl, fun h => absurd hshort h⟩, fun r => ?_⟩)
      fun _ => trivial
    cases r <;> trivial
  | error e =>
    refine .ite (fun he => ?_) fun _ => trivial
    refine ⟨trivial, fun u => ⟨trivial, fun t => ⟨?_, fun r => ?_⟩⟩⟩
    · change (Row.after .unread (.error e)).Writes _; rw [Row.after, if_pos he]; trivial
    · cases r <;> trivial

theorem recordAdoption_row (id : CapsuleIdentity) (kid : String) :
    (recordAdoption ctl id kid).Obeys (rowWatch job.MayDo) (.read id) := by
  refine ⟨trivial, fun t => ⟨⟨rfl, fun _ => rfl⟩, fun r => ?_⟩⟩
  cases r with
  | error e => trivial
  | ok _ =>
    refine ⟨trivial, fun _ => ?_⟩
    cases ctl.mdns with
    | false => trivial
    | true => exact ⟨trivial, fun _ => trivial⟩

theorem adopt_row (pubkey : Bytes) (name : String) :
    (adopt c ctl pubkey name).Obeys (rowWatch job.MayDo) .unread := by
  unfold adopt
  cases parsePubkey pubkey with
  | error e => trivial
  | ok pub =>
    refine ⟨trivial, fun isOpen => ?_⟩
    cases isOpen with
    | false =>
      refine ⟨trivial, fun r => ?_⟩
      cases r with
      | error e => trivial
      | ok k =>
        refine ⟨trivial, fun r => ?_⟩
        cases r <;> trivial
    | true =>
      refine ⟨trivial, fun r => ?_⟩
      cases r with
      | error e => trivial
      | ok id =>
        refine ⟨trivial, fun t => ⟨trivial, fun r => ?_⟩⟩
        cases r with
        | ok _ => exact recordAdoption_row id _
        | error e => exact .ite (fun _ => recordAdoption_row id _) fun _ => trivial

theorem handle_row (md : List Bytes) (caller : String) (req : Request) :
    (handle c ctl caller req).Obeys (rowWatch (Job.rpc md req).MayDo) .unread := by
  cases req with
  | adopt pubkey name => exact adopt_row pubkey name
  | whoAmI =>
    refine .ite (fun _ => trivial) fun _ => ⟨trivial, fun r => ?_⟩
    cases r with
    | error e => trivial
    | ok id =>
      refine ⟨trivial, fun r => ?_⟩
      cases r <;> trivial
  | keyAdd pubkey name =>
    refine .ite (fun _ => trivial) fun _ => ?_
    cases parsePubkey pubkey with
    | error e => trivial
    | ok pub =>
      refine .ite (fun _ => trivial) fun _ => ⟨trivial, fun t => ⟨trivial, fun r => ?_⟩⟩
      cases r with
      | ok _ => trivial
      | error e => exact .ite (fun _ => trivial) fun _ => trivial
  | keyList =>
    refine ⟨trivial, fun r => ?_⟩
    cases r <;> trivial
  | keyRemove kid =>
    refine .ite (fun _ => trivial) fun _ => ?_
    refine .ite (fun _ => trivial) fun _ => ⟨trivial, fun r => ?_⟩
    cases r with
    | error e => trivial
    | ok count =>
      refine .ite (fun _ => trivial) fun _ => ⟨⟨md, rfl⟩, fun r => ?_⟩
      cases r <;> trivial
  | other m => trivial

theorem rpc_row (a : Authenticator) (md : List Bytes) (req : Request) :
    (rpc c ctl a md req).Obeys (rowWatch (Job.rpc md req).MayDo) .unread := by
  rw [rpc, Prog.obeys_bind]
  refine rowWatch_aside (authorize_only (fun _ => ⟨trivial, trivial⟩) ⟨trivial, trivial⟩
    (fun _ _ => ⟨trivial, trivial⟩) a req.fullMethod md) fun r => ?_
  cases r with
  | error st => trivial
  | ok caller => exact handle_row md caller req

theorem job_row (a : Authenticator) (hjob : job.Served) :
    (job.code c ctl a).Obeys (rowWatch job.MayDo) .unread := by
  cases job with
  | rpc md req =>
    rw [Job.code, Prog.obeys_bind]
    exact (rpc_row a md req).embed id (fun _ _ h => h) (fun _ _ _ => rfl) fun _ _ _ => trivial
  | timer => exact ⟨trivial, fun _ => trivial⟩
  | sweeper n =>
    rw [Job.code, Prog.obeys_bind]
    exact rowWatch_aside (sweepLoop_only ⟨trivial, trivial⟩ (fun _ => ⟨trivial, trivial⟩) n)
      fun _ => trivial
  | ingestFirstBoot | ensureIdentity | wipeAuthOnDisk => exact hjob.elim

end Code

section Runs

variable {P : Op → Prop} {α : Type} {b : FirstBootBundle} {kid : String} {st : State} {p : Code α}

theorem exec_firstBoot (hp : p.Obeys (rowWatch P) .unread) (es : List Env) (st : State) :
    (p.exec sem es st).st.firstBoot = st.firstBoot := by
  obtain ⟨_, h, -⟩ := hp.exec (J := fun _ s => s.firstBoot = st.firstBoot)
    (fun g s o e hJ hok => (Row.Allows.firstBoot hok e s).trans hJ) rfl es
  exact h

theorem exec_named (hp : p.Obeys (rowWatch P) .unread) (hst : Named b st) (es : List Env) :
    Named b (p.exec sem es st).st := by
  obtain ⟨_, h, -⟩ := hp.exec (J := fun g s => Named b s ∧ g.Fits b)
    (fun g s o e hJ hok => Row.Allows.named hok hJ.1 hJ.2 e) ⟨hst, trivial⟩ es
  exact h.1

theorem ensureIdentity_hasKey (c : Codec) (hst : HasKey kid st) (es : List Env) :
    HasKey kid ((ensureIdentity c).exec sem es st).st := by
  obtain ⟨_, h, -⟩ := (ensureIdentity_row (c := c)).exec (J := fun _ s => HasKey kid s)
    (fun g s o e hJ hok => hJ.sem (by rintro rfl; obtain ⟨md, h⟩ := hok; cases h)
      (by rintro rfl; exact hok) e) hst es
  exact h

end Runs

/-! ## The ingest -/

/-- A failed `Add` is not taken for a conflict. -/
def Env.Plain (e : Env) : Prop := ∀ m ∈ e.fault, (addErr m).is .conflict = false

/-- The bundle is there, and so is all that it asks of the store. -/
def Filed (data : Bytes) (b : FirstBootBundle) (kid : String) (st : State) : Prop :=
  st.firstBoot = some data ∧ HasIds b st ∧ HasKey kid st

/-- What holds before each operation of the ingest. -/
def Consumes (data : Bytes) (b : FirstBootBundle) (kid : String) : Op → State → Prop
  | .renameFirstBoot, _ => False
  | .removeFirstBoot, st => Filed data b kid st
  | _, st => st.firstBoot = some data

section Ingest

variable {c : Codec} {data : Bytes} {b : FirstBootBundle} {pub : Bytes} {kid : String} {st : State}

theorem ingestFirstBoot_absent (c : Codec) (hst : st.firstBoot = none) (es : List Env) :
    ((ingestFirstBoot c).exec sem es st).st = st := by
  cases es with
  | nil => rfl
  | cons e es =>
    change (Prog.exec sem _ es st).st = st
    simp only [sem, Env.answer, hst]
    cases e.fault <;> rfl

theorem putIdentity_consumes (hst : st.firstBoot = some data) (id : CapsuleIdentity) :
    (putIdentity b id).Safe (sem.given Env.Plain) Eq (Consumes data b kid)
      (fun r st => st.firstBoot = some data ∧ (r = .ok () → HasIds b st)) st := by
  have hput : ∀ id : CapsuleIdentity, id.capsuleID = b.capsuleID → id.shortID = b.shortID →
      (identityPut id).Safe (sem.given Env.Plain) Eq (Consumes data b kid)
        (fun r st => st.firstBoot = some data ∧ (r = .ok () → HasIds b st)) st := by
    intro id hcapsule hshort
    refine .call ⟨hst, fun e => .ret ?_⟩
    simp only [Sem.given, sem]
    split
    · exact ⟨hst, fun h => by cases h⟩
    · exact ⟨hst, fun _ => ⟨_, rfl, hcapsule, hshort⟩⟩
  unfold putIdentity
  split
  · exact .call ⟨hst, fun e => hput _ rfl rfl⟩
  · exact hput _ rfl rfl

theorem applyIdentity_consumes (hst : st.firstBoot = some data) :
    (applyIdentity b).Safe (sem.given Env.Plain) Eq (Consumes data b kid)
      (fun r st => st.firstBoot = some data ∧ (r = .ok () → HasIds b st)) st := by
  refine .call ⟨hst, fun e => ?_⟩
  have hsame : (sem.given Env.Plain .identityGet e st).1 = st := by
    simp only [Sem.given, sem]
    split <;> rfl
  rw [hsame]
  cases (sem.given Env.Plain .identityGet e st).2 with
  | ok id => exact putIdentity_consumes hst id
  | error err =>
    change Prog.Safe _ _ _ _ (if err.is .notFound then _ else _) st
    split
    · exact putIdentity_consumes hst _
    · exact .ret ⟨hst, fun h => by cases h⟩

theorem keysAdd_hasKey {k : AuthorizedKey} {e : { e // Env.Plain e }}
    {out : State × Except Err Unit} (hout : sem.given Env.Plain (.keysAdd k) e st = out) :
    HasKey k.kid out.1 ∨ ∃ err, out.2 = .error err ∧ err.is .conflict = false := by
  subst hout
  simp only [Sem.given, sem]
  cases hf : e.1.fault with
  | some m => exact .inr ⟨_, rfl, e.2 m hf⟩
  | none =>
    dsimp only
    cases hadd : st.keys.add { k with addedAtUnix := stamp e.1 k.addedAtUnix } with
    | none =>
      have hget := Table.get_of_add_eq_none hadd
      exact .inl hget
    | some t => exact .inl (Table.get_add hadd (.inl rfl))

theorem applyAuthorizedKey_consumes (hst : st.firstBoot = some data) (hids : HasIds b st)
    (hb : Complete c data b pub) :
    (applyAuthorizedKey c b).Safe (sem.given Env.Plain) Eq (Consumes data b kid)
      (fun r st => st.firstBoot = some data ∧ HasIds b st ∧
        (r = .ok () → HasKey (kidFromPubkey c pub) st)) st := by
  have hparse : parsePubkey pub = .ok pub := if_neg (not_not.mpr hb.length)
  unfold applyAuthorizedKey
  simp only [hb.named, if_false, hb.decoded, hparse]
  refine .call ⟨hst, fun e => .call ⟨hst, fun e' => ?_⟩⟩
  generalize hout : sem.given Env.Plain (.keysAdd _) e' _ = out
  have hkey := keysAdd_hasKey hout
  have hfirst : out.1.firstBoot = some data :=
    hout ▸ (sem_firstBoot (by simp) (by simp) e'.1 st).trans hst
  have hids' : HasIds b out.1 := by
    obtain ⟨id, hid, h⟩ := hids
    exact ⟨id, hout ▸ (sem_identity (by simp) e'.1 st).trans hid, h⟩
  obtain ⟨st', r⟩ := out
  cases r with
  | ok _ =>
    refine .ret ⟨hfirst, hids', fun _ => hkey.resolve_right ?_⟩
    rintro ⟨err, h, -⟩
    cases h
  | error err =>
    change Prog.Safe _ _ _ _ (if err.is .conflict then _ else _) st'
    split
    · rename_i hconflict
      refine .ret ⟨hfirst, hids', fun _ => hkey.resolve_right ?_⟩
      rintro ⟨_, ⟨⟩, h⟩
      rw [h] at hconflict
      cases hconflict
    · exact .ret ⟨hfirst, hids', fun h => by cases h⟩

theorem writeTLSMaterial_consumes (hst : Filed data b kid st) :
    (writeTLSMaterial b).Safe (sem.given Env.Plain) Eq (Consumes data b kid)
      (fun _ st => Filed data b kid st) st := by
  have honly : (writeTLSMaterial b).Only fun o => ∀ st, Filed data b kid st →
      Consumes data b kid o st ∧ ∀ e, Filed data b kid (sem o e st).1 := by
    refine writeTLSMaterial_only (fun st h => ⟨h.1, fun _ => h⟩) (fun _ st h => ⟨h.1, fun _ => h⟩)
      (fun f pem st h => ⟨h.1, fun e => ?_⟩) b
    simp only [sem]
    split <;> exact h
  exact honly.safe (fun _ _ h hF => h ▸ hF) (fun _ st ho hF => (ho st hF).1)
    (fun _ e st ho hF => (ho st hF).2 e.1) hst

theorem ingestFirstBoot_consumes (hb : Complete c data b pub) (hst : st.firstBoot = some data) :
    (ingestFirstBoot c).Safe (sem.given Env.Plain) Eq (Consumes data b (kidFromPubkey c pub))
      (fun _ _ => True) st := by
  refine .call ⟨hst, fun e => ?_⟩
  generalize hread : sem.given Env.Plain .readFirstBoot e st = out
  obtain rfl : out = (st, e.1.answer st.firstBoot) := hread.symm
  cases hf : e.1.fault with
  | some m => simp only [Env.answer, hf]; exact .ret trivial
  | none =>
    simp only [Env.answer, hf, hst, Prog.bind, Except.mapError, hb.json]
    refine .andThenOk ((applyIdentity_consumes hst).mono ?_)
    rintro (err | _) st ⟨hst, hids⟩
    · exact .ret trivial
    refine .andThenOk
      ((applyAuthorizedKey_consumes hst (hids rfl) hb).mono ?_)
    rintro (err | _) st ⟨hst, hids, hkey⟩
    · exact .ret trivial
    refine .andThenOk
      ((writeTLSMaterial_consumes ⟨hst, hids, hkey rfl⟩).mono ?_)
    rintro (err | _) st hfiled
    · exact .ret trivial
    exact .call ⟨hfiled, fun e => .ret trivial⟩

theorem HasIds.named (h : HasIds b st) : Named b st := by
  obtain ⟨id, hid, hcapsule, hshort⟩ := h; exact ⟨id, hid, hcapsule, fun _ => hshort⟩

theorem ingestFirstBoot_sealed (hb : Complete c data b pub) (hst : st.firstBoot = some data)
    {es : List Env} (hes : ∀ e ∈ es, e.Plain) :
    Intact data b ((ingestFirstBoot c).exec sem es st).st ∧
      KeyIn (kidFromPubkey c pub) ((ingestFirstBoot c).exec sem es st).st := by
  have hthere : ∀ st : State, st.firstBoot = some data →
      Intact data b st ∧ KeyIn (kidFromPubkey c pub) st := by
    intro st h
    exact ⟨.inl h, fun hnone => by rw [h] at hnone; cases hnone⟩
  refine (ingestFirstBoot_consumes hb hst).exec_given
    (J := fun st => Intact data b st ∧ KeyIn (kidFromPubkey c pub) st) ?_ (hthere st hst) hes
  intro o e st ho _
  cases o with
  | renameFirstBoot => exact ho.elim
  | removeFirstBoot =>
    obtain ⟨hfirst, hids, hkey⟩ := ho
    simp only [sem]
    split
    · exact ⟨.inr ⟨rfl, hids.named⟩, fun _ => hkey⟩
    · exact hthere st hfirst
  | _ => exact hthere _ ((sem_firstBoot (by simp) (by simp) e st).trans ho)

end Ingest

section Serving

variable {ι : Type} [DecidableEq ι] {b : FirstBootBundle} {kid : String} {jobs : ι → Job}
  {p : Pool ι Op Res State (Option Reply)} {w : List (ι × Env)} {g : ι → Row}

/-- A `KeyRemove` of the enrolled key has deleted it. -/
def KeyRemoved (kid : String) (jobs : ι → Job) (p : Pool ι Op Res State (Option Reply))
    (w : List (ι × Env)) : Prop :=
  ∃ i md, jobs i = .rpc md (.keyRemove kid) ∧
    p.Performed sem w i (.keysDelete kid) fun st r => HasKey kid st ∧ r = .ok ()

/-- What is so after any part of a schedule. -/
structure Kept (b : FirstBootBundle) (kid : String) (jobs : ι → Job)
    (p : Pool ι Op Res State (Option Reply)) (w : List (ι × Env)) (g : ι → Row) : Prop where
  firstBoot : (p.run sem w).st.firstBoot = p.st.firstBoot
  named : Named b p.st → Named b (p.run sem w).st ∧ ∀ i, (g i).Fits b
  key : HasKey kid p.st → HasKey kid (p.run sem w).st ∨ KeyRemoved kid jobs p w

theorem KeyRemoved.append (h : KeyRemoved kid jobs p w) (w' : List (ι × Env)) :
    KeyRemoved kid jobs p (w ++ w') := by
  obtain ⟨i, md, hi, hperf⟩ := h
  exact ⟨i, md, hi, hperf.append w'⟩

/-- The step lemma. -/
theorem Kept.step (h : Kept b kid jobs p w g)
    (hob : ∀ j, ((p.run sem w).thr j).Obeys (rowWatch (jobs j).MayDo) (g j)) {i : ι} {o : Op}
    {k : Res o → Code (Option Reply)} (hp : (p.run sem w).thr i = .call o k) (e : Env) :
    Kept b kid jobs p (w ++ [(i, e)])
      (Function.update g i ((g i).next o (sem o e (p.run sem w).st).2)) := by
  have hok := hob i
  rw [hp] at hok
  have hst : (p.run sem (w ++ [(i, e)])).st = (sem o e (p.run sem w).st).1 := by
    rw [Pool.run_snoc, Pool.step_call hp]
  refine ⟨?_, ?_, ?_⟩
  · rw [hst]; exact (Row.Allows.firstBoot hok.1 e _).trans h.firstBoot
  · intro hnamed
    obtain ⟨hnamed', hg⟩ := h.named hnamed
    obtain ⟨hafter, hfits⟩ := Row.Allows.named hok.1 hnamed' (hg i) e
    refine ⟨hst ▸ hafter, fun j => ?_⟩
    by_cases hji : j = i
    · subst hji; rw [Function.update_self]; exact hfits
    · rw [Function.update_of_ne hji]; exact hg j
  · intro hkey
    rcases h.key hkey with hkey' | hremoved
    · by_cases ho : o = .keysDelete kid
      · subst ho
        obtain ⟨md, hi⟩ := hok.1
        cases hf : e.fault with
        | some m =>
          refine .inl ?_
          rw [hst]
          simpa only [sem, hf] using hkey'
        | none =>
          refine .inr ⟨i, md, hi, Pool.performed_last hp ⟨hkey', ?_⟩⟩
          simp only [sem, hf]
      · rw [hst]; exact .inl (hkey'.sem ho (by rintro rfl; exact hok.1) e)
    · exact .inr (hremoved.append _)

theorem Kept.idle (h : Kept b kid jobs p w g) {i : ι} {r : Option Reply}
    (hp : (p.run sem w).thr i = .ret r) (e : Env) : Kept b kid jobs p (w ++ [(i, e)]) g := by
  have hst : p.run sem (w ++ [(i, e)]) = p.run sem w := by
    rw [Pool.run_snoc, Pool.step_ret hp]
  refine ⟨?_, ?_, ?_⟩
  · rw [hst]; exact h.firstBoot
  · rw [hst]; exact h.named
  · rw [hst]; exact fun hkey => (h.key hkey).imp_right fun hr => hr.append _

/-- The run lemma. -/
theorem serving_kept (c : Codec) (v : Serving) (ctl : Controller) (hjobs : ∀ i, (jobs i).Served)
    (b : FirstBootBundle) (kid : String) (w : List (ι × Env)) :
    ∃ g, Kept b kid jobs ((v.boot ctl jobs).start c v.store) w g := by
  obtain ⟨g, hkept, -⟩ := Pool.track (c := (v.boot ctl jobs).start c v.store)
    (M := fun i => rowWatch (jobs i).MayDo)
    (P := Kept b kid jobs ((v.boot ctl jobs).start c v.store)) (w := []) (g := fun _ => .unread)
    (fun w g i e o k h hob hp => h.step hob hp e) (fun w g i e r h hp => h.idle hp e)
    ⟨rfl, fun h => ⟨h, fun _ => trivial⟩, .inl⟩
    (fun i => job_row (v.boot ctl jobs).auth (hjobs i)) w
  exact ⟨g, hkept⟩

end Serving

namespace Startup

variable {s : Startup} {d : Disk} {data : Bytes} {b : FirstBootBundle}

theorem resetAuth_db (s : Startup) (d : Disk) :
    (s.resetAuth d).1.db = d.db ∨
      ∃ es, (s.resetAuth d).1.db = (wipeAuthOnDisk.exec sem es d.db).st := by
  unfold resetAuth
  dsimp only
  repeat' split
  all_goals first | exact .inl rfl | exact .inr ⟨s.wipe, rfl⟩

theorem resetAuth_firstBoot (s : Startup) (d : Disk) :
    (s.resetAuth d).1.db.firstBoot = d.db.firstBoot := by
  rcases s.resetAuth_db d with h | ⟨es, h⟩
  · rw [h]
  · rw [h]; exact exec_firstBoot wipeAuthOnDisk_row es d.db

theorem resetAuth_intact (h : Intact data b d.db) : Intact data b (s.resetAuth d).1.db := by
  refine h.stays (s.resetAuth_firstBoot d) fun hnamed => ?_
  rcases s.resetAuth_db d with h | ⟨es, h⟩
  · rw [h]; exact hnamed
  · rw [h]; exact exec_named wipeAuthOnDisk_row hnamed es

theorem save_save (s : Startup) (d : Disk) (st st' : State) :
    s.save (s.save d st) st' = s.save d st' := by
  unfold save
  cases s.onPerm <;> rfl

end Startup

namespace Uptime

variable {ι : Type} [DecidableEq ι] {c : Codec} {d : Disk} {x : Uptime ι} {data : Bytes}
  {b : FirstBootBundle} {pub : Bytes} {kid : String}

/-- The invariant rule for a boot, from the ingest on. -/
theorem finish_induct {P : State → Prop}
    (hing : P (x.startup.ingested c (x.startup.resetAuth d).1).st)
    (hens : ∀ st, P st → P ((ensureIdentity c).exec sem x.startup.ensure st).st)
    (hserve : ∀ d' v, x.startup.main c d = (d', some v) → P v.store →
      P (((v.boot x.ctl x.jobs).start c v.store).run sem x.schedule).st) :
    x.finish c d = (x.startup.resetAuth d).1 ∨
      ∃ st, P st ∧ x.finish c d = x.startup.save (x.startup.resetAuth d).1 st := by
  cases hmain : x.startup.main c d with
  | mk d' v =>
    have hfinish := hmain
    unfold Startup.main at hmain
    dsimp only at hmain
    split at hmain
    · split at hmain
      · cases hmain; exact .inr ⟨_, hing, by rw [finish, hfinish]⟩
      · split at hmain
        · cases hmain
          refine .inr ⟨_, hserve _ _ hfinish (hens _ hing), ?_⟩
          rw [finish, hfinish]
          exact Startup.save_save ..
        · cases hmain; exact .inr ⟨_, hens _ hing, by rw [finish, hfinish]⟩
    · cases hmain; exact .inl (by rw [finish, hfinish])

/-- The `RESET_AUTH` wipe takes the key out of the database. -/
def WipesKey (kid : String) (d : Disk) (x : Uptime ι) : Prop :=
  d.db.firstBoot = none ∧ HasKey kid d.db ∧ ¬ HasKey kid (x.startup.resetAuth d).1.db

/-- A `KeyRemove` takes the key out of the database. -/
def RemovesKey (c : Codec) (kid : String) (d : Disk) (x : Uptime ι) : Prop :=
  ∃ d' v, x.startup.main c d = (d', some v) ∧ x.startup.onPerm = true ∧
    v.store.firstBoot = none ∧
    KeyRemoved kid x.jobs ((v.boot x.ctl x.jobs).start c v.store) x.schedule

/-- While the bundle is there, the boot opens the database if it mounts `/perm`, and no failed
`Add` of its ingest is taken for a conflict. -/
def Opens (d : Disk) (x : Uptime ι) : Prop :=
  d.db.firstBoot ≠ none → x.startup.mountedPerm = true →
    x.startup.openFault = none ∧ ∀ e ∈ x.startup.ingest, e.Plain

theorem offPerm_sealed (hjobs : ∀ i, (x.jobs i).Served) (hopens : x.Opens d)
    (hperm : x.startup.onPerm = false) (hd : Intact data b (x.startup.resetAuth d).1.db) :
    Intact data b (x.finish c d).db ∧
      (KeyIn kid (x.startup.resetAuth d).1.db → KeyIn kid (x.finish c d).db) := by
  have hstore : (x.startup.store (x.startup.resetAuth d).1).firstBoot =
      (x.startup.resetAuth d).1.db.firstBoot := by
    rw [Startup.store, hperm]
    rfl
  have hkeep := finish_induct (c := c) (d := d) (x := x)
    (P := fun st => st.firstBoot = (x.startup.resetAuth d).1.db.firstBoot) ?_ ?_ ?_
  · rcases hkeep with h | ⟨st, hst, h⟩
    · rw [h]; exact ⟨hd, id⟩
    · rw [h, Startup.save, hperm]; exact ⟨hd.stays hst id, fun hkey => hkey.stays hst id⟩
  · unfold Startup.ingested
    split
    · rename_i hruns
      -- the ingest runs on the store in memory, so there is no bundle
      have hnone : d.db.firstBoot = none := by
        by_contra hsome
        have hopen := (hopens hsome hruns.1).1
        simp [Startup.onPerm, hruns.1, hopen] at hperm
      rw [ingestFirstBoot_absent c (hstore.trans ((x.startup.resetAuth_firstBoot d).trans hnone))]
      exact hstore
    · exact hstore
  · intro st hst; exact (exec_firstBoot ensureIdentity_row _ st).trans hst
  · intro d' v _ hst
    obtain ⟨_, hkept⟩ := serving_kept c v x.ctl hjobs b kid x.schedule
    exact hkept.firstBoot.trans hst

theorem onPerm_sealed (hb : Complete c data b pub) (hjobs : ∀ i, (x.jobs i).Served)
    (hopens : x.Opens d) (hperm : x.startup.onPerm = true)
    (hd : Intact data b (x.startup.resetAuth d).1.db) :
    Intact data b (x.finish c d).db ∧
      (KeyIn (kidFromPubkey c pub) (x.startup.resetAuth d).1.db →
        ¬ x.RemovesKey c (kidFromPubkey c pub) d →
        KeyIn (kidFromPubkey c pub) (x.finish c d).db) := by
  have hstore : x.startup.store (x.startup.resetAuth d).1 = (x.startup.resetAuth d).1.db := by
    rw [Startup.store, if_pos hperm]
  have hkeep := finish_induct (c := c) (d := d) (x := x)
    (P := fun st => Intact data b st ∧
      (KeyIn (kidFromPubkey c pub) (x.startup.resetAuth d).1.db →
        ¬ x.RemovesKey c (kidFromPubkey c pub) d → KeyIn (kidFromPubkey c pub) st)) ?_ ?_ ?_
  · rcases hkeep with h | ⟨st, hst, h⟩
    · rw [h]; exact ⟨hd, fun hkey _ => hkey⟩
    · rw [h, Startup.save, if_pos hperm]; exact hst
  · unfold Startup.ingested
    rw [hstore]
    split
    · rename_i hruns
      rcases hd with hsome | ⟨hnone, hnamed⟩
      · have hsome' := (x.startup.resetAuth_firstBoot d).symm.trans hsome
        obtain ⟨-, hplain⟩ := hopens (by simp [hsome']) hruns.1
        obtain ⟨hintact, hkey⟩ := ingestFirstBoot_sealed hb hsome hplain
        exact ⟨hintact, fun _ _ => hkey⟩
      · rw [ingestFirstBoot_absent c hnone]
        exact ⟨.inr ⟨hnone, hnamed⟩, fun hkey _ => hkey⟩
    · exact ⟨hd, fun hkey _ => hkey⟩
  · rintro st ⟨hintact, hkey⟩
    have hfirst := exec_firstBoot (ensureIdentity_row (c := c)) x.startup.ensure st
    refine ⟨hintact.stays hfirst fun h => exec_named ensureIdentity_row h _, fun h hnot => ?_⟩
    exact (hkey h hnot).stays hfirst fun h => ensureIdentity_hasKey c h _
  · rintro d' v hmain ⟨hintact, hkey⟩
    obtain ⟨_, hkept⟩ := serving_kept c v x.ctl hjobs b (kidFromPubkey c pub) x.schedule
    refine ⟨hintact.stays hkept.firstBoot fun h => (hkept.named h).1, fun h hnot hnone => ?_⟩
    have hnone' : v.store.firstBoot = none := hkept.firstBoot.symm.trans hnone
    exact (hkept.key (hkey h hnot hnone')).resolve_right fun hremoved =>
      hnot ⟨d', v, hmain, hperm, hnone', hremoved⟩

/-- The step lemma. -/
theorem finish_sealed (hb : Complete c data b pub) (hjobs : ∀ i, (x.jobs i).Served)
    (hopens : x.Opens d) (hd : Intact data b d.db) :
    Intact data b (x.finish c d).db ∧
      (KeyIn (kidFromPubkey c pub) d.db → ¬ x.WipesKey (kidFromPubkey c pub) d →
        ¬ x.RemovesKey c (kidFromPubkey c pub) d →
        KeyIn (kidFromPubkey c pub) (x.finish c d).db) := by
  have hreset : Intact data b (x.startup.resetAuth d).1.db := Startup.resetAuth_intact hd
  have hkey : KeyIn (kidFromPubkey c pub) d.db → ¬ x.WipesKey (kidFromPubkey c pub) d →
      KeyIn (kidFromPubkey c pub) (x.startup.resetAuth d).1.db := by
    intro h hnot hnone
    have hnone' := (x.startup.resetAuth_firstBoot d).symm.trans hnone
    by_contra hgone
    exact hnot ⟨hnone', h hnone', hgone⟩
  cases hperm : x.startup.onPerm with
  | false =>
    have hoff : Intact data b (x.finish c d).db ∧
        (KeyIn (kidFromPubkey c pub) (x.startup.resetAuth d).1.db →
          KeyIn (kidFromPubkey c pub) (x.finish c d).db) :=
      offPerm_sealed hjobs hopens hperm hreset
    exact ⟨hoff.1, fun h hnot _ => hoff.2 (hkey h hnot)⟩
  | true =>
    obtain ⟨hintact, hafter⟩ := onPerm_sealed hb hjobs hopens hperm hreset
    exact ⟨hintact, fun h hnot hnot' => hafter (hkey h hnot) hnot'⟩

end Uptime

/-! ## Boots -/

/-- In every sequence of boots that open the database whenever they mount `/perm` with the bundle
on it: once the bundle is gone, the database has its identity, and its key unless a wipe or a
`KeyRemove` took it out later. -/
theorem sealed_key_kept {ι : Type} [DecidableEq ι] (c : Codec) (data : Bytes)
    (b : FirstBootBundle) (pub : Bytes) (hb : Complete c data b pub) (d : Disk)
    (hd : d.db.firstBoot = some data) (boots : List (Uptime ι))
    (hserved : ∀ x ∈ boots, ∀ i, (x.jobs i).Served)
    (hopens : Along (Uptime.finish c) Uptime.Opens d boots)
    (hgone : (boots.foldl (Uptime.finish c) d).db.firstBoot = none) :
    Named b (boots.foldl (Uptime.finish c) d).db ∧
      (Along (Uptime.finish c) (fun d x => ¬ x.WipesKey (kidFromPubkey c pub) d ∧
          ¬ x.RemovesKey c (kidFromPubkey c pub) d) d boots →
        HasKey (kidFromPubkey c pub) (boots.foldl (Uptime.finish c) d).db) := by
  have hjobs : Along (Uptime.finish c) (fun _ x => ∀ i, (x.jobs i).Served) d boots :=
    along_of_forall (fun _ x hx => hserved x hx) d
  have hboots := hjobs.and hopens
  refine ⟨?_, fun hkept => ?_⟩
  · have hintact : Intact data b (boots.foldl (Uptime.finish c) d).db :=
      hboots.invariant (I := fun d : Disk => Intact data b d.db)
        (fun _ _ h hx => (Uptime.finish_sealed hb hx.1 hx.2 h).1) (.inl hd)
    rcases hintact with h | ⟨-, hnamed⟩
    · rw [hgone] at h; cases h
    · exact hnamed
  · have hstart : KeyIn (kidFromPubkey c pub) d.db := fun h => by rw [hd] at h; cases h
    have hall := (hboots.and hkept).invariant
      (I := fun d : Disk => Intact data b d.db ∧ KeyIn (kidFromPubkey c pub) d.db)
      (fun _ _ h hx => by
        obtain ⟨hintact, hkey⟩ := Uptime.finish_sealed hb hx.1.1 hx.1.2 h.1
        exact ⟨hintact, hkey h.2 hx.2.1 hx.2.2⟩)
      ⟨.inl hd, hstart⟩
    exact hall.2 hgone

def sealedDisk : Disk := ⟨{ blank with firstBoot := some [1] }, none⟩

/-- A boot that serves nothing. -/
def bootOf (s : Startup) : Uptime Unit := ⟨s, ⟨"", false⟩, fun _ => .timer, []⟩

/-- A boot at which the ingest gets so many answers. -/
def ingesting (n : Nat) : Startup := { smooth with ingest := List.replicate n answered }

theorem bootOf_served (s : Startup) (i : Unit) : ((bootOf s).jobs i).Served := trivial

theorem bootOf_removes (s : Startup) (c : Codec) (kid : String) (d : Disk) :
    ¬ (bootOf s).RemovesKey c kid d := by
  rintro ⟨d', v, -, -, -, i, md, hjob, -⟩
  cases hjob

theorem answered_plain (n : Nat) : ∀ e ∈ List.replicate n answered, e.Plain := by
  intro e he m hm; rw [List.eq_of_mem_replicate he] at hm; cases hm

/-- `/perm` does not mount, then power is lost before the key is enrolled, then all goes well. -/
def sealedBoots : List (Uptime Unit) :=
  [bootOf { smooth with mountedPerm := false }, bootOf (ingesting 3), bootOf (ingesting 20),
    bootOf (ingesting 20)]

theorem sealed_key_kept_small :
    Named smallBundle (sealedBoots.foldl (Uptime.finish smallCodec) sealedDisk).db ∧
      HasKey "kid" (sealedBoots.foldl (Uptime.finish smallCodec) sealedDisk).db := by
  have hopens : ∀ (n : Nat) (d : Disk), (bootOf (ingesting n)).Opens d :=
    fun n d _ _ => ⟨rfl, answered_plain n⟩
  have h := sealed_key_kept smallCodec [1] smallBundle smallPub smallBundle_wellFormed.toComplete
    sealedDisk rfl sealedBoots
    (by simp [sealedBoots, bootOf_served])
    ⟨fun _ h => (by cases h), hopens 3 _, hopens 20 _, hopens 20 _, trivial⟩ rfl
  refine ⟨h.1, h.2 ?_⟩
  exact ⟨⟨fun h => h.2.2 h.2.1, bootOf_removes _ _ _ _⟩,
    ⟨fun h => h.2.2 h.2.1, bootOf_removes _ _ _ _⟩, ⟨fun h => h.2.2 h.2.1, bootOf_removes _ _ _ _⟩,
    ⟨fun h => h.2.2 h.2.1, bootOf_removes _ _ _ _⟩, trivial⟩

/-- `/perm` mounts and the database does not open. -/
def unopened : Uptime Unit := bootOf { ingesting 20 with openFault := some "disk I/O error" }

/-- That boot consumes the bundle, and the database has nothing of it. -/
theorem sealed_key_lost :
    Complete smallCodec [1] smallBundle smallPub ∧ unopened.startup.Installed ∧
      (∀ i, (unopened.jobs i).Served) ∧ ¬ unopened.WipesKey "kid" sealedDisk ∧
      ¬ unopened.RemovesKey smallCodec "kid" sealedDisk ∧
      (unopened.finish smallCodec sealedDisk).db.firstBoot = none ∧
      ¬ Named smallBundle (unopened.finish smallCodec sealedDisk).db ∧
      ¬ HasKey (kidFromPubkey smallCodec smallPub) (unopened.finish smallCodec sealedDisk).db := by
  refine ⟨smallBundle_wellFormed.toComplete, ⟨by decide, rfl⟩, bootOf_served _,
    fun h => h.2.2 h.2.1, bootOf_removes _ _ _ _, rfl, ?_, fun h => h rfl⟩
  rintro ⟨id, hid, -⟩
  cases hid

end Capsule.Identity
