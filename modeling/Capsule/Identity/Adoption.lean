import Capsule.Identity.Sealed

/-!
# Capsule.Identity.Adoption

What the identity row says about adoption, against the keys that are enrolled: a run of operations
one after the other from a fresh store, each of which may fail or be cut.

* `Matches`: the row says the capsule is adopted exactly if a key is enrolled.
* `Keeps`, `InStep`: code that keeps the two in step at each operation, which all but `Adopt` and
  the wipe do.
* `Turn.Whole`: `Adopt` and the wipe get to write the row once they have changed the keys, and no
  ingest enrols a key on a capsule without one.
* `adoption_matches_keys`: in every run of such operations the two match.
-/

namespace Capsule.Identity

open Atomic Auth Keyed

/-- `Adopt`, `KeyAdd` and `KeyRemove` are the RPCs that change something. -/
inductive Operation where
  | rpc (md : List Bytes) (req : Request)
  | ingestFirstBoot
  | ensureIdentity
  | wipeAuthOnDisk

/-- One operation. What is not in the stores is as the operation finds it: boots lie between
operations. -/
structure Turn where
  op : Operation
  ctl : Controller
  auth : Authenticator
  claim : Bool
  jti : Expiring.Cache String Int64
  firstBoot : Option Bytes
  /-- Power is lost where they end. -/
  answers : List Env

namespace Turn

def start (x : Turn) (s : State) : State :=
  { s with claim := x.claim, jti := x.jti, firstBoot := x.firstBoot }

/-- What a run leaves, and whether it returned without an error. -/
def ended {E α : Type} (out : Prog.Outcome Op State Env (Except E α)) : State × Bool :=
  (out.st,
    match out.val with
    | some (.ok _) => true
    | _ => false)

def outcome (c : Codec) (s : State) (x : Turn) : State × Bool :=
  match x.op with
  | .rpc md req => ended ((Identity.rpc c x.ctl x.auth md req).exec sem x.answers (x.start s))
  | .ingestFirstBoot => ended ((Identity.ingestFirstBoot c).exec sem x.answers (x.start s))
  | .ensureIdentity => ended ((Identity.ensureIdentity c).exec sem x.answers (x.start s))
  | .wipeAuthOnDisk => ended (Identity.wipeAuthOnDisk.exec sem x.answers (x.start s))

def step (c : Codec) (s : State) (x : Turn) : State := (x.outcome c s).1

end Turn

def Adopted (s : State) : Prop :=
  ∃ id, s.identity = some id ∧ id.adoptedAtUnix ≠ 0 ∧ id.adoptedByKid ≠ ""

def Matches (s : State) : Prop := Adopted s ↔ 0 < s.keys.count

/-- `Adopt` adds the first key with it, the wipe deletes the last. -/
def Op.rekeys : Op → Bool
  | .keysAdd _ | .keysDeleteAll => true
  | _ => false

def Op.onRow : Op → Bool
  | .identityGet | .identityPut _ => true
  | _ => false

/-- The set of keys changes, so the row has to follow. -/
def Changes (o : Op) (e : Env) : Prop := o.rekeys = true ∧ e.fault = none

/-- The row can be read and written, and the clock is not at the epoch. -/
def Answered (o : Op) (e : Env) : Prop :=
  (o.onRow = true → e.fault = none) ∧ (o = .now → e.clock ≠ 0)

instance (o : Op) (e : Env) : Decidable (Changes o e) := inferInstanceAs (Decidable (_ ∧ _))

instance (o : Op) (e : Env) : Decidable (Answered o e) := inferInstanceAs (Decidable (_ ∧ _))

/-- The operation does not leave the row behind: `Adopt` and the wipe write it once they have
changed the keys, and no ingest takes up a bundle on a capsule without keys. -/
def Turn.Whole (c : Codec) (s : State) (x : Turn) : Prop :=
  match x.op with
  | .rpc _ (.adopt pubkey name) =>
    (adopt c x.ctl pubkey name).CleanAfter sem Changes Answered x.answers (x.start s) ∧
      ∀ e ∈ x.answers, e.Plain
  | .rpc _ _ => True
  | .ingestFirstBoot => 0 < s.keys.count ∨ x.firstBoot.bind c.bundleJSON = none
  | .ensureIdentity => True
  | .wipeAuthOnDisk => wipeAuthOnDisk.CleanAfter sem Changes Answered x.answers (x.start s)

section Ops

variable {s s' : State}

theorem Matches.stays (h : Matches s) (hid : s'.identity = s.identity)
    (hkeys : 0 < s'.keys.count ↔ 0 < s.keys.count) : Matches s' := by
  rw [Matches, Adopted, hid, hkeys]
  exact h

/-- The operation changes neither the keys nor the row. -/
def Op.idle : Op → Bool
  | .keysAdd _ | .keysDelete _ | .keysDeleteAll | .identityPut _ => false
  | _ => true

theorem sem_idle {o : Op} (h : o.idle = true) (e : Env) (s : State) :
    (sem o e s).1.keys = s.keys ∧ (sem o e s).1.identity = s.identity := by
  refine ⟨?_, sem_identity (fun id ho => by rw [ho] at h; cases h) e s⟩
  cases o with
  | keysAdd | keysDelete | keysDeleteAll | identityPut => cases h
  | _ =>
    simp only [sem]
    repeat' split
    all_goals rfl

/-- Performed in this state the operation keeps the row and the keys in step. -/
def Keeps (o : Op) (s : State) : Prop := ∀ e, Matches s → Matches (sem o e s).1

theorem keeps_idle {o : Op} (h : o.idle = true) : Keeps o s := by
  intro e hs; obtain ⟨hkeys, hid⟩ := sem_idle h e s; exact hs.stays hid (by rw [hkeys])

theorem keeps_keysAdd (k : AuthorizedKey) (hs : 0 < s.keys.count) : Keeps (.keysAdd k) s := by
  intro e h
  refine h.stays (sem_identity (by simp) e s) (iff_of_true ?_ hs)
  rcases sem_keysAdd k e s with ⟨err, heq⟩ | ⟨t, keys, hadd, heq⟩
  · rw [heq]; exact hs
  · rw [heq]
    have hcount := Table.count_add hadd
    dsimp only
    omega

theorem keeps_keysDelete (kid : String) (hs : 1 < s.keys.count) : Keeps (.keysDelete kid) s := by
  intro e h
  refine h.stays (sem_identity (by simp) e s) (iff_of_true ?_ (by omega))
  simp only [sem]
  split
  · exact Nat.zero_lt_of_lt hs
  · have hdel := Table.count_le_del s.keys kid
    dsimp only
    omega

theorem keeps_identityPut {id : CapsuleIdentity}
    (hid : (id.adoptedAtUnix ≠ 0 ∧ id.adoptedByKid ≠ "") ↔ Adopted s) :
    Keeps (.identityPut id) s := by
  intro e h
  simp only [sem]
  split
  · exact h
  · rw [Matches, ← show Adopted s ↔ 0 < s.keys.count from h, ← hid]; simp [Adopted]

theorem sem_identityGet (e : Env) (s : State) :
    (∃ id, s.identity = some id ∧ sem .identityGet e s = (s, .ok id)) ∨
      ∃ err, (err.is .notFound = true → s.identity = none) ∧
        sem .identityGet e s = (s, .error err) := by
  simp only [sem]
  cases e.fault with
  | some m => exact .inr ⟨.text m, fun h => (by cases h), rfl⟩
  | none =>
    cases hid : s.identity with
    | some id => exact .inl ⟨id, rfl, rfl⟩
    | none => exact .inr ⟨_, fun _ => rfl, rfl⟩

end Ops

section Keep

variable {c : Codec} {s : State}

/-- Code that runs alone from `s` and keeps the row and the keys in step at each operation. -/
abbrev InStep {α : Type} (p : Code α) (Q : α → State → Prop) (s : State) : Prop :=
  p.Safe sem Eq Keeps Q s

theorem idle_inStep {α : Type} {p : Code α} (h : p.Only fun o => o.idle = true) :
    InStep p (fun _ s' => s'.keys = s.keys) s := by
  refine h.safe (F := fun s' : State => s'.keys = s.keys) ?_ (fun o s' ho _ => keeps_idle ho)
    ?_ rfl
  · rintro s₁ _ rfl hF; exact hF
  · intro o e s' ho hF; exact (sem_idle ho e s').1.trans hF

theorem verify_enrolled (token : Bytes) (aud : String) :
    InStep (verify c token aud) (fun r s => ∀ claims, r = .ok claims → 0 < s.keys.count) s := by
  unfold verify
  cases parseHeader c token with
  | error e => exact .ret fun _ h => by cases h
  | ok t =>
    refine .call ⟨keeps_idle rfl, fun e => ?_⟩
    rw [sem_keysGet_state]
    cases hget : (sem (.keysGet t.hdr.kid) e s).2 with
    | error err => exact .ret fun _ h => by cases h
    | ok k =>
      have hkeys : 0 < s.keys.count := by
        simp only [sem] at hget
        split at hget
        · cases hget
        · rename_i hk; exact List.length_pos_of_mem (Table.mem_of_get hk)
        · cases hget
      have honly : (verifyWith c aud t (enrolledKey (.ok k))).Only fun o => o.idle = true := by
        cases enrolledKey (.ok k) with
        | none => trivial
        | some pub =>
          unfold verifyWith
          dsimp only
          cases checkSigned c aud t pub with
          | error e => trivial
          | ok claims => exact ⟨rfl, fun _ => trivial⟩
      refine (idle_inStep honly).mono ?_
      intro r s' hs' _ _
      exact hs' ▸ hkeys

theorem authorize_enrolled (a : Authenticator) (m : String) (md : List Bytes) :
    InStep (authorize c a m md)
      (fun r s => ∀ kid, r = .ok kid → kid ≠ "" → 0 < s.keys.count) s := by
  unfold authorize
  split
  · exact .ret fun kid h hne => absurd (Except.ok.inj h).symm hne
  · split
    · exact .ret fun _ h => by cases h
    · refine .andThen ((verify_enrolled _ _).mono ?_)
      rintro (err | claims) s hs
      · exact .ret fun _ h => by cases h
      refine .call ⟨keeps_idle rfl, fun e => ?_⟩
      cases (sem (.seenOrAdd claims.jti claims.exp) e s).2 with
      | true => exact .ret fun _ h => by cases h
      | false => exact .ret fun _ _ _ => hs claims rfl

theorem keyAdd_inStep {caller : String} (hs : caller ≠ "" → 0 < s.keys.count) (pubkey : Bytes)
    (name : String) : InStep (keyAdd c caller pubkey name) (fun _ _ => True) s := by
  unfold keyAdd
  split
  · exact .ret trivial
  rename_i hcaller
  cases parsePubkey pubkey with
  | error e => exact .ret trivial
  | ok pub =>
    dsimp only
    split
    · exact .ret trivial
    refine .call ⟨keeps_idle rfl, fun e => ?_⟩
    refine .call ⟨keeps_keysAdd _ (hs hcaller), fun e' => ?_⟩
    cases (sem (.keysAdd _) e' (sem .now e s).1).2 with
    | ok _ => exact .ret trivial
    | error err =>
      change InStep (if err.is .conflict then _ else _) _ _
      split <;> exact .ret trivial

theorem keyRemove_inStep (caller kid : String) :
    InStep (keyRemove caller kid) (fun _ _ => True) s := by
  unfold keyRemove
  split
  · exact .ret trivial
  split
  · exact .ret trivial
  refine .call ⟨keeps_idle rfl, fun e => ?_⟩
  simp only [sem, Env.answer]
  cases e.fault with
  | some m => exact .ret trivial
  | none =>
    change InStep (if s.keys.count ≤ 1 then _ else _) _ s
    split
    · exact .ret trivial
    · rename_i hcount
      refine .call ⟨keeps_keysDelete kid (by omega), fun e' => ?_⟩
      cases (sem (.keysDelete kid) e' s).2 <;> exact .ret trivial

theorem whoAmI_idle (caller : String) : (whoAmI caller).Only fun o => o.idle = true := by
  refine .ite trivial ⟨rfl, fun r => ?_⟩
  cases r with
  | error e => trivial
  | ok id =>
    refine ⟨rfl, fun r => ?_⟩
    cases r <;> trivial

theorem keyList_idle : keyList.Only fun o => o.idle = true := by
  refine ⟨rfl, fun r => ?_⟩
  cases r <;> trivial

theorem rpc_inStep (ctl : Controller) (a : Authenticator) (md : List Bytes) {req : Request}
    (hreq : ∀ pubkey name, req ≠ .adopt pubkey name) :
    InStep (rpc c ctl a md req) (fun _ _ => True) s := by
  refine .andThen ((authorize_enrolled a req.fullMethod md).mono ?_)
  rintro (st | kid) s hs
  · exact .ret trivial
  cases req with
  | adopt pubkey name => exact absurd rfl (hreq pubkey name)
  | whoAmI => exact (idle_inStep (whoAmI_idle kid)).mono fun _ _ _ => trivial
  | keyAdd pubkey name => exact keyAdd_inStep (hs kid rfl) pubkey name
  | keyList => exact (idle_inStep keyList_idle).mono fun _ _ _ => trivial
  | keyRemove kid' => exact keyRemove_inStep kid kid'
  | other m => exact .ret trivial

theorem identityPut_inStep {id : CapsuleIdentity}
    (hid : (id.adoptedAtUnix ≠ 0 ∧ id.adoptedByKid ≠ "") ↔ Adopted s) :
    InStep (identityPut id) (fun _ s' => s'.keys = s.keys) s := by
  refine .call ⟨keeps_identityPut hid, fun e => .ret ?_⟩
  simp only [sem]
  split <;> rfl

theorem adopted_iff_of_some {id : CapsuleIdentity} (h : s.identity = some id) :
    (id.adoptedAtUnix ≠ 0 ∧ id.adoptedByKid ≠ "") ↔ Adopted s := by
  simp [Adopted, h]

theorem not_adopted_of_none (h : s.identity = none) : ¬ Adopted s := by
  simp [Adopted, h]

theorem ensureIdentity_inStep : InStep (ensureIdentity c) (fun _ _ => True) s := by
  have hput : ∀ id : CapsuleIdentity,
      ((id.adoptedAtUnix ≠ 0 ∧ id.adoptedByKid ≠ "") ↔ Adopted s) →
      InStep ((identityPut id).thenOk fun _ => .ret (.ok id)) (fun _ _ => True) s := by
    intro id hid
    refine .andThenOk ((identityPut_inStep hid).mono ?_)
    rintro (err | _) s' - <;> exact .ret trivial
  refine .call ⟨keeps_idle rfl, fun e => ?_⟩
  rcases sem_identityGet e s with ⟨id, hrow, heq⟩ | ⟨err, hrow, heq⟩ <;> rw [heq]
  · change InStep (if id.shortID = "" then _ else _) _ s
    split
    · have hid : (id.adoptedAtUnix ≠ 0 ∧ id.adoptedByKid ≠ "") ↔ Adopted s :=
        adopted_iff_of_some hrow
      exact hput _ hid
    · exact .ret trivial
  · change InStep (if err.is .notFound then _ else _) _ s
    split
    · rename_i hmissing
      refine .call ⟨keeps_idle rfl, fun e₁ => ?_⟩
      refine .call ⟨keeps_idle rfl, fun e₂ => ?_⟩
      exact hput _ (iff_of_false (fun h => h.1 rfl) (not_adopted_of_none (hrow hmissing)))
    · exact .ret trivial

theorem putIdentity_inStep (b : FirstBootBundle) {id : CapsuleIdentity}
    (hid : (id.adoptedAtUnix ≠ 0 ∧ id.adoptedByKid ≠ "") ↔ Adopted s) :
    InStep (putIdentity b id) (fun _ s' => s'.keys = s.keys) s := by
  unfold putIdentity
  split
  · exact .call ⟨keeps_idle rfl, fun e => identityPut_inStep hid⟩
  · exact identityPut_inStep hid

theorem applyIdentity_inStep (b : FirstBootBundle) :
    InStep (applyIdentity b) (fun _ s' => s'.keys = s.keys) s := by
  refine .call ⟨keeps_idle rfl, fun e => ?_⟩
  rcases sem_identityGet e s with ⟨id, hrow, heq⟩ | ⟨err, hrow, heq⟩ <;> rw [heq]
  · exact putIdentity_inStep b (adopted_iff_of_some hrow)
  · change InStep (if err.is .notFound then _ else _) _ s
    split
    · rename_i hmissing
      exact putIdentity_inStep b
        (iff_of_false (fun h => h.1 rfl) (not_adopted_of_none (hrow hmissing)))
    · exact .ret rfl

theorem applyAuthorizedKey_inStep (b : FirstBootBundle) (hs : 0 < s.keys.count) :
    InStep (applyAuthorizedKey c b) (fun _ _ => True) s := by
  unfold applyAuthorizedKey
  split
  · exact .ret trivial
  cases c.b64std b.operatorPubkey with
  | none => exact .ret trivial
  | some pub =>
    dsimp only
    cases parsePubkey pub with
    | error e => exact .ret trivial
    | ok _ =>
      refine .call ⟨keeps_idle rfl, fun e => ?_⟩
      refine .call ⟨keeps_keysAdd _ hs, fun e' => ?_⟩
      cases (sem (.keysAdd _) e' (sem .now e s).1).2 with
      | ok _ => exact .ret trivial
      | error err =>
        change InStep (if err.is .conflict then _ else _) _ _
        split <;> exact .ret trivial

theorem ingestFirstBoot_inStep
    (hs : 0 < s.keys.count ∨ s.firstBoot.bind c.bundleJSON = none) :
    InStep (ingestFirstBoot c) (fun _ _ => True) s := by
  refine .call ⟨keeps_idle rfl, fun e => ?_⟩
  simp only [sem, Env.answer]
  cases e.fault with
  | some m => exact .ret trivial
  | none =>
    cases hfirst : s.firstBoot with
    | none => exact .ret trivial
    | some data =>
      simp only [hfirst, Option.bind_some] at hs
      simp only [Prog.bind, Except.mapError]
      cases hjson : c.bundleJSON data with
      | none =>
        exact .call ⟨keeps_idle rfl, fun _ => .ret trivial⟩
      | some b =>
        have hkeys : 0 < s.keys.count := hs.resolve_right (by simp [hjson])
        refine .andThenOk ((applyIdentity_inStep b).mono ?_)
        rintro (err | _) s' hs'
        · exact .ret trivial
        refine .andThenOk
          ((applyAuthorizedKey_inStep b (hs' ▸ hkeys)).mono ?_)
        rintro (err | _) s'' -
        · exact .ret trivial
        have hfiles := writeTLSMaterial_only (P := fun o => o.idle = true) rfl (fun _ => rfl)
          (fun _ _ => rfl) b
        refine (idle_inStep (hfiles.thenOk ?_)).mono fun _ _ _ => trivial
        exact fun _ => ⟨rfl, fun _ => trivial⟩

end Keep

/-! ## Adopt and the wipe -/

section Follow

variable {c : Codec} {ctl : Controller} {s : State} {es : List Env}

theorem idle_matches {α : Type} {p : Code α} (h : p.Only fun o => o.idle = true) (hs : Matches s)
    (es : List Env) : Matches (p.exec sem es s).st :=
  h.exec (fun _ e _ ho hs => keeps_idle ho e hs) hs es

theorem recordAdoption_matches {id : CapsuleIdentity} {kid : String} (hkid : kid ≠ "")
    (hs : 0 < s.keys.count) (h : (recordAdoption ctl id kid).Clean sem Answered es s) :
    Matches ((recordAdoption ctl id kid).exec sem es s).st := by
  obtain ⟨e₁, es, rfl, hclock, h⟩ := h.uncons
  obtain ⟨e₂, es, rfl, hfault, -⟩ := h.uncons
  change Matches (Prog.exec sem _ es (sem (.identityPut _) e₂ s).1).st
  simp only [sem, hfault.1 rfl]
  refine idle_matches ?_ ?_ es
  · refine ⟨rfl, fun _ => ?_⟩
    cases ctl.mdns with
    | false => trivial
    | true => exact ⟨rfl, fun _ => trivial⟩
  · exact iff_of_true ⟨_, rfl, hclock.2 rfl, hkid⟩ hs

/-- The bootstrap path from the answer of `Add` on. -/
def stored (ctl : Controller) (id : CapsuleIdentity) (kid : String) : Except Err Unit → Code Reply
  | .ok () => recordAdoption ctl id kid
  | .error e =>
    if e.is .conflict then recordAdoption ctl id kid else return internalErr "store key" e

theorem stored_eq {id : CapsuleIdentity} {kid : String} {r : Except Err Unit}
    (hr : ∀ err, r = .error err → err.is .conflict = true) :
    stored ctl id kid r = recordAdoption ctl id kid := by
  cases r with
  | ok _ => rfl
  | error err => exact if_pos (hr err rfl)

theorem keysAdd_answer (k : AuthorizedKey) {e : Env} (he : e.Plain) (s : State) :
    (∃ err, err.is .conflict = false ∧ sem (.keysAdd k) e s = (s, .error err)) ∨
      e.fault = none ∧ 0 < (sem (.keysAdd k) e s).1.keys.count ∧
        ∀ err, (sem (.keysAdd k) e s).2 = .error err → err.is .conflict = true := by
  simp only [sem]
  cases hf : e.fault with
  | some m => exact .inl ⟨_, he m hf, rfl⟩
  | none =>
    refine .inr ⟨rfl, ?_⟩
    dsimp only
    cases hadd : s.keys.add { k with addedAtUnix := stamp e k.addedAtUnix } with
    | none =>
      obtain ⟨row, hrow⟩ := Option.ne_none_iff_exists'.mp (Table.get_of_add_eq_none hadd)
      refine ⟨List.length_pos_of_mem (Table.mem_of_get hrow), ?_⟩
      rintro err ⟨⟩
      rfl
    | some t =>
      have hcount := Table.count_add hadd
      refine ⟨?_, fun err h => by cases h⟩
      dsimp only
      omega

theorem adoptBootstrap_matches {pub : Bytes} {name : String} (hkid : kidFromPubkey c pub ≠ "")
    (hs : Matches s) (h : (adoptBootstrap c ctl pub name).CleanAfter sem Changes Answered es s)
    (hes : ∀ e ∈ es, e.Plain) : Matches ((adoptBootstrap c ctl pub name).exec sem es s).st := by
  cases es with
  | nil => exact hs
  | cons e₁ es =>
  obtain ⟨-, h⟩ := h
  change Matches (Prog.exec sem _ es (sem .identityGet e₁ s).1).st
  rcases sem_identityGet e₁ s with ⟨id, hrow, heq⟩ | ⟨err, hrow, heq⟩ <;> rw [heq] at h ⊢
  case inr => exact hs
  cases es with
  | nil => exact hs
  | cons e₂ es =>
  obtain ⟨-, h⟩ := h
  cases es with
  | nil => exact hs
  | cons e₃ es =>
  obtain ⟨h, -⟩ := h
  let k : AuthorizedKey := ⟨kidFromPubkey c pub, pub, if name = "" then "operator" else name, "",
    e₂.clock⟩
  change Changes (.keysAdd k) e₃ → (stored ctl id k.kid (sem (.keysAdd k) e₃ s).2).Clean sem
    Answered es (sem (.keysAdd k) e₃ s).1 at h
  change Matches ((stored ctl id k.kid (sem (.keysAdd k) e₃ s).2).exec sem es
    (sem (.keysAdd k) e₃ s).1).st
  rcases keysAdd_answer k (hes e₃ (by simp)) s with ⟨err, herr, heq⟩ | ⟨hfault, hkeys, herr⟩
  · rw [heq, stored, herr]; exact hs
  · rw [stored_eq herr] at h ⊢; exact recordAdoption_matches hkid hkeys (h ⟨rfl, hfault⟩)

theorem adoptEnrolled_idle (kid : String) :
    (adoptEnrolled ctl kid).Only fun o => o.idle = true := by
  refine ⟨rfl, fun r => ?_⟩
  cases r with
  | error e => trivial
  | ok k =>
    refine ⟨rfl, fun r => ?_⟩
    cases r <;> trivial

theorem adopt_matches (hkid : ∀ pub, kidFromPubkey c pub ≠ "") {pubkey : Bytes} {name : String}
    (hs : Matches s) (h : (adopt c ctl pubkey name).CleanAfter sem Changes Answered es s)
    (hes : ∀ e ∈ es, e.Plain) : Matches ((adopt c ctl pubkey name).exec sem es s).st := by
  unfold adopt at h ⊢
  cases hparse : parsePubkey pubkey with
  | error e => exact hs
  | ok pub =>
    rw [hparse] at h
    cases es with
    | nil => exact hs
    | cons e es =>
      obtain ⟨-, h⟩ := h
      change Matches (Prog.exec sem (if s.claim = true then _ else _) es s).st
      change Prog.CleanAfter sem _ _ (if s.claim = true then _ else _) es s at h
      split at h
      · rename_i hopen
        rw [if_pos hopen]
        exact adoptBootstrap_matches (hkid pub) hs h fun e he => hes e (List.mem_cons_of_mem _ he)
      · rename_i hclosed
        rw [if_neg hclosed]
        exact idle_matches (adoptEnrolled_idle _) hs es

theorem wipeAuthOnDisk_matches (hs : Matches s)
    (h : wipeAuthOnDisk.CleanAfter sem Changes Answered es s) :
    Matches (wipeAuthOnDisk.exec sem es s).st := by
  cases es with
  | nil => exact hs
  | cons e₁ es =>
  obtain ⟨h, -⟩ := h
  change Matches (Prog.exec sem _ es (sem .keysDeleteAll e₁ s).1).st
  cases hfault : e₁.fault with
  | some m => simp only [sem, hfault]; exact hs
  | none =>
    replace h := h ⟨rfl, hfault⟩
    simp only [sem, hfault] at h ⊢
    obtain ⟨e₂, es, rfl, hget, h⟩ := h.uncons
    change Matches (Prog.exec sem _ es (sem .identityGet e₂ { s with keys := .empty }).1).st
    simp only [sem, hget.1 rfl] at h ⊢
    cases hid : s.identity with
    | none =>
      simp only [hid] at h ⊢
      exact iff_of_false (not_adopted_of_none rfl) (Nat.lt_irrefl 0)
    | some id =>
      simp only [hid] at h ⊢
      obtain ⟨e₃, es, rfl, hput, h⟩ := h.uncons
      change Matches (sem (.identityPut { id with adoptedAtUnix := 0, adoptedByKid := "" }) e₃ _).1
      simp only [sem, hput.1 rfl]
      refine iff_of_false ?_ (Nat.lt_irrefl 0)
      rintro ⟨row, hrow, hadopted, -⟩
      cases hrow
      exact hadopted rfl

end Follow

theorem Turn.step_matches {c : Codec} (hkid : ∀ pub, kidFromPubkey c pub ≠ "") {s : State}
    {x : Turn} (hs : Matches s) (hx : x.Whole c s) : Matches (x.step c s) := by
  have hstart : Matches (x.start s) := hs
  have hkeep : ∀ {α : Type} {p : Code α}, InStep p (fun _ _ => True) (x.start s) →
      Matches (p.exec sem x.answers (x.start s)).st :=
    fun hp => hp.exec (J := Matches) (fun o e s ho hs => ho e hs) hstart x.answers
  unfold Whole at hx
  unfold step outcome
  cases hop : x.op with
  | rpc md req =>
    rw [hop] at hx
    cases req with
    | adopt pubkey name => exact adopt_matches hkid hstart hx.1 hx.2
    | _ => exact hkeep (rpc_inStep x.ctl x.auth md (by simp))
  | ingestFirstBoot => rw [hop] at hx; exact hkeep (ingestFirstBoot_inStep hx)
  | ensureIdentity => exact hkeep ensureIdentity_inStep
  | wipeAuthOnDisk => rw [hop] at hx; exact wipeAuthOnDisk_matches hstart hx

/-- After every operation of a run from a fresh store, whether it succeeds, fails or is cut. -/
theorem adoption_matches_keys (c : Codec) (hkid : ∀ pub, kidFromPubkey c pub ≠ "")
    (w : List Turn) (hw : Along (Turn.step c) (Turn.Whole c) blank w) :
    Matches (w.foldl (Turn.step c) blank) := by
  have hblank : Matches blank := by
    refine iff_of_false ?_ (by decide)
    exact not_adopted_of_none rfl
  exact hw.invariant (fun s x hs hx => Turn.step_matches hkid hs hx) hblank

/-- The operation with the window open, every call answered. -/
def Operation.turn (op : Operation) (firstBoot : Option Bytes) (n : Nat) : Turn :=
  ⟨op, quietController, ⟨"id", false⟩, true, fun _ => none, firstBoot,
    List.replicate n { clock := 1700000000 }⟩

theorem Operation.turn_plain (op : Operation) (firstBoot : Option Bytes) (n : Nat) :
    ∀ e ∈ (op.turn firstBoot n).answers, e.Plain := by
  intro e he m hm
  rw [List.eq_of_mem_replicate he] at hm
  cases hm

theorem smallCodec_kid (pub : Bytes) : kidFromPubkey smallCodec pub ≠ "" := by
  simp [kidFromPubkey, smallCodec]

/-- The identity is seeded, a key adopts the capsule, and only then a bundle turns up. -/
def adoptedThenSealed : List Turn :=
  [Operation.ensureIdentity.turn none 4, (Operation.rpc [] (.adopt smallPub "ann")).turn none 8,
    Operation.ingestFirstBoot.turn (some [1]) 20]

theorem adoption_matches_keys_small :
    Matches (adoptedThenSealed.foldl (Turn.step smallCodec) blank) :=
  adoption_matches_keys smallCodec smallCodec_kid adoptedThenSealed
    ⟨trivial, ⟨by decide, Operation.turn_plain _ _ _⟩, .inl (by decide), trivial⟩

/-- A sealed capsule boots for the first time. The ingest returns nil; its key is enrolled and
nobody has adopted the capsule. -/
theorem sealed_not_adopted :
    ¬ ∀ c : Codec, (∀ pub, kidFromPubkey c pub ≠ "") → ∀ (w : List Turn) (x : Turn),
      (x.outcome c (w.foldl (Turn.step c) blank)).2 = true →
        Matches ((w ++ [x]).foldl (Turn.step c) blank) := by
  intro hall
  have h := hall smallCodec smallCodec_kid []
    (Operation.ingestFirstBoot.turn (some [1]) 20) (by decide)
  obtain ⟨id, hid, hadopted, -⟩ := h.mpr (by decide)
  cases hid
  exact hadopted rfl

end Capsule.Identity
