import Capsule.Atomic.Pool
import Capsule.Identity.Controller

/-!
# Capsule.Identity.Flow

What a handler of the identity service does to the shared state, said once: `flow` is a monitor for
the calls `Adopt`, `KeyAdd`, `KeyRemove` and the rest.

* `handle_obeys`: every handler keeps to it.
* `Move`, `move_of_ok`: so the next step of a call is one of a few, with what it leaves.

The modules on interleavings of such calls use `Move` only.
-/

namespace Capsule.Identity

open Atomic Auth Keyed

structure Call where
  caller : String
  req : Request

def handlers {ι : Type} (c : Codec) (ctl : Controller) (calls : ι → Call) (s : State) :
    Pool ι Op Res State Reply :=
  ⟨s, fun i => handle c ctl (calls i).caller (calls i).req⟩

inductive Phase where
  /-- It has changed nothing that matters later. -/
  | idle
  /-- `Adopt` has seen the claim window open. -/
  | opened
  /-- `Adopt` has stored its key (`added`), or found it there. -/
  | stored (added : Bool)
  /-- `Adopt` has recorded the adoption; the window is to be closed next. -/
  | recorded (added : Bool)
  /-- `Adopt` stored its key and failed to record the adoption. -/
  | failed (added : Bool)
  /-- `KeyRemove` has counted enough keys. -/
  | counted
  | done (added : Bool)
  deriving DecidableEq

/-- `Adopt` is between its look at the open window and its return. -/
def Phase.Active : Phase → Prop
  | .opened | .stored _ | .recorded _ => True
  | _ => False

/-- The key a `KeyAdd` enrols. -/
def Call.Adds (c : Codec) (call : Call) (k : AuthorizedKey) : Prop :=
  call.caller ≠ "" ∧ ∃ pub name t, call.req = .keyAdd pub name ∧ pub.length = 32 ∧
    k = ⟨kidFromPubkey c pub, pub, name, call.caller, t⟩

/-- The key an `Adopt` enrols. -/
def Call.Adopts (c : Codec) (call : Call) (k : AuthorizedKey) : Prop :=
  ∃ pub name name' t, call.req = .adopt pub name ∧ pub.length = 32 ∧
    k = ⟨kidFromPubkey c pub, pub, name', "", t⟩

/-- The kid an `Adopt` records. -/
def Call.AdoptKid (c : Codec) (call : Call) (kid : String) : Prop :=
  ∃ pub name, call.req = .adopt pub name ∧ kid = kidFromPubkey c pub

def flow (c : Codec) (call : Call) : Monitor Op Res Reply Phase where
  ok
    | .idle, .claimOpen => ∃ pub name, call.req = .adopt pub name
    | .idle, .keysCount => True
    | .idle, .keysAdd k => call.Adds c k
    | .idle, .keysGet _ | .idle, .identityGet | .idle, .keysList | .idle, .now => True
    | .opened, .identityGet | .opened, .now => True
    | .opened, .keysAdd k => call.Adopts c k
    | .stored _, .now => True
    | .stored _, .identityPut id => call.AdoptKid c id.adoptedByKid
    | .recorded _, .claimClose => True
    | .counted, .keysDelete _ => call.caller ≠ ""
    | .done _, .markAdopted => True
    | _, _ => False
  next
    | .idle, .claimOpen, true => .opened
    | .idle, .keysCount, .ok n => if n ≤ 1 then .idle else .counted
    | .opened, .identityGet, .error _ => .done false
    | .opened, .keysAdd _, .ok _ => .stored true
    | .opened, .keysAdd _, .error e => if e.is .conflict then .stored false else .done false
    | .stored a, .identityPut _, .ok _ => .recorded a
    | .stored a, .identityPut _, .error _ => .failed a
    | .recorded a, .claimClose, _ => .done a
    | .counted, .keysDelete _, _ => .idle
    | g, _, _ => g
  fin
    | .opened, _ | .stored _, _ | .recorded _, _ | .counted, _ => False
    | _, _ => True

section Handlers

variable {c : Codec} {ctl : Controller} {call : Call}

theorem parsePubkey_ok {b pub : Bytes} (h : parsePubkey b = .ok pub) : pub = b ∧ b.length = 32 := by
  unfold parsePubkey at h
  split at h
  · cases h
  · cases h; exact ⟨rfl, not_not.mp ‹_›⟩

theorem adoptEnrolled_obeys (kid : String) :
    (adoptEnrolled ctl kid).Obeys (flow c call) .idle := by
  refine ⟨trivial, fun r => ?_⟩
  cases r with
  | error e => trivial
  | ok k =>
    refine ⟨trivial, fun r => ?_⟩
    cases r <;> trivial

theorem recordAdoption_obeys {id : CapsuleIdentity} {kid : String} (added : Bool)
    (hkid : call.AdoptKid c kid) :
    (recordAdoption ctl id kid).Obeys (flow c call) (.stored added) := by
  refine ⟨trivial, fun t => ⟨hkid, fun r => ?_⟩⟩
  cases r with
  | error e => trivial
  | ok _ =>
    refine ⟨trivial, fun _ => ?_⟩
    cases ctl.mdns with
    | false => trivial
    | true => exact ⟨trivial, fun _ => trivial⟩

theorem adoptBootstrap_obeys {pub : Bytes} {name : String} (hreq : call.req = .adopt pub name)
    (hpub : pub.length = 32) :
    (adoptBootstrap c ctl pub name).Obeys (flow c call) .opened := by
  have hkid : call.AdoptKid c (kidFromPubkey c pub) := ⟨pub, name, hreq, rfl⟩
  refine ⟨trivial, fun r => ?_⟩
  cases r with
  | error e => trivial
  | ok id =>
    refine ⟨trivial, fun t => ⟨⟨pub, name, _, t, hreq, hpub, rfl⟩, fun r => ?_⟩⟩
    cases r with
    | ok _ => exact recordAdoption_obeys true hkid
    | error e =>
      change Prog.Obeys _ (if e.is .conflict then Phase.stored false else .done false)
        (if e.is .conflict then recordAdoption ctl id (kidFromPubkey c pub)
          else .ret (internalErr "store key" e))
      by_cases he : e.is .conflict
      · rw [if_pos he, if_pos he]; exact recordAdoption_obeys false hkid
      · rw [if_neg he, if_neg he]; trivial

theorem adopt_obeys {pubkey : Bytes} {name : String} (hreq : call.req = .adopt pubkey name) :
    (adopt c ctl pubkey name).Obeys (flow c call) .idle := by
  unfold adopt
  cases hp : parsePubkey pubkey with
  | error e => trivial
  | ok pub =>
    obtain ⟨rfl, hlen⟩ := parsePubkey_ok hp
    refine ⟨⟨_, _, hreq⟩, fun r => ?_⟩
    cases r with
    | false => exact adoptEnrolled_obeys _
    | true => exact adoptBootstrap_obeys hreq hlen

theorem whoAmI_obeys (caller : String) : (whoAmI caller).Obeys (flow c call) .idle := by
  unfold whoAmI
  split
  · trivial
  · refine ⟨trivial, fun r => ?_⟩
    cases r with
    | error e => trivial
    | ok id =>
      refine ⟨trivial, fun r => ?_⟩
      cases r <;> trivial

theorem keyAdd_obeys {pubkey : Bytes} {name : String} (hreq : call.req = .keyAdd pubkey name) :
    (keyAdd c call.caller pubkey name).Obeys (flow c call) .idle := by
  unfold keyAdd
  split
  · trivial
  · rename_i hcaller
    cases hp : parsePubkey pubkey with
    | error e => trivial
    | ok pub =>
      obtain ⟨rfl, hlen⟩ := parsePubkey_ok hp
      dsimp only
      split
      · trivial
      · refine ⟨trivial, fun t => ⟨⟨hcaller, _, _, t, hreq, hlen, rfl⟩, fun r => ?_⟩⟩
        cases r with
        | ok _ => trivial
        | error e =>
          exact .ite (fun _ => trivial) fun _ => trivial

theorem keyRemove_obeys (kid : String) :
    (keyRemove call.caller kid).Obeys (flow c call) .idle := by
  unfold keyRemove
  split
  · trivial
  · rename_i hcaller
    split
    · trivial
    · refine ⟨trivial, fun r => ?_⟩
      cases r with
      | error e => trivial
      | ok n =>
        change Prog.Obeys _ (if n ≤ 1 then Phase.idle else .counted) (if n ≤ 1 then _ else _)
        by_cases hn : n ≤ 1
        · rw [if_pos hn, if_pos hn]; trivial
        · rw [if_neg hn, if_neg hn]
          refine ⟨hcaller, fun r => ?_⟩
          cases r <;> trivial

theorem handle_obeys (c : Codec) (ctl : Controller) (call : Call) :
    (handle c ctl call.caller call.req).Obeys (flow c call) .idle := by
  cases hreq : call.req with
  | adopt pubkey name => exact adopt_obeys hreq
  | whoAmI => exact whoAmI_obeys _
  | keyAdd pubkey name => exact keyAdd_obeys hreq
  | keyList =>
    refine ⟨trivial, fun r => ?_⟩
    cases r <;> trivial
  | keyRemove kid => exact keyRemove_obeys kid
  | other m => trivial

end Handlers

section

variable {c : Codec} {call : Call} {g : Phase}

theorem not_active_of_fin {r : Reply} (h : (flow c call).fin g r) : ¬ g.Active := by
  cases g <;> first | exact id | exact fun _ => h

theorem not_active_of_look (h : (flow c call).ok g .claimOpen) : ¬ g.Active := by
  cases g <;> first | exact id | exact fun _ => h

end

/-- An `Adopt` that has not looked at the window yet, or has returned. -/
def settled {α : Type} (p : Code α) : Bool :=
  match p.next? with
  | some .claimOpen | none => true
  | _ => false

/-- Operations that change neither the stores nor the claim window. -/
def Op.Reads : Op → Prop
  | .keysGet _ | .keysList | .keysCount | .identityGet | .claimOpen | .now | .markAdopted => True
  | _ => False

/-- What the next step of a call can be, and what it leaves. -/
inductive Move (c : Codec) (call : Call) {ι : Type} (i : ι) (s : State) :
    Phase → Event ι Op Res → State → Phase → Prop where
  | read {g : Phase} {o : Op} {r : Res o} (ho : o.Reads) (hopen : o ≠ .claimOpen) :
      Move c call i s g ⟨i, o, r⟩ s g
  | look (h : s.claim = false) : Move c call i s .idle ⟨i, .claimOpen, false⟩ s .idle
  | enter (h : s.claim = true) : Move c call i s .idle ⟨i, .claimOpen, true⟩ s .opened
  | giveUp {err : Err} : Move c call i s .opened ⟨i, .identityGet, .error err⟩ s (.done false)
  | keyAdd {k : AuthorizedKey} {t : Int64} {keys : Table AuthorizedKey.kid} (hk : call.Adds c k)
      (ht : s.keys.add { k with addedAtUnix := t } = some keys) :
      Move c call i s .idle ⟨i, .keysAdd k, .ok ()⟩ { s with keys := keys } .idle
  | keyAddFails {k : AuthorizedKey} {err : Err} :
      Move c call i s .idle ⟨i, .keysAdd k, .error err⟩ s .idle
  | enrol {k : AuthorizedKey} {t : Int64} {keys : Table AuthorizedKey.kid} (hk : call.Adopts c k)
      (ht : s.keys.add { k with addedAtUnix := t } = some keys) :
      Move c call i s .opened ⟨i, .keysAdd k, .ok ()⟩ { s with keys := keys } (.stored true)
  | enrolled {k : AuthorizedKey} {err : Err} :
      Move c call i s .opened ⟨i, .keysAdd k, .error err⟩ s (.stored false)
  | enrolFails {k : AuthorizedKey} {err : Err} :
      Move c call i s .opened ⟨i, .keysAdd k, .error err⟩ s (.done false)
  | record {a : Bool} {id id' : CapsuleIdentity} (hkid : call.AdoptKid c id'.adoptedByKid) :
      Move c call i s (.stored a) ⟨i, .identityPut id, .ok ()⟩ { s with identity := some id' }
        (.recorded a)
  | recordFails {a : Bool} {id : CapsuleIdentity} {err : Err} :
      Move c call i s (.stored a) ⟨i, .identityPut id, .error err⟩ s (.failed a)
  | close {a : Bool} :
      Move c call i s (.recorded a) ⟨i, .claimClose, ()⟩ { s with claim := false } (.done a)
  | count (h : 2 ≤ s.keys.count) :
      Move c call i s .idle ⟨i, .keysCount, .ok s.keys.count⟩ s .counted
  | remove {kid : String} (h : call.caller ≠ "") :
      Move c call i s .counted ⟨i, .keysDelete kid, .ok ()⟩ { s with keys := s.keys.del kid } .idle
  | removeFails {kid : String} {err : Err} :
      Move c call i s .counted ⟨i, .keysDelete kid, .error err⟩ s .idle

section Moves

variable {c : Codec} {call : Call} {ι : Type}

theorem sem_keysAdd (k : AuthorizedKey) (e : Env) (s : State) :
    (∃ err, sem (.keysAdd k) e s = (s, .error err)) ∨
      ∃ t keys, s.keys.add { k with addedAtUnix := t } = some keys ∧
        sem (.keysAdd k) e s = ({ s with keys := keys }, .ok ()) := by
  simp only [sem]
  cases e.fault with
  | some m => exact .inl ⟨_, rfl⟩
  | none =>
    cases ht : s.keys.add { k with addedAtUnix := stamp e k.addedAtUnix } with
    | none => exact .inl ⟨_, rfl⟩
    | some keys => exact .inr ⟨_, keys, ht, rfl⟩

theorem sem_keysGet_state (kid : String) (e : Env) (s : State) :
    (sem (.keysGet kid) e s).1 = s := by
  simp only [sem]
  split <;> rfl

theorem sem_identityGet_state (e : Env) (s : State) : (sem .identityGet e s).1 = s := by
  simp only [sem]
  split <;> rfl

theorem move_of_ok {g : Phase} {o : Op} (ho : (flow c call).ok g o) (i : ι) (e : Env) (s : State) :
    Move c call i s g ⟨i, o, (sem o e s).2⟩ (sem o e s).1
      ((flow c call).next g o (sem o e s).2) := by
  cases g with
  | idle =>
    cases o with
    | claimOpen =>
      simp only [sem]
      cases hc : s.claim with
      | false => exact .look hc
      | true => exact .enter hc
    | keysCount =>
      simp only [sem, Env.answer]
      cases e.fault with
      | some m => exact .read trivial (by simp)
      | none =>
        change Move c call i s .idle ⟨i, .keysCount, .ok s.keys.count⟩ s
          (if s.keys.count ≤ 1 then .idle else .counted)
        by_cases hn : s.keys.count ≤ 1
        · rw [if_pos hn]; exact .read trivial (by simp)
        · rw [if_neg hn]; exact .count (by omega)
    | keysAdd key =>
      rcases sem_keysAdd key e s with ⟨err, hs⟩ | ⟨t, keys, ht, hs⟩ <;> rw [hs]
      · exact .keyAddFails
      · exact .keyAdd ho ht
    | keysGet kid => rw [sem_keysGet_state]; exact .read trivial (by simp)
    | identityGet => rw [sem_identityGet_state]; exact .read trivial (by simp)
    | keysList => exact .read trivial (by simp)
    | now => exact .read trivial (by simp)
    | _ => exact absurd ho id
  | opened =>
    cases o with
    | identityGet =>
      rw [sem_identityGet_state]
      cases (sem .identityGet e s).2 with
      | error err => exact .giveUp
      | ok id => exact .read trivial (by simp)
    | now => exact .read trivial (by simp)
    | keysAdd key =>
      rcases sem_keysAdd key e s with ⟨err, hs⟩ | ⟨t, keys, ht, hs⟩ <;> rw [hs]
      · change Move c call i s .opened ⟨i, .keysAdd key, .error err⟩ s
          (if err.is .conflict then .stored false else .done false)
        split
        · exact .enrolled
        · exact .enrolFails
      · exact .enrol ho ht
    | _ => exact absurd ho id
  | stored a =>
    cases o with
    | now => exact .read trivial (by simp)
    | identityPut id =>
      simp only [sem]
      cases e.fault with
      | some m => exact .recordFails
      | none => exact .record ho
    | _ => exact absurd ho id
  | recorded a =>
    cases o with
    | claimClose => exact .close
    | _ => exact absurd ho id
  | counted =>
    cases o with
    | keysDelete kid =>
      simp only [sem]
      cases e.fault with
      | some m => exact .removeFails
      | none => exact .remove ho
    | _ => exact absurd ho id
  | failed a => exact absurd ho (by cases o <;> exact id)
  | done a =>
    cases o with
    | markAdopted => exact .read trivial (by simp)
    | _ => exact absurd ho id

variable {i : ι} {s s' : State} {g g' : Phase} {ev : Event ι Op Res}

theorem Move.opened (h : Move c call i s g ev s' g') (hg : g' = .opened) :
    g = .opened ∨ (ev.op = .claimOpen ∧ s.claim = true) := by
  cases h with
  | read => exact .inl hg
  | enter hopen => exact .inr ⟨rfl, hopen⟩
  | _ => cases hg

theorem Move.not_active (h : Move c call i s g ev s' g') (hg : ¬ g.Active)
    (hclosed : s.claim = false) : ¬ g'.Active := by
  cases h with
  | read => exact hg
  | enter hopen => rw [hclosed] at hopen; cases hopen
  | look | keyAdd | keyAddFails | count | remove | removeFails => exact id
  | giveUp | enrol | enrolled | enrolFails | record | recordFails | close =>
    exact absurd trivial hg

theorem Move.unchanged (h : Move c call i s g ev s' g') (hcaller : call.caller = "")
    (hg : ¬ g.Active) : s'.keys = s.keys ∧ s'.identity = s.identity := by
  cases h with
  | keyAdd hk => exact absurd hcaller hk.1
  | remove hk => exact absurd hcaller hk
  | enrol | record => exact absurd trivial hg
  | _ => exact ⟨rfl, rfl⟩

end Moves

end Capsule.Identity
