import Capsule.Identity.Adoption
import Capsule.Identity.FirstAdopter

/-!
# Capsule.Identity.Failures

What is left behind by calls that fail: `Adopt`, and the first-boot ingest at startup. Any of the
store calls may fail, as `Faults` says; neither function makes two calls of one kind.

The lemmas `recordAdoption_leads`, `putIdentity_leads` and so on say what each piece of the code
does to the rows.

* `failed_adopt_unchanged_iff`: a failed `Adopt` changes nothing exactly if it can write the row
  wherever it enrols a key.
* `Sealable`: what the ingest needs once it can write the row.
* `failed_ingest_unchanged_iff`: a failed ingest changes nothing, and none empties the capsule's id,
  exactly if a bundle whose row gets written is `Sealable`.
-/

namespace Capsule.Identity

open Atomic Auth Keyed

/-- The stores among answers that depend on the operation. -/
def callSem : Sem Op Res State (Op → Env) := fun o a s => sem o (a o) s

/-- The keys, the identity row and the claim window are as before. -/
structure Unchanged (s s' : State) : Prop where
  keys : s'.keys = s.keys
  identity : s'.identity = s.identity
  claim : s'.claim = s.claim

theorem Unchanged.refl (s : State) : Unchanged s s := ⟨rfl, rfl, rfl⟩

/-- An operation without its arguments. -/
inductive Kind where
  | keysAdd
  | identityGet
  | identityPut
  | readFirstBoot
  | mkdirTLS
  | statTLS (f : TLSFile)
  | writeTLS (f : TLSFile)
  | other
  deriving DecidableEq

def Op.kind : Op → Kind
  | .keysAdd _ => .keysAdd
  | .identityGet => .identityGet
  | .identityPut _ => .identityPut
  | .readFirstBoot => .readFirstBoot
  | .mkdirTLS => .mkdirTLS
  | .statTLS f => .statTLS f
  | .writeTLS f _ => .writeTLS f
  | _ => .other

/-- The calls that fail, with their texts. Neither `Adopt` nor the ingest makes two calls of a kind
that can fail. -/
abbrev Faults := Kind → Option String

/-- The answers fail as `f` says; the clock is their own. -/
def Faults.Given (f : Faults) (a : Op → Env) : Prop := ∀ o, (a o).fault = f o.kind

/-- An error that was returned has changed nothing. -/
def Harmless {E α : Type} (s : State) (r : Except E α) (s' : State) : Prop :=
  ∀ e, r = .error e → Unchanged s s'

theorem harmless_same {E α : Type} {s : State} (r : Except E α) : Harmless s r s :=
  fun _ _ => .refl s

theorem harmless_ok {E α : Type} {s : State} (a : α) (s' : State) :
    Harmless s (.ok a : Except E α) s' :=
  fun _ h => by cases h

section Ops

variable {α : Type} {f : Faults} {G : (Op → Env) → Prop} {Q : α → State → Prop} {s : State}

theorem leads_now {k : Int64 → Code α}
    (h : ∀ a, G a → (k (a .now).clock).Leads (callSem.given G) Q s) :
    (Prog.call .now k).Leads (callSem.given G) Q s :=
  .call ⟨trivial, fun a => h a.1 a.2⟩

theorem leads_identityGet (hG : ∀ a, G a → f.Given a) {k : Except Err CapsuleIdentity → Code α}
    (hfault : ∀ m, f .identityGet = some m → (k (.error (.text m))).Leads (callSem.given G) Q s)
    (hnone : f .identityGet = none → s.identity = none →
      (k (.error (.sentinel .notFound))).Leads (callSem.given G) Q s)
    (hok : ∀ id, f .identityGet = none → s.identity = some id →
      (k (.ok id)).Leads (callSem.given G) Q s) :
    (Prog.call .identityGet k).Leads (callSem.given G) Q s := by
  refine .call ⟨trivial, ?_⟩
  rintro ⟨a, ha⟩
  have hf : (a .identityGet).fault = f .identityGet := hG a ha .identityGet
  simp only [Sem.given, callSem, sem, hf]
  cases hf' : f .identityGet with
  | some m => exact hfault m hf'
  | none =>
    cases hid : s.identity with
    | none => exact hnone hf' hid
    | some id => exact hok id hf' hid

theorem leads_identityPut (hG : ∀ a, G a → f.Given a) {id : CapsuleIdentity}
    {k : Except Err Unit → Code α}
    (hfault : ∀ m, f .identityPut = some m → (k (.error (.text m))).Leads (callSem.given G) Q s)
    (hok : ∀ t, f .identityPut = none → (id.createdAtUnix ≠ 0 → t = id.createdAtUnix) →
      (k (.ok ())).Leads (callSem.given G) Q
        { s with identity := some { id with createdAtUnix := t } }) :
    (Prog.call (.identityPut id) k).Leads (callSem.given G) Q s := by
  refine .call ⟨trivial, ?_⟩
  rintro ⟨a, ha⟩
  have hf : (a (.identityPut id)).fault = f .identityPut := hG a ha (.identityPut id)
  simp only [Sem.given, callSem, sem, hf]
  cases hf' : f .identityPut with
  | some m => exact hfault m hf'
  | none => exact hok _ hf' fun h => if_neg h

theorem leads_keysAdd (hG : ∀ a, G a → f.Given a) {x : AuthorizedKey}
    {k : Except Err Unit → Code α}
    (hfault : ∀ m, f .keysAdd = some m → (k (.error (addErr m))).Leads (callSem.given G) Q s)
    (hold : f .keysAdd = none → s.keys.get x.kid ≠ none →
      (k (.error (.sentinel .conflict))).Leads (callSem.given G) Q s)
    (hnew : ∀ keys, f .keysAdd = none → s.keys.get x.kid = none → keys ≠ s.keys →
      (k (.ok ())).Leads (callSem.given G) Q { s with keys := keys }) :
    (Prog.call (.keysAdd x) k).Leads (callSem.given G) Q s := by
  refine .call ⟨trivial, ?_⟩
  rintro ⟨a, ha⟩
  have hf : (a (.keysAdd x)).fault = f .keysAdd := hG a ha (.keysAdd x)
  simp only [Sem.given, callSem, sem, hf]
  cases hf' : f .keysAdd with
  | some m => exact hfault m hf'
  | none =>
    dsimp only
    cases hadd : s.keys.add { x with addedAtUnix := stamp (a (.keysAdd x)) x.addedAtUnix } with
    | none =>
      have hget := Table.get_of_add_eq_none hadd
      exact hold hf' hget
    | some keys =>
      refine hnew keys hf' (Table.get_eq_none_iff.mpr (Table.add_eq_some hadd).2) ?_
      rintro rfl
      have hcount := Table.count_add hadd
      omega

end Ops

section Adopt

variable {c : Codec} {ctl : Controller} {f : Faults} {s : State}

/-- Where the call would enroll a new key, it can also write the row. -/
def Recordable (c : Codec) (f : Faults) (pubkey : Bytes) (s : State) : Prop :=
  pubkey.length = 32 → s.claim = true → f .identityGet = none → s.identity ≠ none →
    f .keysAdd = none → s.keys.get (kidFromPubkey c pubkey) = none → f .identityPut = none

theorem adoptEnrolled_leads (kid : String) :
    (adoptEnrolled ctl kid).Leads (callSem.given f.Given) (Harmless s) s := by
  refine .call ⟨trivial, fun a => ?_⟩
  have hget : (callSem.given f.Given (.keysGet kid) a s).1 = s := sem_keysGet_state kid _ s
  rw [hget]
  cases (callSem.given f.Given (.keysGet kid) a s).2 with
  | error e => exact .ret (harmless_same _)
  | ok k =>
    exact leads_identityGet (fun _ ha => ha) (fun _ _ => .ret (harmless_same _))
      (fun _ _ => .ret (harmless_same _)) fun _ _ _ => .ret (harmless_same _)

/-- Recorded from `s₁`, where `s` may have got a key. -/
theorem recordAdoption_leads (s₁ : State) (id : CapsuleIdentity) (kid : String) :
    (recordAdoption ctl id kid).Leads (callSem.given f.Given)
      (fun r s' => Harmless s r s' ↔ f .identityPut = none ∨ Unchanged s s₁) s₁ := by
  refine leads_now fun a _ => leads_identityPut (fun _ ha => ha) ?_ ?_
  · intro m hf
    refine .ret ⟨fun h => .inr (h _ rfl), fun h e _ => h.resolve_left ?_⟩
    rw [hf]
    exact Option.some_ne_none m
  · intro t hf _
    refine .call ⟨trivial, fun _ => ?_⟩
    have hend : ∀ s' : State, Harmless s (.ok (.adopt id.capsuleID kid ctl.tlsFingerprint) : Reply)
        s' ↔ f .identityPut = none ∨ Unchanged s s₁ :=
      fun s' => iff_of_true (harmless_ok _ s') (.inl hf)
    cases ctl.mdns with
    | true => exact .call ⟨trivial, fun _ => .ret (hend _)⟩
    | false => exact .ret (hend _)

theorem adoptBootstrap_leads (pub : Bytes) (name : String) (hlen : pub.length = 32)
    (hopen : s.claim = true) :
    (adoptBootstrap c ctl pub name).Leads (callSem.given f.Given)
      (fun r s' => Harmless s r s' ↔ Recordable c f pub s) s := by
  -- nothing has changed yet, and the premises of `Recordable` fail
  have hsame : ∀ {r : Reply}, Recordable c f pub s → (Harmless s r s ↔ Recordable c f pub s) :=
    fun h => iff_of_true (harmless_same _) h
  refine leads_identityGet (fun _ ha => ha) ?_ ?_ ?_
  · intro m hf; exact .ret (hsame fun _ _ h => by rw [hf] at h; cases h)
  · intro _ hid; exact .ret (hsame fun _ _ _ h => absurd hid h)
  · intro id hget hid
    refine leads_now fun a _ => leads_keysAdd (fun _ ha => ha) ?_ ?_ ?_
    · intro m hf
      have hrec : Recordable c f pub s := fun _ _ _ _ h => by rw [hf] at h; cases h
      change Prog.Safe _ _ _ _ (if (addErr m).is .conflict then _ else _) s
      split
      · exact (recordAdoption_leads s id _).mono fun _ _ h =>
          h.trans (iff_of_true (.inr (.refl s)) hrec)
      · exact .ret (hsame hrec)
    · intro _ hkey
      have hrec : Recordable c f pub s := fun _ _ _ _ _ h => absurd h hkey
      exact (recordAdoption_leads s id _).mono fun _ _ h =>
        h.trans (iff_of_true (.inr (.refl s)) hrec)
    · intro keys hadd hkey hne
      refine (recordAdoption_leads { s with keys := keys } id _).mono fun _ _ h => h.trans ?_
      constructor
      · rintro (hput | hun)
        · exact fun _ _ _ _ _ _ => hput
        · exact absurd hun.keys hne
      · intro h
        exact .inl (h hlen hopen hget (by rw [hid]; exact Option.some_ne_none id) hadd hkey)

/-- A failed `Adopt` changes nothing, exactly if it can write the identity row wherever it enrolls a
new key. -/
theorem failed_adopt_unchanged_iff (c : Codec) (ctl : Controller) (pubkey : Bytes) (name : String)
    (s : State) (f : Faults) (es : Nat → Op → Env) (hes : ∀ n, f.Given (es n)) :
    (∀ st, ((adopt c ctl pubkey name).complete callSem es s).2 = .error st →
      Unchanged s ((adopt c ctl pubkey name).complete callSem es s).1) ↔
        Recordable c f pubkey s := by
  have hleads : (adopt c ctl pubkey name).Leads (callSem.given f.Given)
      (fun r s' => Harmless s r s' ↔ Recordable c f pubkey s) s := by
    unfold adopt
    cases hpub : parsePubkey pubkey with
    | error e =>
      refine .ret (iff_of_true (harmless_same _) fun hlen => ?_)
      simp [parsePubkey, hlen] at hpub
    | ok pub =>
      obtain ⟨rfl, hlen⟩ := parsePubkey_ok hpub
      refine .call ⟨trivial, fun a => ?_⟩
      change Prog.Safe _ _ _ _ (if s.claim = true then _ else _) s
      split
      · rename_i hopen; exact adoptBootstrap_leads pub name hlen hopen
      · rename_i hclosed
        exact (adoptEnrolled_leads _).mono fun _ _ h => iff_of_true h fun _ h => absurd h hclosed
  exact hleads.complete_given hes

end Adopt

/-- Operations of these kinds fail. -/
def failing (p : Kind → Bool) : Faults := fun k => if p k then some "disk I/O error" else none

/-- Answers that fail like this, at the time 1. -/
def Faults.answers (f : Faults) (_ : Nat) (o : Op) : Env := { fault := f o.kind, clock := 1 }

/-- With the window closed, and a key that is not enrolled: the row could not be written, but
nothing is. -/
theorem failed_adopt_unchanged_closed :
    let s := { unclaimed with claim := false }
    let out := (adopt firstByte quietController (List.replicate 32 1) "ann").complete callSem
      (failing (· = .identityPut)).answers s
    out.2.isOk = false ∧ Unchanged s out.1 := by
  intro s out
  have hall := (failed_adopt_unchanged_iff firstByte quietController (List.replicate 32 1) "ann" s
    (failing (· = .identityPut)) (failing (· = .identityPut)).answers fun _ _ => rfl).mpr
    fun _ h => by cases h
  exact ⟨by decide, hall _ (by decide : out.2 = .error ⟨.failedPrecondition,
    "adoption window closed; use an enrolled key, or trigger RESET_AUTH at the console"⟩)⟩

/-- Ann's `Adopt` fails on the identity row. Their key is enrolled, the window is still open, and
Bob's `Adopt` goes through. -/
theorem failed_adopt_keeps_key :
    let out := (adopt firstByte quietController (List.replicate 32 1) "ann").complete callSem
      (failing (· = .identityPut)).answers unclaimed
    out.2 = .error ⟨.internal, "save identity: disk I/O error"⟩ ∧
      unclaimed.keys.count = 0 ∧ out.1.keys.count = 1 ∧ out.1.claim = true ∧
      ((adopt firstByte quietController (List.replicate 32 2) "bob").complete callSem
        (failing fun _ => false).answers out.1).1.keys.count = 2 := by
  decide

/-- The stored `CapsuleID` is the empty string. -/
def EmptyID (s : State) : Prop := ∃ id, s.identity = some id ∧ id.capsuleID = ""

/-- The bundle has a key `pub`, and it is enrolled or was before: a constraint error of the store
counts as a conflict. -/
structure KeyPasses (c : Codec) (f : Faults) (b : FirstBootBundle) (pub : Bytes) : Prop where
  present : b.operatorPubkey ≠ ""
  decodes : c.b64std b.operatorPubkey = some pub
  length : pub.length = 32
  added : ∀ m, f .keysAdd = some m → (addErr m).is .conflict = true

/-- The bundle has both TLS parts, and the files are there already or can be written. -/
structure TLSPasses (f : Faults) (b : FirstBootBundle) (tls : TLSFile → Option String) : Prop where
  present : b.tlsCertPEM ≠ "" ∧ b.tlsKeyPEM ≠ ""
  mkdirTLS : f .mkdirTLS = none
  files : (∀ file, f (.statTLS file) = none ∧ (tls file).isSome) ∨
    ∀ file, f (.writeTLS file) = none

/-- The row has the bundle's values already. -/
def RowKept (b : FirstBootBundle) (s : State) : Prop :=
  ∃ id, s.identity = some id ∧ id.capsuleID = b.capsuleID ∧ id.shortID = b.shortID ∧
    id.createdAtUnix ≠ 0

/-- What the ingest of `b` needs once it can write the identity row. -/
structure Sealable (c : Codec) (f : Faults) (b : FirstBootBundle) (s : State) : Prop where
  capsuleID : b.capsuleID = "" → EmptyID s
  row : RowKept b s ∨ ∃ pub, KeyPasses c f b pub ∧ TLSPasses f b s.tls
  key : ∀ pub, KeyPasses c f b pub →
    TLSPasses f b s.tls ∨ f .keysAdd ≠ none ∨ s.keys.get (kidFromPubkey c pub) ≠ none

section Ingest

variable {c : Codec} {b : FirstBootBundle} {f : Faults} {G : (Op → Env) → Prop} {s : State}

/-- The row is written or not, by what the calls answer. -/
def RowWritten (f : Faults) (b : FirstBootBundle) (s : State) (r : Except Err Unit) (s' : State) :
    Prop :=
  ((f .identityGet ≠ none ∨ f .identityPut ≠ none) ∧ (∃ e, r = .error e) ∧ s' = s) ∨
    f .identityGet = none ∧ f .identityPut = none ∧ r = .ok () ∧ ∃ id, id.capsuleID = b.capsuleID ∧
      (some id = s.identity ↔ RowKept b s) ∧ s' = { s with identity := some id }

theorem putIdentity_leads (hG : ∀ a, G a → f.Given a ∧ (a .now).clock ≠ 0)
    (hget : f .identityGet = none) (id : CapsuleIdentity)
    (hid : s.identity = some id ∨ s.identity = none) :
    (putIdentity b id).Leads (callSem.given G) (RowWritten f b s) s := by
  have hput : ∀ t, (id.createdAtUnix = 0 → t ≠ 0) → (id.createdAtUnix ≠ 0 → t = id.createdAtUnix) →
      (identityPut { id with createdAtUnix := t, capsuleID := b.capsuleID, shortID := b.shortID
        }).Leads (callSem.given G) (RowWritten f b s) s := by
    intro t hzero hkeep
    have ht : t ≠ 0 := by
      by_cases h : id.createdAtUnix = 0
      · exact hzero h
      · rw [hkeep h]; exact h
    refine leads_identityPut (fun a ha => (hG a ha).1) ?_ ?_
    · intro m hf
      exact .ret (.inl ⟨.inr (by rw [hf]; exact Option.some_ne_none m), ⟨_, rfl⟩, rfl⟩)
    · intro t' hf ht'
      obtain rfl : t' = t := ht' ht
      refine .ret (.inr ⟨hget, hf, rfl, _, rfl, ⟨fun h => ⟨_, h.symm, rfl, rfl, ht⟩, ?_⟩, rfl⟩)
      rintro ⟨id', hid', hcap, hshort, hne⟩
      rcases hid with hid | hnone
      · rw [hid] at hid' ⊢
        cases hid'
        rw [hkeep hne, ← hcap, ← hshort]
      · rw [hnone] at hid'; cases hid'
  unfold putIdentity
  split
  · rename_i hzero
    exact leads_now fun a ha => hput _ (fun _ => (hG a ha).2) fun h => absurd hzero h
  · rename_i hne
    exact hput _ (fun h => absurd h hne) fun _ => rfl

theorem applyIdentity_leads (hG : ∀ a, G a → f.Given a ∧ (a .now).clock ≠ 0) :
    (applyIdentity b).Leads (callSem.given G) (RowWritten f b s) s := by
  refine leads_identityGet (fun a ha => (hG a ha).1) ?_ ?_ ?_
  · intro m hf
    exact .ret (.inl ⟨.inl (by rw [hf]; exact Option.some_ne_none m), ⟨_, rfl⟩, rfl⟩)
  · intro hf hnone
    exact putIdentity_leads hG hf ⟨"", "", 0, 0, ""⟩ (.inr hnone)
  · intro id hf hid; exact putIdentity_leads hG hf id (.inl hid)

/-- The key is enrolled or not; the rest is as it was. -/
def KeyWritten (c : Codec) (f : Faults) (b : FirstBootBundle) (s : State) (r : Except Err Unit)
    (s' : State) : Prop :=
  ((∀ pub, ¬ KeyPasses c f b pub) ∧ (∃ e, r = .error e) ∧ s' = s) ∨
    ∃ pub keys, KeyPasses c f b pub ∧ r = .ok () ∧ s' = { s with keys := keys } ∧
      (keys = s.keys ↔ f .keysAdd ≠ none ∨ s.keys.get (kidFromPubkey c pub) ≠ none)

theorem applyAuthorizedKey_leads (hG : ∀ a, G a → f.Given a) :
    (applyAuthorizedKey c b).Leads (callSem.given G) (KeyWritten c f b s) s := by
  unfold applyAuthorizedKey
  split
  · rename_i hnone; exact .ret (.inl ⟨fun _ h => h.present hnone, ⟨_, rfl⟩, rfl⟩)
  · rename_i hpresent
    cases hdecode : c.b64std b.operatorPubkey with
    | none =>
      refine .ret (.inl ⟨fun pub h => ?_, ⟨_, rfl⟩, rfl⟩)
      rw [h.decodes] at hdecode
      cases hdecode
    | some pub =>
      dsimp only
      cases hparse : parsePubkey pub with
      | error e =>
        refine .ret (.inl ⟨fun pub' h => ?_, ⟨_, rfl⟩, rfl⟩)
        rw [h.decodes] at hdecode
        cases hdecode
        simp [parsePubkey, h.length] at hparse
      | ok pub' =>
        obtain ⟨-, hlen⟩ := parsePubkey_ok hparse
        have hpass : f .keysAdd = none → KeyPasses c f b pub :=
          fun hf => ⟨hpresent, hdecode, hlen, fun m hm => by rw [hf] at hm; cases hm⟩
        refine leads_now fun a _ => leads_keysAdd hG ?_ ?_ ?_
        · intro m hf
          change Prog.Safe _ _ _ _ (if (addErr m).is .conflict then _ else _) s
          split
          · rename_i hconflict
            refine .ret (.inr ⟨pub, s.keys, ⟨hpresent, hdecode, hlen, fun m' hm' => ?_⟩, rfl, rfl,
              iff_of_true rfl (.inl (by rw [hf]; exact Option.some_ne_none m))⟩)
            cases hf.symm.trans hm'
            exact hconflict
          · rename_i hother
            exact .ret (.inl ⟨fun _ h => hother (h.added m hf), ⟨_, rfl⟩, rfl⟩)
        · intro hf hkey
          exact .ret (.inr ⟨pub, s.keys, hpass hf, rfl, rfl, iff_of_true rfl (.inr hkey)⟩)
        · intro keys hf hkey hne
          refine .ret (.inr ⟨pub, keys, hpass hf, rfl, rfl, iff_of_false hne ?_⟩)
          exact not_or.mpr ⟨fun h => h hf, fun h => h hkey⟩

/-- The TLS files are written or not; the rest is as it was. -/
def TLSWritten (f : Faults) (b : FirstBootBundle) (s : State) (r : Except Err Unit) (s' : State) :
    Prop :=
  ((∃ e, r = .error e) ↔ ¬ TLSPasses f b s.tls) ∧ Unchanged s s'

theorem writeTLSFiles_leads (hG : ∀ a, G a → f.Given a) :
    (writeTLSFiles b).Leads (callSem.given G)
      (fun r s' => ((∃ e, r = .error e) ↔ ¬ ∀ file, f (.writeTLS file) = none) ∧
        Unchanged s s') s := by
  refine .call ⟨trivial, ?_⟩
  rintro ⟨a, ha⟩
  have hcert : (a (.writeTLS .cert b.tlsCertPEM)).fault = f (.writeTLS .cert) := hG a ha _
  simp only [Sem.given, callSem, sem, hcert]
  cases hc : f (.writeTLS .cert) with
  | some m =>
    exact .ret ⟨iff_of_true ⟨_, rfl⟩ (fun h => by rw [h] at hc; cases hc), .refl s⟩
  | none =>
    refine .call ⟨trivial, ?_⟩
    rintro ⟨a, ha⟩
    have hkey : (a (.writeTLS .key b.tlsKeyPEM)).fault = f (.writeTLS .key) := hG a ha _
    simp only [Sem.given, callSem, sem, hkey]
    cases hk : f (.writeTLS .key) with
    | some m =>
      exact .ret ⟨iff_of_true ⟨_, rfl⟩ (fun h => by rw [h] at hk; cases hk), rfl, rfl, rfl⟩
    | none =>
      refine .ret ⟨iff_of_false (by rintro ⟨e, ⟨⟩⟩) (not_not.mpr ?_), rfl, rfl, rfl⟩
      rintro (_ | _)
      · exact hc
      · exact hk

theorem writeTLSMaterial_leads (hG : ∀ a, G a → f.Given a) :
    (writeTLSMaterial b).Leads (callSem.given G) (TLSWritten f b s) s := by
  unfold writeTLSMaterial
  split
  · rename_i hnone
    refine .ret ⟨iff_of_true ⟨_, rfl⟩ fun h => ?_, .refl s⟩
    exact hnone.elim h.present.1 h.present.2
  · rename_i hpresent
    rw [not_or] at hpresent
    refine .call ⟨trivial, ?_⟩
    rintro ⟨a, ha⟩
    have hmkdir : (a .mkdirTLS).fault = f .mkdirTLS := hG a ha .mkdirTLS
    simp only [Sem.given, callSem, sem, Env.answer, hmkdir]
    cases hm : f .mkdirTLS with
    | some m =>
      exact .ret ⟨iff_of_true ⟨_, rfl⟩ (fun h => by rw [h.mkdirTLS] at hm; cases hm), .refl s⟩
    | none =>
      -- a file that is missing, or cannot be looked at, has both written
      have hwrite : ∀ file, ¬ (f (.statTLS file) = none ∧ (s.tls file).isSome) →
          (writeTLSFiles b).Leads (callSem.given G) (TLSWritten f b s) s := by
        refine fun file hfile => (writeTLSFiles_leads hG).mono fun r s' hr => ⟨hr.1.trans ?_, hr.2⟩
        refine not_congr ⟨fun h => ⟨hpresent, hm, .inr h⟩, fun h => ?_⟩
        exact h.files.resolve_left fun hall => hfile (hall file)
      refine .call ⟨trivial, ?_⟩
      rintro ⟨a, ha⟩
      have hcert : (a (.statTLS .cert)).fault = f (.statTLS .cert) := hG a ha _
      change Prog.Safe _ _ _ _ (if decide ((a (.statTLS .cert)).fault = none ∧ _) = true
        then _ else _) s
      rw [hcert]
      split
      · rename_i hstat
        refine .call ⟨trivial, ?_⟩
        rintro ⟨a, ha⟩
        have hkey : (a (.statTLS .key)).fault = f (.statTLS .key) := hG a ha _
        change Prog.Safe _ _ _ _ (if decide ((a (.statTLS .key)).fault = none ∧ _) = true
          then _ else _) s
        rw [hkey]
        split
        · rename_i hstat'
          refine .ret ⟨iff_of_false (by rintro ⟨e, ⟨⟩⟩) (not_not.mpr ⟨hpresent, hm, .inl ?_⟩),
            .refl s⟩
          rintro (_ | _)
          · exact of_decide_eq_true hstat
          · exact of_decide_eq_true hstat'
        · rename_i hstat'; exact hwrite .key fun h => hstat' (decide_eq_true h)
      · rename_i hstat; exact hwrite .cert fun h => hstat (decide_eq_true h)

/-- The ingest once `firstboot.json` is read. -/
def ingestData (c : Codec) : Option Bytes → Code (Except Err Unit)
  | none => .ret (.ok ())
  | some data =>
    match c.bundleJSON data with
    | none => do
      renameFirstBoot
      return .ok ()
    | some b =>
      (applyIdentity b).thenOk fun _ => (applyAuthorizedKey c b).thenOk fun _ =>
        (writeTLSMaterial b).thenOk fun _ => do
          removeFirstBoot
          return .ok ()

theorem ingestFirstBoot_eq : ingestFirstBoot c =
    (readFirstBoot.mapErr (Err.ctx "read /perm/firstboot.json")).thenOk (ingestData c) := by
  unfold ingestFirstBoot
  refine congrArg _ (funext fun data => ?_)
  cases data <;> rfl

/-- Nothing is changed by an error, and the id is not taken away. -/
def LeavesAlone (s : State) (r : Except Err Unit) (s' : State) : Prop :=
  Harmless s r s' ∧ (EmptyID s' → EmptyID s)

theorem leavesAlone_same (r : Except Err Unit) : LeavesAlone s r s :=
  ⟨harmless_same r, fun h => h⟩

theorem emptyID_iff {id : CapsuleIdentity} {s' : State} (h : s'.identity = some id)
    (hcap : id.capsuleID = b.capsuleID) : EmptyID s' ↔ b.capsuleID = "" := by
  rw [EmptyID, h, ← hcap]
  exact ⟨fun ⟨_, hid, he⟩ => by cases hid; exact he, fun he => ⟨id, rfl, he⟩⟩

/-- The last part, with the row and the key written. -/
theorem sealTLS_leads (hG : ∀ a, G a → f.Given a) {id : CapsuleIdentity} {pub : Bytes}
    {keys : Table AuthorizedKey.kid} (hcap : id.capsuleID = b.capsuleID)
    (hrow : some id = s.identity ↔ RowKept b s) (hpass : KeyPasses c f b pub)
    (hkeys : keys = s.keys ↔ f .keysAdd ≠ none ∨ s.keys.get (kidFromPubkey c pub) ≠ none) :
    ((writeTLSMaterial b).thenOk fun _ => do
        removeFirstBoot
        return .ok () : Code (Except Err Unit)).Leads (callSem.given G)
      (fun r s' => LeavesAlone s r s' ↔ Sealable c f b s)
      { s with identity := some id, keys := keys } := by
  refine .andThenOk ((writeTLSMaterial_leads hG).mono ?_)
  rintro r s₃ ⟨hr, hsame⟩
  have hid : s₃.identity = some id := hsame.identity
  cases r with
  | error e =>
    have htls : ¬ TLSPasses f b s.tls := hr.mp ⟨e, rfl⟩
    refine .ret ⟨fun h => ⟨fun he => ?_, .inl ?_, ?_⟩, fun hs => ?_⟩
    · exact h.2 ((emptyID_iff hid hcap).mpr he)
    · exact hrow.mp (hid.symm.trans (h.1 _ rfl).identity)
    · intro pub' hpub'
      obtain rfl : pub' = pub := Option.some.inj (hpub'.decodes.symm.trans hpass.decodes)
      exact .inr (hkeys.mp (hsame.keys.symm.trans (h.1 _ rfl).keys))
    · have hkept := hs.row.resolve_right fun ⟨_, _, h⟩ => htls h
      refine ⟨fun _ _ => ⟨hsame.keys.trans ?_, hid.trans (hrow.mpr hkept), hsame.claim⟩, ?_⟩
      · exact hkeys.mpr ((hs.key pub hpass).resolve_left htls)
      · exact fun he => hs.capsuleID ((emptyID_iff hid hcap).mp he)
  | ok u =>
    have htls : TLSPasses f b s.tls := by
      by_contra h
      obtain ⟨e, he⟩ := hr.mpr h
      cases he
    refine .call ⟨trivial, fun a => .ret ?_⟩
    have hid' : (callSem.given G .removeFirstBoot a s₃).1.identity = some id := by
      simp only [Sem.given, callSem, sem]
      split <;> exact hid
    refine ⟨fun h => ⟨fun he => ?_, .inr ⟨pub, hpass, htls⟩, fun _ _ => .inl htls⟩, fun hs => ?_⟩
    · exact h.2 ((emptyID_iff hid' hcap).mpr he)
    · exact ⟨harmless_ok _ _, fun he => hs.capsuleID ((emptyID_iff hid' hcap).mp he)⟩

theorem ingestBundle_leads (hG : ∀ a, G a → f.Given a ∧ (a .now).clock ≠ 0) :
    ((applyIdentity b).thenOk fun _ => (applyAuthorizedKey c b).thenOk fun _ =>
        (writeTLSMaterial b).thenOk fun _ => do
          removeFirstBoot
          return .ok () : Code (Except Err Unit)).Leads (callSem.given G)
      (fun r s' => LeavesAlone s r s' ↔
        (f .identityGet = none → f .identityPut = none → Sealable c f b s)) s := by
  have hG' : ∀ a, G a → f.Given a := fun a ha => (hG a ha).1
  refine .andThenOk ((applyIdentity_leads hG).mono ?_)
  rintro r s₁ (⟨hfault, ⟨e, rfl⟩, rfl⟩ | ⟨hget, hput, rfl, id, hcap, hrow, rfl⟩)
  · refine .ret (iff_of_true (leavesAlone_same _) fun hget hput => ?_)
    exact (hfault.elim (· hget) (· hput)).elim
  · dsimp only
    refine .andThenOk ((applyAuthorizedKey_leads hG').mono ?_)
    rintro r s₂ (⟨hno, ⟨e, rfl⟩, rfl⟩ | ⟨pub, keys, hpass, rfl, rfl, hkeys⟩)
    · refine .ret ⟨fun h _ _ => ⟨fun he => ?_, .inl ?_, fun pub hpub => absurd hpub (hno pub)⟩, ?_⟩
      · exact h.2 ((emptyID_iff rfl hcap).mpr he)
      · exact hrow.mp (h.1 _ rfl).identity
      · intro h
        have hs := h hget hput
        have hkept := hs.row.resolve_right fun ⟨pub, hpub, _⟩ => hno pub hpub
        exact ⟨fun _ _ => ⟨rfl, hrow.mpr hkept, rfl⟩,
          fun he => hs.capsuleID ((emptyID_iff rfl hcap).mp he)⟩
    · exact (sealTLS_leads hG' hcap hrow hpass hkeys).mono fun _ _ h =>
        h.trans ⟨fun hs _ _ => hs, fun hs => hs hget hput⟩

/-- A bundle that can be read, and whose row can be written, is one to seal with. -/
def SealableBoot (c : Codec) (f : Faults) (s : State) : Prop :=
  ∀ data b, f .readFirstBoot = none → s.firstBoot = some data → c.bundleJSON data = some b →
    f .identityGet = none → f .identityPut = none → Sealable c f b s

theorem ingestData_leads (hG : ∀ a, G a → f.Given a ∧ (a .now).clock ≠ 0)
    (hread : f .readFirstBoot = none) :
    (ingestData c s.firstBoot).Leads (callSem.given G)
      (fun r s' => LeavesAlone s r s' ↔ SealableBoot c f s) s := by
  unfold ingestData
  cases hfirst : s.firstBoot with
  | none =>
    refine .ret (iff_of_true (leavesAlone_same _) fun data b _ h => ?_)
    rw [hfirst] at h
    cases h
  | some data =>
    dsimp only
    cases hjson : c.bundleJSON data with
    | none =>
      refine .call ⟨trivial, fun a => .ret (iff_of_true ⟨harmless_ok _ _, ?_⟩ ?_)⟩
      · rintro ⟨id, hid, he⟩
        refine ⟨id, ?_, he⟩
        simp only [Sem.given, callSem, sem] at hid
        split at hid <;> exact hid
      · intro data' b _ h hb
        cases hfirst.symm.trans h
        rw [hjson] at hb
        cases hb
    | some b =>
      refine (ingestBundle_leads hG).mono fun r s' h => h.trans ⟨?_, ?_⟩
      · intro h data' b' _ hdata hb
        cases hfirst.symm.trans hdata
        cases hjson.symm.trans hb
        exact h
      · exact fun h => h data b hread hfirst hjson

/-- A failed ingest changes nothing, and no ingest takes the capsule's id away, exactly if a bundle
whose row gets written has an id, has all the rest, or nothing that the row and the keys do not
have. -/
theorem failed_ingest_unchanged_iff (c : Codec) (s : State) (f : Faults) (es : Nat → Op → Env)
    (hes : ∀ n, f.Given (es n)) (hclock : ∀ n, (es n .now).clock ≠ 0) :
    ((∀ err, ((ingestFirstBoot c).complete callSem es s).2 = .error err →
        Unchanged s ((ingestFirstBoot c).complete callSem es s).1) ∧
      (EmptyID ((ingestFirstBoot c).complete callSem es s).1 → EmptyID s)) ↔
        SealableBoot c f s := by
  have hleads : (ingestFirstBoot c).Leads
      (callSem.given fun a => f.Given a ∧ (a .now).clock ≠ 0)
      (fun r s' => LeavesAlone s r s' ↔ SealableBoot c f s) s := by
    rw [ingestFirstBoot_eq]
    refine .call ⟨trivial, ?_⟩
    rintro ⟨a, ha⟩
    have hread : (a .readFirstBoot).fault = f .readFirstBoot := ha.1 .readFirstBoot
    simp only [Sem.given, callSem, sem, Env.answer, hread]
    cases hr : f .readFirstBoot with
    | some m =>
      refine .ret (iff_of_true (leavesAlone_same _) fun data b h => ?_)
      rw [hr] at h
      cases h
    | none => exact ingestData_leads (fun _ h => h) hr
  exact hleads.complete_given fun n => ⟨hes n, hclock n⟩

end Ingest

/-- `firstboot.json` as the installer left it. -/
def justSealed : State := { blank with firstBoot := some [1] }

/-- It was ingested before, and could not be removed. -/
def sealedAgain : State :=
  let out := (ingestFirstBoot smallCodec).complete callSem (failing fun _ => false).answers
    justSealed
  { out.1 with firstBoot := some [1] }

theorem sealedAgain_sealable : SealableBoot smallCodec (failing (· = .mkdirTLS)) sealedAgain := by
  intro data b _ hdata hb _ _
  cases hdata
  cases hb
  refine ⟨fun h => absurd h (by decide), .inl ⟨_, rfl, rfl, rfl, by decide⟩, fun pub hpub => ?_⟩
  cases hpub.decodes
  exact .inr (.inr (by decide))

/-- The directory cannot be made, but the row and the key are there already. -/
theorem failed_ingest_unchanged_again :
    let out := (ingestFirstBoot smallCodec).complete callSem (failing (· = .mkdirTLS)).answers
      sealedAgain
    out.2 = .error ((Err.text "disk I/O error").ctx "mkdir tls") ∧ Unchanged sealedAgain out.1 := by
  intro out
  have hres : out.2 = .error ((Err.text "disk I/O error").ctx "mkdir tls") := by decide
  exact ⟨hres, ((failed_ingest_unchanged_iff smallCodec sealedAgain (failing (· = .mkdirTLS))
    (failing (· = .mkdirTLS)).answers (fun _ _ => rfl) fun _ => (by decide : (1 : Int64) ≠ 0)).mpr
      sealedAgain_sealable).1 _ hres⟩

/-- Reads `{}` as a bundle with no field set. -/
def emptyBundle : Codec :=
  { noCodec with
    bundleJSON := fun data => if data = [123, 125] then some ⟨"", "", "", "", "", ""⟩ else none }

/-- A capsule that has its identity finds `{}` in `firstboot.json`. The ingest fails, and leaves the
capsule without an id. -/
theorem empty_bundle_ingested :
    let s := { unclaimed with firstBoot := some [123, 125] }
    let out := (ingestFirstBoot emptyBundle).complete callSem (failing fun _ => false).answers s
    out.2 = .error (.text "firstboot bundle missing operator_pubkey") ∧
      s.identity = some ⟨"cap", "capsule-0001", 1, 0, ""⟩ ∧
      out.1.identity = some ⟨"", "", 1, 0, ""⟩ := by
  decide

end Capsule.Identity
