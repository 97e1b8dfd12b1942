import Capsule.Atomic.Steps
import Capsule.Identity.Boot

/-!
# Capsule.Identity.Ingest

The first-boot ingest under power loss, effect by effect: `effects` replaces each write of a TLS
file by the creation of the file and one effect for each byte.

* `Underway`, `Resumable`: what holds of `/perm` between two effects, so that the next boot can
  pick up from there.
* `ingest_safe`: every effect keeps it, `bootOnce_keeps` is the lemma for a boot.
* `ingest_crash_safe`: whatever boots were cut, but for the bytes of `server.key`, one that returns
  nil leaves the identity, the key and the TLS files of the bundle.
-/

namespace Capsule.Identity

open Atomic Auth Keyed

inductive DiskOp where
  | op (o : Op)
  | create (f : TLSFile)
  | append (f : TLSFile) (b : UInt8)

@[reducible] def DiskRes : DiskOp → Type
  | .op o => Res o
  | .create _ => Unit
  | .append _ _ => Unit

/-- `/perm`: the database and the bundle, and the TLS files as bytes. -/
structure Perm where
  st : State
  files : TLSFile → Option Bytes

/-- No effect fails; the answer to an operation carries the clock. -/
def diskSem : Sem DiskOp DiskRes Perm Int64
  | .op (.statTLS f), _, p => (p, (p.files f).isSome)
  | .op o, t, p => ({ p with st := (sem o { clock := t } p.st).1 }, (sem o { clock := t } p.st).2)
  | .create f, _, p => ({ p with files := Function.update p.files f (some []) }, ())
  | .append f b, _, p =>
    ({ p with files := Function.update p.files f (some ((p.files f).getD [] ++ [b])) }, ())

abbrev DiskCode := Prog DiskOp DiskRes

def appendAll (f : TLSFile) : Bytes → DiskCode Unit
  | [] => return ()
  | b :: bs => .call (.append f b) fun _ => appendAll f bs

def writeFile (f : TLSFile) (data : Bytes) : DiskCode (Except Err Unit) :=
  .call (.create f) fun _ => do
    appendAll f data
    return .ok ()

def utf8 (s : String) : Bytes := s.toUTF8.data.toList

def effects : (o : Op) → DiskCode (Res o)
  | .writeTLS f pem => writeFile f (utf8 pem)
  | o => .call (.op o) .ret

def ingestEffects (c : Codec) : DiskCode (Except Err Unit) := (ingestFirstBoot c).expand effects

def sealedPerm (data : Bytes) : Perm := ⟨{ blank with firstBoot := some data }, fun _ => none⟩

/-- A boot; its readings of the clock end where power is lost. -/
def bootOnce (c : Codec) (p : Perm) (ts : List Int64) : Perm :=
  ((ingestEffects c).exec diskSem ts p).st

inductive TLSLoad where
  | loaded (fingerprint : String)
  | generated
  | failed
  deriving DecidableEq

/-- `auth.LoadOrGenerate`. `keyPair` is `tls.X509KeyPair` with the fingerprint of the leaf. -/
def loadOrGenerate (keyPair : Bytes → Bytes → Option String) (files : TLSFile → Option Bytes) :
    TLSLoad :=
  match files .cert, files .key with
  | some cert, some key =>
    match keyPair cert key with
    | some fingerprint => .loaded fingerprint
    | none => .failed
  | _, _ => .generated

/-- The bundle has all that the ingest asks for. -/
structure Complete (c : Codec) (data : Bytes) (b : FirstBootBundle) (pub : Bytes) : Prop where
  json : c.bundleJSON data = some b
  named : b.operatorPubkey ≠ ""
  decoded : c.b64std b.operatorPubkey = some pub
  length : pub.length = 32
  cert : b.tlsCertPEM ≠ ""
  key : b.tlsKeyPEM ≠ ""

/-- Its key is the one of its certificate. -/
structure WellFormed (c : Codec) (keyPair : Bytes → Bytes → Option String) (data : Bytes)
    (b : FirstBootBundle) (pub : Bytes) (fingerprint : String) : Prop
    extends Complete c data b pub where
  pair : keyPair (utf8 b.tlsCertPEM) (utf8 b.tlsKeyPEM) = some fingerprint

/-- The row has the bundle's ids. -/
def HasIds (b : FirstBootBundle) (st : State) : Prop :=
  ∃ id, st.identity = some id ∧ id.capsuleID = b.capsuleID ∧ id.shortID = b.shortID

/-- The operator's key is enrolled, and no other. -/
def EnrolledOnce (c : Codec) (pub : Bytes) (p : Perm) : Prop :=
  ∃ k, p.st.keys.rows = [k] ∧ k.kid = kidFromPubkey c pub ∧ k.pubkey = pub

def HasFiles (b : FirstBootBundle) (p : Perm) : Prop :=
  p.files .cert = some (utf8 b.tlsCertPEM) ∧ p.files .key = some (utf8 b.tlsKeyPEM)

structure Ingested (c : Codec) (b : FirstBootBundle) (pub : Bytes) (p : Perm) : Prop where
  ids : HasIds b p.st
  enrolled : EnrolledOnce c pub p
  files : HasFiles b p
  consumed : p.st.firstBoot = none

/-- The ingest is not finished. A key file is there only when both are as they should be. -/
structure Underway (c : Codec) (data : Bytes) (b : FirstBootBundle) (pub : Bytes) (p : Perm) :
    Prop where
  bundle : p.st.firstBoot = some data
  keys : ∀ k ∈ p.st.keys.rows, k.kid = kidFromPubkey c pub ∧ k.pubkey = pub
  files : p.files .key = none ∨ HasFiles b p

/-- The next boot can pick up from here. -/
def Resumable (c : Codec) (data : Bytes) (b : FirstBootBundle) (pub : Bytes) (p : Perm) : Prop :=
  Underway c data b pub p ∨ Ingested c b pub p

/-- What holds before each effect. -/
def Before (c : Codec) (data : Bytes) (b : FirstBootBundle) (pub : Bytes) : DiskOp → Perm → Prop
  | .append .key _, _ => True
  | _, p => Resumable c data b pub p

section Steps

variable {c : Codec} {data : Bytes} {b : FirstBootBundle} {pub : Bytes} {p : Perm}

theorem putIdentity_safe (hp : Underway c data b pub p) (id : CapsuleIdentity) :
    ((putIdentity b id).expand effects).Safe diskSem Eq (Before c data b pub)
      (fun r p => r = .ok () ∧ Underway c data b pub p ∧ HasIds b p.st) p := by
  have hput : ∀ id : CapsuleIdentity, id.capsuleID = b.capsuleID → id.shortID = b.shortID →
      ((identityPut id).expand effects).Safe diskSem Eq (Before c data b pub)
        (fun r p => r = .ok () ∧ Underway c data b pub p ∧ HasIds b p.st) p := by
    intro id hcid hsid
    refine .call ⟨.inl hp, fun t => .ret ⟨rfl, ?_, ?_⟩⟩
    · exact ⟨hp.bundle, hp.keys, hp.files⟩
    · exact ⟨_, rfl, hcid, hsid⟩
  unfold putIdentity
  split
  · exact .call ⟨.inl hp, fun t => hput _ rfl rfl⟩
  · exact hput _ rfl rfl

theorem applyIdentity_safe (hp : Underway c data b pub p) :
    ((applyIdentity b).expand effects).Safe diskSem Eq (Before c data b pub)
      (fun r p => r = .ok () ∧ Underway c data b pub p ∧ HasIds b p.st) p := by
  refine .call ⟨.inl hp, ?_⟩
  intro t
  cases hid : p.st.identity with
  | none =>
    have hget : diskSem (.op .identityGet) t p = (p, .error (.sentinel .notFound)) := by
      simp [diskSem, sem, hid]
    rw [hget]
    exact putIdentity_safe hp ⟨"", "", 0, 0, ""⟩
  | some id =>
    have hget : diskSem (.op .identityGet) t p = (p, .ok id) := by
      simp [diskSem, sem, hid]
    rw [hget]
    exact putIdentity_safe hp id

theorem keysAdd_once {k : AuthorizedKey} {t : Int64} {out : Perm × Except Err Unit}
    (hp : Underway c data b pub p) (hids : HasIds b p.st) (hkid : k.kid = kidFromPubkey c pub)
    (hpub : k.pubkey = pub) (hout : diskSem (.op (.keysAdd k)) t p = out) :
    (out.2 = .ok () ∨ out.2 = .error (.sentinel .conflict)) ∧
      Underway c data b pub out.1 ∧ HasIds b out.1.st ∧ EnrolledOnce c pub out.1 := by
  subst hout
  rcases Table.add_of_one_key (t := p.st.keys)
    (x := { k with addedAtUnix := stamp { clock := t } k.addedAtUnix })
    (fun y hy => (hp.keys y hy).1.trans hkid.symm) with ⟨u, hadd, hu⟩ | ⟨hadd, y, hy⟩
  · simp only [diskSem, sem, hadd]
    refine ⟨.inl trivial, ⟨hp.bundle, ?_, hp.files⟩, hids, ⟨_, hu, hkid, hpub⟩⟩
    rw [hu]
    rintro _ (_ | ⟨_, ⟨⟩⟩)
    exact ⟨hkid, hpub⟩
  · simp only [diskSem, sem, hadd]
    exact ⟨.inr trivial, hp, hids, y, hy, hp.keys y (by simp [hy])⟩

theorem applyAuthorizedKey_safe (hp : Underway c data b pub p) (hids : HasIds b p.st)
    (hnamed : b.operatorPubkey ≠ "") (hdecoded : c.b64std b.operatorPubkey = some pub)
    (hlength : pub.length = 32) :
    ((applyAuthorizedKey c b).expand effects).Safe diskSem Eq (Before c data b pub)
      (fun r p => r = .ok () ∧ Underway c data b pub p ∧ HasIds b p.st ∧ EnrolledOnce c pub p)
      p := by
  have hparse : parsePubkey pub = .ok pub := if_neg (not_not.mpr hlength)
  unfold applyAuthorizedKey
  simp only [hnamed, if_false, hdecoded, hparse]
  refine .call ⟨.inl hp, fun t => .call ⟨.inl hp, ?_⟩⟩
  intro t'
  generalize hout : diskSem (.op (.keysAdd _)) t' _ = out
  obtain ⟨hr, hafter⟩ := keysAdd_once hp hids rfl rfl hout
  obtain ⟨p', r⟩ := out
  rcases hr with rfl | rfl
  · exact .ret ⟨rfl, hafter⟩
  · exact .ret ⟨rfl, hafter⟩

theorem appendAll_safe {f : TLSFile} {I : DiskOp → Perm → Prop} {acc : Bytes}
    (hf : p.files f = some acc)
    (hI : ∀ x contents, I (.append f x) { p with files := Function.update p.files f contents })
    (bs : Bytes) :
    (appendAll f bs).Safe diskSem Eq I
      (fun _ p' => p' = { p with files := Function.update p.files f (some (acc ++ bs)) }) p := by
  induction bs generalizing p acc with
  | nil =>
    refine .ret ?_
    rw [List.append_nil, ← hf, Function.update_eq_self]
  | cons x bs ih =>
    refine .call ⟨?_, fun t => ?_⟩
    · have h := hI x (p.files f)
      rwa [Function.update_eq_self] at h
    · have hnext : diskSem (.append f x) t p =
          ({ p with files := Function.update p.files f (some (acc ++ [x])) }, ()) := by
        simp [diskSem, hf]
      rw [hnext]
      have h := ih (p := { p with files := Function.update p.files f (some (acc ++ [x])) })
        (Function.update_self ..) (fun y contents => by
          simpa only [Function.update_idem] using hI y contents)
      simpa only [Function.update_idem, List.append_assoc, List.singleton_append] using h

theorem writeFile_safe {f : TLSFile} {I : DiskOp → Perm → Prop} {bs : Bytes}
    (hcreate : I (.create f) p)
    (hI : ∀ x contents, I (.append f x) { p with files := Function.update p.files f contents }) :
    (writeFile f bs).Safe diskSem Eq I
      (fun r p' => r = .ok () ∧
        p' = { p with files := Function.update p.files f (some bs) }) p := by
  refine .call ⟨hcreate, fun t => .andThen ?_⟩
  have h := appendAll_safe (p := { p with files := Function.update p.files f (some []) })
    (I := I) (Function.update_self ..) (fun y contents => by
      simpa only [Function.update_idem] using hI y contents) bs
  refine h.mono fun _ p' hp' => .ret ⟨rfl, ?_⟩
  simpa only [Function.update_idem, List.nil_append] using hp'

theorem writeTLS_safe {f : TLSFile} {pem : String} {g : Err → Err} {I : DiskOp → Perm → Prop}
    (hcreate : I (.create f) p)
    (hI : ∀ x contents, I (.append f x) { p with files := Function.update p.files f contents }) :
    (((writeTLS f pem).mapErr g).expand effects).Safe diskSem Eq I
      (fun r p' => r = .ok () ∧
        p' = { p with files := Function.update p.files f (some (utf8 pem)) }) p := by
  rw [Prog.mapErr, Prog.expand_bind]
  refine .andThen (.andThen ?_)
  refine (writeFile_safe hcreate hI).mono ?_
  rintro _ p' ⟨rfl, rfl⟩
  exact .ret (.ret ⟨rfl, rfl⟩)

theorem writeTLSFiles_safe (hp : Underway c data b pub p) (hkey : p.files .key = none) :
    ((writeTLSFiles b).expand effects).Safe diskSem Eq (Before c data b pub)
      (fun r p' => r = .ok () ∧ p'.st = p.st ∧ HasFiles b p') p := by
  have hcert : ∀ contents, Underway c data b pub
      { p with files := Function.update p.files .cert contents } :=
    fun contents => ⟨hp.bundle, hp.keys, .inl hkey⟩
  rw [writeTLSFiles, Prog.expand_thenOk]
  refine .andThenOk ((writeTLS_safe (.inl hp) ?_).mono ?_)
  · exact fun _ contents => .inl (hcert contents)
  · rintro _ p' ⟨rfl, rfl⟩
    refine (writeTLS_safe (.inl (hcert _)) fun _ _ => trivial).mono ?_
    rintro _ p' ⟨rfl, rfl⟩
    exact ⟨rfl, rfl, rfl, rfl⟩

theorem writeTLSMaterial_safe (hp : Underway c data b pub p) (hcert : b.tlsCertPEM ≠ "")
    (hkey : b.tlsKeyPEM ≠ "") :
    ((writeTLSMaterial b).expand effects).Safe diskSem Eq (Before c data b pub)
      (fun r p' => r = .ok () ∧ p'.st = p.st ∧ HasFiles b p') p := by
  unfold writeTLSMaterial
  simp only [hcert, hkey, or_self, if_false]
  refine .call ⟨.inl hp, fun t => .call ⟨.inl hp, ?_⟩⟩
  intro t
  generalize hcs : diskSem (.op (.statTLS .cert)) t _ = out
  obtain rfl : out = (p, (p.files .cert).isSome) := hcs.symm
  -- without the certificate there is no key either
  cases hc : (p.files .cert).isSome with
  | false =>
    refine writeTLSFiles_safe hp (hp.files.resolve_right fun h => ?_)
    rw [h.1] at hc
    cases hc
  | true =>
    refine .call ⟨.inl hp, ?_⟩
    intro t
    generalize hks : diskSem (.op (.statTLS .key)) t _ = out
    obtain rfl : out = (p, (p.files .key).isSome) := hks.symm
    cases hk : (p.files .key).isSome with
    | false => exact writeTLSFiles_safe hp (by simpa using hk)
    | true =>
      refine .ret ⟨rfl, rfl, hp.files.resolve_left fun h => ?_⟩
      rw [h] at hk
      cases hk

theorem ingest_safe {keyPair : Bytes → Bytes → Option String} {fingerprint : String}
    (hb : WellFormed c keyPair data b pub fingerprint) (hp : Resumable c data b pub p) :
    (ingestEffects c).Safe diskSem Eq (Before c data b pub)
      (fun r p => r = .ok () ∧ Ingested c b pub p) p := by
  refine .call ⟨hp, ?_⟩
  intro t
  generalize hread : diskSem (.op .readFirstBoot) t _ = out
  obtain rfl : out = (p, .ok p.st.firstBoot) := hread.symm
  rcases hp with hp | hp
  · simp only [hp.bundle, Prog.bind, Except.mapError, hb.json]
    rw [Prog.expand_thenOk]
    refine .andThenOk ((applyIdentity_safe hp).mono ?_)
    rintro _ p' ⟨rfl, hp', hids⟩
    dsimp only
    rw [Prog.expand_thenOk]
    refine .andThenOk
      ((applyAuthorizedKey_safe hp' hids hb.named hb.decoded hb.length).mono ?_)
    rintro _ p' ⟨rfl, hp', hids, honce⟩
    dsimp only
    rw [Prog.expand_thenOk]
    refine .andThenOk
      ((writeTLSMaterial_safe hp' hb.cert hb.key).mono ?_)
    rintro _ ⟨st, files⟩ ⟨rfl, rfl, hfiles⟩
    -- the state on which `os.Remove` is called
    have hlast : Underway c data b pub ⟨p'.st, files⟩ := ⟨hp'.bundle, hp'.keys, .inr hfiles⟩
    exact .call ⟨.inl hlast, fun t =>
      .ret ⟨rfl, hids, honce, hfiles, rfl⟩⟩
  · rw [hp.consumed]; exact .ret ⟨rfl, hp⟩

end Steps

/-! ## Boots -/

/-- The effect adds a byte to `server.key`. -/
def DiskOp.inKey : DiskOp → Bool
  | .append .key _ => true
  | _ => false

/-- No power is lost between the creation of `server.key` and its last byte. -/
def KeyWhole (c : Codec) (p : Perm) (ts : List Int64) : Prop :=
  ((ingestEffects c).cutAt diskSem ts p).all fun o => !o.inKey

instance (c : Codec) (p : Perm) (ts : List Int64) : Decidable (KeyWhole c p ts) :=
  inferInstanceAs (Decidable (_ = true))

/-- The step lemma: what one boot leaves. -/
theorem bootOnce_keeps {c : Codec} {keyPair : Bytes → Bytes → Option String} {data : Bytes}
    {b : FirstBootBundle} {pub : Bytes} {fingerprint : String} {p : Perm} {ts : List Int64}
    (hb : WellFormed c keyPair data b pub fingerprint) (hp : Resumable c data b pub p)
    (hts : KeyWhole c p ts) : Resumable c data b pub (bootOnce c p ts) := by
  have hsafe := ingest_safe hb hp
  cases hcut : (ingestEffects c).cutAt diskSem ts p with
  | none => obtain ⟨r, hr⟩ := Prog.val_of_not_cut hcut; exact .inr (hsafe.exec_val hr).2
  | some o =>
    have hbefore := hsafe.exec_cut hcut
    cases o with
    | op o => exact hbefore
    | create f => exact hbefore
    | append f x =>
      cases f with
      | cert => exact hbefore
      | key => rw [KeyWhole, hcut] at hts; cases hts

/-- Whatever boots were cut before, and wherever but in the middle of `server.key`: a boot that runs
the ingest to its end with nil leaves the identity, the key and the TLS files of the bundle, and
no bundle. -/
theorem ingest_crash_safe (c : Codec) (keyPair : Bytes → Bytes → Option String) (data : Bytes)
    (b : FirstBootBundle) (pub : Bytes) (fingerprint : String)
    (hb : WellFormed c keyPair data b pub fingerprint) (boots : List (List Int64))
    (hboots : Along (bootOnce c) (KeyWhole c) (sealedPerm data) boots) (last : List Int64)
    (hlast : ((ingestEffects c).exec diskSem last
      (boots.foldl (bootOnce c) (sealedPerm data))).val = some (.ok ())) :
    Ingested c b pub ((boots ++ [last]).foldl (bootOnce c) (sealedPerm data)) ∧
      loadOrGenerate keyPair ((boots ++ [last]).foldl (bootOnce c) (sealedPerm data)).files =
        .loaded fingerprint := by
  have hstart : Resumable c data b pub (sealedPerm data) := .inl ⟨rfl, nofun, .inl rfl⟩
  have hp := hboots.invariant (fun p ts hp hts => bootOnce_keeps hb hp hts) hstart
  obtain ⟨-, hdone⟩ := (ingest_safe hb hp).exec_val hlast
  rw [List.foldl_append]
  refine ⟨hdone, ?_⟩
  have hfiles : HasFiles b (bootOnce c (boots.foldl (bootOnce c) (sealedPerm data)) last) :=
    hdone.files
  change loadOrGenerate keyPair (bootOnce c _ last).files = _
  rw [loadOrGenerate, hfiles.1, hfiles.2]
  dsimp only
  rw [hb.pair]

/-! A bundle whose PEM texts are two bytes each. -/

def smallBundle : FirstBootBundle := ⟨"id", "capsule-0001", "CC", "KK", "pub", "ann"⟩

def smallPub : Bytes := List.replicate 32 7

/-- Decodes that bundle and its key. -/
def smallCodec : Codec where
  b64url _ := none
  b64urlEncode _ := "kid"
  b64std s := if s = "pub" then some smallPub else none
  headerJSON _ := none
  claimsJSON _ := none
  bundleJSON data := if data = [1] then some smallBundle else none
  sha256 _ := []
  ed25519Verify _ _ _ := false
  uuidHead _ := none

/-- The key matches the certificate when both are whole. -/
def smallPair (cert key : Bytes) : Option String :=
  if cert = [67, 67] ∧ key = [75, 75] then some "fingerprint" else none

theorem smallBundle_wellFormed :
    WellFormed smallCodec smallPair [1] smallBundle smallPub "fingerprint" :=
  ⟨⟨rfl, by decide, by decide, by decide, by decide, by decide⟩, by decide⟩

/-- Power is lost after so many effects. -/
def lostAfter (n : Nat) : List Int64 := List.replicate n 1700000000

/-- Power is lost before the key is enrolled, and again in the middle of the certificate. -/
theorem ingest_crash_safe_small :
    Ingested smallCodec smallBundle smallPub
        ([lostAfter 4, lostAfter 9, lostAfter 20].foldl (bootOnce smallCodec) (sealedPerm [1])) ∧
      loadOrGenerate smallPair
        ([lostAfter 4, lostAfter 9, lostAfter 20].foldl (bootOnce smallCodec)
          (sealedPerm [1])).files = .loaded "fingerprint" :=
  ingest_crash_safe smallCodec smallPair [1] smallBundle smallPub "fingerprint"
    smallBundle_wellFormed [lostAfter 4, lostAfter 9] (by decide) (lostAfter 20) (by decide)

/-- Power is lost when `server.key` has just been created. The next boot finds both files, keeps
them, returns nil and removes the bundle; the key stays empty and cannot be loaded. -/
theorem key_cut_short :
    WellFormed smallCodec smallPair [1] smallBundle smallPub "fingerprint" ∧
      ((ingestEffects smallCodec).exec diskSem (lostAfter 20)
        ([lostAfter 12].foldl (bootOnce smallCodec) (sealedPerm [1]))).val = some (.ok ()) ∧
      ([lostAfter 12, lostAfter 20].foldl (bootOnce smallCodec) (sealedPerm [1])).files .key =
        some [] ∧
      loadOrGenerate smallPair ([lostAfter 12, lostAfter 20].foldl (bootOnce smallCodec)
        (sealedPerm [1])).files = .failed ∧
      ¬ Ingested smallCodec smallBundle smallPub
        ([lostAfter 12, lostAfter 20].foldl (bootOnce smallCodec) (sealedPerm [1])) :=
  ⟨smallBundle_wellFormed, by decide, by decide, by decide,
    fun h => absurd h.files.2 (by decide)⟩

end Capsule.Identity
