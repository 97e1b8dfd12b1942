import Mathlib.Logic.Equiv.List
import Capsule.Auth.Sound
import Capsule.GoInt64

/-!
# Capsule.Auth.Mint

`auth.Mint`, and when `Verify` accepts what it makes.

JSON and Ed25519 are parameters that round-trip (`RoundTrips`, `KeyPair`); base64url is Go's.

* `verifyAt_compact`: `Verify` accepts a token in compact form exactly if the key verifies its
  signature, the audience is right and `checkTimes` passes.
* `InWindow`: from the clock skew before the mint time to the skew after the expiry.
* `minted_window`: a token verifies with its claims in that window, and not outside it, nor for
  another audience, nor without its key; expiries of 0 and near the end of `int64` apart.
-/

namespace Capsule.Auth

/-- The external functions of `Mint`. -/
structure Signer where
  marshalHeader : JwtHeader → Except Err Bytes
  marshalClaims : Claims → Except Err Bytes
  ed25519Sign : Bytes → Bytes → Bytes

/-- `DefaultLifetime`, in nanoseconds as every `time.Duration`. -/
def defaultLifetime : Int64 := 60000000000

def randomJTI (c : Codec) (rand : Except Err (Vector UInt8 16)) : Except Err String :=
  match rand with
  | .error e => .error (.wrap "auth: jti rand: " e "")
  | .ok b => .ok (c.b64urlEncode b.toList)

/-- The claims of a token made at `now`. -/
def newClaims (kid audience : String) (lifetime now : Int64) (jti : String) : Claims where
  sub := kid
  aud := audience
  iat := now
  exp := now + (if lifetime ≤ 0 then defaultLifetime else lifetime) / 1000000000
  jti := jti

def signingInput (hb pb : Bytes) : Bytes :=
  GoBase64.rawURLEncode hb ++ [46] ++ GoBase64.rawURLEncode pb

/-- The compact form: header, payload and signature. -/
def compact (m : Signer) (priv hb pb : Bytes) : Bytes :=
  signingInput hb pb ++ [46] ++ GoBase64.rawURLEncode (m.ed25519Sign priv (signingInput hb pb))

/-- `Mint`. The public key is the second half of the private one. -/
def mint (c : Codec) (m : Signer) (priv : Bytes) (audience : String) (lifetime now : Int64)
    (rand : Except Err (Vector UInt8 16)) : Except Err Bytes :=
  if priv.length ≠ 64 then .error (.text "auth: invalid ed25519 private key length")
  else do
    let kid := kidFromPubkey c (priv.drop 32)
    let jti ← randomJTI c rand
    let hb ← m.marshalHeader ⟨"EdDSA", "JWT", kid⟩
    let pb ← m.marshalClaims (newClaims kid audience lifetime now jti)
    return compact m priv hb pb

/-- The codec with Go's base64url. -/
def Codec.go (c : Codec) : Codec :=
  { c.goURL with b64urlEncode := fun b => GoString.ofBytes (GoBase64.rawURLEncode b) }

/-- Marshalling succeeds and unmarshalling gives the value back. -/
structure RoundTrips (c : Codec) (m : Signer) : Prop where
  header : ∀ h, ∃ b, m.marshalHeader h = .ok b ∧ c.headerJSON b = some h
  claims : ∀ k, ∃ b, m.marshalClaims k = .ok b ∧ c.claimsJSON b = some k
  digest : ∀ b, (c.sha256 b).length = 32

/-- What `priv` signs verifies under `pub`, its second half. -/
structure KeyPair (c : Codec) (m : Signer) (priv pub : Bytes) : Prop where
  size : priv.length = 64
  half : priv.drop 32 = pub
  verifies : ∀ msg, c.ed25519Verify pub msg (m.ed25519Sign priv msg) = true

theorem splitLoop_of_not_mem {sep : UInt8} {k : Nat} {cur p s : Bytes} (h : sep ∉ p) :
    splitLoop sep (k + 1) cur (p ++ sep :: s) = (cur ++ p) :: splitLoop sep k [] s := by
  induction p generalizing cur with
  | nil => simp [splitLoop]
  | cons b p ih =>
    rw [List.mem_cons, not_or] at h
    obtain ⟨hb, hp⟩ := h
    rw [List.cons_append, splitLoop, if_neg (Ne.symm hb), ih hp, List.append_assoc]
    rfl

theorem splitN_joined {sep : UInt8} {p0 p1 p2 : Bytes} (h0 : sep ∉ p0) (h1 : sep ∉ p1) :
    splitN (p0 ++ [sep] ++ p1 ++ [sep] ++ p2) sep 3 = [p0, p1, p2] := by
  have hjoin : p0 ++ [sep] ++ p1 ++ [sep] ++ p2 = p0 ++ sep :: (p1 ++ sep :: p2) := by simp
  rw [splitN, hjoin, splitLoop_of_not_mem h0, splitLoop_of_not_mem h1]
  simp [splitLoop]

theorem no_dot_encode (b : Bytes) : (46 : UInt8) ∉ GoBase64.rawURLEncode b :=
  no_dot_of_decode (GoBase64.rawURLDecode_encode b)

theorem ofBytes_ne_empty {b : Bytes} (h : b ≠ []) : GoString.ofBytes b ≠ "" := by
  intro hempty
  have hlist := congrArg String.toList hempty
  simp [GoString.ofBytes] at hlist
  exact h hlist

theorem go_encode_ne_empty {c : Codec} {b : Bytes} (h : b ≠ []) : c.go.b64urlEncode b ≠ "" :=
  ofBytes_ne_empty (GoBase64.rawURLEncode_ne_nil h)

section Minted

variable {c : Codec} {m : Signer} {priv pub hb pb : Bytes} {kid : String} {claims : Claims}

theorem parseHeader_compact (hkid : kid ≠ "") (hh : c.headerJSON hb = some ⟨"EdDSA", "JWT", kid⟩) :
    parseHeader c.go (compact m priv hb pb) = .ok ⟨⟨"EdDSA", "JWT", kid⟩,
      GoBase64.rawURLEncode hb, GoBase64.rawURLEncode pb,
      GoBase64.rawURLEncode (m.ed25519Sign priv (signingInput hb pb))⟩ := by
  have hdec : c.go.b64url (GoBase64.rawURLEncode hb) = some hb := GoBase64.rawURLDecode_encode hb
  have hjson : c.go.headerJSON hb = some ⟨"EdDSA", "JWT", kid⟩ := hh
  have hsplit : splitN (compact m priv hb pb) 46 3 = [GoBase64.rawURLEncode hb,
      GoBase64.rawURLEncode pb, GoBase64.rawURLEncode (m.ed25519Sign priv (signingInput hb pb))] :=
    splitN_joined (no_dot_encode hb) (no_dot_encode pb)
  rw [parseHeader, hsplit]
  simp [hdec, hjson, hkid]

theorem decodePayload_encode (hp : c.claimsJSON pb = some claims) :
    decodePayload c.go (GoBase64.rawURLEncode pb) = .ok claims := by
  have hdec : c.go.b64url (GoBase64.rawURLEncode pb) = some pb := GoBase64.rawURLDecode_encode pb
  have hjson : c.go.claimsJSON pb = some claims := hp
  simp [decodePayload, hdec, hjson]

theorem verifyAt_compact (m : Signer) (priv : Bytes) (hkid : kid ≠ "")
    (hh : c.headerJSON hb = some ⟨"EdDSA", "JWT", kid⟩) (hp : c.claimsJSON pb = some claims)
    (hsub : claims.sub = kid) (audience : String) (lookup : String → Option Bytes)
    (t : Int64) (k : Claims) :
    verifyAt c.go (compact m priv hb pb) audience lookup t = .ok k ↔
      (∃ pub, lookup kid = some pub ∧
        c.ed25519Verify pub (signingInput hb pb) (m.ed25519Sign priv (signingInput hb pb)) = true) ∧
      (audience = "" ∨ claims.aud = audience) ∧ checkTimes claims t = .ok k := by
  have hdec (b : Bytes) : c.go.b64url (GoBase64.rawURLEncode b) = some b :=
    GoBase64.rawURLDecode_encode b
  have hverify : c.go.ed25519Verify = c.ed25519Verify := rfl
  have hinput : GoBase64.rawURLEncode hb ++ [46] ++ GoBase64.rawURLEncode pb =
      signingInput hb pb := rfl
  rw [verifyAt, parseHeader_compact hkid hh]
  dsimp only
  cases hlookup : lookup kid with
  | none => simp
  | some pub =>
    simp only [checkSigned, hdec, hverify, decodePayload_encode hp, hsub, hinput]
    cases hsig : c.ed25519Verify pub (signingInput hb pb)
      (m.ed25519Sign priv (signingInput hb pb)) with
    | false => simp [hsig]
    | true =>
      by_cases haud : audience ≠ "" ∧ claims.aud ≠ audience
      · simp [hsig, haud]
      · have hsame : audience = "" ∨ claims.aud = audience := by
          rw [not_and_or, not_not, not_not] at haud; exact haud
        simp [hsig, hsame, haud]

end Minted

/-- The whole seconds a token is valid for. -/
def wholeSeconds (lifetime : Int64) : Int :=
  if lifetime.toInt ≤ 0 then 60 else lifetime.toInt / 1000000000

theorem toInt_validFor (lifetime : Int64) :
    ((if lifetime ≤ 0 then defaultLifetime else lifetime) / 1000000000 : Int64).toInt =
      wholeSeconds lifetime := by
  have hhi := lifetime.toInt_lt
  have hdiv : (1000000000 : Int64).toInt = 1000000000 := by decide
  unfold wholeSeconds
  by_cases h : lifetime ≤ 0
  · rw [if_pos h, if_pos (by simpa using Int64.le_iff_toInt_le.mp h)]
    decide
  · have hpos : 0 < lifetime.toInt := by
      simpa [Int64.lt_iff_toInt_lt] using h
    rw [if_neg h, if_neg (by omega), Int64.toInt_div, hdiv, Int.tdiv_eq_ediv_of_nonneg hpos.le]
    rw [Int.bmod_eq_of_le (by omega) (by omega)]

theorem wholeSeconds_nonneg (lifetime : Int64) : 0 ≤ wholeSeconds lifetime := by
  unfold wholeSeconds
  split <;> omega

theorem toInt_exp (kid audience jti : String) {lifetime t0 : Int64}
    (h : t0.toInt + wholeSeconds lifetime < 2 ^ 63) :
    (newClaims kid audience lifetime t0 jti).exp.toInt = t0.toInt + wholeSeconds lifetime := by
  have hsecs := toInt_validFor lifetime
  have hnonneg := wholeSeconds_nonneg lifetime
  rw [newClaims, GoInt64.toInt_add_of_lt (by omega) (by omega), hsecs]

theorem checkTimes_accepts {claims : Claims} {t : Int64} (hjti : claims.jti ≠ "")
    (hiat : claims.iat ≠ 0) (hexp : claims.exp ≠ 0) (hend : claims.exp.toInt + 600 < 2 ^ 63)
    (hlo : claims.iat.toInt - 300 ≤ t.toInt) (hhi : t.toInt ≤ claims.exp.toInt + 300) :
    checkTimes claims t = .ok claims := by
  have hskew : clockSkew.toInt = 300 := by decide
  have hstart : ¬ t + clockSkew < claims.iat := by
    rw [Int64.lt_iff_toInt_lt, GoInt64.toInt_add_of_lt (by omega) (by omega)]
    omega
  have hstop : ¬ claims.exp + clockSkew < t := by
    rw [Int64.lt_iff_toInt_lt, GoInt64.toInt_add_of_lt (by omega) (by omega)]
    omega
  simp [checkTimes, hiat, hexp, hjti, hstart, hstop]

/-- `t` is in the window of a token minted at `t0`. -/
def InWindow (t0 lifetime t : Int64) : Prop :=
  t0.toInt - 300 ≤ t.toInt ∧ t.toInt ≤ t0.toInt + wholeSeconds lifetime + 300

instance (t0 lifetime t : Int64) : Decidable (InWindow t0 lifetime t) :=
  inferInstanceAs (Decidable (_ ∧ _))

def Rejects (c : Codec) (token : Bytes) (audience : String) (lookup : String → Option Bytes)
    (t : Int64) : Prop := ∃ e, verifyAt c token audience lookup t = .error e

theorem rejects_of_ne_ok {c : Codec} {token : Bytes} {audience : String}
    {lookup : String → Option Bytes} {t : Int64}
    (h : ∀ k, verifyAt c token audience lookup t ≠ .ok k) : Rejects c token audience lookup t := by
  cases hv : verifyAt c token audience lookup t with
  | error e => exact ⟨e, hv⟩
  | ok k => exact absurd hv (h k)

section Window

variable {c : Codec} {m : Signer} {priv pub : Bytes}

theorem mint_ok (hrt : RoundTrips c m) (hkey : KeyPair c m priv pub) (audience : String)
    (lifetime t0 : Int64) (rnd : Vector UInt8 16) :
    ∃ hb pb, mint c.go m priv audience lifetime t0 (.ok rnd) = .ok (compact m priv hb pb) ∧
      c.headerJSON hb = some ⟨"EdDSA", "JWT", kidFromPubkey c.go pub⟩ ∧
      c.claimsJSON pb = some (newClaims (kidFromPubkey c.go pub) audience lifetime t0
        (c.go.b64urlEncode rnd.toList)) := by
  obtain ⟨hb, hmh, hh⟩ := hrt.header ⟨"EdDSA", "JWT", kidFromPubkey c.go pub⟩
  obtain ⟨pb, hmp, hp⟩ := hrt.claims (newClaims (kidFromPubkey c.go pub) audience lifetime t0
    (c.go.b64urlEncode rnd.toList))
  refine ⟨hb, pb, ?_, hh, hp⟩
  rw [mint, if_neg (not_not.mpr hkey.size), hkey.half]
  simp [randomJTI, hmh, hmp, bind, Except.bind, pure, Except.pure]

theorem kid_ne_empty (hrt : RoundTrips c m) (pub : Bytes) : kidFromPubkey c.go pub ≠ "" := by
  apply go_encode_ne_empty
  intro hnil
  have hlen := hrt.digest pub
  have hsum : c.sha256 pub = [] := hnil
  rw [hsum] at hlen
  cases hlen

/-- A token verifies with the claims it was minted with during its window, and at no other time, for
no other audience and under no lookup without its key. The expiry is not 0, which `Verify` takes for
a missing claim, and `ClockSkew` can be added twice to it. -/
theorem minted_window (c : Codec) (m : Signer) (hrt : RoundTrips c m) (priv pub : Bytes)
    (hkey : KeyPair c m priv pub) (audience : String) (lifetime t0 : Int64)
    (rnd : Vector UInt8 16) (ht0 : t0 ≠ 0) (hexp : t0.toInt + wholeSeconds lifetime ≠ 0)
    (hend : t0.toInt + wholeSeconds lifetime + 600 < 2 ^ 63) :
    ∃ token, mint c.go m priv audience lifetime t0 (.ok rnd) = .ok token ∧
      (∀ lookup t, lookup (kidFromPubkey c.go pub) = some pub → InWindow t0 lifetime t →
        verifyAt c.go token audience lookup t = .ok (newClaims (kidFromPubkey c.go pub) audience
          lifetime t0 (c.go.b64urlEncode rnd.toList))) ∧
      (∀ audience' lookup t, ¬ InWindow t0 lifetime t → Rejects c.go token audience' lookup t) ∧
      (∀ audience' lookup t, audience' ≠ "" → audience' ≠ audience →
        Rejects c.go token audience' lookup t) ∧
      ∀ audience' lookup t, lookup (kidFromPubkey c.go pub) = none →
        Rejects c.go token audience' lookup t := by
  obtain ⟨hb, pb, hmint, hh, hp⟩ := mint_ok hrt hkey audience lifetime t0 rnd
  have hverify := verifyAt_compact m priv (kid_ne_empty hrt pub) hh hp rfl
  have hclaim : _ = t0.toInt + wholeSeconds lifetime :=
    toInt_exp (kidFromPubkey c.go pub) audience (c.go.b64urlEncode rnd.toList) (by omega)
  have hjti : c.go.b64urlEncode rnd.toList ≠ "" := by
    apply go_encode_ne_empty
    intro hnil
    have hlen := congrArg List.length hnil
    simp at hlen
  refine ⟨_, hmint, ?_, ?_, ?_, ?_⟩
  · intro lookup t hlookup hwindow
    refine (hverify audience lookup t _).mpr ⟨⟨pub, hlookup, hkey.verifies _⟩, .inr rfl, ?_⟩
    refine checkTimes_accepts hjti ht0 ?_ (by omega) hwindow.1 (by rw [hclaim]; exact hwindow.2)
    intro hzero
    rw [hzero] at hclaim
    exact hexp hclaim.symm
  · intro audience' lookup t hout
    refine rejects_of_ne_ok fun k hok => hout ?_
    obtain ⟨-, -, htimes⟩ := (hverify audience' lookup t k).mp hok
    obtain ⟨-, ⟨-, hlo⟩, -, hhi⟩ := checkTimes_ok htimes
    rw [hclaim] at hhi
    exact ⟨by have : t0.toInt ≤ t.toInt + 300 := hlo; omega, hhi⟩
  · intro audience' lookup t hne hother
    refine rejects_of_ne_ok fun k hok => ?_
    obtain ⟨-, haud, -⟩ := (hverify audience' lookup t k).mp hok
    exact haud.elim hne fun h => hother h.symm
  · intro audience' lookup t hnone
    refine rejects_of_ne_ok fun k hok => ?_
    obtain ⟨⟨pub', hsome, -⟩, -⟩ := (hverify audience' lookup t k).mp hok
    cases hnone.symm.trans hsome

end Window

/-! ## A codec that round-trips -/

def charCodes (s : String) : List Nat := s.toList.map Char.toNat

def ofCharCodes (l : List Nat) : String := String.ofList (l.map Char.ofNat)

theorem ofCharCodes_charCodes (s : String) : ofCharCodes (charCodes s) = s := by
  have hid : Char.ofNat ∘ Char.toNat = id := funext Char.ofNat_toNat
  simp [ofCharCodes, charCodes, hid]

/-- A value as the number of zero bytes that encodes it. -/
def zeros {α : Type} [Encodable α] (a : α) : Bytes := List.replicate (Encodable.encode a) 0

def ofZeros (α : Type) [Encodable α] (b : Bytes) : Option α := Encodable.decode b.length

theorem ofZeros_zeros {α : Type} [Encodable α] (a : α) : ofZeros α (zeros a) = some a := by
  simp [ofZeros, zeros]

/-- JSON as `zeros`, and a signature that is the key and the message. -/
def plain : Codec where
  b64url := fun _ => none
  b64urlEncode := fun _ => ""
  b64std := fun _ => none
  headerJSON := fun b => (ofZeros (List Nat × List Nat × List Nat) b).map fun x =>
    ⟨ofCharCodes x.1, ofCharCodes x.2.1, ofCharCodes x.2.2⟩
  claimsJSON := fun b => (ofZeros (List Nat × List Nat × Int × Int × List Nat) b).map fun x =>
    ⟨ofCharCodes x.1, ofCharCodes x.2.1, Int64.ofInt x.2.2.1, Int64.ofInt x.2.2.2.1,
      ofCharCodes x.2.2.2.2⟩
  bundleJSON := fun _ => none
  sha256 := fun _ => List.replicate 32 0
  ed25519Verify := fun pub msg sig => sig = pub ++ msg
  uuidHead := fun _ => none

def plainSigner : Signer where
  marshalHeader := fun h => .ok (zeros (charCodes h.alg, charCodes h.typ, charCodes h.kid))
  marshalClaims := fun k => .ok (zeros (charCodes k.sub, charCodes k.aud, k.iat.toInt, k.exp.toInt,
    charCodes k.jti))
  ed25519Sign := fun priv msg => priv.drop 32 ++ msg

theorem plain_roundTrips : RoundTrips plain plainSigner where
  header h := ⟨_, rfl, by simp [plain, ofZeros_zeros, ofCharCodes_charCodes]⟩
  claims k := ⟨_, rfl, by simp [plain, ofZeros_zeros, ofCharCodes_charCodes]⟩
  digest _ := rfl

theorem plain_keyPair : KeyPair plain plainSigner (List.replicate 64 0) (List.replicate 32 0) where
  size := by decide
  half := by decide
  verifies msg := by
    rw [plain, plainSigner]; simp

/-- A token of a minute minted at time 1000. -/
theorem minted_window_plain : ∃ token claims,
    mint plain.go plainSigner (List.replicate 64 0) "capsule" 0 1000
      (.ok (Vector.replicate 16 0)) = .ok token ∧
    verifyAt plain.go token "capsule" (fun _ => some (List.replicate 32 0)) 1360 = .ok claims ∧
    Rejects plain.go token "capsule" (fun _ => some (List.replicate 32 0)) 1361 := by
  obtain ⟨token, hmint, hin, hout, -⟩ := minted_window plain plainSigner plain_roundTrips _ _
    plain_keyPair "capsule" 0 1000 (Vector.replicate 16 0) (by decide) (by decide) (by decide)
  exact ⟨token, _, hmint, hin _ 1360 rfl (by decide), hout _ _ 1361 (by decide)⟩

theorem plain_rejects {t0 t : Int64} (hbad : ∀ k kid audience jti,
    checkTimes (newClaims kid audience 60000000000 t0 jti) t ≠ .ok k) :
    ∃ token, mint plain.go plainSigner (List.replicate 64 0) "capsule" 60000000000 t0
        (.ok (Vector.replicate 16 0)) = .ok token ∧
      Rejects plain.go token "capsule" (fun _ => some (List.replicate 32 0)) t := by
  obtain ⟨hb, pb, hmint, hh, hp⟩ := mint_ok plain_roundTrips plain_keyPair "capsule" 60000000000
    t0 (Vector.replicate 16 0)
  refine ⟨_, hmint, rejects_of_ne_ok fun k hok => ?_⟩
  obtain ⟨-, -, htimes⟩ := (verifyAt_compact plainSigner _ (kid_ne_empty plain_roundTrips _) hh hp
    rfl _ _ t k).mp hok
  exact hbad _ _ _ _ htimes

/-- Minted a minute before 1970 for a minute, a token is rejected in the middle of its window: its
expiry is 0. Minted 660 seconds before the end of time, it is rejected at the end of its window. -/
theorem minted_window_rejected :
    (∃ token, mint plain.go plainSigner (List.replicate 64 0) "capsule" 60000000000 (-60)
        (.ok (Vector.replicate 16 0)) = .ok token ∧ InWindow (-60) 60000000000 0 ∧
      Rejects plain.go token "capsule" (fun _ => some (List.replicate 32 0)) 0) ∧
    ∃ token, mint plain.go plainSigner (List.replicate 64 0) "capsule" 60000000000
        9223372036854775148 (.ok (Vector.replicate 16 0)) = .ok token ∧
      InWindow 9223372036854775148 60000000000 9223372036854775508 ∧
      Rejects plain.go token "capsule" (fun _ => some (List.replicate 32 0))
        9223372036854775508 := by
  have hzero (k kid audience jti) :
      checkTimes (newClaims kid audience 60000000000 (-60) jti) 0 ≠ .ok k := by
    intro hok
    exact (checkTimes_ok hok).2.2.1 ((toInt_exp kid audience jti (by decide)).trans (by decide))
  have hwrap (k kid audience jti) : checkTimes (newClaims kid audience 60000000000
      9223372036854775148 jti) 9223372036854775508 ≠ .ok k := by
    have hlt : 9223372036854775508 + clockSkew < 9223372036854775148 := by decide
    simp [checkTimes, newClaims, hlt]
  obtain ⟨token, hmint, hrej⟩ := plain_rejects hzero
  obtain ⟨token', hmint', hrej'⟩ := plain_rejects hwrap
  exact ⟨⟨token, hmint, by decide, hrej⟩, token', hmint', by decide, hrej'⟩

end Capsule.Auth
