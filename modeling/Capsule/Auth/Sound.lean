import Capsule.Auth.Token
import Capsule.GoBase64

/-!
# Capsule.Auth.Sound

What a token that `Verify` accepts is known to be. `verifyAt` is `Verify` at a clock reading, with a
lookup for the keys.

* `Parts`, `parts_of_split`: a token that `SplitN` cuts in three has exactly two dots.
* `verify_sound`: the header names a known key, the third part is that key's signature over all
  bytes before the second dot, the audience is right, and the clock is within the token's times,
  compared as integers.
* `verify_complete`: `Verify` as code over the store is `verifyAt`.
-/

namespace Capsule.Auth

open Atomic Identity

def verifyAt (c : Codec) (token : Bytes) (audience : String) (lookup : String → Option Bytes)
    (now : Int64) : Except Err Claims :=
  match parseHeader c token with
  | .error e => .error e
  | .ok t =>
    match lookup t.hdr.kid with
    | none => .error (.text "auth: unknown key")
    | some pub =>
      match checkSigned c audience t pub with
      | .error e => .error e
      | .ok claims => checkTimes claims now

theorem verify_complete (c : Codec) (token : Bytes) (audience : String) (es : Nat → Env)
    (s : State) :
    ((verify c token audience).complete sem es s).2 =
      verifyAt c token audience (fun kid => enrolledKey (sem (.keysGet kid) (es 0) s).2)
        (es 1).clock := by
  unfold verify verifyAt
  cases parseHeader c token with
  | error e => rfl
  | ok t =>
    change ((verifyWith c audience t (enrolledKey (sem (.keysGet t.hdr.kid) (es 0) s).2)).complete
      sem (fun n => es (n + 1)) _).2 = _
    dsimp only
    cases enrolledKey (sem (.keysGet t.hdr.kid) (es 0) s).2 with
    | none => rfl
    | some pub =>
      simp only [verifyWith]
      cases checkSigned c audience t pub with
      | error e => rfl
      | ok claims => rfl

theorem splitLoop_succ (sep : UInt8) (k : Nat) (cur s : Bytes) :
    (sep ∉ s ∧ splitLoop sep (k + 1) cur s = [cur ++ s]) ∨
      ∃ u v, s = u ++ sep :: v ∧ sep ∉ u ∧
        splitLoop sep (k + 1) cur s = (cur ++ u) :: splitLoop sep k [] v := by
  induction s generalizing cur with
  | nil => exact .inl ⟨List.not_mem_nil, by rw [List.append_nil]; rfl⟩
  | cons b s ih =>
    rw [splitLoop]
    by_cases hb : b = sep
    · subst hb
      exact .inr ⟨[], s, rfl, List.not_mem_nil, by rw [if_pos rfl, List.append_nil]⟩
    · rw [if_neg hb]
      rcases ih (cur ++ [b]) with ⟨hs, heq⟩ | ⟨u, v, rfl, hu, heq⟩
      · exact .inl ⟨List.not_mem_cons_of_ne_of_not_mem (Ne.symm hb) hs, by rw [heq]; simp⟩
      · refine .inr ⟨b :: u, v, rfl, List.not_mem_cons_of_ne_of_not_mem (Ne.symm hb) hu, ?_⟩
        rw [heq]
        simp

theorem splitN_three {sep : UInt8} {s p0 p1 p2 : Bytes} (h : splitN s sep 3 = [p0, p1, p2]) :
    s = p0 ++ sep :: (p1 ++ sep :: p2) ∧ sep ∉ p0 ∧ sep ∉ p1 := by
  rcases splitLoop_succ sep 1 [] s with ⟨-, heq⟩ | ⟨u, v, rfl, hu, heq⟩
  · cases heq.symm.trans h
  · rcases splitLoop_succ sep 0 [] v with ⟨-, heq'⟩ | ⟨x, y, rfl, hx, heq'⟩
    · rw [heq'] at heq; cases heq.symm.trans h
    · rw [heq', splitLoop] at heq; cases heq.symm.trans h; exact ⟨rfl, hu, hx⟩

theorem parseHeader_ok {c : Codec} {token : Bytes} {t : Parsed} (h : parseHeader c token = .ok t) :
    (∃ headerBytes, c.b64url t.part0 = some headerBytes ∧ c.headerJSON headerBytes = some t.hdr) ∧
      t.hdr.alg = "EdDSA" ∧ t.hdr.typ = "JWT" ∧ t.hdr.kid ≠ "" := by
  simp only [parseHeader] at h
  split at h
  · split at h
    · cases h
    · rename_i headerBytes hbytes
      split at h
      · cases h
      · rename_i hdr hjson
        split at h
        · cases h
        · rename_i halg
          split at h
          · cases h
          · rename_i hkid
            cases h
            simp only [not_or, ne_eq, Decidable.not_not] at halg
            exact ⟨⟨headerBytes, hbytes, hjson⟩, halg.1, halg.2, hkid⟩
  · cases h

theorem checkSigned_ok {c : Codec} {audience : String} {t : Parsed} {pub : Bytes} {claims : Claims}
    (h : checkSigned c audience t pub = .ok claims) :
    (∃ sig, c.b64url t.part2 = some sig ∧
        c.ed25519Verify pub (t.part0 ++ [46] ++ t.part1) sig = true) ∧
      (∃ payload, c.b64url t.part1 = some payload ∧ c.claimsJSON payload = some claims) ∧
      claims.sub = t.hdr.kid ∧ (audience = "" ∨ audience = claims.aud) := by
  have hpayload := checkSigned_payload h
  simp only [checkSigned] at h
  split at h
  · cases h
  · rename_i sig hsig
    split at h
    · cases h
    · rename_i hverify
      split at h
      · cases h
      · split at h
        · cases h
        · rename_i hsub
          split at h
          · cases h
          · rename_i haud
            cases h
            refine ⟨⟨sig, hsig, by simpa using hverify⟩, ?_, not_not.mp hsub, ?_⟩
            · simp only [decodePayload] at hpayload
              split at hpayload
              · cases hpayload
              · rename_i payload hb
                split at hpayload
                · cases hpayload
                · rename_i hjson; cases hpayload; exact ⟨payload, hb, hjson⟩
            · by_cases hempty : audience = ""
              · exact .inl hempty
              · exact .inr (not_not.mp fun hne => haud ⟨hempty, Ne.symm hne⟩)

theorem add_skew_le (a : Int64) : (a + clockSkew).toInt ≤ a.toInt + 300 := by
  have hlo := a.le_toInt
  have hhi := a.toInt_lt
  have hskew : clockSkew.toInt = 300 := by decide
  rw [Int64.toInt_add, hskew, Int.bmod]
  split <;> omega

theorem le_of_not_add_skew_lt {a b : Int64} (h : ¬ a + clockSkew < b) :
    b.toInt ≤ a.toInt + 300 := by
  rw [Int64.lt_iff_toInt_lt, not_lt] at h
  exact h.trans (add_skew_le a)

theorem toInt_ne_zero {a : Int64} (h : a ≠ 0) : a.toInt ≠ 0 := by
  intro h0; exact h (Int64.toInt_inj.mp h0)

theorem checkTimes_ok {claims claims' : Claims} {now : Int64}
    (h : checkTimes claims now = .ok claims') :
    claims.jti ≠ "" ∧ (claims.iat.toInt ≠ 0 ∧ claims.iat.toInt ≤ now.toInt + 300) ∧
      claims.exp.toInt ≠ 0 ∧ now.toInt ≤ claims.exp.toInt + 300 := by
  simp only [checkTimes] at h
  split at h
  · cases h
  · rename_i hiat
    split at h
    · cases h
    · rename_i hexp
      split at h
      · cases h
      · rename_i hjti
        rw [not_or] at hiat hexp
        exact ⟨hjti, ⟨toInt_ne_zero hiat.1, le_of_not_add_skew_lt hiat.2⟩, toInt_ne_zero hexp.1,
          le_of_not_add_skew_lt hexp.2⟩

/-- The token is made of the three parts, with no dot but the two between them. -/
structure Parts (token p0 p1 p2 : Bytes) : Prop where
  joined : token = p0 ++ 46 :: (p1 ++ 46 :: p2)
  dots : token.count 46 = 2

/-- The first part decodes to a header for the key `kid`. -/
def HeaderOf (c : Codec) (part : Bytes) (kid : String) : Prop :=
  ∃ bytes hdr, c.b64url part = some bytes ∧ c.headerJSON bytes = some hdr ∧ hdr.alg = "EdDSA" ∧
    hdr.typ = "JWT" ∧ hdr.kid = kid ∧ kid ≠ ""

/-- The codec with Go's base64url. -/
def Codec.goURL (c : Codec) : Codec := { c with b64url := GoBase64.rawURLDecode }

theorem no_dot_of_decode {s d : Bytes} (h : GoBase64.rawURLDecode s = some d) :
    (46 : UInt8) ∉ s := by
  intro hmem
  rcases GoBase64.mem_of_rawURLDecode h hmem with h | h
  · exact absurd h (by decide)
  · exact absurd h (by decide)

theorem parts_of_split {token p0 p1 p2 : Bytes} (h : splitN token 46 3 = [p0, p1, p2])
    (h2 : (46 : UInt8) ∉ p2) : Parts token p0 p1 p2 := by
  obtain ⟨hjoin, h0, h1⟩ := splitN_three h
  refine ⟨hjoin, ?_⟩
  rw [hjoin]
  simp [List.count_append, List.count_eq_zero_of_not_mem, h0, h1, h2]

/-- What `Verify` accepts. The signature is over everything before the second dot, and the times are
compared as integers. -/
theorem verify_sound (c : Codec) (token : Bytes) (audience : String)
    (lookup : String → Option Bytes) (now : Int64) (claims : Claims)
    (h : verifyAt c.goURL token audience lookup now = .ok claims) :
    ∃ p0 p1 p2 pub sig payload, Parts token p0 p1 p2 ∧
      HeaderOf c.goURL p0 claims.sub ∧ lookup claims.sub = some pub ∧
      GoBase64.rawURLDecode p2 = some sig ∧
      c.ed25519Verify pub (p0 ++ [46] ++ p1) sig = true ∧
      GoBase64.rawURLDecode p1 = some payload ∧ c.claimsJSON payload = some claims ∧
      (audience = "" ∨ audience = claims.aud) ∧ claims.jti ≠ "" ∧
      (claims.iat.toInt ≠ 0 ∧ claims.iat.toInt ≤ now.toInt + 300) ∧
      (claims.exp.toInt ≠ 0 ∧ now.toInt ≤ claims.exp.toInt + 300) := by
  unfold verifyAt at h
  split at h
  · cases h
  · rename_i t hparse
    split at h
    · cases h
    · rename_i pub hlookup
      split at h
      · cases h
      · rename_i claims' hsigned
        obtain rfl := checkTimes_claims h
        obtain ⟨⟨headerBytes, hbytes, hjson⟩, halg, htyp, hkid⟩ := parseHeader_ok hparse
        obtain ⟨⟨sig, hsig, hverify⟩, ⟨payload, hpayload, hclaims⟩, hsub, haud⟩ :=
          checkSigned_ok hsigned
        obtain ⟨hjti, hiat, hexp⟩ := checkTimes_ok h
        refine ⟨t.part0, t.part1, t.part2, pub, sig, payload,
          parts_of_split (parseHeader_parts hparse) (no_dot_of_decode hsig), ?_, ?_, hsig, hverify,
          hpayload, hclaims, haud, hjti, hiat, hexp⟩
        · exact ⟨headerBytes, t.hdr, hbytes, hjson, halg, htyp, hsub.symm, by rw [hsub]; exact hkid⟩
        · rw [hsub]; exact hlookup

/-- A codec for which `{}` is a header of the key `k` and some claims. -/
def braces : Codec where
  b64url := fun _ => none
  b64urlEncode := fun _ => ""
  b64std := fun _ => none
  headerJSON := fun b => if b = [123, 125] then some ⟨"EdDSA", "JWT", "k"⟩ else none
  claimsJSON := fun b => if b = [123, 125] then some ⟨"k", "capsule", 1000, 1060, "j"⟩ else none
  bundleJSON := fun _ => none
  sha256 := id
  ed25519Verify := fun pub msg sig => pub = [1] ∧ msg = [101, 51, 48, 46, 101, 51, 48] ∧ sig = [0]
  uuidHead := fun _ => none

/-- `e30.e30.AA`, two minutes after it was issued. -/
theorem verify_sound_braces :
    ∃ p0 p1 p2 : Bytes, Parts [101, 51, 48, 46, 101, 51, 48, 46, 65, 65] p0 p1 p2 ∧
      HeaderOf braces.goURL p0 "k" := by
  obtain ⟨p0, p1, p2, -, -, -, hparts, hheader, -⟩ :=
    verify_sound braces [101, 51, 48, 46, 101, 51, 48, 46, 65, 65] "capsule"
      (fun kid => if kid = "k" then some [1] else none) 1120 ⟨"k", "capsule", 1000, 1060, "j"⟩
      (by decide)
  exact ⟨p0, p1, p2, hparts, hheader⟩

end Capsule.Auth
