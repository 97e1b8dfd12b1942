import Capsule.Identity.System

/-!
# Capsule.Auth.Token

`auth.Verify` and `Authenticator.authorize`, with the functions of `auth/fingerprint.go` they
share with the identity service, and the sweeper of the `jti` cache.
-/

namespace Capsule.Auth

open Atomic Identity

structure JwtHeader where
  alg : String
  typ : String
  kid : String
  deriving DecidableEq

structure Claims where
  sub : String
  aud : String
  iat : Int64
  exp : Int64
  jti : String
  deriving DecidableEq

/-- The bundle the installer leaves in `firstboot.json`. -/
structure FirstBootBundle where
  capsuleID : String
  shortID : String
  tlsCertPEM : String
  tlsKeyPEM : String
  operatorPubkey : String
  operatorName : String

/-- The external functions. `none` is a decoding error. -/
structure Codec where
  /-- `base64.RawURLEncoding`. -/
  b64url : Bytes → Option Bytes
  b64urlEncode : Bytes → String
  /-- `base64.StdEncoding`. -/
  b64std : String → Option Bytes
  headerJSON : Bytes → Option JwtHeader
  claimsJSON : Bytes → Option Claims
  bundleJSON : Bytes → Option FirstBootBundle
  sha256 : Bytes → Bytes
  ed25519Verify : Bytes → Bytes → Bytes → Bool
  /-- The first two bytes `uuid.Parse` finds, as `%02x%02x`. -/
  uuidHead : String → Option String

def kidFromPubkey (c : Codec) (pub : Bytes) : String := c.b64urlEncode (c.sha256 pub)

def parsePubkey (b : Bytes) : Except Err Bytes :=
  if b.length ≠ 32 then
    .error (.text ("invalid ed25519 public key: expected 32 bytes, got " ++ toString b.length))
  else .ok b

/-- `ClockSkew`, in seconds. -/
def clockSkew : Int64 := 300

/-- The loop of `splitN`: `k` separators are still to be found, `cur` is the piece being read. -/
def splitLoop (sep : UInt8) : Nat → Bytes → Bytes → List Bytes
  | 0, cur, s => [cur ++ s]
  | _ + 1, cur, [] => [cur]
  | k + 1, cur, b :: s =>
    if b = sep then cur :: splitLoop sep k [] s else splitLoop sep (k + 1) (cur ++ [b]) s

def splitN (s : Bytes) (sep : UInt8) (n : Nat) : List Bytes := splitLoop sep (n - 1) [] s

/-- A token whose header was accepted, with its three parts. -/
structure Parsed where
  hdr : JwtHeader
  part0 : Bytes
  part1 : Bytes
  part2 : Bytes

/-- `Verify` up to the key lookup. -/
def parseHeader (c : Codec) (token : Bytes) : Except Err Parsed :=
  match splitN token 46 3 with
  | [p0, p1, p2] =>
    match c.b64url p0 with
    | none => .error (.text "auth: bad header encoding")
    | some headerBytes =>
      match c.headerJSON headerBytes with
      | none => .error (.text "auth: bad header json")
      | some hdr =>
        if hdr.alg ≠ "EdDSA" ∨ hdr.typ ≠ "JWT" then .error (.text "auth: unsupported algorithm")
        else if hdr.kid = "" then .error (.text "auth: missing kid")
        else .ok ⟨hdr, p0, p1, p2⟩
  | _ => .error (.text "auth: malformed token")

/-- The claims in the payload part. -/
def decodePayload (c : Codec) (part : Bytes) : Except Err Claims :=
  match c.b64url part with
  | none => .error (.text "auth: bad payload encoding")
  | some payload =>
    match c.claimsJSON payload with
    | none => .error (.text "auth: bad payload json")
    | some claims => .ok claims

/-- `Verify` from the key lookup to the clock. -/
def checkSigned (c : Codec) (audience : String) (t : Parsed) (pub : Bytes) : Except Err Claims :=
  match c.b64url t.part2 with
  | none => .error (.text "auth: bad signature encoding")
  | some sig =>
    if !c.ed25519Verify pub (t.part0 ++ [46] ++ t.part1) sig then
      .error (.text "auth: bad signature")
    else
      match decodePayload c t.part1 with
      | .error e => .error e
      | .ok claims =>
        if claims.sub ≠ t.hdr.kid then .error (.text "auth: sub/kid mismatch")
        else if audience ≠ "" ∧ claims.aud ≠ audience then .error (.text "auth: wrong audience")
        else .ok claims

/-- The checks of `Verify` after it has read the clock. -/
def checkTimes (claims : Claims) (now : Int64) : Except Err Claims :=
  if claims.iat = 0 ∨ now + clockSkew < claims.iat then .error (.text "auth: token not yet valid")
  else if claims.exp = 0 ∨ claims.exp + clockSkew < now then .error (.text "auth: token expired")
  else if claims.jti = "" then .error (.text "auth: missing jti")
  else .ok claims

/-- What `main`'s key lookup makes of the store's answer: every error is an unknown key. -/
def enrolledKey : Except Err AuthorizedKey → Option Bytes
  | .error _ => none
  | .ok k =>
    match parsePubkey k.pubkey with
    | .error _ => none
    | .ok pub => some pub

/-- `Verify` after the lookup. -/
def verifyWith (c : Codec) (audience : String) (t : Parsed) :
    Option Bytes → Code (Except Err Claims)
  | none => return .error (.text "auth: unknown key")
  | some pub =>
    match checkSigned c audience t pub with
    | .error e => return .error e
    | .ok claims => do
      let n ← now
      return checkTimes claims n

def verify (c : Codec) (token : Bytes) (audience : String) : Code (Except Err Claims) :=
  match parseHeader c token with
  | .error e => .ret (.error e)
  | .ok t => do
    let k ← keysGet t.hdr.kid
    verifyWith c audience t (enrolledKey k)

theorem parseHeader_parts {c : Codec} {token : Bytes} {t : Parsed}
    (h : parseHeader c token = .ok t) : splitN token 46 3 = [t.part0, t.part1, t.part2] := by
  simp only [parseHeader] at h
  split at h
  · rename_i p0 p1 p2 hs
    split at h
    · cases h
    · split at h
      · cases h
      · split at h
        · cases h
        · split at h <;> cases h
          exact hs
  · cases h

theorem checkSigned_payload {c : Codec} {aud : String} {t : Parsed} {pub : Bytes} {claims : Claims}
    (h : checkSigned c aud t pub = .ok claims) : decodePayload c t.part1 = .ok claims := by
  simp only [checkSigned] at h
  split at h
  · cases h
  · split at h
    · cases h
    · split at h
      · cases h
      · rename_i hd
        split at h
        · cases h
        · split at h <;> cases h
          exact hd

theorem checkTimes_claims {claims claims' : Claims} {n : Int64}
    (h : checkTimes claims n = .ok claims') : claims' = claims := by
  simp only [checkTimes] at h
  split at h
  · cases h
  · split at h
    · cases h
    · split at h <;> cases h
      rfl

def adoptMethod : String := "/capsule.v1.IdentityService/Adopt"

def installerMethods : List String :=
  ["/capsule.v1.InstallService/Status", "/capsule.v1.InstallService/Install"]

/-- The settings of the authenticator; its lookup, claim window and cache are in the state. -/
structure Authenticator where
  capsuleID : String
  installerMode : Bool

/-- `Bearer ` -/
def bearerScheme : Bytes := [66, 101, 97, 114, 101, 114, 32]

def bearer : List Bytes → Bytes
  | [] => []
  | v :: _ =>
    let v := GoString.trimSpace v
    if v.length < 7 ∨ !GoString.equalFold (v.take 7) bearerScheme then []
    else GoString.trimSpace (v.drop 7)

/-- The methods that pass without a token. -/
def Authenticator.Open (a : Authenticator) (fullMethod : String) : Prop :=
  fullMethod = adoptMethod ∨ (a.installerMode = true ∧ fullMethod ∈ installerMethods)

instance (a : Authenticator) (m : String) : Decidable (a.Open m) :=
  inferInstanceAs (Decidable (_ ∨ _))

/-- `authorize`, returning the kid it puts in the context: empty on the open methods. -/
def authorize (c : Codec) (a : Authenticator) (fullMethod : String) (md : List Bytes) :
    Code (Except Status String) :=
  if a.Open fullMethod then .ret (.ok "")
  else if bearer md = [] then
    .ret (.error ⟨.unauthenticated, "missing bearer token (run: capsulectl adopt)"⟩)
  else do
    match ← verify c (bearer md) a.capsuleID with
    | .error e => return .error ⟨.unauthenticated, e.msg⟩
    | .ok claims =>
      if ← seenOrAdd claims.jti claims.exp then
        return .error ⟨.unauthenticated, "auth: token replay"⟩
      else return .ok claims.sub

/-- `jtiCache.Run` for a number of ticks. -/
def sweepLoop : Nat → Code Unit
  | 0 => return ()
  | n + 1 => do
    let t ← now
    sweep t
    sweepLoop n

end Capsule.Auth
