import Capsule.Auth.Token

/-!
# Capsule.Identity.Controller

The handlers of `controllers/identity.go`, an RPC as the interceptor runs it, and what capsuled does
to the same stores at startup: the first-boot ingest (`core/install/firstboot.go`), the seeding of
the identity row and the `RESET_AUTH` wipe (`cmd/capsuled`).
-/

namespace Capsule.Identity

open Atomic Auth

structure Controller where
  tlsFingerprint : String
  mdns : Bool

/-- What a key list shows of a key. -/
structure KeyInfo where
  kid : String
  name : String
  addedByKid : String
  addedAtUnix : Int64
  deriving DecidableEq

inductive Response where
  | adopt (capsuleID kid tlsFingerprintSha256 : String)
  | whoAmI (capsuleID kid name : String)
  | keyAdd (key : KeyInfo)
  | keyList (keys : List KeyInfo)
  | keyRemove
  | other
  deriving DecidableEq

abbrev Reply := Except Status Response

/-- `status.Errorf(codes.Internal, "what: %v", err)`. -/
def internalErr (what : String) (e : Err) : Reply := .error ⟨.internal, what ++ ": " ++ e.msg⟩

def noIdentity : Reply := .error ⟨.unauthenticated, "no authenticated identity"⟩

section

variable (c : Codec) (ctl : Controller)

/-- `Adopt` with the claim window closed: the key must be enrolled. -/
def adoptEnrolled (kid : String) : Code Reply := do
  match ← keysGet kid with
  | .error _ =>
    return .error ⟨.failedPrecondition,
      "adoption window closed; use an enrolled key, or trigger RESET_AUTH at the console"⟩
  | .ok _ =>
    match ← identityGet with
    | .error e => return internalErr "load identity" e
    | .ok id => return .ok (.adopt id.capsuleID kid ctl.tlsFingerprint)

/-- The bootstrap path once the key is stored. -/
def recordAdoption (id : CapsuleIdentity) (kid : String) : Code Reply := do
  let t ← now
  match ← identityPut { id with adoptedAtUnix := t, adoptedByKid := kid } with
  | .error e => return internalErr "save identity" e
  | .ok () =>
    claimClose
    if ctl.mdns then markAdopted
    return .ok (.adopt id.capsuleID kid ctl.tlsFingerprint)

/-- `Adopt` with the claim window open. -/
def adoptBootstrap (pub : Bytes) (name : String) : Code Reply := do
  match ← identityGet with
  | .error e => return internalErr "load identity" e
  | .ok id =>
    let t ← now
    match ← keysAdd ⟨kidFromPubkey c pub, pub, if name = "" then "operator" else name, "", t⟩ with
    | .ok () => recordAdoption ctl id (kidFromPubkey c pub)
    | .error e =>
      -- the same key again is a no-op success
      if e.is .conflict then recordAdoption ctl id (kidFromPubkey c pub)
      else return internalErr "store key" e

def adopt (pubkey : Bytes) (name : String) : Code Reply :=
  match parsePubkey pubkey with
  | .error e => .ret (.error ⟨.invalidArgument, e.msg⟩)
  | .ok pub => do
    if ← claimOpen then adoptBootstrap c ctl pub name
    else adoptEnrolled ctl (kidFromPubkey c pub)

def whoAmI (caller : String) : Code Reply :=
  if caller = "" then .ret noIdentity
  else do
    match ← identityGet with
    | .error e => return internalErr "load identity" e
    | .ok id =>
      match ← keysGet caller with
      | .error _ => return .ok (.whoAmI id.capsuleID caller "")
      | .ok k => return .ok (.whoAmI id.capsuleID caller k.name)

def keyAdd (caller : String) (pubkey : Bytes) (name : String) : Code Reply :=
  if caller = "" then .ret noIdentity
  else
    match parsePubkey pubkey with
    | .error e => .ret (.error ⟨.invalidArgument, e.msg⟩)
    | .ok pub =>
      if name = "" then .ret (.error ⟨.invalidArgument, "name required"⟩)
      else do
        let t ← now
        match ← keysAdd ⟨kidFromPubkey c pub, pub, name, caller, t⟩ with
        | .ok () => return .ok (.keyAdd ⟨kidFromPubkey c pub, name, caller, t⟩)
        | .error e =>
          if e.is .conflict then return .error ⟨.alreadyExists, "key already enrolled"⟩
          else return internalErr "store key" e

def keyList : Code Reply := do
  match ← keysList with
  | .error e => return internalErr "list keys" e
  | .ok keys =>
    return .ok (.keyList (keys.map fun k => ⟨k.kid, k.name, k.addedByKid, k.addedAtUnix⟩))

def keyRemove (caller kid : String) : Code Reply :=
  if caller = "" then .ret noIdentity
  else if kid = "" then .ret (.error ⟨.invalidArgument, "kid required"⟩)
  else do
    match ← keysCount with
    | .error e => return internalErr "count keys" e
    | .ok count =>
      if count ≤ 1 then
        return .error ⟨.failedPrecondition, "cannot remove the last enrolled key; add another " ++
          "first or use the console RESET_AUTH procedure"⟩
      else
        match ← keysDelete kid with
        | .error e => return internalErr "delete key" e
        | .ok () => return .ok .keyRemove

/-- A request. The handlers of all other methods touch neither the keys nor the identity. -/
inductive Request where
  | adopt (pubkey : Bytes) (name : String)
  | whoAmI
  | keyAdd (pubkey : Bytes) (name : String)
  | keyList
  | keyRemove (kid : String)
  | other (fullMethod : String)

def Request.fullMethod : Request → String
  | .adopt _ _ => adoptMethod
  | .whoAmI => "/capsule.v1.IdentityService/WhoAmI"
  | .keyAdd _ _ => "/capsule.v1.IdentityService/KeyAdd"
  | .keyList => "/capsule.v1.IdentityService/KeyList"
  | .keyRemove _ => "/capsule.v1.IdentityService/KeyRemove"
  | .other m => m

/-- The handler of a request, for the caller in the context. -/
def handle (caller : String) : Request → Code Reply
  | .adopt pubkey name => adopt c ctl pubkey name
  | .whoAmI => whoAmI caller
  | .keyAdd pubkey name => keyAdd c caller pubkey name
  | .keyList => keyList
  | .keyRemove kid => keyRemove caller kid
  | .other _ => .ret (.ok .other)

/-- `Unary` and `Stream`: authorize, then the handler. -/
def rpc (a : Authenticator) (md : List Bytes) (req : Request) : Code Reply := do
  match ← authorize c a req.fullMethod md with
  | .error st => return .error st
  | .ok kid => handle c ctl kid req

/-- `applyIdentity` once it has a row to write to. -/
def putIdentity (b : FirstBootBundle) (id : CapsuleIdentity) : Code (Except Err Unit) :=
  if id.createdAtUnix = 0 then do
    let t ← now
    identityPut { id with createdAtUnix := t, capsuleID := b.capsuleID, shortID := b.shortID }
  else identityPut { id with capsuleID := b.capsuleID, shortID := b.shortID }

def applyIdentity (b : FirstBootBundle) : Code (Except Err Unit) := do
  match ← identityGet with
  | .ok id => putIdentity b id
  | .error e =>
    if e.is .notFound then putIdentity b ⟨"", "", 0, 0, ""⟩
    else return .error (e.ctx "load identity")

def applyAuthorizedKey (b : FirstBootBundle) : Code (Except Err Unit) :=
  if b.operatorPubkey = "" then
    .ret (.error (.text "firstboot bundle missing operator_pubkey"))
  else
    match c.b64std b.operatorPubkey with
    | none => .ret (.error ((Err.text "illegal base64 data").ctx "decode operator_pubkey"))
    | some pub =>
      match parsePubkey pub with
      | .error e => .ret (.error (e.ctx "invalid operator_pubkey"))
      | .ok _ => do
        let t ← now
        match ← keysAdd ⟨kidFromPubkey c pub, pub,
            if b.operatorName = "" then "operator" else b.operatorName, "", t⟩ with
        | .ok () => return .ok ()
        | .error e => if e.is .conflict then return .ok () else return .error (e.ctx "enroll key")

def writeTLSFiles (b : FirstBootBundle) : Code (Except Err Unit) :=
  ((writeTLS .cert b.tlsCertPEM).mapErr (Err.ctx "write /perm/tls/server.crt")).thenOk fun _ =>
    (writeTLS .key b.tlsKeyPEM).mapErr (Err.ctx "write /perm/tls/server.key")

def writeTLSMaterial (b : FirstBootBundle) : Code (Except Err Unit) :=
  if b.tlsCertPEM = "" ∨ b.tlsKeyPEM = "" then
    .ret (.error (.text "firstboot bundle missing TLS material"))
  else
    (mkdirTLS.mapErr (Err.ctx "mkdir tls")).thenOk fun _ => do
      if ← statTLS .cert then
        if ← statTLS .key then return .ok () else writeTLSFiles b
      else writeTLSFiles b

def ingestFirstBoot : Code (Except Err Unit) :=
  (readFirstBoot.mapErr (Err.ctx "read /perm/firstboot.json")).thenOk fun data =>
    match data with
    | none => .ret (.ok ())
    | some data =>
      match c.bundleJSON data with
      | none => do
        renameFirstBoot
        return .ok ()
      | some b =>
        (applyIdentity b).thenOk fun _ => (applyAuthorizedKey c b).thenOk fun _ =>
          (writeTLSMaterial b).thenOk fun _ => do
            removeFirstBoot
            return .ok ()

def deriveShortID (capsuleID : String) : String :=
  match c.uuidHead capsuleID with
  | none => ""
  | some x => "capsule-" ++ x

def ensureIdentity : Code (Except Err CapsuleIdentity) := do
  match ← identityGet with
  | .ok id =>
    if id.shortID = "" then
      let id := { id with shortID := deriveShortID c id.capsuleID }
      (identityPut id).thenOk fun _ => .ret (.ok id)
    else return .ok id
  | .error e =>
    if e.is .notFound then do
      let u ← newUUID
      let t ← now
      let fresh : CapsuleIdentity := ⟨u, deriveShortID c u, t, 0, ""⟩
      (identityPut fresh).thenOk fun _ => .ret (.ok fresh)
    else return .error e

/-- `wipeAuthOnDisk`, once the database is open. -/
def wipeAuthOnDisk : Code (Except Err Unit) :=
  keysDeleteAll.thenOk fun _ => do
    match ← identityGet with
    | .ok id => identityPut { id with adoptedAtUnix := 0, adoptedByKid := "" }
    | .error e => if e.is .notFound then return .ok () else return .error e

end

end Capsule.Identity
