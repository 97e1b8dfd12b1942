import Capsule.Atomic.Prog
import Capsule.GoString
import Capsule.Keyed.Expiring
import Capsule.Keyed.Table
import Capsule.Store.Types

/-!
# Capsule.Identity.System

What authentication and the identity service act on, one operation for each effect: the
`authorized_keys` table, the `capsule_identity` row, the claim window, the `jti` cache, the
first-boot bundle with the TLS files it turns into, and the clock.
-/

namespace Capsule.Identity

open Atomic Keyed

inductive TLSFile where
  | cert
  | key
  deriving DecidableEq, Repr

inductive Op where
  | keysAdd (k : AuthorizedKey)
  | keysGet (kid : String)
  | keysList
  | keysDelete (kid : String)
  | keysCount
  | keysDeleteAll
  | identityGet
  | identityPut (id : CapsuleIdentity)
  | claimOpen
  | claimClose
  | seenOrAdd (jti : String) (exp : Int64)
  | sweep (now : Int64)
  | now
  | newUUID
  | markAdopted
  | readFirstBoot
  | renameFirstBoot
  | removeFirstBoot
  | mkdirTLS
  | statTLS (f : TLSFile)
  | writeTLS (f : TLSFile) (pem : String)
  deriving DecidableEq

@[reducible] def Res : Op → Type
  | .keysGet _ => Except Err AuthorizedKey
  | .keysList => Except Err (List AuthorizedKey)
  | .keysCount => Except Err Nat
  | .identityGet => Except Err CapsuleIdentity
  | .claimOpen => Bool
  | .claimClose => Unit
  | .seenOrAdd _ _ => Bool
  | .sweep _ => Unit
  | .now => Int64
  | .newUUID => String
  | .markAdopted => Unit
  | .readFirstBoot => Except Err (Option Bytes)
  | .renameFirstBoot => Unit
  | .removeFirstBoot => Unit
  | .statTLS _ => Bool
  | _ => Except Err Unit

structure State where
  keys : Table AuthorizedKey.kid
  identity : Option CapsuleIdentity
  claim : Bool
  /-- `jtiCache.items`: the accepted token ids with their `exp`. -/
  jti : Expiring.Cache String Int64
  firstBoot : Option Bytes
  tls : TLSFile → Option String

structure Env where
  fault : Option String := none
  clock : Int64 := 0
  uuid : String := ""

def Env.answer {α : Type} (e : Env) (a : α) : Except Err α :=
  match e.fault with
  | none => .ok a
  | some m => .error (.text m)

/-- `authKeyStore.Add` reports every constraint error of SQLite as a conflict. -/
def addErr (m : String) : Err :=
  if GoString.contains m "UNIQUE" || GoString.contains m "constraint" then .sentinel .conflict
  else .text m

/-- `ORDER BY added_at_unix, kid`. -/
def listed (t : Table AuthorizedKey.kid) : List AuthorizedKey :=
  t.rows.insertionSort fun x y =>
    x.addedAtUnix < y.addedAtUnix ∨ (x.addedAtUnix = y.addedAtUnix ∧ x.kid ≤ y.kid)

/-- The stores stamp a zero creation time with the clock. -/
def stamp (e : Env) (t : Int64) : Int64 := if t = 0 then e.clock else t

def sem : Sem Op Res State Env
  | .keysAdd k, e, s =>
    match e.fault with
    | some m => (s, .error (addErr m))
    | none =>
      match s.keys.add { k with addedAtUnix := stamp e k.addedAtUnix } with
      | none => (s, .error (.sentinel .conflict))
      | some t => ({ s with keys := t }, .ok ())
  | .keysGet kid, e, s =>
    match e.fault, s.keys.get kid with
    | some m, _ => (s, .error (.text m))
    | none, some k => (s, .ok k)
    | none, none => (s, .error (.sentinel .notFound))
  | .keysList, e, s => (s, e.answer (listed s.keys))
  | .keysDelete kid, e, s =>
    match e.fault with
    | some m => (s, .error (.text m))
    | none => ({ s with keys := s.keys.del kid }, .ok ())
  | .keysCount, e, s => (s, e.answer s.keys.count)
  | .keysDeleteAll, e, s =>
    match e.fault with
    | some m => (s, .error (.text m))
    | none => ({ s with keys := .empty }, .ok ())
  | .identityGet, e, s =>
    match e.fault, s.identity with
    | some m, _ => (s, .error (.text m))
    | none, some id => (s, .ok id)
    | none, none => (s, .error (.sentinel .notFound))
  | .identityPut id, e, s =>
    match e.fault with
    | some m => (s, .error (.text m))
    | none =>
      ({ s with identity := some { id with createdAtUnix := stamp e id.createdAtUnix } }, .ok ())
  | .claimOpen, _, s => (s, s.claim)
  | .claimClose, _, s => ({ s with claim := false }, ())
  | .seenOrAdd jti exp, _, s =>
    ({ s with jti := Expiring.step s.jti (.see jti exp) }, (s.jti jti).isSome)
  | .sweep n, _, s => ({ s with jti := Expiring.step s.jti (.sweep n) }, ())
  | .now, e, s => (s, e.clock)
  | .newUUID, e, s => (s, e.uuid)
  | .markAdopted, _, s => (s, ())
  | .readFirstBoot, e, s => (s, e.answer s.firstBoot)
  | .renameFirstBoot, e, s => (if e.fault = none then { s with firstBoot := none } else s, ())
  | .removeFirstBoot, e, s => (if e.fault = none then { s with firstBoot := none } else s, ())
  | .mkdirTLS, e, s => (s, e.answer ())
  | .statTLS f, e, s => (s, e.fault = none ∧ (s.tls f).isSome)
  | .writeTLS f pem, e, s =>
    match e.fault with
    | some m => (s, .error (.text m))
    | none => ({ s with tls := Function.update s.tls f (some pem) }, .ok ())

abbrev Code := Prog Op Res

@[simp] def keysAdd (k : AuthorizedKey) : Code (Except Err Unit) := .call (.keysAdd k) .ret
@[simp] def keysGet (kid : String) : Code (Except Err AuthorizedKey) := .call (.keysGet kid) .ret
@[simp] def keysList : Code (Except Err (List AuthorizedKey)) := .call .keysList .ret
@[simp] def keysDelete (kid : String) : Code (Except Err Unit) := .call (.keysDelete kid) .ret
@[simp] def keysCount : Code (Except Err Nat) := .call .keysCount .ret
@[simp] def keysDeleteAll : Code (Except Err Unit) := .call .keysDeleteAll .ret
@[simp] def identityGet : Code (Except Err CapsuleIdentity) := .call .identityGet .ret
@[simp] def identityPut (id : CapsuleIdentity) : Code (Except Err Unit) :=
  .call (.identityPut id) .ret
@[simp] def claimOpen : Code Bool := .call .claimOpen .ret
@[simp] def claimClose : Code Unit := .call .claimClose .ret
@[simp] def seenOrAdd (jti : String) (exp : Int64) : Code Bool := .call (.seenOrAdd jti exp) .ret
@[simp] def sweep (n : Int64) : Code Unit := .call (.sweep n) .ret
@[simp] def now : Code Int64 := .call .now .ret
@[simp] def newUUID : Code String := .call .newUUID .ret
@[simp] def markAdopted : Code Unit := .call .markAdopted .ret
@[simp] def readFirstBoot : Code (Except Err (Option Bytes)) := .call .readFirstBoot .ret
@[simp] def renameFirstBoot : Code Unit := .call .renameFirstBoot .ret
@[simp] def removeFirstBoot : Code Unit := .call .removeFirstBoot .ret
@[simp] def mkdirTLS : Code (Except Err Unit) := .call .mkdirTLS .ret
@[simp] def statTLS (f : TLSFile) : Code Bool := .call (.statTLS f) .ret
@[simp] def writeTLS (f : TLSFile) (pem : String) : Code (Except Err Unit) :=
  .call (.writeTLS f pem) .ret

end Capsule.Identity
