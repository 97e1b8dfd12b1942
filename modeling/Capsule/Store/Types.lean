import Mathlib.Data.List.Basic

/-!
# Capsule.Store.Types

The records of package `store` and the errors the code passes around.
-/

namespace Capsule

abbrev Bytes := List UInt8

/-- Errors compared with `errors.Is`. -/
inductive Sentinel where
  | notFound          -- store.ErrNotFound
  | conflict          -- store.ErrConflict
  | noPending         -- update.ErrNoPending
  | slotMismatch      -- update.ErrSlotMismatch
  | checksumMismatch  -- update.ErrChecksumMismatch
  | bundleTooLarge    -- update.ErrBundleTooLarge
  | noRuntime         -- workload.ErrNoRuntime
  deriving DecidableEq, Repr

def Sentinel.text : Sentinel → String
  | .notFound => "store: not found"
  | .conflict => "store: conflict"
  | .noPending => "update: no pending slot"
  | .slotMismatch => "update: active slot does not match pending slot"
  | .checksumMismatch => "update: bundle sha256 mismatch"
  | .bundleTooLarge => "update: bundle too large for slot"
  | .noRuntime => "no runtime driver configured"

/-- A Go error: a sentinel, a plain text, or an error wrapped by `fmt.Errorf` with `%w`
between the texts `pre` and `post`. -/
inductive Err where
  | sentinel (s : Sentinel)
  | text (msg : String)
  | wrap (pre : String) (e : Err) (post : String)
  deriving DecidableEq, Repr

namespace Err

def msg : Err → String
  | .sentinel s => s.text
  | .text m => m
  | .wrap pre e post => pre ++ e.msg ++ post

def is : Err → Sentinel → Bool
  | .sentinel s, t => s = t
  | .text _, _ => false
  | .wrap _ e _, t => e.is t

/-- `fmt.Errorf("ctx: %w", err)`. -/
def ctx (c : String) (e : Err) : Err := .wrap (c ++ ": ") e ""

end Err

inductive Slot where
  | a
  | b
  deriving DecidableEq, Repr

/-- `store.OSState`, the singleton row of A/B bookkeeping. -/
structure OSState where
  activeSlot : Slot
  pendingSlot : Option Slot
  pendingDeadlineUnix : Int
  lastGoodSlot : Slot
  lastVersion : Bytes
  deriving DecidableEq, Repr

/-- `store.CapsuleIdentity`, a singleton row. -/
structure CapsuleIdentity where
  capsuleID : String
  shortID : String
  createdAtUnix : Int64
  adoptedAtUnix : Int64
  adoptedByKid : String
  deriving DecidableEq

structure AuthorizedKey where
  kid : String
  pubkey : Bytes
  name : String
  /-- Empty for the bootstrap key. -/
  addedByKid : String
  addedAtUnix : Int64
  deriving DecidableEq

/-- The gRPC codes the modelled handlers answer with. -/
inductive StatusCode where
  | invalidArgument
  | failedPrecondition
  | unauthenticated
  | alreadyExists
  | internal
  | unimplemented
  deriving DecidableEq, Repr

structure Status where
  code : StatusCode
  msg : String
  deriving DecidableEq, Repr

end Capsule
