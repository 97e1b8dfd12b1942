/-!
# Capsule.Atomic.Wire

Messages from one party to another over a connection that may break. `cut` drops what is under way
but for the messages that still arrive; `recv_cases` is everything the receiver can get: a message,
the sender's end, or the break.
-/

namespace Atomic

/-- `queue` is under way, `ended` is how the sender ended. -/
structure Wire (μ τ : Type) where
  queue : List μ := []
  ended : Option τ := none
  broken : Bool := false

/-- What the receiver gets. -/
inductive Received (μ τ : Type) where
  | msg (m : μ)
  | ended (t : τ)
  | failed

namespace Wire

variable {μ τ : Type}

def send (s : Wire μ τ) (m : μ) : Wire μ τ := { s with queue := s.queue ++ [m] }

def finish (s : Wire μ τ) (t : τ) : Wire μ τ := { s with ended := some t }

/-- The connection breaks; the first `kept` messages still arrive. -/
def cut (s : Wire μ τ) (kept : Nat) : Wire μ τ :=
  { s with queue := s.queue.take kept, broken := true }

/-- `none`: the receiver waits. -/
def recv (s : Wire μ τ) : Option (Received μ τ × Wire μ τ) :=
  match s.queue with
  | m :: q => some (.msg m, { s with queue := q })
  | [] => if s.broken then some (.failed, s) else s.ended.map fun t => (.ended t, s)

variable {s s' : Wire μ τ} {r : Received μ τ}

/-- Everything the receiver can get. -/
theorem recv_cases (h : s.recv = some (r, s')) :
    (∃ m q, r = .msg m ∧ s.queue = m :: q ∧ s' = { s with queue := q }) ∨
      (r = .failed ∧ s.queue = [] ∧ s.broken = true ∧ s' = s) ∨
      ∃ t, r = .ended t ∧ s.queue = [] ∧ s.broken = false ∧ s.ended = some t ∧ s' = s := by
  unfold recv at h
  split at h
  · rename_i m q hq; cases h; exact .inl ⟨m, q, rfl, hq, rfl⟩
  · rename_i hq
    split at h
    · rename_i hbroken; cases h; exact .inr (.inl ⟨rfl, hq, hbroken, rfl⟩)
    · rename_i hbroken
      obtain ⟨t, ht, hr⟩ := Option.map_eq_some_iff.mp h
      cases hr
      exact .inr (.inr ⟨t, rfl, hq, Bool.eq_false_iff.mpr hbroken, ht, rfl⟩)

end Wire

end Atomic
