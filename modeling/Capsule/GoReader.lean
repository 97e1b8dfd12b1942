import Capsule.Atomic.Steps

/-!
# Capsule.GoReader

Readers in the manner of Go's `io.Reader`. `read r n` is a `Read` with a buffer of length `n`: the
reader after it, the bytes it returned and an error.

`Serves` is what a reader owes: its bytes in order, and the error only after all of them.
`Serves.delivered` and `Serves.ends` say what any sequence of reads then gets, and that they come to
an end.
-/

namespace GoReader

open Atomic

variable {ρ ε : Type}

/-- What `Read` returned: the bytes in the buffer, and the error. -/
abbrev Result (ε : Type) := List UInt8 × Option ε

def bytes (out : List (Result ε)) : List UInt8 := (out.map Prod.fst).flatten

@[simp] theorem bytes_nil : bytes ([] : List (Result ε)) = [] := rfl

@[simp] theorem bytes_cons (x : Result ε) (out : List (Result ε)) :
    bytes (x :: out) = x.1 ++ bytes out := rfl

/-- A reader whose bytes to come are `rest`, with the error `fin` after them. A read that returns
no error makes progress, but may return no bytes. -/
def Serves (read : ρ → Nat → ρ × Result ε) (rest : ρ → List UInt8) (rank : ρ → Nat)
    (fin : ρ → ε) : Prop :=
  ∀ r n, 0 < n → (rest r = [] ∧ read r n = (r, [], some (fin r))) ∨
    ∃ b r', read r n = (r', b, none) ∧ b ++ rest r' = rest r ∧ rank r' < rank r ∧ fin r' = fin r

/-- The reads returned the payload from its start, and an error, which is `e`, only after all of
it. -/
structure Delivered (out : List (Result ε)) (payload : List UInt8) (e : ε) : Prop where
  start : bytes out <+: payload
  ended : ∀ k b e', out[k]? = some (b, some e') → e' = e ∧ b = [] ∧ bytes (out.take k) = payload

variable {read : ρ → Nat → ρ × Result ε} {rest : ρ → List UInt8} {rank : ρ → Nat} {fin : ρ → ε}

theorem Delivered.nil (payload : List UInt8) (e : ε) : Delivered [] payload e where
  start := List.nil_prefix
  ended k b e' h := by simp at h

theorem Delivered.data {out : List (Result ε)} {payload b : List UInt8} {e : ε}
    (h : Delivered out payload e) : Delivered ((b, none) :: out) (b ++ payload) e where
  start := (List.prefix_append_right_inj b).mpr h.start
  ended k c e' hk := by
    cases k with
    | zero => simp at hk
    | succ k =>
      obtain ⟨he, hc, hall⟩ := h.ended k c e' hk
      exact ⟨he, hc, by rw [List.take_succ_cons, bytes_cons, hall]⟩

theorem Delivered.error {out : List (Result ε)} {e : ε} (h : Delivered out [] e) :
    Delivered (([], some e) :: out) [] e where
  start := h.start
  ended k c e' hk := by
    cases k with
    | zero => cases hk; exact ⟨rfl, rfl, rfl⟩
    | succ k =>
      obtain ⟨he, hc, hall⟩ := h.ended k c e' hk
      exact ⟨he, hc, by rw [List.take_succ_cons, bytes_cons, hall]; rfl⟩

/-- The run lemma: reads with any buffers that are not empty. -/
theorem Serves.delivered (h : Serves read rest rank fin) {sizes : List Nat}
    (hsizes : ∀ n ∈ sizes, 0 < n) (r : ρ) :
    Delivered (outputs read r sizes) (rest r) (fin r) := by
  induction sizes generalizing r with
  | nil => exact .nil _ _
  | cons n sizes ih =>
    have ih := ih fun m hm => hsizes m (List.mem_cons_of_mem n hm)
    rw [outputs]
    rcases h r n (hsizes n List.mem_cons_self) with ⟨hnil, hread⟩ | ⟨b, r', hread, hb, -, hfin⟩
    · have hrest := ih r
      rw [hnil] at hrest ⊢
      rw [hread]
      exact hrest.error
    · rw [hread, ← hb, ← hfin]; exact (ih r').data

theorem Serves.ends (h : Serves read rest rank fin) {sizes : List Nat}
    (hsizes : ∀ n ∈ sizes, 0 < n) (r : ρ) (hlong : rank r < sizes.length) :
    ∃ (k : Nat) (b : List UInt8), (outputs read r sizes)[k]? = some (b, some (fin r)) := by
  induction sizes generalizing r with
  | nil => exact absurd hlong (Nat.not_lt_zero _)
  | cons n sizes ih =>
    have ih := ih fun m hm => hsizes m (List.mem_cons_of_mem n hm)
    rw [outputs]
    rcases h r n (hsizes n List.mem_cons_self) with ⟨-, hread⟩ | ⟨b, r', hread, -, hlt, hfin⟩
    · exact ⟨0, [], by rw [hread]; rfl⟩
    · have hlong' : rank r' < sizes.length := by
        rw [List.length_cons] at hlong; omega
      obtain ⟨k, c, hk⟩ := ih r' hlong'
      exact ⟨k + 1, c, by rw [hread, ← hfin]; exact hk⟩

/-- The reads of a reader whose bytes come in these pieces, the last together with the error. -/
def inPieces (pieces : List (List UInt8)) (last : List UInt8) (e : ε) : List (Result ε) :=
  pieces.map (fun p => (p, none)) ++ [(last, some e)]

@[simp] theorem inPieces_nil (last : List UInt8) (e : ε) : inPieces [] last e = [(last, some e)] :=
  rfl

@[simp] theorem inPieces_cons (p : List UInt8) (pieces : List (List UInt8)) (last : List UInt8)
    (e : ε) : inPieces (p :: pieces) last e = (p, none) :: inPieces pieces last e := rfl

end GoReader
