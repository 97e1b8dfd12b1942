import Mathlib.Data.List.Basic

/-!
# Capsule.Buffer

Byte buffers that are filled piece by piece, and the little-endian encoding of 32-bit words.
-/

namespace Buffer

section Pieces

variable {α : Type}

/-- `copy(b[off:], d)`, for a piece that begins inside the buffer. -/
def put (b : List α) (off : Nat) (d : List α) : List α :=
  b.take off ++ (d ++ b.drop (off + d.length))

/-- `b[off : off+n]`, shorter where the buffer ends. -/
def slice (b : List α) (off n : Nat) : List α := (b.drop off).take n

variable {b d : List α} {off o n i : Nat}

theorem getElem?_put_before (h : i < off) (hb : off ≤ b.length) : (put b off d)[i]? = b[i]? := by
  have hlen : (b.take off).length = off := List.length_take_of_le hb
  rw [put, List.getElem?_append_left (by omega), List.getElem?_take_of_lt h]

theorem getElem?_put_inside (h : i < d.length) (hb : off ≤ b.length) :
    (put b off d)[off + i]? = d[i]? := by
  have hlen : (b.take off).length = off := List.length_take_of_le hb
  rw [put, List.getElem?_append_right (by omega), hlen, Nat.add_sub_cancel_left,
    List.getElem?_append_left h]

theorem getElem?_put_after (h : off + d.length ≤ i) (hb : off ≤ b.length) :
    (put b off d)[i]? = b[i]? := by
  have hlen : (b.take off).length = off := List.length_take_of_le hb
  rw [put, List.getElem?_append_right (by omega), hlen, List.getElem?_append_right (by omega),
    List.getElem?_drop]
  congr 1
  omega

@[simp] theorem length_put (h : off + d.length ≤ b.length) : (put b off d).length = b.length := by
  simp only [put, List.length_append, List.length_take, List.length_drop]; omega

@[simp] theorem put_nil : put b off [] = b := by
  rw [put, List.nil_append, List.length_nil, Nat.add_zero, List.take_append_drop]

theorem getElem?_slice (h : i < n) : (slice b o n)[i]? = b[o + i]? := by
  rw [slice, List.getElem?_take_of_lt h, List.getElem?_drop]

theorem length_slice_le : (slice b o n).length ≤ n := List.length_take_le _ _

theorem length_slice : (slice b o n).length = min n (b.length - o) := by
  rw [slice, List.length_take, List.length_drop]

theorem slice_length : slice b o (slice b o n).length = slice b o n := by
  rw [length_slice, slice, slice, ← List.length_drop, ← List.take_eq_take_min]

theorem slice_append {k : Nat} : slice b o n ++ slice b (o + n) k = slice b o (n + k) := by
  rw [slice, slice, slice, List.take_add, List.drop_drop]

theorem slice_congr {e : List α} {o' : Nat} (h : ∀ i < n, b[o + i]? = e[o' + i]?) :
    slice b o n = slice e o' n := by
  apply List.ext_getElem?
  intro i
  by_cases hi : i < n
  · rw [getElem?_slice hi, getElem?_slice hi, h i hi]
  · have hn : n ≤ i := Nat.le_of_not_lt hi
    rw [List.getElem?_eq_none (Nat.le_trans length_slice_le hn),
      List.getElem?_eq_none (Nat.le_trans length_slice_le hn)]

theorem slice_put_inside (hb : off ≤ b.length) (h : o + n ≤ d.length) :
    slice (put b off d) (off + o) n = slice d o n := by
  refine slice_congr fun i hi => ?_
  rw [Nat.add_assoc, getElem?_put_inside (by omega) hb]

theorem slice_put_ne (hb : off ≤ b.length) (h : o + n ≤ off ∨ off + d.length ≤ o) :
    slice (put b off d) o n = slice b o n := by
  refine slice_congr fun i hi => ?_
  rcases h with h | h
  · exact getElem?_put_before (by omega) hb
  · exact getElem?_put_after (by omega) hb

theorem put_put_append {e : List α} (hb : off + d.length ≤ b.length) :
    put (put b off d) (off + d.length) e = put b off (d ++ e) := by
  have hlen : (b.take off).length = off := List.length_take_of_le (by omega)
  have htake : (put b off d).take (off + d.length) = b.take off ++ d := by
    rw [put, ← List.append_assoc]
    exact List.take_left' (by rw [List.length_append, hlen])
  have hdrop : (put b off d).drop (off + d.length + e.length) =
      b.drop (off + (d ++ e).length) := by
    apply List.ext_getElem?
    intro i
    rw [List.getElem?_drop, getElem?_put_after (by omega) (by omega), List.getElem?_drop,
      List.length_append, Nat.add_assoc off]
  rw [put, htake, hdrop, put]
  simp only [List.append_assoc]

theorem put_succ {a : α} (h : b[off]? = some a) : put b (off + 1) d = put b off (a :: d) := by
  have htake : b.take (off + 1) = b.take off ++ [a] := by
    rw [List.take_add_one, h]; rfl
  rw [put, put, htake, List.length_cons, Nat.add_assoc, Nat.add_comm 1]
  simp

end Pieces

def putUint32 (v : UInt32) : List UInt8 :=
  [v.toUInt8, (v >>> 8).toUInt8, (v >>> 16).toUInt8, (v >>> 24).toUInt8]

def uint32 (b0 b1 b2 b3 : UInt8) : UInt32 :=
  b0.toUInt32 ||| b1.toUInt32 <<< 8 ||| b2.toUInt32 <<< 16 ||| b3.toUInt32 <<< 24

theorem uint32_putUint32 (v : UInt32) :
    uint32 v.toUInt8 (v >>> 8).toUInt8 (v >>> 16).toUInt8 (v >>> 24).toUInt8 = v := by
  apply UInt32.toBitVec_inj.mp
  simp only [uint32, UInt32.toBitVec_or, UInt32.toBitVec_shiftLeft, UInt8.toBitVec_toUInt32,
    UInt32.toBitVec_toUInt8, UInt32.toBitVec_shiftRight]
  -- bit by bit: bit `i` of the word is bit `i % 8` of byte `i / 8`
  ext i hi
  rw [← BitVec.getLsbD_eq_getElem]
  simp [BitVec.getLsbD_eq_getElem hi]
  grind

end Buffer
