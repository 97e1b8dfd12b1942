import Mathlib.Data.Int.Order.Lemmas

/-!
# Capsule.GoInt64

Go's `int64` where it does not overflow: the operations are those of the integers.
-/

namespace GoInt64

variable {a b : Int64}

theorem toInt_add_of_lt (hb : 0 ≤ b.toInt) (h : a.toInt + b.toInt < 2 ^ 63) :
    (a + b).toInt = a.toInt + b.toInt := by
  have hlo := a.le_toInt
  rw [Int64.toInt_add, Int.bmod_eq_of_le (by omega) (by omega)]

theorem toInt_div_of_nonneg (ha : 0 ≤ a.toInt) (hb : 0 ≤ b.toInt) :
    (a / b).toInt = a.toInt / b.toInt := by
  have hhi := a.toInt_lt
  have hle := Int.ediv_le_self b.toInt ha
  have hnonneg := Int.ediv_nonneg ha hb
  rw [Int64.toInt_div, Int.tdiv_eq_ediv_of_nonneg ha, Int.bmod_eq_of_le (by omega) (by omega)]

theorem toInt_mul_of_lt (hnonneg : 0 ≤ a.toInt * b.toInt) (h : a.toInt * b.toInt < 2 ^ 63) :
    (a * b).toInt = a.toInt * b.toInt := by
  rw [Int64.toInt_mul, Int.bmod_eq_of_le (by omega) (by omega)]

theorem toInt_min (a b : Int64) : (min a b).toInt = min a.toInt b.toInt := by
  have hmin : min a b = if a ≤ b then a else b := rfl
  have hle : a ≤ b ↔ a.toInt ≤ b.toInt := Int64.le_iff_toInt_le
  rw [hmin]
  split
  · rename_i h; exact (Int.min_eq_left (hle.mp h)).symm
  · rename_i h; rw [hle] at h; exact (Int.min_eq_right (by omega)).symm

end GoInt64
