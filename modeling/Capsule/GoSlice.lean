import Mathlib.Data.List.Basic

/-!
# Capsule.GoSlice

Slices of Go, with the arrays they share. `append` writes into the array of its first argument
where the capacity allows it, so two slices of one array can see each other's writes.

`Valid` is a slice within its array. `append_spec`: the result of an `append` is valid and reads as
the slice and what was appended. Other slices of the array stay valid (`Valid.append`).
-/

namespace Capsule.GoSlice

variable {α : Type}

abbrev Heap (α : Type) := List (List α)

structure Slice where
  arr : Nat
  off : Nat
  len : Nat
  cap : Nat

def Slice.empty : Slice := ⟨0, 0, 0, 0⟩

/-- `s[:n]`. -/
def Slice.upTo (s : Slice) (n : Nat) : Slice := { s with len := n }

/-- `s[n:]`. -/
def Slice.from (s : Slice) (n : Nat) : Slice := ⟨s.arr, s.off + n, s.len - n, s.cap - n⟩

def array (h : Heap α) (i : Nat) : List α := h[i]?.getD []

def read (h : Heap α) (s : Slice) : List α := ((array h s.arr).drop s.off).take s.len

def Valid (h : Heap α) (s : Slice) : Prop :=
  s.len ≤ s.cap ∧ s.off + s.cap ≤ (array h s.arr).length

/-- `copy` into an array, from a place on. The values are read before any is written. -/
def overwrite (l : List α) (i : Nat) (xs : List α) : List α :=
  l.take i ++ xs ++ l.drop (i + xs.length)

/-- `append(s, xs...)`. How much more than needed a new array has is up to `grow`. -/
def append [Inhabited α] (grow : Nat → Nat → Nat) (h : Heap α) (s : Slice) (xs : List α) :
    Heap α × Slice :=
  let n := s.len + xs.length
  if n ≤ s.cap then
    (h.modify s.arr (overwrite · (s.off + s.len) xs), { s with len := n })
  else
    (h ++ [read h s ++ xs ++ List.replicate (grow s.cap n) default],
      ⟨h.length, 0, n, n + grow s.cap n⟩)

theorem length_overwrite {l : List α} {i : Nat} {xs : List α} (h : i + xs.length ≤ l.length) :
    (overwrite l i xs).length = l.length := by
  simp [overwrite]
  omega

theorem take_drop_overwrite {l : List α} {i n : Nat} (h : i + n ≤ l.length) (xs : List α) :
    ((overwrite l (i + n) xs).drop i).take (n + xs.length) = (l.drop i).take n ++ xs := by
  have hi : i ≤ (l.take (i + n)).length := by simp; omega
  have hn : ((l.drop i).take n).length = n := by simp; omega
  rw [overwrite, List.append_assoc, List.drop_append_of_le_length hi, List.drop_take,
    Nat.add_sub_cancel_left, ← List.append_assoc]
  exact List.take_left' (by rw [List.length_append, hn])

theorem valid_empty (h : Heap α) : Valid h Slice.empty := ⟨Nat.le_refl 0, Nat.zero_le _⟩

theorem Valid.upTo {h : Heap α} {s : Slice} (hs : Valid h s) {n : Nat} (hn : n ≤ s.cap) :
    Valid h (s.upTo n) := ⟨hn, hs.2⟩

theorem Valid.from {h : Heap α} {s : Slice} (hs : Valid h s) {n : Nat} (hn : n ≤ s.len) :
    Valid h (s.from n) := by
  obtain ⟨h₁, h₂⟩ := hs
  simp only [Valid, Slice.from]
  omega

theorem length_read {h : Heap α} {s : Slice} (hs : Valid h s) : (read h s).length = s.len := by
  obtain ⟨h₁, h₂⟩ := hs; simp [read]; omega

theorem read_upTo (h : Heap α) {s : Slice} {n : Nat} (hn : n ≤ s.len) :
    read h (s.upTo n) = (read h s).take n := by
  simp [read, Slice.upTo, List.take_take, hn]

theorem read_from (h : Heap α) (s : Slice) (n : Nat) : read h (s.from n) = (read h s).drop n := by
  simp [read, Slice.from, List.drop_take, List.drop_drop]

theorem array_modify_overwrite (h : Heap α) {i k : Nat} {xs : List α}
    (hk : k + xs.length ≤ (array h i).length) (j : Nat) :
    array (h.modify i (overwrite · k xs)) j =
      if i = j then overwrite (array h j) k xs else array h j := by
  unfold array at hk ⊢
  rw [List.getElem?_modify]
  split
  · rename_i hij
    subst hij
    cases hj : h[i]? with
    | some l => rfl
    | none =>
      obtain ⟨-, rfl⟩ : k = 0 ∧ xs = [] := by simpa [hj] using hk
      simp [overwrite]
  · rw [id_map']

section Append

variable [Inhabited α] (grow : Nat → Nat → Nat) {h : Heap α} {s : Slice} (hs : Valid h s)
include hs

theorem append_spec (xs : List α) :
    Valid (append grow h s xs).1 (append grow h s xs).2 ∧
      read (append grow h s xs).1 (append grow h s xs).2 = read h s ++ xs := by
  have hlen := length_read hs
  obtain ⟨h₁, h₂⟩ := hs
  unfold append
  simp only
  split
  · rename_i hfit
    have hk : s.off + s.len + xs.length ≤ (array h s.arr).length := by omega
    have harr := array_modify_overwrite h hk s.arr
    rw [if_pos rfl] at harr
    refine ⟨⟨hfit, by rw [harr, length_overwrite hk]; exact h₂⟩, ?_⟩
    rw [read, harr]
    exact take_drop_overwrite (show s.off + s.len ≤ _ by omega) xs
  · constructor
    · simp [Valid, array, hlen, Nat.add_assoc]
    · have harr : array (h ++ [read h s ++ xs ++ List.replicate (grow s.cap (s.len + xs.length))
          default]) h.length = read h s ++ xs ++ List.replicate (grow s.cap (s.len + xs.length))
          default := by simp [array]
      rw [read, harr, List.drop_zero, List.take_append_of_le_length (by simp [hlen]),
        List.take_of_length_le (by simp [hlen])]

theorem Valid.append (xs : List α) {t : Slice} (ht : Valid h t) :
    Valid (append grow h s xs).1 t := by
  refine ⟨ht.1, Nat.le_trans ht.2 ?_⟩
  unfold GoSlice.append
  simp only
  split
  · rename_i hfit
    have hk : s.off + s.len + xs.length ≤ (array h s.arr).length := by have := hs.2; omega
    rw [array_modify_overwrite h hk]
    split
    · rename_i heq; exact Nat.le_of_eq (length_overwrite (heq ▸ hk)).symm
    · exact Nat.le_refl _
  · unfold array
    rw [List.getElem?_append]
    split
    · exact Nat.le_refl _
    · rename_i hout; simp [List.getElem?_eq_none (Nat.le_of_not_lt hout)]

end Append

end Capsule.GoSlice
