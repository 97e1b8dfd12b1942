import Capsule.GoSlice

/-!
# Capsule.Workloads.PrefixedWriter

`prefixedWriter` of `runtime/microvm/firecracker/driver.go`, which a VM's serial output goes
through. `buf` is appended to `tail` and `tail` is then overwritten from `buf`, and both can be
slices of one array.

* `Lines`: the lines of a text, and the unfinished one. `writeLines_spec` is the loop of a `Write`.
* `write_spec`, `writes_spec`: one write and any number of them, with what is held back.
* `writes_prefixed`: however a text is cut into writes, the console gets each line behind the
  prefix.
-/

namespace Capsule.Workloads.PrefixedWriter

open GoSlice (Heap Slice Valid)

abbrev Bytes := List UInt8

/-- The arrays, and what is held back. -/
structure State where
  heap : Heap UInt8
  tail : Slice

/-- The loop of `Write`: what `p.w` gets, call by call, and what is left of `buf`. -/
def writeLines (pre : Bytes) (h : Heap UInt8) : Nat → Slice → List Bytes × Slice
  | 0, buf => ([], buf)
  | fuel + 1, buf =>
    match (GoSlice.read h buf).findIdx? (· == 10) with
    | none => ([], buf)
    | some idx =>
      let r := writeLines pre h fuel (buf.from (idx + 1))
      (pre :: GoSlice.read h (buf.upTo (idx + 1)) :: r.1, r.2)

/-- `Write`, under its lock: the state after it, what `p.w` got and the count returned. -/
def write (grow : Nat → Nat → Nat) (pre : Bytes) (s : State) (b : Bytes) :
    State × List Bytes × Nat :=
  let (h, buf) := GoSlice.append grow s.heap s.tail b
  let (out, rest) := writeLines pre h buf.len buf
  let (h', tail) := GoSlice.append grow h (s.tail.upTo 0) (GoSlice.read h rest)
  (⟨h', tail⟩, out, b.length)

def writes (grow : Nat → Nat → Nat) (pre : Bytes) :
    State → List Bytes → State × List Bytes × List Nat
  | s, [] => (s, [], [])
  | s, b :: bs =>
    let (s, out, n) := write grow pre s b
    let (s, outs, ns) := writes grow pre s bs
    (s, out ++ outs, n :: ns)

/-- The lines of a text, each with its newline, and the unfinished one. -/
structure Lines (s : Bytes) (lines : List Bytes) (rest : Bytes) : Prop where
  eq : s = lines.flatten ++ rest
  line : ∀ l ∈ lines, ∃ body, l = body ++ [10] ∧ 10 ∉ body
  rest : 10 ∉ rest

theorem Lines.append {s b rest rest' : Bytes} {lines lines' : List Bytes} (h : Lines s lines rest)
    (h' : Lines (rest ++ b) lines' rest') : Lines (s ++ b) (lines ++ lines') rest' where
  eq := by rw [h.eq, List.append_assoc, h'.eq, List.flatten_append, List.append_assoc]
  line l hl := (List.mem_append.1 hl).elim (h.line l) (h'.line l)
  rest := h'.rest

theorem Lines.cons {body s rest : Bytes} {lines : List Bytes} (hbody : 10 ∉ body)
    (h : Lines s lines rest) : Lines (body ++ [10] ++ s) ((body ++ [10]) :: lines) rest where
  eq := by rw [h.eq, List.flatten_cons, ← List.append_assoc]
  line l hl := by
    obtain rfl | hl := List.mem_cons.1 hl
    · exact ⟨body, rfl, hbody⟩
    · exact h.line l hl
  rest := h.rest

/-- What `p.w` gets for some lines. -/
def prefixed (pre : Bytes) (lines : List Bytes) : List Bytes := lines.flatMap fun l => [pre, l]

theorem exists_line {s : Bytes} {i : Nat} (h : s.findIdx? (· == 10) = some i) :
    ∃ body, 10 ∉ body ∧ s.take (i + 1) = body ++ [10] := by
  obtain ⟨hi, hten, hbefore⟩ := List.findIdx?_eq_some_iff_getElem.1 h
  refine ⟨s.take i, ?_, ?_⟩
  · intro hmem
    obtain ⟨j, hj, heq⟩ := List.mem_take_iff_getElem.1 hmem
    exact hbefore j (by omega) (by simp [heq])
  · rw [List.take_succ_eq_append_getElem hi, beq_iff_eq.1 hten]

theorem writeLines_spec (pre : Bytes) {h : Heap UInt8} {fuel : Nat} {buf : Slice}
    (hbuf : Valid h buf) (hfuel : buf.len ≤ fuel) :
    ∃ lines, Lines (GoSlice.read h buf) lines (GoSlice.read h (writeLines pre h fuel buf).2) ∧
      (writeLines pre h fuel buf).1 = prefixed pre lines := by
  induction fuel generalizing buf with
  | zero =>
    have hnil : GoSlice.read h buf = [] := by
      rw [← List.length_eq_zero_iff, GoSlice.length_read hbuf]; omega
    exact ⟨[], ⟨rfl, by simp, by simp [writeLines, hnil]⟩, rfl⟩
  | succ fuel ih =>
    rw [writeLines]
    cases hidx : (GoSlice.read h buf).findIdx? (· == 10) with
    | none =>
      refine ⟨[], ⟨rfl, by simp, ?_⟩, rfl⟩
      intro hmem
      simpa using List.findIdx?_eq_none_iff.1 hidx 10 hmem
    | some i =>
      obtain ⟨body, hbody, hline⟩ := exists_line hidx
      have hi : i < buf.len := by
        rw [← GoSlice.length_read hbuf]
        exact (List.findIdx?_eq_some_iff_getElem.1 hidx).1
      obtain ⟨lines, hlines, hout⟩ := ih (hbuf.from (n := i + 1) hi) (by
        simp only [Slice.from]; omega)
      have hread : GoSlice.read h buf = body ++ [10] ++ GoSlice.read h (buf.from (i + 1)) := by
        rw [GoSlice.read_from, ← hline, List.take_append_drop]
      refine ⟨(body ++ [10]) :: lines, ?_, ?_⟩
      · rw [hread]; exact hlines.cons hbody
      · simp only [hout, prefixed, List.flatMap_cons, List.cons_append, List.nil_append]
        rw [GoSlice.read_upTo h hi, hline]

def Holds (s : State) (rest : Bytes) : Prop :=
  Valid s.heap s.tail ∧ GoSlice.read s.heap s.tail = rest

theorem write_spec (grow : Nat → Nat → Nat) (pre : Bytes) {s : State} {held : Bytes}
    (hs : Holds s held) (b : Bytes) :
    ∃ lines rest, Lines (held ++ b) lines rest ∧ Holds (write grow pre s b).1 rest ∧
      (write grow pre s b).2 = (prefixed pre lines, b.length) := by
  obtain ⟨hvalid, rfl⟩ := hs
  obtain ⟨hbuf, hread⟩ := GoSlice.append_spec grow hvalid b
  obtain ⟨lines, hlines, hout⟩ := writeLines_spec pre hbuf (Nat.le_refl _)
  -- `p.tail` still is a slice of the array that `buf` may have been appended in
  have htail := (hvalid.append grow b hvalid).upTo (Nat.zero_le _)
  obtain ⟨hvalid', hread'⟩ := GoSlice.append_spec grow htail _
  rw [hread] at hlines
  exact ⟨lines, _, hlines, ⟨hvalid', hread'⟩, Prod.ext hout rfl⟩

theorem writes_spec (grow : Nat → Nat → Nat) (pre : Bytes) {s : State} {held : Bytes}
    (hs : Holds s held) (hheld : 10 ∉ held) (bs : List Bytes) :
    ∃ lines rest, Lines (held ++ bs.flatten) lines rest ∧ Holds (writes grow pre s bs).1 rest ∧
      (writes grow pre s bs).2 = (prefixed pre lines, bs.map List.length) := by
  induction bs generalizing s held with
  | nil => exact ⟨[], held, ⟨by simp, by simp, hheld⟩, hs, rfl⟩
  | cons b bs ih =>
    obtain ⟨lines, rest, hlines, hholds, hout⟩ := write_spec grow pre hs b
    obtain ⟨lines', rest', hlines', hholds', hout'⟩ := ih hholds hlines.rest
    refine ⟨lines ++ lines', rest', ?_, hholds', ?_⟩
    · rw [List.flatten_cons, ← List.append_assoc]; exact hlines.append hlines'
    · simp [writes, hout, hout', prefixed]

/-- However a text is cut into writes, each reports its length, the console gets each line of the
text behind the prefix, and the unfinished one is held back. -/
theorem writes_prefixed (grow : Nat → Nat → Nat) (pre : Bytes) (h : Heap UInt8)
    (bs : List Bytes) :
    ∃ lines rest, Lines bs.flatten lines rest ∧
      (writes grow pre ⟨h, Slice.empty⟩ bs).2 = (prefixed pre lines, bs.map List.length) ∧
      GoSlice.read (writes grow pre ⟨h, Slice.empty⟩ bs).1.heap
        (writes grow pre ⟨h, Slice.empty⟩ bs).1.tail = rest := by
  have hempty : Holds ⟨h, Slice.empty⟩ [] :=
    ⟨GoSlice.valid_empty h, by simp [GoSlice.read, Slice.empty]⟩
  obtain ⟨lines, rest, hlines, hholds, hout⟩ := writes_spec grow pre hempty (by simp) bs
  exact ⟨lines, rest, hlines, hout, hholds.2⟩

end Capsule.Workloads.PrefixedWriter
