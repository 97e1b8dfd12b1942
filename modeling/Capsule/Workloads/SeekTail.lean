import Capsule.Store.Types

/-!
# Capsule.Workloads.SeekTail

`seekTail` of the workload controller, which places a log file before its last lines: it reads the
file backwards in blocks of 4096 bytes and counts newlines until there is one more than the lines
wanted.

`scanBlock_spec` is the inner loop, from the end of a block down, and `scanFile_spec` the outer one,
with the count as it is carried from block to block. `seekTail_finds`: the next read starts after
the newline that `n` others follow, or at the start of the file, wherever the blocks lie.
-/

namespace Capsule.Workloads.SeekTail

/-- An open file: its offset, and what the calls on it return. -/
structure File where
  pos : Nat
  stat : Except Err Nat
  /-- `ReadAt` of a buffer of length `n`, which it fills or fails. -/
  readAt : (n off : Nat) → Except Err Bytes
  /-- `Seek` from the start: the new offset. -/
  seek : Nat → Except Err Nat

/-- A regular file that has just been opened. -/
def File.opened (content : Bytes) : File where
  pos := 0
  stat := .ok content.length
  readAt n off := .ok ((content.drop off).take n)
  seek off := .ok off

def newline : UInt8 := 10

def block : Nat := 4096

/-- The inner loop, from index `i - 1` down: the index at which the count is complete, or the count
when the block has been scanned. -/
def scanBlock (buf : Bytes) (want : Int) : (i found : Nat) → Nat ⊕ Nat
  | 0, found => .inr found
  | i + 1, found =>
    if buf[i]? = some newline then
      if (found + 1 : Int) = want then .inl i else scanBlock buf want i (found + 1)
    else scanBlock buf want i found

/-- The outer loop. Each round lowers `off`, so `fuel` lasts as long as it is at least `off`. -/
def scanFile (f : File) (want : Int) : (fuel off found : Nat) → Except Err Nat
  | 0, _, _ => f.seek 0
  | fuel + 1, off, found =>
    if off = 0 then f.seek 0
    else
      let chunk := min off block
      match f.readAt chunk (off - chunk) with
      | .error e => .error e
      | .ok buf =>
        match scanBlock buf want chunk found with
        | .inl i => f.seek (off - chunk + i + 1)
        | .inr found => scanFile f want fuel (off - chunk) found

/-- `seekTail`: the offset of the next read. -/
def seekTail (f : File) (lines : Int) : Except Err Nat :=
  match f.stat with
  | .error e => .error e
  | .ok size =>
    if size = 0 ∨ lines ≤ 0 then .ok f.pos
    else scanFile f (lines + 1) size size 0

variable {content : Bytes} {n : Nat}

theorem count_drop_of_newline {k : Nat} (h : content[k]? = some newline) :
    (content.drop k).count newline = (content.drop (k + 1)).count newline + 1 := by
  obtain ⟨hlt, hk⟩ := List.getElem?_eq_some_iff.mp h
  rw [List.drop_eq_getElem_cons hlt, hk, List.count_cons_self]

theorem count_drop_of_other {k : Nat} (h : content[k]? ≠ some newline) :
    (content.drop k).count newline = (content.drop (k + 1)).count newline := by
  by_cases hlt : k < content.length
  · have hk : content[k] ≠ newline := fun he => h (List.getElem?_eq_some_iff.mpr ⟨hlt, he⟩)
    rw [List.drop_eq_getElem_cons hlt, List.count_cons_of_ne hk]
  · rw [List.drop_eq_nil_of_le (by omega), List.drop_eq_nil_of_le (by omega)]

/-- `p` is the place after the newline that `n` others follow. -/
def AfterNewline (content : Bytes) (n p : Nat) : Prop :=
  ∃ k, p = k + 1 ∧ content[k]? = some newline ∧ (content.drop p).count newline = n

theorem scanBlock_spec {buf : Bytes} {base i found : Nat}
    (hbuf : ∀ j, j < i → buf[j]? = content[base + j]?)
    (hcount : (content.drop (base + i)).count newline = found) (hle : found ≤ n) :
    (∀ j, scanBlock buf (n + 1) i found = .inl j → AfterNewline content n (base + j + 1)) ∧
      ∀ m, scanBlock buf (n + 1) i found = .inr m →
        (content.drop base).count newline = m ∧ m ≤ n := by
  induction i generalizing found with
  | zero =>
    refine ⟨fun j h => by simp [scanBlock] at h, ?_⟩
    intro m h
    cases h
    exact ⟨hcount, hle⟩
  | succ i ih =>
    have hbuf' : ∀ j, j < i → buf[j]? = content[base + j]? := fun j hj => hbuf j (by omega)
    rw [← Nat.add_assoc] at hcount
    rw [scanBlock, hbuf i (by omega)]
    by_cases hnl : content[base + i]? = some newline
    · have hdrop := count_drop_of_newline hnl
      rw [if_pos hnl]
      by_cases hwant : found = n
      · -- the newline that completes the count
        rw [if_pos (by omega)]
        refine ⟨?_, fun m h => by cases h⟩
        intro j h
        cases h
        exact ⟨base + i, rfl, hnl, hcount.trans hwant⟩
      · rw [if_neg (by omega)]
        exact ih hbuf' (by omega) (by omega)
    · rw [if_neg hnl]; exact ih hbuf' ((count_drop_of_other hnl).trans hcount) hle

/-- The run lemma: `off` and `found` as the loop has them. -/
theorem scanFile_spec {fuel off found : Nat} (hfuel : off ≤ fuel) (hoff : off ≤ content.length)
    (hcount : (content.drop off).count newline = found) (hle : found ≤ n) :
    ∃ p, scanFile (.opened content) (n + 1) fuel off found = .ok p ∧
      (AfterNewline content n p ∨ p = 0 ∧ content.count newline ≤ n) := by
  induction fuel generalizing off found with
  | zero =>
    obtain rfl : off = 0 := by omega
    exact ⟨0, rfl, .inr ⟨rfl, hcount ▸ hle⟩⟩
  | succ fuel ih =>
    rw [scanFile]
    by_cases h0 : off = 0
    · subst h0; exact ⟨0, rfl, .inr ⟨rfl, hcount ▸ hle⟩⟩
    · rw [if_neg h0]
      have hmin : min off block ≤ off ∧ 0 < min off block := by
        simp only [block]; omega
      generalize min off block = chunk at hmin ⊢
      have hbuf : ∀ j, j < chunk →
          ((content.drop (off - chunk)).take chunk)[j]? = content[off - chunk + j]? := by
        intro j hj
        rw [List.getElem?_take_of_lt hj, List.getElem?_drop]
      have hend : off - chunk + chunk = off := by omega
      obtain ⟨hfound, hrest⟩ := scanBlock_spec hbuf (hend.symm ▸ hcount) hle
      simp only [File.opened] at hfound hrest ⊢
      cases hscan : scanBlock ((content.drop (off - chunk)).take chunk) (n + 1) chunk found with
      | inl i => exact ⟨_, rfl, .inl (hfound i hscan)⟩
      | inr m => obtain ⟨hm, hmn⟩ := hrest m hscan; exact ih (by omega) (by omega) hm hmn

theorem AfterNewline.lt_count {p : Nat} (h : AfterNewline content n p) :
    n < content.count newline := by
  obtain ⟨k, rfl, hk, hcount⟩ := h
  have hle := (List.drop_sublist k content).count_le newline
  rw [count_drop_of_newline hk, hcount] at hle
  exact hle

/-- The next read starts after the newline that `n` others follow if there is one, and at the start
of the file otherwise; where the blocks lie does not matter. -/
theorem seekTail_finds (content : Bytes) (n : Nat) (hn : 1 ≤ n) :
    ∃ p, seekTail (.opened content) n = .ok p ∧
      (n + 1 ≤ content.count newline → AfterNewline content n p) ∧
      (content.count newline ≤ n → p = 0) := by
  by_cases hempty : content = []
  · subst hempty; exact ⟨0, rfl, fun h => absurd h (by simp), fun _ => rfl⟩
  · have hend : (content.drop content.length).count newline = 0 := by simp
    obtain ⟨p, hp, hplace⟩ := scanFile_spec (Nat.le_refl _) (Nat.le_refl _) hend (Nat.zero_le n)
    have hsize : ¬ (content.length = 0 ∨ (n : Int) ≤ 0) := by
      rintro (h | h)
      · exact hempty (List.length_eq_zero_iff.mp h)
      · omega
    refine ⟨p, (if_neg hsize).trans hp, ?_, ?_⟩
    · intro hmany; exact hplace.resolve_right (by omega)
    · intro hfew
      rcases hplace with hafter | ⟨hzero, -⟩
      · exact absurd hafter.lt_count (by omega)
      · exact hzero

/-- Three lines, the last without its newline. -/
theorem seekTail_finds_short :
    ∃ p, seekTail (.opened [97, 10, 98, 10, 99]) (1 : Nat) = .ok p ∧
      AfterNewline [97, 10, 98, 10, 99] 1 p := by
  obtain ⟨p, hp, hmany, -⟩ := seekTail_finds [97, 10, 98, 10, 99] 1 (by decide)
  exact ⟨p, hp, hmany (by decide)⟩

end Capsule.Workloads.SeekTail
