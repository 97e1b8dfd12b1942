import Mathlib.Data.Nat.Digits.Defs

/-!
# Capsule.GoString

Go's `strings` and `strconv` functions on byte strings, as far as the modelled code calls them.

* `trimSpace`, `fields`, `cut`, `equalFold`: of `strings`. `trimSpace_split` says what is trimmed.
* `atoi`, `parseUint`, `itoa`: of `strconv`. `atoi_itoa` and `parseUint_digits` are the round trips.
* `utf8`, `ofBytes`: between Lean's strings and bytes (`toBytes_ofBytes`).
-/

namespace GoString

/-- The UTF-8 encodings of the code points `unicode.IsSpace` accepts. -/
def spaces : List (List UInt8) :=
  [[9], [10], [11], [12], [13], [32], [0xC2, 0x85], [0xC2, 0xA0], [0xE1, 0x9A, 0x80],
   [0xE2, 0x80, 0x80], [0xE2, 0x80, 0x81], [0xE2, 0x80, 0x82], [0xE2, 0x80, 0x83],
   [0xE2, 0x80, 0x84], [0xE2, 0x80, 0x85], [0xE2, 0x80, 0x86], [0xE2, 0x80, 0x87],
   [0xE2, 0x80, 0x88], [0xE2, 0x80, 0x89], [0xE2, 0x80, 0x8A], [0xE2, 0x80, 0xA8],
   [0xE2, 0x80, 0xA9], [0xE2, 0x80, 0xAF], [0xE2, 0x81, 0x9F], [0xE3, 0x80, 0x80]]

/-- Drop leading occurrences of `pats`, at most `fuel` of them. -/
def dropSpaces (pats : List (List UInt8)) : Nat → List UInt8 → List UInt8
  | 0, s => s
  | fuel + 1, s =>
    match pats.find? (·.isPrefixOf s) with
    | none => s
    | some p => dropSpaces pats fuel (s.drop p.length)

def trimSpace (s : List UInt8) : List UInt8 :=
  let l := dropSpaces spaces s.length s
  (dropSpaces (spaces.map List.reverse) l.length l.reverse).reverse

/-- The ASCII lower case of a byte. -/
def lower (b : UInt8) : UInt8 := if 65 ≤ b ∧ b ≤ 90 then b + 32 else b

/-- `strings.EqualFold` against a text without `k` and `s`, the two letters that also fold to
code points outside ASCII. -/
def equalFold (s t : List UInt8) : Bool := s.map lower = t.map lower

/-- `strings.Cut` at a separator of one byte. -/
def cut (sep : UInt8) (s : List UInt8) : Option (List UInt8 × List UInt8) :=
  if sep ∈ s then some (s.takeWhile (· ≠ sep), (s.dropWhile (· ≠ sep)).tail) else none

def digit (d : Nat) : UInt8 := .ofNat (48 + d)

/-- `%d` of a natural number. -/
def digits (n : Nat) : List UInt8 :=
  if n = 0 then [48] else ((Nat.digits 10 n).map digit).reverse

/-- `%d`. -/
def itoa : Int → List UInt8
  | .ofNat n => digits n
  | .negSucc n => 45 :: digits (n + 1)

def isDigit (b : UInt8) : Bool := 48 ≤ b ∧ b ≤ 57

/-- The number some decimal digits stand for. -/
def parseDigits (s : List UInt8) : Option Nat :=
  if s ≠ [] ∧ s.all isDigit then some (Nat.ofDigits 10 (s.reverse.map fun b => b.toNat - 48))
  else none

/-- The value, if Go's `int` holds it. -/
def inInt (n : Int) : Option Int := if -2 ^ 63 ≤ n ∧ n < 2 ^ 63 then some n else none

def atoi : List UInt8 → Option Int
  | 45 :: s => (parseDigits s).bind fun n => inInt (-n)
  | 43 :: s => (parseDigits s).bind fun n => inInt n
  | s => (parseDigits s).bind fun n => inInt n

/-- `strconv.ParseUint` in base 10 for 64 bits; otherwise what the error says of the text. -/
def parseUint (s : List UInt8) : Except String Nat :=
  match parseDigits s with
  | none => .error "invalid syntax"
  | some n => if n < 2 ^ 64 then .ok n else .error "value out of range"

/-- The bytes of a text in the source. -/
def utf8 (s : String) : List UInt8 := s.toUTF8.data.toList

def cutPrefix (pre s : List UInt8) : Option (List UInt8) :=
  if pre.isPrefixOf s then some (s.drop pre.length) else none

/-- The field read so far, if there is one. -/
def emit (field : List UInt8) : List (List UInt8) := if field = [] then [] else [field.reverse]

/-- `strings.Fields` of what is left, with the field read so far, its last byte first. -/
def fieldsFrom : Nat → List UInt8 → List UInt8 → List (List UInt8)
  | 0, field, _ => emit field
  | _ + 1, field, [] => emit field
  | fuel + 1, field, b :: s =>
    match spaces.find? (·.isPrefixOf (b :: s)) with
    | some p => emit field ++ fieldsFrom fuel [] ((b :: s).drop p.length)
    | none => fieldsFrom fuel (b :: field) s

def fields (s : List UInt8) : List (List UInt8) := fieldsFrom (s.length + 1) [] s

def hexDigit (d : UInt8) : UInt8 := if d < 10 then 48 + d else 87 + d

/-- `%02x` of a byte. -/
def hexByte (b : UInt8) : List UInt8 := [hexDigit (b >>> 4), hexDigit (b &&& 15)]

def hasInfix (pat : List Char) : List Char → Bool
  | [] => pat.isEmpty
  | c :: cs => pat.isPrefixOf (c :: cs) || hasInfix pat cs

def contains (s pat : String) : Bool := hasInfix pat.toList s.toList

/-- `%q` of a text of printable characters. -/
def quote (s : String) : String := "\"" ++ s ++ "\""

theorem not_mem_of_mem_splitOn {sep : UInt8} {s part : List UInt8} (h : part ∈ s.splitOn sep) :
    sep ∉ part := by
  rw [List.splitOn_eq_splitOnP] at h
  induction s generalizing part with
  | nil => rw [List.splitOnP_nil, List.mem_singleton] at h; rw [h]; exact List.not_mem_nil
  | cons b s ih =>
    rw [List.splitOnP_cons_eq_if_modifyHead] at h
    split at h
    · rcases List.mem_cons.mp h with rfl | h
      · exact List.not_mem_nil
      · exact ih h
    · rename_i hb
      obtain ⟨p, ps, hps⟩ := List.exists_cons_of_ne_nil (List.splitOnP_ne_nil (· == sep) s)
      rw [hps] at ih
      rw [hps, List.modifyHead_cons] at h
      rcases List.mem_cons.mp h with rfl | h
      · refine List.not_mem_cons_of_ne_of_not_mem ?_ (ih List.mem_cons_self)
        rintro rfl
        exact hb (beq_self_eq_true sep)
      · exact ih (List.mem_cons_of_mem p h)

theorem mem_digits {n : Nat} {b : UInt8} (hb : b ∈ digits n) : ∃ d < 10, b = digit d := by
  unfold digits at hb
  split at hb
  · exact ⟨0, by decide, List.mem_singleton.mp hb⟩
  · rw [List.mem_reverse, List.mem_map] at hb
    obtain ⟨d, hd, rfl⟩ := hb
    exact ⟨d, Nat.digits_lt_base (by decide) hd, rfl⟩

theorem digit_range {d : Nat} (hd : d < 10) : isDigit (digit d) ∧ (digit d).toNat - 48 = d := by
  decide +revert

theorem digits_ne_nil (n : Nat) : digits n ≠ [] := by
  unfold digits
  split
  · exact List.cons_ne_nil _ _
  · rename_i hn
    intro h
    rw [List.reverse_eq_nil_iff, List.map_eq_nil_iff, Nat.digits_eq_nil_iff_eq_zero] at h
    exact hn h

theorem isDigit_of_mem_digits {n : Nat} {b : UInt8} (hb : b ∈ digits n) : isDigit b := by
  obtain ⟨d, hd, rfl⟩ := mem_digits hb; exact (digit_range hd).1

theorem parseDigits_digits (n : Nat) : parseDigits (digits n) = some n := by
  have hall : (digits n).all isDigit := List.all_eq_true.mpr fun b => isDigit_of_mem_digits
  rw [parseDigits, if_pos ⟨digits_ne_nil n, hall⟩]
  congr 1
  unfold digits
  split
  · rename_i hn; subst hn; decide
  · have hback : ∀ d ∈ Nat.digits 10 n, ((fun b : UInt8 => b.toNat - 48) ∘ digit) d = d :=
      fun d hd => (digit_range (Nat.digits_lt_base (by decide) hd)).2
    rw [List.reverse_reverse, List.map_map, List.map_congr_left hback, List.map_id']
    exact Nat.ofDigits_digits 10 n

theorem parseDigits_of_parseUint {s : List UInt8} {n : Nat} (h : parseUint s = .ok n) :
    parseDigits s = some n := by
  rw [parseUint] at h
  split at h
  · cases h
  · split at h
    · cases h; assumption
    · cases h

theorem parseUint_digits {n : Nat} (hn : n < 2 ^ 64) : parseUint (digits n) = .ok n := by
  rw [parseUint, parseDigits_digits]; exact if_pos hn

theorem atoi_of_digit {b : UInt8} {s : List UInt8} (hb : isDigit b) :
    atoi (b :: s) = (parseDigits (b :: s)).bind fun n => inInt n := by
  unfold atoi
  split
  · rename_i h; cases h; exact absurd hb (by decide)
  · rename_i h; cases h; exact absurd hb (by decide)
  · rfl

theorem atoi_itoa {n : Int} (hn : inInt n = some n) : atoi (itoa n) = some n := by
  cases n with
  | ofNat n =>
    have hparse := parseDigits_digits n
    have hdig : ∀ b ∈ digits n, isDigit b := fun b => isDigit_of_mem_digits
    rw [itoa]
    cases h : digits n with
    | nil => exact absurd h (digits_ne_nil n)
    | cons b s =>
      rw [h] at hparse hdig
      rw [atoi_of_digit (hdig b List.mem_cons_self), hparse, Option.bind_some, ← hn,
        Int.ofNat_eq_natCast]
  | negSucc n =>
    have hneg : -((n + 1 : Nat) : Int) = Int.negSucc n := rfl
    rw [itoa, atoi, parseDigits_digits, Option.bind_some, hneg, hn]

theorem mem_itoa {n : Int} {b : UInt8} (hb : b ∈ itoa n) : b = 45 ∨ isDigit b := by
  cases n with
  | ofNat n => exact .inr (isDigit_of_mem_digits hb)
  | negSucc n =>
    rcases List.mem_cons.mp hb with rfl | hb
    · exact .inl rfl
    · exact .inr (isDigit_of_mem_digits hb)

theorem cut_append {sep : UInt8} {s t : List UInt8} (hs : sep ∉ s) :
    cut sep (s ++ sep :: t) = some (s, t) := by
  have hne : ∀ b ∈ s, decide (b ≠ sep) = true := fun b hb => decide_eq_true fun h => hs (h ▸ hb)
  rw [cut, if_pos (List.mem_append_right s List.mem_cons_self),
    List.takeWhile_append_of_pos hne, List.dropWhile_append_of_pos hne]
  simp

/-- A printable ASCII character other than the blank. -/
def Visible (b : UInt8) : Prop := 32 < b ∧ b < 127

instance (b : UInt8) : Decidable (Visible b) := inferInstanceAs (Decidable (32 < b ∧ b < 127))

theorem visible_of_isDigit {b : UInt8} (h : isDigit b) : Visible b := by
  simp only [isDigit, decide_eq_true_eq] at h; simp only [Visible]; grind

def EndsInSpace (s : List UInt8) : Prop := ∃ p ∈ spaces, p <:+ s

instance (s : List UInt8) : Decidable (EndsInSpace s) :=
  List.decidableBEx (fun p => p <:+ s) spaces

theorem prefix_of_prefix_append_cons {p x y : List UInt8} {sep : UInt8} (h : p <+: x ++ sep :: y)
    (hsep : sep ∉ p) : p <+: x := by
  rcases List.prefix_or_prefix_of_prefix h (List.prefix_append x _) with hp | ⟨q, rfl⟩
  · exact hp
  · rw [List.prefix_append_right_inj] at h
    cases q with
    | nil => simp
    | cons b q =>
      have hb : b = sep := (List.cons_prefix_cons.mp h).1
      simp [hb] at hsep

section Drop

variable {pats : List (List UInt8)} {s : List UInt8}

/-- Each pattern starts with a byte that is not visible. -/
def Hidden (pats : List (List UInt8)) : Prop := ∀ p ∈ pats, p.head?.any fun b => ¬ Visible b

theorem Hidden.exists_mem (h : Hidden pats) {p : List UInt8} (hp : p ∈ pats) :
    ∃ b t, p = b :: t ∧ ¬ Visible b := by
  have hhead := h p hp
  cases p with
  | nil => cases hhead
  | cons b t => exact ⟨b, t, rfl, of_decide_eq_true hhead⟩

theorem Hidden.not_prefix_cons (h : Hidden pats) {b : UInt8} (hb : Visible b) :
    ∀ p ∈ pats, ¬ p <+: b :: s := by
  intro p hp hpre
  obtain ⟨c, t, rfl, hc⟩ := h.exists_mem hp
  obtain rfl : c = b := (List.cons_prefix_cons.mp hpre).1
  exact hc hb

theorem find_eq_none_iff : pats.find? (·.isPrefixOf s) = none ↔ ∀ p ∈ pats, ¬ p <+: s := by
  simp [List.find?_eq_none]

theorem find_eq_some {p : List UInt8} (h : pats.find? (·.isPrefixOf s) = some p) :
    p ∈ pats ∧ p <+: s := by
  have hp := List.find?_some h
  exact ⟨List.mem_of_find?_eq_some h, List.isPrefixOf_iff_prefix.mp hp⟩

theorem dropSpaces_eq_self (h : ∀ p ∈ pats, ¬ p <+: s) (fuel : Nat) :
    dropSpaces pats fuel s = s := by
  cases fuel with
  | zero => rfl
  | succ fuel => rw [dropSpaces, find_eq_none_iff.mpr h]

theorem length_dropSpaces_le (fuel : Nat) : (dropSpaces pats fuel s).length ≤ s.length := by
  induction fuel generalizing s with
  | zero => exact Nat.le_refl _
  | succ fuel ih =>
    rw [dropSpaces]
    split
    · exact Nat.le_refl _
    · exact ih.trans (by simp)

theorem length_dropSpaces_lt (hne : ∀ p ∈ pats, p ≠ []) (h : ¬ ∀ p ∈ pats, ¬ p <+: s)
    (fuel : Nat) : (dropSpaces pats (fuel + 1) s).length < s.length := by
  rw [dropSpaces]
  split
  · rename_i hnone; exact absurd (find_eq_none_iff.mp hnone) h
  · rename_i p hsome
    obtain ⟨hp, hpre⟩ := find_eq_some hsome
    have hpos := List.length_pos_iff.mpr (hne p hp)
    have hle := hpre.length_le
    have hdrop : (dropSpaces pats fuel (s.drop p.length)).length ≤ (s.drop p.length).length :=
      length_dropSpaces_le fuel
    rw [List.length_drop] at hdrop
    omega

theorem dropSpaces_of_visible (hpats : Hidden pats) (hs : ∀ b ∈ s, Visible b) (fuel : Nat) :
    dropSpaces pats fuel s = s := by
  refine dropSpaces_eq_self ?_ fuel
  intro p hp hpre
  obtain ⟨b, t, rfl, hb⟩ := hpats.exists_mem hp
  exact hb (hs b (hpre.subset List.mem_cons_self))

theorem dropSpaces_append_cons {sep : UInt8} (hsep : ∀ p ∈ pats, sep ∉ p) (fuel : Nat)
    (x y : List UInt8) :
    ∃ x', x' <:+ x ∧ dropSpaces pats fuel (x ++ sep :: y) = x' ++ sep :: y := by
  induction fuel generalizing x with
  | zero => exact ⟨x, List.suffix_refl x, rfl⟩
  | succ fuel ih =>
    rw [dropSpaces]
    cases hfind : pats.find? (·.isPrefixOf (x ++ sep :: y)) with
    | none => exact ⟨x, List.suffix_refl x, rfl⟩
    | some p =>
      obtain ⟨hp, hpre⟩ := find_eq_some hfind
      have hpx := prefix_of_prefix_append_cons hpre (hsep p hp)
      obtain ⟨x', hx', hdrop⟩ := ih (x.drop p.length)
      refine ⟨x', hx'.trans (List.drop_suffix _ _), ?_⟩
      simpa [List.drop_append_of_le_length hpx.length_le] using hdrop

theorem dropSpaces_eq_self_iff (hne : ∀ p ∈ pats, p ≠ []) (fuel : Nat) :
    dropSpaces pats (fuel + 1) s = s ↔ ∀ p ∈ pats, ¬ p <+: s := by
  refine ⟨?_, fun h => dropSpaces_eq_self h _⟩
  intro hself
  by_contra h
  have hlt := length_dropSpaces_lt hne h fuel
  rw [hself] at hlt
  exact Nat.lt_irrefl _ hlt

variable (pats) in
theorem dropSpaces_split (fuel : Nat) (s : List UInt8) :
    ∃ ps : List (List UInt8), ps ⊆ pats ∧ s = ps.flatten ++ dropSpaces pats fuel s := by
  induction fuel generalizing s with
  | zero => exact ⟨[], List.nil_subset _, rfl⟩
  | succ fuel ih =>
    rw [dropSpaces]
    cases hfind : pats.find? (·.isPrefixOf s) with
    | none => exact ⟨[], List.nil_subset _, rfl⟩
    | some p =>
      obtain ⟨hp, hpre⟩ := find_eq_some hfind
      obtain ⟨ps, hps, hs⟩ := ih (s.drop p.length)
      refine ⟨p :: ps, List.cons_subset.mpr ⟨hp, hps⟩, ?_⟩
      rw [List.flatten_cons, List.append_assoc, ← hs]
      exact List.prefix_iff_eq_append.mp hpre |>.symm

end Drop

theorem hidden_spaces : Hidden spaces := by unfold Hidden; decide

theorem hidden_spaces_reverse : Hidden (spaces.map List.reverse) := by unfold Hidden; decide

theorem endsInSpace_iff {s : List UInt8} :
    EndsInSpace s ↔ ¬ ∀ p ∈ spaces.map List.reverse, ¬ p <+: s.reverse := by
  simp only [EndsInSpace, List.forall_mem_map, List.reverse_prefix, not_forall, not_not,
    exists_prop]

theorem trimSpace_append_cons {b sep : UInt8} (a s : List UInt8) (hb : Visible b)
    (hsep : ∀ p ∈ spaces, sep ∉ p) :
    ∃ s', s' <+: s ∧ (s' = s ↔ ¬ EndsInSpace s) ∧
      trimSpace (b :: a ++ sep :: s) = b :: a ++ sep :: s' := by
  have hfront : ∀ p ∈ spaces, ¬ p <+: b :: a ++ sep :: s := hidden_spaces.not_prefix_cons hb
  have hsep' : ∀ p ∈ spaces.map List.reverse, sep ∉ p := by
    intro p hp
    obtain ⟨q, hq, rfl⟩ := List.mem_map.mp hp
    rw [List.mem_reverse]
    exact hsep q hq
  have hrev : (b :: a ++ sep :: s).reverse = s.reverse ++ sep :: (b :: a).reverse := by simp
  obtain ⟨x', hx', hdrop⟩ := dropSpaces_append_cons hsep' (b :: a ++ sep :: s).length s.reverse
    (b :: a).reverse
  refine ⟨x'.reverse, ?_, ?_, ?_⟩
  · rw [← List.reverse_suffix, List.reverse_reverse]; exact hx'
  · -- nothing is dropped behind the separator exactly if nothing is dropped at all
    have hself : x'.reverse = s ↔
        x' ++ sep :: (b :: a).reverse = s.reverse ++ sep :: (b :: a).reverse := by
      rw [List.append_left_inj, List.reverse_eq_iff]
    have hlong : (b :: a ++ sep :: s).length = (a ++ sep :: s).length + 1 := rfl
    rw [endsInSpace_iff, not_not, hself, ← hdrop, hlong, dropSpaces_eq_self_iff (by decide)]
    refine forall₂_congr fun p hp => not_congr ⟨?_, ?_⟩
    · exact fun h => prefix_of_prefix_append_cons h (hsep' p hp)
    · exact fun h => h.trans (List.prefix_append _ _)
  · simp only [trimSpace]; rw [dropSpaces_eq_self hfront, hrev, hdrop]; simp

/-- A text of spaces only. -/
def Spaces (s : List UInt8) : Prop := ∃ ps : List (List UInt8), ps ⊆ spaces ∧ s = ps.flatten

theorem Spaces.append {s t : List UInt8} : Spaces s → Spaces t → Spaces (s ++ t) := by
  rintro ⟨ps, hps, rfl⟩ ⟨qs, hqs, rfl⟩
  exact ⟨ps ++ qs, List.append_subset.mpr ⟨hps, hqs⟩, List.flatten_append.symm⟩

theorem trimSpace_split (s : List UInt8) :
    ∃ l r, Spaces l ∧ Spaces r ∧ s = l ++ trimSpace s ++ r := by
  obtain ⟨ps, hps, hl⟩ := dropSpaces_split spaces s.length s
  obtain ⟨qs, hqs, hr⟩ := dropSpaces_split (spaces.map List.reverse)
    (dropSpaces spaces s.length s).length (dropSpaces spaces s.length s).reverse
  refine ⟨ps.flatten, qs.flatten.reverse, ⟨ps, hps, rfl⟩,
    ⟨(qs.map List.reverse).reverse, ?_, List.reverse_flatten⟩, ?_⟩
  · intro q hq
    obtain ⟨q', hq', rfl⟩ := List.mem_map.mp (List.mem_reverse.mp hq)
    obtain ⟨p, hp, rfl⟩ := List.mem_map.mp (hqs hq')
    rwa [List.reverse_reverse]
  · rw [List.append_assoc, trimSpace, ← List.reverse_append, ← hr, List.reverse_reverse, ← hl]
theorem byte_char (x : UInt8) : UInt8.ofNat (Char.ofNat x.toNat).toNat = x := by
  have hlt := x.toNat_lt
  have hchar : (Char.ofNat x.toNat).toNat = x.toNat := by
    rw [Char.ofNat, dif_pos (.inl (by omega))]
    rfl
  rw [hchar, UInt8.ofNat_toNat]

def ofBytes (b : List UInt8) : String := String.ofList (b.map fun x => Char.ofNat x.toNat)

def toBytes (s : String) : List UInt8 := s.toList.map fun c => UInt8.ofNat c.toNat

theorem toBytes_ofBytes (b : List UInt8) : toBytes (ofBytes b) = b := by
  simp [toBytes, ofBytes, Function.comp_def, byte_char]

end GoString
