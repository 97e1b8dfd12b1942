import Mathlib.Data.List.Basic
import Mathlib.Tactic.IntervalCases

/-!
# Capsule.GoBase64

`base64.RawURLEncoding` of Go's standard library: the URL alphabet without padding. `DecodeString`
skips line breaks and does not look at the bits left over in the last character; it gives back what
`EncodeToString` was given (`rawURLDecode_encode`).
-/

namespace GoBase64

/-- The value of a character of the alphabet. -/
def urlValue (b : UInt8) : Option UInt8 :=
  if 65 ≤ b ∧ b ≤ 90 then some (b - 65)
  else if 97 ≤ b ∧ b ≤ 122 then some (b - 71)
  else if 48 ≤ b ∧ b ≤ 57 then some (b + 4)
  else if b = 45 then some 62
  else if b = 95 then some 63
  else none

/-- Four characters are three bytes; at the end, three are two and two are one. -/
def quanta : List UInt8 → Option (List UInt8)
  | [] => some []
  | [_] => none
  | [a, b] => some [a <<< 2 ||| b >>> 4]
  | [a, b, c] => some [a <<< 2 ||| b >>> 4, b <<< 4 ||| c >>> 2]
  | a :: b :: c :: d :: s =>
    (quanta s).map fun t => (a <<< 2 ||| b >>> 4) :: (b <<< 4 ||| c >>> 2) :: (c <<< 6 ||| d) :: t

def isBreak (b : UInt8) : Bool := b = 10 ∨ b = 13

/-- `base64.RawURLEncoding.DecodeString`; `none` is a corrupt input. -/
def rawURLDecode (s : List UInt8) : Option (List UInt8) :=
  ((s.filter fun b => !isBreak b).mapM urlValue).bind quanta

theorem isSome_of_mapM {α β : Type} {f : α → Option β} {s : List α} {t : List β}
    (h : s.mapM f = some t) {x : α} (hx : x ∈ s) : (f x).isSome = true := by
  induction s generalizing t with
  | nil => cases hx
  | cons y s ih =>
    rw [List.mapM_cons] at h
    obtain ⟨z, hz, hrest⟩ := Option.bind_eq_some_iff.mp h
    obtain ⟨u, hu, -⟩ := Option.bind_eq_some_iff.mp hrest
    rcases List.mem_cons.mp hx with rfl | hx
    · rw [hz]; rfl
    · exact ih hu hx

theorem mem_of_rawURLDecode {s d : List UInt8} (h : rawURLDecode s = some d) {b : UInt8}
    (hb : b ∈ s) : isBreak b = true ∨ (urlValue b).isSome = true := by
  obtain ⟨vs, hvs, -⟩ := Option.bind_eq_some_iff.mp h
  cases hbreak : isBreak b with
  | true => exact .inl rfl
  | false =>
    have hmem : b ∈ s.filter fun b => !isBreak b := List.mem_filter.mpr ⟨hb, by simp [hbreak]⟩
    exact .inr (isSome_of_mapM hvs hmem)

/-- "Zm9v" -/
example : rawURLDecode [90, 109, 57, 118] = some [102, 111, 111] := by decide

/-- The character of a value below 64. -/
def urlChar (v : UInt8) : UInt8 :=
  if v < 26 then v + 65
  else if v < 52 then v + 71
  else if v < 62 then v - 4
  else if v = 62 then 45
  else 95

/-- Three bytes are four values; at the end, two are three and one is two. -/
def sextets : List UInt8 → List UInt8
  | [] => []
  | [a] => [a >>> 2, (a &&& 3) <<< 4]
  | [a, b] => [a >>> 2, (a &&& 3) <<< 4 ||| b >>> 4, (b &&& 15) <<< 2]
  | a :: b :: c :: s =>
    (a >>> 2) :: ((a &&& 3) <<< 4 ||| b >>> 4) :: ((b &&& 15) <<< 2 ||| c >>> 6) :: (c &&& 63) ::
      sextets s

/-- `base64.RawURLEncoding.EncodeToString`. -/
def rawURLEncode (s : List UInt8) : List UInt8 := (sextets s).map urlChar

theorem join_first (a b : UInt8) :
    (a >>> 2) <<< 2 ||| ((a &&& 3) <<< 4 ||| b >>> 4) >>> 4 = a := by
  rw [← UInt8.toBitVec_inj]
  ext i hi
  interval_cases i <;> simp

theorem join_second (a b c : UInt8) :
    ((a &&& 3) <<< 4 ||| b >>> 4) <<< 4 ||| ((b &&& 15) <<< 2 ||| c >>> 6) >>> 2 = b := by
  rw [← UInt8.toBitVec_inj]
  ext i hi
  interval_cases i <;> simp

theorem join_third (b c : UInt8) : ((b &&& 15) <<< 2 ||| c >>> 6) <<< 6 ||| (c &&& 63) = c := by
  rw [← UInt8.toBitVec_inj]
  ext i hi
  interval_cases i <;> simp

theorem quanta_sextets (s : List UInt8) : quanta (sextets s) = some s := by
  induction s using sextets.induct with
  | case1 => rfl
  | case2 a => simpa [sextets, quanta] using join_first a 0
  | case3 a b => simpa [sextets, quanta, join_first] using join_second a b 0
  | case4 a b c s ih => simp [sextets, quanta, ih, join_first, join_second, join_third]

def IsSextet (v : UInt8) : Prop := v &&& 63 = v

theorem isSextet_of_bits {v : UInt8} (h6 : v.toBitVec.getLsbD 6 = false)
    (h7 : v.toBitVec.getLsbD 7 = false) : IsSextet v := by
  rw [IsSextet, ← UInt8.toBitVec_inj]
  ext i hi
  interval_cases i <;> simp_all

theorem isSextet_sextets (s : List UInt8) : ∀ v ∈ sextets s, IsSextet v := by
  have h1 (a : UInt8) : IsSextet (a >>> 2) := isSextet_of_bits (by simp) (by simp)
  have h2 (a b : UInt8) : IsSextet ((a &&& 3) <<< 4 ||| b >>> 4) :=
    isSextet_of_bits (by simp) (by simp)
  have h3 (b c : UInt8) : IsSextet ((b &&& 15) <<< 2 ||| c >>> 6) :=
    isSextet_of_bits (by simp) (by simp)
  have h4 (c : UInt8) : IsSextet (c &&& 63) := isSextet_of_bits (by simp) (by simp)
  induction s using sextets.induct with
  | case1 => simp [sextets]
  | case2 a => simpa [sextets, h1] using h2 a 0
  | case3 a b => simpa [sextets, h1, h2] using h3 b 0
  | case4 a b c s ih => simpa [sextets, h1, h2, h3, h4] using ih

theorem urlChar_table : ∀ n < 64, urlValue (urlChar (UInt8.ofNat n)) = some (UInt8.ofNat n) ∧
    isBreak (urlChar (UInt8.ofNat n)) = false := by
  decide

theorem urlValue_urlChar {v : UInt8} (h : IsSextet v) :
    urlValue (urlChar v) = some v ∧ isBreak (urlChar v) = false := by
  have hlt : v.toNat < 64 := by
    rw [← show v &&& 63 = v from h, UInt8.toNat_and]
    exact Nat.lt_of_le_of_lt Nat.and_le_right (by decide)
  simpa using urlChar_table v.toNat hlt

theorem mapM_urlChar (s : List UInt8) (h : ∀ v ∈ s, IsSextet v) :
    (s.map urlChar).mapM urlValue = some s := by
  induction s with
  | nil => rfl
  | cons v s ih =>
    obtain ⟨hv, hs⟩ := List.forall_mem_cons.mp h
    rw [List.map_cons, List.mapM_cons, (urlValue_urlChar hv).1, ih hs]
    rfl

theorem rawURLDecode_encode (s : List UInt8) : rawURLDecode (rawURLEncode s) = some s := by
  have hlow := isSextet_sextets s
  have hkeep : (rawURLEncode s).filter (fun b => !isBreak b) = rawURLEncode s := by
    rw [List.filter_eq_self]
    intro b hb
    obtain ⟨v, hv, rfl⟩ := List.mem_map.mp hb
    simp [(urlValue_urlChar (hlow v hv)).2]
  rw [rawURLDecode, hkeep, rawURLEncode, mapM_urlChar _ hlow, Option.bind_some, quanta_sextets]

theorem rawURLEncode_ne_nil {s : List UInt8} (h : s ≠ []) : rawURLEncode s ≠ [] := by
  intro hnil
  have hs := rawURLDecode_encode s
  rw [hnil] at hs
  exact h (Option.some.inj hs).symm

end GoBase64
