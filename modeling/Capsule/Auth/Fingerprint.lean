import Capsule.GoString

/-!
# Capsule.Auth.Fingerprint

The two formatters of a fingerprint: `FormatFingerprint` of `auth/fingerprint.go`, which the client
prints through `indent`, and the console's `formatFingerprintForBanner` of `boot/boot.go`. They
differ in what stands between two rows (`groupRows`).

`displays_agree`: for a text without newlines both displays are the same, and taking the separators
out (`strip`) gives the text back, so two fingerprints are never shown alike.
-/

namespace Capsule.Auth.Fingerprint

abbrev Text := List UInt8

/-- The loop of both, from column `col` on. -/
def groupRows (rowBreak : Text) : Nat → Text → Text
  | col, a :: b :: rest =>
    if col = 8 then rowBreak ++ a :: b :: groupRows rowBreak 1 rest
    else if 0 < col then 58 :: a :: b :: groupRows rowBreak (col + 1) rest
    else a :: b :: groupRows rowBreak (col + 1) rest
  | _, _ => []

def formatFingerprint (hexFingerprint : Text) : Text :=
  if hexFingerprint.length % 2 ≠ 0 then hexFingerprint else groupRows [10] 0 hexFingerprint

def fourSpaces : Text := [32, 32, 32, 32]

def formatFingerprintForBanner (hex : Text) : Text :=
  if hex = [] then fourSpaces ++ GoString.utf8 "(none)"
  else if hex.length % 2 ≠ 0 then fourSpaces ++ hex
  else fourSpaces ++ groupRows (10 :: fourSpaces) 0 hex

def indent (pre s : Text) : Text := [10].intercalate ((s.splitOn 10).map (pre ++ ·))

/-- A line break with the indentation after it. -/
def indentBreak (pre : Text) (b : UInt8) : Text := if b = 10 then 10 :: pre else [b]

theorem indent_eq (pre s : Text) : indent pre s = pre ++ s.flatMap (indentBreak pre) := by
  unfold indent
  rw [List.splitOn_eq_splitOnP]
  induction s with
  | nil => simp
  | cons b s ih =>
    obtain ⟨l, ls, hl⟩ := List.exists_cons_of_ne_nil (List.splitOnP_ne_nil (· == 10) s)
    rw [List.splitOnP_cons_eq_if_modifyHead, List.flatMap_cons, indentBreak]
    by_cases hb : b = 10
    · simp only [hb, BEq.rfl, if_true, List.map_cons]
      rw [List.intercalate_cons_of_ne_nil (by simp [hl]), ih]
      simp
    · rw [if_neg (by simpa using hb), if_neg hb]
      rw [hl] at ih ⊢
      cases ls with
      | nil => simpa using ih
      | cons l' ls => simpa [List.intercalate_cons_cons] using ih

theorem groupRows_flatMap (pre : Text) (col : Nat) {s : Text} (hs : 10 ∉ s) :
    (groupRows [10] col s).flatMap (indentBreak pre) = groupRows (10 :: pre) col s := by
  have hcolon : indentBreak pre 58 = [58] := rfl
  have hbreak : indentBreak pre 10 = 10 :: pre := rfl
  fun_induction groupRows [10] col s with
  | case1 a b rest ih | case2 col a b rest hcol hpos ih | case3 col a b rest hcol hpos ih =>
    have ha : indentBreak pre a = [a] := if_neg fun h => hs (by simp [h])
    have hb : indentBreak pre b = [b] := if_neg fun h => hs (by simp [h])
    have hrest := ih fun h => hs (by simp [h])
    simp [groupRows, *]
  | case4 s col h =>
    rw [groupRows]
    · rfl
    · exact h

/-- The bytes that are not of the fingerprint. -/
def isSeparator (b : UInt8) : Bool := b = 58 ∨ b = 10 ∨ b = 32

def strip (s : Text) : Text := s.filter fun b => !isSeparator b

theorem strip_groupRows {rowBreak : Text} (hbreak : strip rowBreak = []) (col : Nat) {s : Text}
    (hs : ∀ b ∈ s, isSeparator b = false) (heven : s.length % 2 = 0) :
    strip (groupRows rowBreak col s) = s := by
  unfold strip at hbreak ⊢
  fun_induction groupRows rowBreak col s with
  | case1 a b rest ih | case2 col a b rest hcol hpos ih | case3 col a b rest hcol hpos ih =>
    have hrest := ih (fun c hc => hs c (by simp [hc])) (by simp at heven; omega)
    have hcolon : isSeparator 58 = true := rfl
    simp [hbreak, hrest, hcolon, hs a, hs b]
  | case4 s col h =>
    cases s with
    | nil => rfl
    | cons a s =>
      cases s with
      | nil => simp at heven
      | cons b s => exact absurd rfl (h a b s)

section Display

variable {s : Text} (hs : ∀ b ∈ s, isSeparator b = false) (heven : s.length % 2 = 0)
include hs heven

theorem strip_formatFingerprint : strip (formatFingerprint s) = s := by
  rw [formatFingerprint, if_neg (by simp [heven])]
  exact strip_groupRows rfl 0 hs heven

theorem strip_banner (hne : s ≠ []) : strip (formatFingerprintForBanner s) = s := by
  rw [formatFingerprintForBanner, if_neg hne, if_neg (by simp [heven]), strip, List.filter_append]
  exact strip_groupRows rfl 0 hs heven

end Display

theorem indent_formatFingerprint {s : Text} (hne : s ≠ []) (hline : 10 ∉ s) :
    indent fourSpaces (formatFingerprint s) = formatFingerprintForBanner s := by
  rw [indent_eq, formatFingerprint, formatFingerprintForBanner, if_neg hne]
  split
  · have hkeep : ∀ b ∈ s, indentBreak fourSpaces b = [b] := by
      intro b hb
      refine if_neg ?_
      rintro rfl
      exact hline hb
    rw [List.flatMap_def, List.map_congr_left hkeep, ← List.flatMap_def, List.flatMap_singleton']
  · rw [groupRows_flatMap fourSpaces 0 hline]

/-- What the client prints is what the console shows. A fingerprint without the separators can be
read off it, so no other one is shown like that. -/
theorem displays_agree (s : Text) (hne : s ≠ []) (hline : 10 ∉ s) :
    indent fourSpaces (formatFingerprint s) = formatFingerprintForBanner s ∧
      (s.length % 2 = 0 → (∀ b ∈ s, isSeparator b = false) →
        strip (formatFingerprint s) = s ∧ strip (formatFingerprintForBanner s) = s ∧
          ∀ t : Text, t ≠ [] → t.length % 2 = 0 → (∀ b ∈ t, isSeparator b = false) →
            formatFingerprintForBanner t = formatFingerprintForBanner s → t = s) := by
  refine ⟨indent_formatFingerprint hne hline, fun heven hs => ?_⟩
  have hstrip := strip_banner hs heven hne
  refine ⟨strip_formatFingerprint hs heven, hstrip, ?_⟩
  intro t htne hteven ht hsame
  rw [← strip_banner ht hteven htne, hsame, hstrip]

/-- Ten bytes, which take a second row. -/
theorem displays_agree_twoRows :
    let s := GoString.utf8 "ab12cd34ef56ab78cd90"
    indent fourSpaces (formatFingerprint s) = formatFingerprintForBanner s ∧
      strip (formatFingerprintForBanner s) = s := by
  intro s
  have h := displays_agree s (by decide +kernel) (by decide +kernel)
  exact ⟨h.1, (h.2 (by decide +kernel) (by decide +kernel)).2.1⟩

end Capsule.Auth.Fingerprint
