import Capsule.Volumes.Mapped

/-!
# Capsule.Volumes.Apply

`capsulectl apply` of a volume manifest: the client reads the size, asks for the volume, and creates
or resizes it. The server is the volume service of `Capsule.Volumes.Mapped`.

* `Spells`, `spells_of_numberAndUnit`: the texts that `parseSize` accepts, and what they stand for.
* `parseSize_exact_iff`: the number it returns is the one written exactly if that is below `2 ^ 64`
  MiB.
* `applyVolume_new`, `applyVolume_existing`: the requests of `apply` with and without the volume.
* `apply_twice_iff`: a second `apply` of a manifest changes nothing exactly if the size is one of
  whole extents. Otherwise LVM has rounded it up, and the second is refused as a shrink.
-/

namespace Capsule.Volumes.Apply

open Extents Mapped
open Maintenance (State newVolume sizeFor validateName validateSize)

/-- The units of `parseSize`, of which the empty text is the second. -/
inductive SizeUnit where
  | kib
  | mib
  | gib
  | tib
  deriving DecidableEq, Repr

def SizeUnit.texts : SizeUnit → List String
  | .kib => ["k", "ki", "kib"]
  | .mib => ["", "m", "mi", "mib"]
  | .gib => ["g", "gi", "gib"]
  | .tib => ["t", "ti", "tib"]

def unitOf (text : Bytes) : Option SizeUnit :=
  [SizeUnit.mib, .kib, .gib, .tib].find? fun u => text ∈ u.texts.map GoString.utf8

/-- The text up to its last digit, and what follows. -/
def splitUnit (s : Bytes) : Bytes × Bytes :=
  ((s.reverse.dropWhile fun b => !GoString.isDigit b).reverse,
    (s.reverse.takeWhile fun b => !GoString.isDigit b).reverse)

def parseErr (s num : Bytes) (why : String) : Err :=
  .text ("parse " ++ GoString.quote (GoString.ofBytes s) ++ ": strconv.ParseUint: parsing " ++
    GoString.quote (GoString.ofBytes num) ++ ": " ++ why)

/-- The number and the unit that a text without spaces around it consists of. -/
def numberAndUnit (toLower : Bytes → Bytes) (s : Bytes) : Except Err (Nat × SizeUnit) :=
  let num := GoString.trimSpace (splitUnit s).1
  let unit := toLower (GoString.trimSpace (splitUnit s).2)
  match GoString.parseUint num with
  | .error why => .error (parseErr s num why)
  | .ok n =>
    match unitOf unit with
    | some u => .ok (n, u)
    | none => .error (.text ("unknown size unit " ++ GoString.quote (GoString.ofBytes unit) ++
        " (use KiB/MiB/GiB/TiB)"))

/-- The products wrap around. -/
def toMiB (s : Bytes) : Nat × SizeUnit → Except Err Nat
  | (n, .mib) => .ok n
  | (n, .kib) =>
    if n % 1024 ≠ 0 then .error (.text (GoString.ofBytes s ++ " not a whole MiB"))
    else .ok (n / 1024)
  | (n, .gib) => .ok (n * 1024 % 2 ^ 64)
  | (n, .tib) => .ok (n * 1024 * 1024 % 2 ^ 64)

def parseSize (toLower : Bytes → Bytes) (spec : Bytes) : Except Err Nat :=
  let s := GoString.trimSpace spec
  if s = [] then .error (.text "empty size")
  else (numberAndUnit toLower s).bind (toMiB s)

theorem parseSize_ok {toLower : Bytes → Bytes} {spec : Bytes} {k : Nat}
    (h : parseSize toLower spec = .ok k) :
    ∃ n u, numberAndUnit toLower (GoString.trimSpace spec) = .ok (n, u) ∧
      toMiB (GoString.trimSpace spec) (n, u) = .ok k := by
  rw [parseSize] at h
  split at h
  · cases h
  · cases hnum : numberAndUnit toLower (GoString.trimSpace spec) with
    | error e => rw [hnum] at h; cases h
    | ok x => rw [hnum] at h; exact ⟨x.1, x.2, rfl, h⟩

def SizeUnit.bytes : SizeUnit → Nat
  | .kib => 2 ^ 10
  | .mib => 2 ^ 20
  | .gib => 2 ^ 30
  | .tib => 2 ^ 40

/-- So many of the unit are less than `2 ^ 64` MiB. -/
def SizeUnit.Fits (n : Nat) : SizeUnit → Prop
  | .kib | .mib => True
  | .gib => n < 2 ^ 54
  | .tib => n < 2 ^ 44

/-- The text is spaces, the decimal digits of `n`, spaces, a spelling of `u`, and spaces. -/
def Spells (toLower : Bytes → Bytes) (spec : Bytes) (n : Nat) (u : SizeUnit) : Prop :=
  ∃ l num m unit r, spec = l ++ num ++ m ++ unit ++ r ∧ GoString.Spaces l ∧ GoString.Spaces m ∧
    GoString.Spaces r ∧ GoString.parseDigits num = some n ∧ (∀ b ∈ unit, ¬ GoString.isDigit b) ∧
    toLower unit ∈ u.texts.map GoString.utf8

theorem unitOf_some {text : Bytes} {u : SizeUnit} (h : unitOf text = some u) :
    text ∈ u.texts.map GoString.utf8 := by
  have hu := List.find?_some h
  exact of_decide_eq_true hu

theorem splitUnit_append (s : Bytes) : (splitUnit s).1 ++ (splitUnit s).2 = s := by
  rw [splitUnit, ← List.reverse_append, List.takeWhile_append_dropWhile, List.reverse_reverse]

theorem spells_of_numberAndUnit {toLower : Bytes → Bytes} {spec : Bytes} {n : Nat} {u : SizeUnit}
    (h : numberAndUnit toLower (GoString.trimSpace spec) = .ok (n, u)) :
    Spells toLower spec n u := by
  obtain ⟨l, r, hl, hr, hspec⟩ := GoString.trimSpace_split spec
  rw [← splitUnit_append (GoString.trimSpace spec)] at hspec
  obtain ⟨l₁, r₁, hl₁, hr₁, hnum⟩ :=
    GoString.trimSpace_split (splitUnit (GoString.trimSpace spec)).1
  obtain ⟨l₂, r₂, hl₂, hr₂, hunit⟩ :=
    GoString.trimSpace_split (splitUnit (GoString.trimSpace spec)).2
  have hdigit : ∀ b ∈ (splitUnit (GoString.trimSpace spec)).2, ¬ GoString.isDigit b := by
    intro b hb
    simpa using List.all_eq_true.mp List.all_takeWhile b (List.mem_reverse.mp hb)
  rw [numberAndUnit] at h
  split at h
  · cases h
  · rename_i hparse
    split at h
    · rename_i hof
      cases h
      refine ⟨l ++ l₁, _, r₁ ++ l₂, _, r₂ ++ r, ?_, hl.append hl₁, hr₁.append hl₂, hr₂.append hr,
        GoString.parseDigits_of_parseUint hparse, ?_, unitOf_some hof⟩
      · conv_lhs => rw [hspec, hnum, hunit]
        simp only [List.append_assoc]
      · intro b hb
        exact hdigit b (by rw [hunit]; simp [hb])
    · cases h
/-- An accepted size is the one that was written exactly if that is less than `2 ^ 64` MiB; a larger
one is taken modulo `2 ^ 64`. -/
theorem parseSize_exact_iff (toLower : Bytes → Bytes) (spec : Bytes) (k : Nat)
    (hk : parseSize toLower spec = .ok k) :
    ∃ n u, Spells toLower spec n u ∧ (k * 2 ^ 20 = n * u.bytes ↔ u.Fits n) := by
  obtain ⟨n, u, hnum, hmib⟩ := parseSize_ok hk
  refine ⟨n, u, spells_of_numberAndUnit hnum, ?_⟩
  cases u with
  | mib => cases hmib; exact iff_of_true rfl trivial
  | kib =>
    rw [toMiB] at hmib
    split at hmib
    · cases hmib
    · cases hmib; simp only [SizeUnit.bytes, SizeUnit.Fits, iff_true]; omega
  | gib => cases hmib; simp only [SizeUnit.bytes, SizeUnit.Fits]; omega
  | tib => cases hmib; simp only [SizeUnit.bytes, SizeUnit.Fits]; omega

theorem parseSize_exact_iff_tenGiB :
    ∃ n u, Spells (List.map GoString.lower) (GoString.utf8 " 10 GiB") n u ∧
      (10240 * 2 ^ 20 = n * u.bytes ↔ u.Fits n) :=
  parseSize_exact_iff (List.map GoString.lower) (GoString.utf8 " 10 GiB") 10240 (by decide +kernel)

/-- `2 ^ 54` GiB are none. -/
theorem parseSize_wraps :
    parseSize (List.map GoString.lower) (GoString.utf8 "18014398509481984GiB") = .ok 0 ∧
      Spells (List.map GoString.lower) (GoString.utf8 "18014398509481984GiB") (2 ^ 54) .gib ∧
      0 * 2 ^ 20 ≠ 2 ^ 54 * SizeUnit.gib.bytes :=
  ⟨by decide +kernel, ⟨[], GoString.utf8 "18014398509481984", [], GoString.utf8 "GiB", [],
    by decide +kernel, ⟨[], List.nil_subset _, rfl⟩, ⟨[], List.nil_subset _, rfl⟩,
    ⟨[], List.nil_subset _, rfl⟩, by decide +kernel, by decide +kernel, by decide +kernel⟩,
    by decide⟩

/-- A value that is no string, as the JSON decoder calls it. -/
inductive Other where
  | number
  | bool
  | array
  | object
  deriving DecidableEq, Repr

def Other.text : Other → String
  | .number => "number"
  | .bool => "bool"
  | .array => "array"
  | .object => "object"

/-- A field of the JSON that the YAML was turned into. An integer without quotes is a number. -/
inductive Field (α : Type) where
  | absent
  | null
  | text (s : α)
  | other (k : Other)

/-- What `json.Unmarshal` stores in a field of type `string`. -/
def Field.decode {α : Type} (field : String) (empty : α) : Field α → Except Err α
  | .absent | .null => .ok empty
  | .text s => .ok s
  | .other k => .error (.text ("json: cannot unmarshal " ++ k.text ++ " into Go struct field ." ++
      field ++ " of type string"))

structure Manifest where
  kind : Field String
  name : Field String
  size : Field Bytes

/-- The name and the size; the first field that is of another type is the error. -/
def Manifest.decode (m : Manifest) : Except Err (String × Bytes) := do
  let _ ← m.kind.decode "kind" ""
  let name ← m.name.decode "name" ""
  let size ← m.size.decode "size" []
  return (name, size)

inductive Applied where
  | created
  | unchanged
  | resized
  deriving DecidableEq, Repr

def sizeWanted (toLower : Bytes → Bytes) (size : Bytes) : Except Err Nat :=
  if size = [] then .ok 0 else (parseSize toLower size).mapError (Err.ctx "size")

/-- The answer to the last request. -/
def answered {α : Type} (what : String) (out : Applied) :
    State × Except Err α → State × Except Err Applied
  | (s, .ok _) => (s, .ok out)
  | (s, .error e) => (s, .error (e.ctx what))

/-- The requests of `volumeApplyRaw`. Any error of `Get` is taken for a volume that is absent. -/
def applyVolume (ps : Params) (q : Probe) (name : String) (sizeMiB : Nat) (s : State) :
    State × Except Err Applied :=
  match run q (get ps name) s with
  | (s', .ok existing) =>
    let currentMiB := existing.sizeBytes / (1024 * 1024)
    if sizeMiB = 0 ∨ sizeMiB = currentMiB then (s', .ok .unchanged)
    else if sizeMiB > currentMiB then
      answered "resize" .resized (run q (Maintenance.resize ps name sizeMiB) s')
    else (s', .error (.text ("volume " ++ GoString.quote name ++ " is " ++ toString currentMiB ++
      " MiB; resize is grow-only (requested " ++ toString sizeMiB ++ " MiB)")))
  | (s', .error _) => answered "create" .created (run q (Maintenance.create name sizeMiB) s')

def volumeApplyRaw (toLower : Bytes → Bytes) (ps : Params) (q : Probe) (m : Manifest) (s : State) :
    State × Except Err Applied :=
  match m.decode with
  | .error e => (s, .error (e.ctx "parse volume"))
  | .ok (name, size) =>
    if name = "" then (s, .error (.text "volume.name is required"))
    else
      match sizeWanted toLower size with
      | .error e => (s, .error e)
      | .ok sizeMiB => applyVolume ps q name sizeMiB s

/-- The size is one of whole extents, whatever the number is that it is given by. -/
def SizeUnit.WholeExtents (n : Nat) : SizeUnit → Prop
  | .kib => 4096 ∣ n
  | .mib => 4 ∣ n
  | .gib | .tib => True

/-- No size, or one of whole extents. -/
def WholeExtents (toLower : Bytes → Bytes) : Field Bytes → Prop
  | .text size => size = [] ∨ ∃ n u, numberAndUnit toLower (GoString.trimSpace size) = .ok (n, u) ∧
      u.WholeExtents n
  | _ => True

theorem four_dvd_iff {s : Bytes} {n k : Nat} {u : SizeUnit} (h : toMiB s (n, u) = .ok k) :
    4 ∣ k ↔ u.WholeExtents n := by
  cases u with
  | mib => cases h; exact Iff.rfl
  | kib =>
    rw [toMiB] at h
    split at h
    · cases h
    · cases h; simp only [SizeUnit.WholeExtents]; omega
  | gib => cases h; simp only [SizeUnit.WholeExtents, iff_true]; omega
  | tib => cases h; simp only [SizeUnit.WholeExtents, iff_true]; omega

theorem sizeWanted_dvd_iff {toLower : Bytes → Bytes} {field : Field Bytes} {size : Bytes} {k : Nat}
    (hsize : field.decode "size" [] = .ok size) (hk : sizeWanted toLower size = .ok k) :
    4 ∣ k ↔ WholeExtents toLower field := by
  have hnone : size = [] → 4 ∣ k := by
    intro hnil
    rw [sizeWanted, if_pos hnil] at hk
    cases hk
    exact Nat.dvd_zero 4
  cases field with
  | absent => cases hsize; exact iff_of_true (hnone rfl) trivial
  | null => cases hsize; exact iff_of_true (hnone rfl) trivial
  | other k => cases hsize
  | text s =>
    cases hsize
    by_cases hnil : size = []
    · exact iff_of_true (hnone hnil) (.inl hnil)
    · rw [sizeWanted, if_neg hnil] at hk
      cases hparse : parseSize toLower size with
      | error e => rw [hparse] at hk; cases hk
      | ok k' =>
        rw [hparse] at hk
        cases hk
        obtain ⟨n, u, hnum, hmib⟩ := parseSize_ok hparse
        rw [four_dvd_iff hmib]
        constructor
        · intro h; exact .inr ⟨n, u, hnum, h⟩
        · rintro (h | ⟨n', u', hnum', h⟩)
          · exact absurd h hnil
          · rw [hnum] at hnum'; cases hnum'; exact h

section Twice

variable {ps : Params} {q : Probe} {name : String} {sizeMiB : Nat} {s : State}

theorem applyVolume_new (hrow : s.volumes.get name = none) :
    applyVolume ps q name sizeMiB s =
      answered "create" .created (run q (Maintenance.create name sizeMiB) s) := by
  have hget : run q (get ps name) s = (s, .error (.sentinel .notFound)) := run_get_failed hrow
  rw [applyVolume, hget]

theorem applyVolume_existing (hs : SyncedAt s name) (hq : q.Reads)
    (hsize : s.lvs name = some (mib (allocated (sizeFor sizeMiB)))) :
    (∃ out, applyVolume ps q name sizeMiB s = (s, .ok out)) ↔ 4 ∣ sizeMiB := by
  have hcurrent : mib (allocated (sizeFor sizeMiB)) / (1024 * 1024) =
      allocated (sizeFor sizeMiB) := by
    rw [mib, Nat.mul_assoc, Nat.mul_div_cancel _ (by decide)]
  rw [applyVolume, run_get_ok hs hq hsize]
  simp only [derived, hcurrent]
  by_cases hzero : sizeMiB = 0
  · subst hzero; exact iff_of_true ⟨.unchanged, if_pos (.inl rfl)⟩ (Nat.dvd_zero 4)
  · have hfor : sizeFor sizeMiB = sizeMiB := if_neg hzero
    have hle := (allocated_le sizeMiB).1
    have heq : sizeMiB = allocated sizeMiB ↔ 4 ∣ sizeMiB := by
      simp only [allocated]; omega
    rw [hfor, ← heq]
    constructor
    · rintro ⟨out, hout⟩
      by_contra hne
      rw [if_neg (by omega), if_neg (by omega)] at hout
      cases hout
    · intro h; exact ⟨.unchanged, if_pos (.inr h)⟩

/-- A manifest of kind `Volume`. -/
def volumeManifest (name : String) (size : Field Bytes) : Manifest :=
  ⟨.text "Volume", .text name, size⟩

theorem decode_volumeManifest (name : String) (size : Field Bytes) :
    (volumeManifest name size).decode = (size.decode "size" []).map (Prod.mk name) := by
  cases size <;> rfl

theorem volumeApplyRaw_of_ok {toLower : Bytes → Bytes} {size : Field Bytes} {out : Applied}
    (h : (volumeApplyRaw toLower ps q (volumeManifest name size) s).2 = .ok out) :
    ∃ text k, size.decode "size" [] = .ok text ∧ sizeWanted toLower text = .ok k ∧
      ∀ s', volumeApplyRaw toLower ps q (volumeManifest name size) s' =
        applyVolume ps q name k s' := by
  simp only [volumeApplyRaw, decode_volumeManifest] at h ⊢
  cases hsize : size.decode "size" [] with
  | error e => rw [hsize] at h; cases h
  | ok text =>
    rw [hsize] at h
    simp only [Except.map] at h ⊢
    by_cases hname : name = ""
    · rw [if_pos hname] at h; cases h
    · rw [if_neg hname] at h
      cases hk : sizeWanted toLower text with
      | error e => rw [hk] at h; cases h
      | ok k => exact ⟨text, k, rfl, hk, fun s' => if_neg hname⟩

end Twice

/-- A manifest whose first `apply` creates the volume: the second succeeds and leaves everything as
it is exactly if the size is one of whole extents. -/
theorem apply_twice_iff (toLower : Bytes → Bytes) (ps : Params) (q : Probe) (name : String)
    (size : Field Bytes) (s : State) (out : Applied) (hq : q.Reads)
    (hrow : s.volumes.get name = none)
    (hfirst : (volumeApplyRaw toLower ps q (volumeManifest name size) s).2 = .ok out) :
    (∃ again, volumeApplyRaw toLower ps q (volumeManifest name size)
        (volumeApplyRaw toLower ps q (volumeManifest name size) s).1 =
      ((volumeApplyRaw toLower ps q (volumeManifest name size) s).1, .ok again)) ↔
      WholeExtents toLower size := by
  obtain ⟨text, k, hdecode, hk, hsame⟩ := volumeApplyRaw_of_ok hfirst
  rw [← sizeWanted_dvd_iff hdecode hk]
  simp only [hsame] at hfirst ⊢
  rw [applyVolume_new hrow] at hfirst ⊢
  by_cases hcan : validateName name = .ok () ∧ validateSize (sizeFor k) = .ok () ∧
      s.volumes.get name = none ∧ s.lvs name = none
  · obtain ⟨hname, hsize, -, hlv⟩ := hcan
    rw [run_create_ok hname hsize hrow hlv]
    have hmax := (Maintenance.le_of_validateSize hsize).2
    refine applyVolume_existing (.of_some ?_ ?_ hname hmax) hq ?_
    · exact Function.update_self _ _ _
    · exact Keyed.Table.get_put_self _ _
    · exact Function.update_self _ _ _
  · obtain ⟨e, he⟩ := run_create_failed (q := q) hcan; rw [he] at hfirst; cases hfirst

theorem apply_twice_512 :
    ∃ again, volumeApplyRaw (List.map GoString.lower) dataParams .ioctl
        (volumeManifest "data" (.text (GoString.utf8 "512MiB")))
        (volumeApplyRaw (List.map GoString.lower) dataParams .ioctl
          (volumeManifest "data" (.text (GoString.utf8 "512MiB"))) noVolumes).1 =
      ((volumeApplyRaw (List.map GoString.lower) dataParams .ioctl
          (volumeManifest "data" (.text (GoString.utf8 "512MiB"))) noVolumes).1, .ok again) :=
  (apply_twice_iff (List.map GoString.lower) dataParams .ioctl "data"
    (.text (GoString.utf8 "512MiB")) noVolumes .created (by decide) rfl (by decide +kernel)).mpr
    (.inr ⟨512, .mib, by decide +kernel, by simp only [SizeUnit.WholeExtents]; decide⟩)

/-- A volume of 33 MiB, which is one of 36 when the file is applied again. -/
theorem apply_twice_fails :
    ¬ ∀ (toLower : Bytes → Bytes) (ps : Params) (q : Probe) (name : String) (size : Field Bytes)
      (s : State) (out : Applied), q.Reads → s.volumes.get name = none →
      (volumeApplyRaw toLower ps q (volumeManifest name size) s).2 = .ok out →
      ∃ again, volumeApplyRaw toLower ps q (volumeManifest name size)
          (volumeApplyRaw toLower ps q (volumeManifest name size) s).1 =
        ((volumeApplyRaw toLower ps q (volumeManifest name size) s).1, .ok again) := by
  intro hall
  obtain ⟨again, hagain⟩ := hall (List.map GoString.lower) dataParams .ioctl "data"
    (.text (GoString.utf8 "33MiB")) noVolumes .created (by decide) rfl (by decide +kernel)
  have herr : (volumeApplyRaw (List.map GoString.lower) dataParams .ioctl
      (volumeManifest "data" (.text (GoString.utf8 "33MiB")))
      (volumeApplyRaw (List.map GoString.lower) dataParams .ioctl
        (volumeManifest "data" (.text (GoString.utf8 "33MiB"))) noVolumes).1).2.isOk = false := by
    decide +kernel
  rw [hagain] at herr
  cases herr

end Capsule.Volumes.Apply
