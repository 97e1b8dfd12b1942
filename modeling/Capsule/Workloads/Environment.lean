import Capsule.GoString
import Mathlib.Data.List.Nodup

/-!
# Capsule.Workloads.Environment

`mergeEnv` of `runtime/container/driver.go`: the image's environment with the spec's entries over
it. Go walks a map in any order, and anew in each loop, so both orders are arguments (`Iterates`).

* `mergeEnv_eq`: the two loops as one expression: the base with its entries replaced (`merged`), and
  after it the entries of the map that were not seen there.
* `filterMap_mergeEnv`, `filter_kept_mergeEnv`: the entries for one key, and those that the map says
  nothing about.
* `mergeEnv_overrides`: so the map's values win in every lookup, the other entries are kept in their
  order, and no lookup depends on an order of the map.
-/

namespace Capsule.Workloads.Environment

abbrev Text := List UInt8

abbrev Env := Text → Option Text

/-- An order `range extra` can take. -/
structure Iterates (extra : Env) (order : List Text) : Prop where
  nodup : order.Nodup
  mem_iff : ∀ k, k ∈ order ↔ (extra k).isSome

def entry (k v : Text) : Text := k ++ 61 :: v

/-- The key before the first `=` and the value `extra` has for it. A `=` in front is no end of a
key. -/
def overriding (extra : Env) (e : Text) : Option (Text × Text) := do
  let (k, _) ← GoString.cut 61 e
  if k = [] then none else (k, ·) <$> extra k

def mergeStep (extra : Env) (s : List Text × (Text → Bool)) (e : Text) :
    List Text × (Text → Bool) :=
  match overriding extra e with
  | some (k, v) => (s.1 ++ [entry k v], Function.update s.2 k true)
  | none => (s.1 ++ [e], s.2)

def extraStep (extra : Env) (seen : Text → Bool) (out : List Text) (k : Text) : List Text :=
  if seen k then out else out ++ [entry k ((extra k).getD [])]

def mergeEnv (extra : Env) (order order' : List Text) (base : List Text) : List Text :=
  let seen := order.foldl (fun seen k => Function.update seen k false) fun _ => false
  let s := base.foldl (mergeStep extra) ([], seen)
  order'.foldl (extraStep extra s.2) s.1

/-- What an entry of the base becomes. -/
def merged (extra : Env) (e : Text) : Text :=
  match overriding extra e with
  | some (k, v) => entry k v
  | none => e

def seenIn (extra : Env) (base : List Text) (k : Text) : Bool :=
  base.any fun e => (overriding extra e).any (·.1 = k)

theorem initial_seen (order : List Text) :
    (order.foldl (fun seen k => Function.update seen k false) fun _ => false) =
      fun _ => false := by
  induction order with
  | nil => rfl
  | cons k order ih => rw [List.foldl_cons, Function.update_eq_self_iff.2 rfl, ih]

theorem mergeSteps (extra : Env) (base out : List Text) (seen : Text → Bool) :
    base.foldl (mergeStep extra) (out, seen) =
      (out ++ base.map (merged extra), fun k => seen k || seenIn extra base k) := by
  induction base generalizing out seen with
  | nil => simp [seenIn]
  | cons e base ih =>
    rw [List.foldl_cons, mergeStep, List.map_cons, merged]
    cases h : overriding extra e with
    | none => simp [ih, seenIn, h]
    | some kv =>
      simp only [ih, List.append_assoc, List.singleton_append, Prod.mk.injEq, true_and]
      funext k
      by_cases hk : k = kv.1
      · simp [seenIn, h, hk]
      · simp [seenIn, h, hk, Ne.symm hk]

theorem extraSteps (extra : Env) (seen : Text → Bool) (order out : List Text) :
    order.foldl (extraStep extra seen) out =
      out ++ (order.filter (! seen ·)).map fun k => entry k ((extra k).getD []) := by
  induction order generalizing out with
  | nil => simp
  | cons k order ih => rw [List.foldl_cons, ih, extraStep]; cases h : seen k <;> simp [h]

theorem mergeEnv_eq (extra : Env) (order order' base : List Text) :
    mergeEnv extra order order' base = base.map (merged extra) ++
      (order'.filter (! seenIn extra base ·)).map fun k => entry k ((extra k).getD []) := by
  simp [mergeEnv, initial_seen, mergeSteps, extraSteps]

/-- The entries `extra` says nothing about. -/
def kept (extra : Env) (e : Text) : Bool := ((GoString.cut 61 e).bind fun kw => extra kw.1).isNone

/-- The value an entry gives a key. -/
def valueFor (k e : Text) : Option Text :=
  (GoString.cut 61 e).bind fun kw => if kw.1 = k then some kw.2 else none

def firstMatch (env : List Text) (k : Text) : Option Text := env.findSome? (valueFor k)

def lastMatch (env : List Text) (k : Text) : Option Text := env.reverse.findSome? (valueFor k)

theorem valueFor_entry {a : Text} (ha : 61 ∉ a) (k v : Text) :
    valueFor k (entry a v) = if a = k then some v else none := by
  rw [valueFor, entry, GoString.cut_append ha, Option.bind_some]

section Merge

variable {extra : Env} (hkeys : ∀ k, (extra k).isSome → k ≠ [] ∧ 61 ∉ k)
include hkeys

theorem merged_cases (e : Text) :
    (overriding extra e = none ∧ merged extra e = e ∧ kept extra e = true) ∨
      ∃ k v, overriding extra e = some (k, v) ∧ merged extra e = entry k v ∧
        kept extra e = false ∧ extra k = some v := by
  unfold merged kept overriding
  cases hcut : GoString.cut 61 e with
  | none => simp
  | some kw =>
    obtain ⟨k, w⟩ := kw
    cases hv : extra k with
    | none => left; simp [hv]
    | some v => simp [hv, (hkeys k (by simp [hv])).1]

theorem kept_entry {k v : Text} (h : (extra k).isSome) : kept extra (entry k v) = false := by
  rw [kept, entry, GoString.cut_append (hkeys k h).2, Option.bind_some]
  simpa [Option.isNone_iff_eq_none, Option.isSome_iff_ne_none] using h

theorem filter_kept_merged (base : List Text) :
    (base.map (merged extra)).filter (kept extra) = base.filter (kept extra) := by
  induction base with
  | nil => rfl
  | cons e base ih =>
    obtain ⟨-, hm, hk⟩ | ⟨k, v, -, hm, hk, hv⟩ := merged_cases hkeys e
    · simp [hm, hk, ih]
    · simp [hm, hk, ih, kept_entry hkeys (show (extra k).isSome by simp [hv])]

theorem filterMap_added {order : List Text} (ho : Iterates extra order) (p : Text → Bool)
    (k : Text) :
    ((order.filter p).map fun a => entry a ((extra a).getD [])).filterMap (valueFor k) =
      if (extra k).isSome ∧ p k then [(extra k).getD []] else [] := by
  have hone : ∀ a ∈ order,
      (if p a then (valueFor k ∘ fun a => entry a ((extra a).getD [])) a else none) =
        if a == k then (if p k then some ((extra k).getD []) else none) else none := by
    intro a ha
    have ha' : 61 ∉ a := (hkeys a ((ho.mem_iff a).1 ha)).2
    by_cases hk : a = k
    · subst hk; simp [valueFor_entry ha']
    · simp [valueFor_entry ha', hk]
  rw [List.filterMap_map, List.filterMap_filter, List.filterMap_congr hone, ← List.filterMap_filter,
    List.filter_beq, ho.nodup.count]
  simp only [ho.mem_iff]
  cases (extra k).isSome <;> cases p k <;> simp

theorem filterMap_mergeEnv {order' : List Text} (ho : Iterates extra order')
    (order base : List Text) (k : Text) :
    (mergeEnv extra order order' base).filterMap (valueFor k) =
      (base.map (merged extra)).filterMap (valueFor k) ++
        if (extra k).isSome ∧ (!seenIn extra base k) then [(extra k).getD []] else [] := by
  rw [mergeEnv_eq, List.filterMap_append, filterMap_added hkeys ho]

theorem valueFor_merged {e k v w : Text} (hv : extra k = some v)
    (h : valueFor k (merged extra e) = some w) : w = v := by
  obtain ⟨-, hm, hk⟩ | ⟨k', v', -, hm, -, hv'⟩ := merged_cases hkeys e
  · rw [hm, valueFor] at h
    rw [kept] at hk
    cases hcut : GoString.cut 61 e with
    | none => simp [hcut] at h
    | some kw =>
      simp only [hcut, Option.bind_some] at h hk
      split at h
      · rename_i heq; simp [heq, hv] at hk
      · cases h
  · rw [hm, valueFor_entry (hkeys k' (by simp [hv'])).2] at h
    split at h
    · rename_i heq; subst heq; rw [hv] at hv'; cases hv'; cases h; rfl
    · cases h

theorem entry_mem_mergeEnv {order' : List Text} (ho : Iterates extra order')
    (order base : List Text) {k v : Text} (hv : extra k = some v) :
    entry k v ∈ mergeEnv extra order order' base := by
  rw [mergeEnv_eq, List.mem_append]
  cases hseen : seenIn extra base k with
  | true =>
    obtain ⟨e, he, hk⟩ := List.any_eq_true.1 hseen
    obtain ⟨hn, -⟩ | ⟨k', v', hs, hm, -, hv'⟩ := merged_cases hkeys e
    · simp [hn] at hk
    · have heq : k' = k := by simpa [hs] using hk
      rw [heq, hv] at hv'
      cases hv'
      exact .inl (List.mem_map.2 ⟨e, he, heq ▸ hm⟩)
  | false =>
    refine .inr (List.mem_map.2 ⟨k, List.mem_filter.2 ⟨(ho.mem_iff k).2 (by simp [hv]), ?_⟩, ?_⟩)
    · simp [hseen]
    · simp [hv]

theorem filter_kept_mergeEnv {order' : List Text} (ho : Iterates extra order')
    (order base : List Text) :
    (mergeEnv extra order order' base).filter (kept extra) = base.filter (kept extra) := by
  rw [mergeEnv_eq, List.filter_append, filter_kept_merged hkeys, List.append_right_eq_self,
    List.filter_eq_nil_iff]
  intro e he
  obtain ⟨k, hk, rfl⟩ := List.mem_map.1 he
  simp [kept_entry hkeys ((ho.mem_iff k).1 (List.mem_filter.1 hk).1)]

end Merge

theorem firstMatch_eq (env : List Text) (k : Text) :
    firstMatch env k = (env.filterMap (valueFor k)).head? := List.head?_filterMap.symm

theorem lastMatch_eq (env : List Text) (k : Text) :
    lastMatch env k = (env.filterMap (valueFor k)).getLast? := by
  rw [lastMatch, ← List.head?_filterMap, List.filterMap_reverse, List.head?_reverse]

/-- Every entry for a key of `extra` has the value `extra` gives it, and there is one. The entries
for other keys are those of the base. No lookup depends on an order of the map, and what the first
loop walks does not matter at all. -/
theorem mergeEnv_overrides (extra : Env) (hkeys : ∀ k, (extra k).isSome → k ≠ [] ∧ 61 ∉ k)
    (base order₁ order₂ : List Text) (h₂ : Iterates extra order₂) :
    (∀ k v, extra k = some v →
      (∀ e ∈ mergeEnv extra order₁ order₂ base, ∀ w, valueFor k e = some w → w = v) ∧
        entry k v ∈ mergeEnv extra order₁ order₂ base) ∧
      (mergeEnv extra order₁ order₂ base).filter (kept extra) = base.filter (kept extra) ∧
      ∀ order₃ order₄, Iterates extra order₄ → ∀ k,
        firstMatch (mergeEnv extra order₃ order₄ base) k =
            firstMatch (mergeEnv extra order₁ order₂ base) k ∧
          lastMatch (mergeEnv extra order₃ order₄ base) k =
            lastMatch (mergeEnv extra order₁ order₂ base) k := by
  refine ⟨?_, filter_kept_mergeEnv hkeys h₂ order₁ base, ?_⟩
  · intro k v hv
    refine ⟨?_, entry_mem_mergeEnv hkeys h₂ order₁ base hv⟩
    intro e he w hw
    have hmem := List.mem_filterMap.2 ⟨e, he, hw⟩
    rw [filterMap_mergeEnv hkeys h₂] at hmem
    obtain hbase | hadded := List.mem_append.1 hmem
    · obtain ⟨e', he', hw'⟩ := List.mem_filterMap.1 hbase
      obtain ⟨e₀, -, rfl⟩ := List.mem_map.1 he'
      exact valueFor_merged hkeys hv hw'
    · simp only [hv] at hadded
      split at hadded
      · simpa using hadded
      · cases hadded
  · intro order₃ order₄ h₄ k
    simp only [firstMatch_eq, lastMatch_eq, filterMap_mergeEnv hkeys h₂,
      filterMap_mergeEnv hkeys h₄, and_self]

def oneKey : Env := fun k => if k = [65] then some [49] else none

theorem oneKey_isSome (k : Text) : (oneKey k).isSome ↔ k = [65] := by
  unfold oneKey
  split <;> simp [*]

/-- `A=1` over `A=0`, with an entry that has no key. -/
theorem mergeEnv_overrides_oneKey :
    entry [65] [49] ∈ mergeEnv oneKey [[65]] [[65]] [[65, 61, 48], [61, 66]] ∧
      (mergeEnv oneKey [[65]] [[65]] [[65, 61, 48], [61, 66]]).filter (kept oneKey) =
        [[61, 66]] := by
  have hkeys : ∀ k, (oneKey k).isSome → k ≠ [] ∧ 61 ∉ k := by
    intro k hk; rw [(oneKey_isSome k).1 hk]; decide
  have horder : Iterates oneKey [[65]] := ⟨by decide, fun k => by simp [oneKey_isSome]⟩
  have h := mergeEnv_overrides oneKey hkeys [[65, 61, 48], [61, 66]] [[65]] [[65]] horder
  exact ⟨(h.1 [65] [49] rfl).2, h.2.1⟩

end Capsule.Workloads.Environment
