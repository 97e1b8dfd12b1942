import Mathlib.Data.List.Sort

/-!
# Capsule.Keyed.Table

Tables of records with a primary key: what `INSERT`, `INSERT OR REPLACE`, `SELECT` and
`DELETE` by key do to a table, whatever the records are. A `Table key` cannot hold two rows
with one key, so a lookup answers with the only row there is.
-/

namespace Keyed

variable {α κ : Type}

structure Table (key : α → κ) where
  rows : List α
  nodup : (rows.map key).Nodup

namespace Table

variable {key : α → κ}

@[ext] theorem ext {t u : Table key} (h : t.rows = u.rows) : t = u := by
  cases t; cases u; cases h; rfl

/-- All rows, in key order. -/
def list [LinearOrder κ] (t : Table key) : List α :=
  t.rows.insertionSort fun x y => key x ≤ key y

/-- All rows, in the order of `rank`. -/
def listBy {ρ : Type} [LinearOrder ρ] (rank : α → ρ) (t : Table key) : List α :=
  t.rows.insertionSort fun x y => rank x ≤ rank y

theorem mem_list [LinearOrder κ] {t : Table key} {x : α} : x ∈ t.list ↔ x ∈ t.rows :=
  (List.perm_insertionSort _ _).mem_iff

theorem nodup_list [LinearOrder κ] (t : Table key) : (t.list.map key).Nodup :=
  ((List.perm_insertionSort _ _).map key).nodup_iff.mpr t.nodup

variable [DecidableEq κ]

instance [DecidableEq α] : DecidableEq (Table key) := fun t u =>
  decidable_of_iff (t.rows = u.rows) ⟨ext, fun h => h ▸ rfl⟩

def empty : Table key := ⟨[], List.nodup_nil⟩

def get (t : Table key) (k : κ) : Option α := t.rows.find? fun x => key x = k

/-- Remove the row under `k`, if any. -/
def del (t : Table key) (k : κ) : Table key where
  rows := t.rows.filter fun x => key x ≠ k
  nodup := t.nodup.sublist (List.filter_sublist.map key)

/-- Insert `x`, replacing the row under its key. -/
def put (t : Table key) (x : α) : Table key where
  rows := x :: (t.del (key x)).rows
  nodup := by
    refine List.nodup_cons.mpr ⟨?_, (t.del (key x)).nodup⟩
    simp [del]

/-- Insert `x`; `none` when its key is taken. -/
def add (t : Table key) (x : α) : Option (Table key) :=
  if h : key x ∈ t.rows.map key then none
  else some ⟨x :: t.rows, List.nodup_cons.mpr ⟨h, t.nodup⟩⟩

def count (t : Table key) : Nat := t.rows.length

/-- `INSERT ... ON CONFLICT DO UPDATE`: insert `x`, or `set` columns of the row under its key. -/
def upsert (t : Table key) (x : α) (set : α → α) : Table key :=
  match t.get (key x) with
  | none => t.put x
  | some old => t.put (set old)

theorem get_some_key {t : Table key} {k : κ} {x : α} (h : t.get k = some x) : key x = k := by
  simpa using List.find?_some h

theorem get_of_mem {t : Table key} {x : α} (h : x ∈ t.rows) : t.get (key x) = some x := by
  obtain ⟨rows, nodup⟩ := t
  simp only [get] at h ⊢
  induction rows with
  | nil => simp at h
  | cons y ys ih =>
    rw [List.map_cons, List.nodup_cons] at nodup
    rcases List.mem_cons.mp h with rfl | h
    · simp
    · have hne : key y ≠ key x := fun he => nodup.1 (he ▸ List.mem_map_of_mem h)
      rw [List.find?_cons_of_neg (by simpa using hne)]
      exact ih nodup.2 h

theorem get_eq_none_iff {t : Table key} {k : κ} : t.get k = none ↔ k ∉ t.rows.map key := by
  simp [get, List.find?_eq_none]

theorem mem_of_get {t : Table key} {k : κ} {x : α} (h : t.get k = some x) : x ∈ t.rows :=
  List.mem_of_find?_eq_some h

theorem find?_list [LinearOrder κ] (t : Table key) (k : κ) {p : α → Bool}
    (hp : ∀ x, p x = true ↔ key x = k) : t.list.find? p = t.get k := by
  cases hfind : t.list.find? p with
  | none =>
    refine (get_eq_none_iff.mpr fun hk => ?_).symm
    obtain ⟨x, hx, hkey⟩ := List.mem_map.mp hk
    exact List.find?_eq_none.mp hfind x (mem_list.mpr hx) ((hp x).mpr hkey)
  | some x =>
    rw [← (hp x).mp (List.find?_some hfind)]
    exact (get_of_mem (mem_list.mp (List.mem_of_find?_eq_some hfind))).symm

@[simp] theorem get_del_self (t : Table key) (k : κ) : (t.del k).get k = none := by
  simp [get_eq_none_iff, del]

theorem get_del_ne (t : Table key) {k k' : κ} (h : k' ≠ k) : (t.del k).get k' = t.get k' := by
  simp only [get, del, List.find?_filter]
  congr 1
  funext x
  by_cases hx : key x = k'
  · simp [hx, h]
  · simp [hx]

@[simp] theorem get_put_self (t : Table key) (x : α) : (t.put x).get (key x) = some x := by
  simp [get, put]

theorem get_put_ne (t : Table key) {x : α} {k : κ} (h : k ≠ key x) :
    (t.put x).get k = t.get k := by
  rw [← get_del_ne t h]
  simp only [get, put]
  exact List.find?_cons_of_neg (by simpa using Ne.symm h)

theorem get_put (t : Table key) (x : α) :
    (t.put x).get = Function.update t.get (key x) (some x) := by
  funext k
  by_cases hk : k = key x
  · rw [hk, get_put_self, Function.update_self]
  · rw [get_put_ne t hk, Function.update_of_ne hk]

theorem get_del (t : Table key) (k : κ) : (t.del k).get = Function.update t.get k none := by
  funext k'
  by_cases hk : k' = k
  · rw [hk, get_del_self, Function.update_self]
  · rw [get_del_ne t hk, Function.update_of_ne hk]

theorem mem_del {t : Table key} {k : κ} {x : α} : x ∈ (t.del k).rows ↔ x ∈ t.rows ∧ key x ≠ k := by
  simp [del]

theorem add_eq_some {t u : Table key} {x : α} (h : t.add x = some u) :
    u.rows = x :: t.rows ∧ key x ∉ t.rows.map key := by
  simp only [add] at h
  split at h
  · cases h
  · cases h; exact ⟨rfl, ‹_›⟩

theorem count_add {t u : Table key} {x : α} (h : t.add x = some u) : u.count = t.count + 1 := by
  simp [count, (add_eq_some h).1]

theorem get_of_add_eq_none {t : Table key} {x : α} (h : t.add x = none) :
    t.get (key x) ≠ none := by
  simp only [add] at h
  split at h
  · rename_i hx
    rwa [ne_eq, get_eq_none_iff, not_not]
  · cases h

theorem get_eq_none_of_add {t u : Table key} {x : α} (h : t.add x = some u) :
    t.get (key x) = none :=
  get_eq_none_iff.mpr (add_eq_some h).2

theorem get_of_add {t u : Table key} {x : α} (h : t.add x = some u) :
    u.get = Function.update t.get (key x) (some x) := by
  funext k
  have hrows := (add_eq_some h).1
  by_cases hk : k = key x
  · subst hk; rw [Function.update_self]; exact get_of_mem (hrows ▸ List.mem_cons_self)
  · rw [Function.update_of_ne hk, get, hrows, List.find?_cons_of_neg]
    · rfl
    · simpa using Ne.symm hk

theorem get_add {t u : Table key} {x : α} {k : κ} (h : t.add x = some u)
    (hk : k = key x ∨ t.get k ≠ none) : u.get k ≠ none := by
  rw [ne_eq, get_eq_none_iff, not_not] at hk ⊢
  rw [(add_eq_some h).1, List.map_cons, List.mem_cons]
  exact hk

theorem add_of_one_key {t : Table key} {x : α} (ht : ∀ y ∈ t.rows, key y = key x) :
    (∃ u, t.add x = some u ∧ u.rows = [x]) ∨ t.add x = none ∧ ∃ y, t.rows = [y] := by
  obtain ⟨rows, nodup⟩ := t
  cases rows with
  | nil => exact .inl ⟨_, dif_neg (by simp), rfl⟩
  | cons y ys =>
    have hys : ys = [] := by
      refine List.eq_nil_iff_forall_not_mem.mpr fun z hz => ?_
      rw [List.map_cons, List.nodup_cons] at nodup
      have hyz : key y = key z :=
        (ht y List.mem_cons_self).trans (ht z (List.mem_cons_of_mem y hz)).symm
      exact nodup.1 (hyz ▸ List.mem_map_of_mem hz)
    subst hys
    exact .inr ⟨dif_pos (by simp [ht y List.mem_cons_self]), y, rfl⟩

theorem count_le_del (t : Table key) (k : κ) : t.count ≤ (t.del k).count + 1 := by
  obtain ⟨rows, nodup⟩ := t
  simp only [count, del]
  induction rows with
  | nil => simp
  | cons x xs ih =>
    rw [List.map_cons, List.nodup_cons] at nodup
    by_cases hx : key x = k
    · -- no other row has the key, so the rest stays as it is
      have hrest : xs.filter (fun y => key y ≠ k) = xs := by
        refine List.filter_eq_self.mpr fun y hy => ?_
        have : key y ≠ k := fun he => nodup.1 (hx ▸ he ▸ List.mem_map_of_mem hy)
        simpa using this
      rw [List.filter_cons_of_neg (by simpa using hx), hrest]
      simp
    · rw [List.filter_cons_of_pos (by simpa using hx)]
      simpa using ih nodup.2

theorem upsert_eq_put {t : Table key} {x : α} {set : α → α}
    (h : ∀ old, t.get (key x) = some old → set old = x) : t.upsert x set = t.put x := by
  unfold upsert
  split
  · rfl
  · rename_i old hold; rw [h old hold]

theorem get_upsert {t : Table key} {x : α} {set : α → α} (hset : ∀ old, key (set old) = key old) :
    (t.upsert x set).get = Function.update t.get (key x) (some ((t.get (key x)).elim x set)) := by
  unfold upsert
  cases hold : t.get (key x) with
  | none => exact get_put t x
  | some old =>
    refine (get_put t (set old)).trans ?_
    rw [hset, get_some_key hold]
    rfl

section Map

variable {β : Type} {key' : β → κ} {f : α → β} {hf : ∀ x, key' (f x) = key x}

def map (f : α → β) (hf : ∀ x, key' (f x) = key x) (t : Table key) : Table key' where
  rows := t.rows.map f
  nodup := by
    rw [List.map_map, show key' ∘ f = key from funext hf]; exact t.nodup

theorem get_map (t : Table key) (k : κ) : (t.map f hf).get k = (t.get k).map f := by
  simp only [get, map, List.find?_map]
  congr 2
  funext x
  simp only [Function.comp, hf]

theorem del_map (t : Table key) (k : κ) : (t.map f hf).del k = (t.del k).map f hf := by
  apply ext
  simp only [del, map, List.filter_map]
  congr 2
  funext x
  simp only [Function.comp, hf]

theorem put_map (t : Table key) (x : α) : (t.map f hf).put (f x) = (t.put x).map f hf := by
  apply ext
  change f x :: ((t.map f hf).del (key' (f x))).rows = f x :: ((t.del (key x)).map f hf).rows
  rw [hf, del_map]

theorem add_map (t : Table key) (x : α) :
    (t.map f hf).add (f x) = (t.add x).map (map f hf) := by
  have hrows : (t.map f hf).rows.map key' = t.rows.map key := by
    rw [map, List.map_map, show key' ∘ f = key from funext hf]
  by_cases hx : key x ∈ t.rows.map key
  · have hx' : key' (f x) ∈ (t.map f hf).rows.map key' := by rwa [hrows, hf]
    rw [add, dif_pos hx', add, dif_pos hx]
    rfl
  · have hx' : key' (f x) ∉ (t.map f hf).rows.map key' := by rwa [hrows, hf]
    rw [add, dif_neg hx', add, dif_neg hx]
    rfl

omit [DecidableEq κ] in
theorem listBy_map {ρ : Type} [LinearOrder ρ] {rank : α → ρ} {rank' : β → ρ}
    (hrank : ∀ x, rank' (f x) = rank x) (t : Table key) :
    (t.map f hf).listBy rank' = (t.listBy rank).map f := by
  refine (List.map_insertionSort _ _ f t.rows fun x _ y _ => ?_).symm
  rw [hrank, hrank]

omit [DecidableEq κ] in
theorem list_map [LinearOrder κ] (t : Table key) : (t.map f hf).list = t.list.map f :=
  listBy_map hf t

omit [DecidableEq κ] in
theorem count_map (t : Table key) : (t.map f hf).count = t.count := List.length_map f

end Map

end Table

end Keyed
