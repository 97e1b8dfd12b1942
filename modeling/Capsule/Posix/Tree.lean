import Mathlib.Data.List.Infix
import Capsule.Keyed.Table

/-!
# Capsule.Posix.Tree

A file tree with symbolic links, and how the kernel finds a place in it.

* `FileTree`: nodes by their places, each of them in a directory. `add` and `remove` change one.
* `walk`: the resolution of a path that follows at most so many links, as a function; `Walks` is the
  same step by step, and `walks_of_walk` and `Walks.walk` connect the two.
* `Walks.split`, `Walks.extends`: a walk in two parts, and in a tree with more in it.
* `Confined`, `Walks.inside`: where no link under a directory leads out of it, a walk from inside
  stays inside.
-/

namespace Posix

variable {ν : Type}

inductive Comp (ν : Type) where
  /-- `.`, or nothing between two slashes. -/
  | here
  /-- `..`. -/
  | up
  | name (n : ν)
  deriving DecidableEq

/-- A place in the tree, innermost name first. -/
abbrev Loc (ν : Type) := List ν

inductive Node (ν : Type) where
  | dir
  | file
  | link (rooted : Bool) (target : List (Comp ν))
  deriving DecidableEq

variable [DecidableEq ν]

/-- What a table of nodes has at a place; the root is a directory. -/
def nodeOf (t : Keyed.Table (Prod.fst : Loc ν × Node ν → Loc ν)) : Loc ν → Option (Node ν)
  | [] => some .dir
  | n :: l => (t.get (n :: l)).map Prod.snd

structure FileTree (ν : Type) [DecidableEq ν] where
  nodes : Keyed.Table (Prod.fst : Loc ν × Node ν → Loc ν)
  parent : ∀ n l, nodeOf nodes (n :: l) ≠ none → nodeOf nodes l = some .dir

namespace FileTree

def node (t : FileTree ν) : Loc ν → Option (Node ν) := nodeOf t.nodes

@[simp] theorem node_root (t : FileTree ν) : t.node [] = some .dir := rfl

theorem node_child_none {t : FileTree ν} {l : Loc ν} (h : t.node l ≠ some .dir) (n : ν) :
    t.node (n :: l) = none := by
  by_contra hn
  exact h (t.parent n l hn)

theorem nodeOf_put (t : Keyed.Table (Prod.fst : Loc ν × Node ν → Loc ν)) (n : ν) (l k : Loc ν)
    (x : Node ν) : nodeOf (t.put (n :: l, x)) k = if k = n :: l then some x else nodeOf t k := by
  cases k with
  | nil => rfl
  | cons m k =>
    simp only [nodeOf]
    split
    · rename_i h
      rw [h]
      exact congrArg (Option.map Prod.snd) (t.get_put_self (n :: l, x))
    · rename_i h; rw [t.get_put_ne h]

theorem nodeOf_del (t : Keyed.Table (Prod.fst : Loc ν × Node ν → Loc ν)) (n : ν) (l k : Loc ν) :
    nodeOf (t.del (n :: l)) k = if k = n :: l then none else nodeOf t k := by
  cases k with
  | nil => rfl
  | cons m k =>
    simp only [nodeOf]
    split
    · rename_i h; rw [h, t.get_del_self]; rfl
    · rename_i h; rw [t.get_del_ne h]

/-- A new node in an existing directory; `none` when there is something already. -/
def add (t : FileTree ν) (n : ν) (l : Loc ν) (x : Node ν) : Option (FileTree ν) :=
  if h : t.node l = some .dir ∧ t.node (n :: l) = none then
    some ⟨t.nodes.put (n :: l, x), by
      intro m k hk
      have hl : l ≠ n :: l := fun he => by simpa using congrArg List.length he
      rw [nodeOf_put] at hk ⊢
      by_cases hmk : m :: k = n :: l
      · cases hmk; rw [if_neg hl]; exact h.1
      · rw [if_neg hmk] at hk
        have hdir := t.parent m k hk
        rw [if_neg]
        · exact hdir
        · rintro rfl; exact absurd (h.2.symm.trans hdir) (by simp)⟩
  else none

def bare : FileTree ν := ⟨.empty, fun _ _ h => absurd rfl h⟩

/-- `add` where it can be done. -/
def grow (t : FileTree ν) (n : ν) (l : Loc ν) (x : Node ν) : FileTree ν := (t.add n l x).getD t

/-- Nothing stands in the directory. -/
def Empty (t : FileTree ν) (l : Loc ν) : Prop := ∀ x ∈ t.nodes.rows, x.1.tail ≠ l

instance (t : FileTree ν) (l : Loc ν) : Decidable (t.Empty l) :=
  inferInstanceAs (Decidable (∀ x ∈ t.nodes.rows, x.1.tail ≠ l))

theorem Empty.child {t : FileTree ν} {l : Loc ν} (h : t.Empty l) (n : ν) :
    t.node (n :: l) = none := by
  cases hg : t.nodes.get (n :: l) with
  | none => simp [node, nodeOf, hg]
  | some x =>
    have hx := List.mem_of_find?_eq_some hg
    have hkey := Keyed.Table.get_some_key hg
    exact absurd (by rw [hkey]; rfl) (h x hx)

/-- `unlink` or `rmdir`: `none` when there is nothing, or a directory that is not empty. -/
def remove (t : FileTree ν) (n : ν) (l : Loc ν) : Option (FileTree ν) :=
  if h : t.node (n :: l) ≠ none ∧ t.Empty (n :: l) then
    some ⟨t.nodes.del (n :: l), by
      intro m k hk
      rw [nodeOf_del] at hk ⊢
      split at hk
      · exact absurd rfl hk
      · have hdir := t.parent m k hk
        rw [if_neg]
        · exact hdir
        · rintro rfl; exact hk (h.2.child m)⟩
  else none

theorem node_add {t t' : FileTree ν} {n : ν} {l : Loc ν} {x : Node ν} (h : t.add n l x = some t')
    (k : Loc ν) : t'.node k = if k = n :: l then some x else t.node k := by
  unfold add at h
  split at h
  · cases h; exact nodeOf_put t.nodes n l k x
  · cases h

theorem add_absent {t t' : FileTree ν} {n : ν} {l : Loc ν} {x : Node ν}
    (h : t.add n l x = some t') :
    t.node l = some .dir ∧ t.node (n :: l) = none := by
  unfold add at h
  split at h
  · assumption
  · cases h

theorem node_remove {t t' : FileTree ν} {n : ν} {l : Loc ν} (h : t.remove n l = some t')
    (k : Loc ν) :
    t'.node k = if k = n :: l then none else t.node k := by
  unfold remove at h
  split at h
  · cases h; exact nodeOf_del t.nodes n l k
  · cases h

/-- The second tree has all that the first has. -/
def Extends (t t' : FileTree ν) : Prop := ∀ l x, t.node l = some x → t'.node l = some x

theorem extends_add {t t' : FileTree ν} {n : ν} {l : Loc ν} {x : Node ν}
    (h : t.add n l x = some t') :
    t.Extends t' := by
  intro k y hk
  rw [node_add h, if_neg]
  · exact hk
  · rintro rfl; rw [(add_absent h).2] at hk; cases hk

theorem remove_extends {t t' : FileTree ν} {n : ν} {l : Loc ν} (h : t.remove n l = some t') :
    t'.Extends t := by
  intro k y hk
  rw [node_remove h] at hk
  split at hk
  · cases hk
  · exact hk

/-- Resolution from the directory `cur`, where `jump` resolves what a link leaves to be resolved. -/
def walkWith (t : FileTree ν) (jump : Loc ν → List (Comp ν) → Option (Loc ν)) :
    Loc ν → List (Comp ν) → Option (Loc ν)
  | cur, [] => some cur
  | cur, .here :: rest => walkWith t jump cur rest
  | cur, .up :: rest => walkWith t jump cur.tail rest
  | cur, .name n :: rest =>
    match t.node (n :: cur) with
    | some .dir => walkWith t jump (n :: cur) rest
    | some (.link rooted target) => jump (if rooted then [] else cur) (target ++ rest)
    | _ => if rest = [] then some (n :: cur) else none

/-- Resolution that follows at most `links` links, the last component included. -/
def walk (t : FileTree ν) : Nat → Loc ν → List (Comp ν) → Option (Loc ν)
  | 0 => t.walkWith fun _ _ => none
  | links + 1 => t.walkWith (t.walk links)

section Walk

variable {t t' : FileTree ν} {k : Nat} {cur r : Loc ν} {n : ν} {todo a b : List (Comp ν)}

@[simp] theorem walk_nil : t.walk k cur [] = some cur := by
  cases k <;> rfl

@[simp] theorem walk_here : t.walk k cur (.here :: todo) = t.walk k cur todo := by
  cases k <;> rfl

@[simp] theorem walk_up : t.walk k cur (.up :: todo) = t.walk k cur.tail todo := by
  cases k <;> rfl

theorem walk_dir (h : t.node (n :: cur) = some .dir) :
    t.walk k cur (.name n :: todo) = t.walk k (n :: cur) todo := by
  cases k <;> simp [walk, walkWith, h]

theorem walk_link_zero {rooted : Bool} {target : List (Comp ν)}
    (h : t.node (n :: cur) = some (.link rooted target)) :
    t.walk 0 cur (.name n :: todo) = none := by
  simp [walk, walkWith, h]

theorem walk_link {rooted : Bool} {target : List (Comp ν)}
    (h : t.node (n :: cur) = some (.link rooted target)) :
    t.walk (k + 1) cur (.name n :: todo) =
      t.walk k (if rooted then [] else cur) (target ++ todo) := by
  simp [walk, walkWith, h]

theorem walk_end (hdir : t.node (n :: cur) ≠ some .dir)
    (hlink : ∀ rooted target, t.node (n :: cur) ≠ some (.link rooted target)) :
    t.walk k cur (.name n :: todo) = if todo = [] then some (n :: cur) else none := by
  cases hx : t.node (n :: cur) with
  | none => cases k <;> simp [walk, walkWith, hx]
  | some x =>
    cases x with
    | dir => exact absurd hx hdir
    | file => cases k <;> simp [walk, walkWith, hx]
    | link rooted target => exact absurd hx (hlink rooted target)

end Walk

/-- What a walk that finds its place does, step by step. -/
inductive Walks (t : FileTree ν) : Nat → Loc ν → List (Comp ν) → Loc ν → Prop where
  | done {k : Nat} {cur : Loc ν} : Walks t k cur [] cur
  | here {k : Nat} {cur r : Loc ν} {todo : List (Comp ν)} (h : Walks t k cur todo r) :
      Walks t k cur (.here :: todo) r
  | up {k : Nat} {cur r : Loc ν} {todo : List (Comp ν)} (h : Walks t k cur.tail todo r) :
      Walks t k cur (.up :: todo) r
  | dir {k : Nat} {cur r : Loc ν} {n : ν} {todo : List (Comp ν)}
      (hn : t.node (n :: cur) = some .dir) (h : Walks t k (n :: cur) todo r) :
      Walks t k cur (.name n :: todo) r
  | link {k : Nat} {cur r : Loc ν} {n : ν} {todo target : List (Comp ν)} {rooted : Bool}
      (hn : t.node (n :: cur) = some (.link rooted target))
      (h : Walks t k (if rooted then [] else cur) (target ++ todo) r) :
      Walks t (k + 1) cur (.name n :: todo) r
  | last {k : Nat} {cur : Loc ν} {n : ν} (hdir : t.node (n :: cur) ≠ some .dir)
      (hlink : ∀ rooted target, t.node (n :: cur) ≠ some (.link rooted target)) :
      Walks t k cur [.name n] (n :: cur)

section Walks

variable {t t' : FileTree ν} {j k : Nat} {cur r m d : Loc ν} {n : ν} {todo a b : List (Comp ν)}

theorem walks_of_links
    (hl : ∀ {cur : Loc ν} {n : ν} {todo : List (Comp ν)} {rooted : Bool} {target : List (Comp ν)},
      t.node (n :: cur) = some (.link rooted target) →
      t.walk k cur (.name n :: todo) = some r → t.Walks k cur (.name n :: todo) r)
    (h : t.walk k cur todo = some r) : t.Walks k cur todo r := by
  induction todo generalizing cur with
  | nil => cases walk_nil.symm.trans h; exact .done
  | cons c todo ih =>
    cases c with
    | here => exact .here (ih (walk_here.symm.trans h))
    | up => exact .up (ih (walk_up.symm.trans h))
    | name n =>
      by_cases hdir : t.node (n :: cur) = some .dir
      · exact .dir hdir (ih ((walk_dir hdir).symm.trans h))
      · by_cases hlink : ∃ rooted target, t.node (n :: cur) = some (.link rooted target)
        · obtain ⟨rooted, target, hlink⟩ := hlink; exact hl hlink h
        · have hlink : ∀ rooted target, t.node (n :: cur) ≠ some (.link rooted target) :=
            fun rooted target he => hlink ⟨rooted, target, he⟩
          rw [walk_end hdir hlink] at h
          split at h
          · subst todo; cases h; exact .last hdir hlink
          · cases h

theorem walks_of_walk (h : t.walk k cur todo = some r) : t.Walks k cur todo r := by
  induction k generalizing cur todo r with
  | zero =>
    refine walks_of_links ?_ h
    intro cur n todo rooted target hlink hw
    cases (walk_link_zero hlink).symm.trans hw
  | succ k ih =>
    refine walks_of_links ?_ h
    intro cur n todo rooted target hlink hw
    exact .link hlink (ih ((walk_link hlink).symm.trans hw))

theorem Walks.walk (h : t.Walks k cur todo r) : t.walk k cur todo = some r := by
  induction h with
  | done => exact walk_nil
  | here _ ih => exact walk_here.trans ih
  | up _ ih => exact walk_up.trans ih
  | dir hn _ ih => exact (walk_dir hn).trans ih
  | link hn _ ih => exact (walk_link hn).trans ih
  | last hdir hlink => rw [walk_end hdir hlink, if_pos rfl]

theorem Walks.unique (h : t.Walks k cur todo r) (h' : t.Walks k cur todo m) : r = m :=
  Option.some.inj (h.walk.symm.trans h'.walk)

theorem Walks.mono (h : t.Walks j cur todo r) (hjk : j ≤ k) : t.Walks k cur todo r := by
  induction h generalizing k with
  | done => exact .done
  | here _ ih => exact .here (ih hjk)
  | up _ ih => exact .up (ih hjk)
  | dir hn _ ih => exact .dir hn (ih hjk)
  | link hn _ ih =>
    obtain ⟨k, rfl⟩ : ∃ k', k = k' + 1 := ⟨k - 1, by omega⟩
    exact .link hn (ih (by omega))
  | last hdir hlink => exact .last hdir hlink

theorem Walks.split (h : t.Walks k cur (a ++ b) r) :
    ∃ m j, j ≤ k ∧ t.Walks k cur a m ∧ t.Walks j m b r := by
  generalize hp : a ++ b = p at h
  -- either the first piece is empty, or it starts with the component at hand
  induction h generalizing a with
  | done =>
    obtain ⟨rfl, rfl⟩ := List.append_eq_nil_iff.mp hp; exact ⟨_, _, le_rfl, .done, .done⟩
  | here h ih =>
    obtain ⟨rfl, rfl⟩ | ⟨a, rfl, rfl⟩ := List.append_eq_cons_iff.mp hp
    · exact ⟨_, _, le_rfl, .done, .here h⟩
    · obtain ⟨m, j, hj, ha, hb⟩ := ih rfl; exact ⟨m, j, hj, .here ha, hb⟩
  | up h ih =>
    obtain ⟨rfl, rfl⟩ | ⟨a, rfl, rfl⟩ := List.append_eq_cons_iff.mp hp
    · exact ⟨_, _, le_rfl, .done, .up h⟩
    · obtain ⟨m, j, hj, ha, hb⟩ := ih rfl; exact ⟨m, j, hj, .up ha, hb⟩
  | dir hn h ih =>
    obtain ⟨rfl, rfl⟩ | ⟨a, rfl, rfl⟩ := List.append_eq_cons_iff.mp hp
    · exact ⟨_, _, le_rfl, .done, .dir hn h⟩
    · obtain ⟨m, j, hj, ha, hb⟩ := ih rfl; exact ⟨m, j, hj, .dir hn ha, hb⟩
  | link hn h ih =>
    obtain ⟨rfl, rfl⟩ | ⟨a, rfl, rfl⟩ := List.append_eq_cons_iff.mp hp
    · exact ⟨_, _, le_rfl, .done, .link hn h⟩
    · obtain ⟨m, j, hj, ha, hb⟩ := ih (List.append_assoc _ _ _)
      exact ⟨m, j, Nat.le_succ_of_le hj, .link hn ha, hb⟩
  | last hdir hlink =>
    obtain ⟨rfl, rfl⟩ | ⟨a, rfl, ha⟩ := List.append_eq_cons_iff.mp hp
    · exact ⟨_, _, le_rfl, .done, .last hdir hlink⟩
    · obtain ⟨rfl, rfl⟩ := List.append_eq_nil_iff.mp ha.symm
      exact ⟨_, _, le_rfl, .last hdir hlink, .done⟩

theorem Walks.snoc (h : t.Walks k cur a m) (hm : t.node m = some .dir)
    (hlink : ∀ rooted target, t.node (n :: m) ≠ some (.link rooted target)) :
    t.Walks k cur (a ++ [.name n]) (n :: m) := by
  induction h with
  | @done k cur =>
    by_cases hdir : t.node (n :: cur) = some .dir
    · exact .dir hdir .done
    · exact .last hdir hlink
  | here _ ih => exact .here (ih hm hlink)
  | up _ ih => exact .up (ih hm hlink)
  | dir hn _ ih => exact .dir hn (ih hm hlink)
  | link hn _ ih =>
    have h := ih hm hlink
    rw [List.append_assoc] at h
    exact .link hn h
  | last hdir _ => exact absurd hm hdir

theorem Walks.extends (h : t.Walks k cur todo r) (hr : t.node r ≠ none) (ht : t.Extends t') :
    t'.Walks k cur todo r := by
  induction h with
  | done => exact .done
  | here _ ih => exact .here (ih hr)
  | up _ ih => exact .up (ih hr)
  | dir hn _ ih => exact .dir (ht _ _ hn) (ih hr)
  | link hn _ ih => exact .link (ht _ _ hn) (ih hr)
  | last hdir hlink =>
    obtain ⟨x, hx⟩ := Option.ne_none_iff_exists'.mp hr
    have hx' := ht _ _ hx
    refine .last ?_ ?_
    · rw [hx', ← hx]; exact hdir
    · intro rooted target; rw [hx', ← hx]; exact hlink rooted target

/-- No link under the directory leads out of it: resolving its path ends under the directory. -/
def Confined (t : FileTree ν) (links : Nat) (d : Loc ν) : Prop :=
  ∀ n l rooted target, t.node (n :: l) = some (.link rooted target) → d <:+ l →
    ∀ r, t.walk links l [.name n] = some r → d <:+ r

/-- What `Confined` asks of one row of the table. -/
def confinedRow (t : FileTree ν) (links : Nat) (d : Loc ν) : Loc ν × Node ν → Bool
  | (n :: l, .link _ _) =>
    !decide (d <:+ l) || (t.walk links l [.name n]).all fun r => decide (d <:+ r)
  | _ => true

theorem confined_iff (t : FileTree ν) (links : Nat) (d : Loc ν) :
    (∀ x ∈ t.nodes.rows, t.confinedRow links d x = true) ↔ t.Confined links d := by
  constructor
  · intro h n l rooted target hlink hl r hr
    simp only [node, nodeOf, Option.map_eq_some_iff] at hlink
    obtain ⟨⟨k, x⟩, hx, rfl⟩ := hlink
    have hrow := h _ (List.mem_of_find?_eq_some hx)
    obtain rfl : k = n :: l := Keyed.Table.get_some_key hx
    simpa [confinedRow, hl, hr] using hrow
  · rintro h ⟨k, x⟩ hx
    have hget := Keyed.Table.get_of_mem hx
    cases k with
    | nil => rfl
    | cons n l =>
      cases x with
      | dir | file => rfl
      | link rooted target =>
        have hnode : t.node (n :: l) = some (.link rooted target) := by
          simp only [node, nodeOf]; rw [hget]; rfl
        by_cases hl : d <:+ l
        · simpa [confinedRow, hl, Option.all_eq_true] using h n l rooted target hnode hl
        · simp [confinedRow, hl]

instance (t : FileTree ν) (links : Nat) (d : Loc ν) : Decidable (t.Confined links d) :=
  decidable_of_iff _ (t.confined_iff links d)

theorem Walks.inside {links : Nat} (hc : t.Confined links d) (hk : k ≤ links) (hcur : d <:+ cur)
    (htodo : .up ∉ todo) (h : t.Walks k cur todo r) : d <:+ r := by
  induction k using Nat.strong_induction_on generalizing cur todo with
  | _ k ihk =>
    induction todo generalizing cur with
    | nil => cases h; exact hcur
    | cons c todo ih =>
      rw [List.mem_cons, not_or] at htodo
      cases h with
      | here h => exact ih hcur htodo.2 h
      | up _ => exact absurd rfl htodo.1
      | dir hn h => exact ih (hcur.trans (List.suffix_cons _ _)) htodo.2 h
      | last _ _ => exact hcur.trans (List.suffix_cons _ _)
      | @link k _ _ n _ target rooted hn h =>
        -- the link leads to a place under the directory, and the rest goes on from there
        obtain ⟨m, j, hj, ha, hb⟩ := h.split
        have hm : d <:+ m := by
          refine hc n cur rooted target hn hcur m (Walks.walk ?_)
          obtain ⟨links, rfl⟩ : ∃ l, links = l + 1 := ⟨links - 1, by omega⟩
          refine .link hn ?_
          rw [List.append_nil]
          exact ha.mono (by omega)
        exact ihk j (by omega) (by omega) hm htodo.2 hb

end Walks

end FileTree

end Posix
