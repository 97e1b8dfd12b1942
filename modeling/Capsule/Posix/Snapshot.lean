import Capsule.Posix.Tree

/-!
# Capsule.Posix.Snapshot

A file tree as a value, and the order in which a walk comes by its nodes: `Tree.walk` lists them as
`filepath.Walk` does, a directory before what is in it.

`Listing` is such a list as an induction can use it: every node but the first is new, in a directory
that comes before it. `Tree.listing` says that the walk of a tree with distinct names is one.
-/

namespace Posix

mutual

inductive Tree (ν α β : Type) where
  | leaf (b : β)
  | dir (a : α) (entries : Forest ν α β)

inductive Forest (ν α β : Type) where
  | nil
  | cons (n : ν) (t : Tree ν α β) (rest : Forest ν α β)

end

/-- A node without what is below it. -/
inductive Item (α β : Type) where
  | leaf (b : β)
  | dir (a : α)
  deriving DecidableEq

variable {ν α β : Type}

def Forest.names : Forest ν α β → List ν
  | .nil => []
  | .cons n _ rest => n :: rest.names

mutual

/-- The nodes with their places under `l`, in the order of a walk. -/
def Tree.walk (l : Loc ν) : Tree ν α β → List (Loc ν × Item α β)
  | .leaf b => [(l, .leaf b)]
  | .dir a entries => (l, .dir a) :: entries.walk l

def Forest.walk (l : Loc ν) : Forest ν α β → List (Loc ν × Item α β)
  | .nil => []
  | .cons n t rest => t.walk (n :: l) ++ rest.walk l

end

mutual

/-- The names are such as `ok` says, and no two entries of a directory have the same. -/
def Tree.Named (ok : ν → Prop) : Tree ν α β → Prop
  | .leaf _ => True
  | .dir _ entries => entries.Named ok

def Forest.Named (ok : ν → Prop) : Forest ν α β → Prop
  | .nil => True
  | .cons n t rest => ok n ∧ n ∉ rest.names ∧ t.Named ok ∧ rest.Named ok

end

/-- The first node is at `root`; any other is new, in a directory that comes before it. -/
inductive Listing (ok : ν → Prop) (root : Loc ν) : List (Loc ν × Item α β) → Prop where
  | root (x : Item α β) : Listing ok root [(root, x)]
  | snoc {es : List (Loc ν × Item α β)} {n : ν} {l : Loc ν} {a : α} (x : Item α β)
      (h : Listing ok root es) (hdir : (l, .dir a) ∈ es) (hname : ok n)
      (hnew : ∀ y, (n :: l, y) ∉ es) : Listing ok root (es ++ [(n :: l, x)])

section Walk

variable {ok : ν → Prop} {root l : Loc ν} {n : ν} {a : α} {es : List (Loc ν × Item α β)}

mutual

theorem Tree.suffix_walk {l : Loc ν} :
    ∀ (t : Tree ν α β), ∀ y ∈ t.walk l, l <:+ y.1
  | .leaf b => by
    intro y hy; rw [Tree.walk, List.mem_singleton] at hy; rw [hy]
  | .dir a entries => by
    intro y hy
    rw [Tree.walk, List.mem_cons] at hy
    rcases hy with rfl | hy
    · exact List.suffix_rfl
    · obtain ⟨n, -, hn⟩ := Forest.suffix_walk entries y hy
      exact (List.suffix_cons n l).trans hn

theorem Forest.suffix_walk {l : Loc ν} :
    ∀ (f : Forest ν α β), ∀ y ∈ f.walk l, ∃ n ∈ f.names, (n :: l) <:+ y.1
  | .nil => by
    intro y hy; cases hy
  | .cons n t rest => by
    intro y hy
    rw [Forest.walk, List.mem_append] at hy
    rcases hy with hy | hy
    · exact ⟨n, List.mem_cons_self, Tree.suffix_walk t y hy⟩
    · obtain ⟨m, hm, hsuffix⟩ := Forest.suffix_walk rest y hy
      exact ⟨m, List.mem_cons_of_mem n hm, hsuffix⟩

end

theorem eq_of_suffix {m : ν} {k : Loc ν} (hm : (m :: l) <:+ k) (hn : (n :: l) <:+ k) : m = n := by
  obtain ⟨h, -⟩ := List.cons.inj
    ((List.suffix_of_suffix_length_le hm hn (by simp)).eq_of_length (by simp))
  exact h

mutual

theorem Tree.listing_append :
    ∀ (t : Tree ν α β) {es : List (Loc ν × Item α β)} {n : ν} {l : Loc ν} {a : α},
      t.Named ok → Listing ok root es → (l, .dir a) ∈ es → ok n →
      (∀ y ∈ es, ¬ (n :: l) <:+ y.1) → Listing ok root (es ++ t.walk (n :: l))
  | .leaf b, es, n, l, a, _, hes, hdir, hn, hfresh =>
    hes.snoc (.leaf b) hdir hn fun y hy => hfresh _ hy List.suffix_rfl
  | .dir a' entries, es, n, l, a, ht, hes, hdir, hn, hfresh => by
    have hes' := hes.snoc (.dir a') hdir hn fun y hy => hfresh _ hy List.suffix_rfl
    have hmem : (n :: l, Item.dir a') ∈ es ++ [(n :: l, Item.dir (β := β) a')] :=
      List.mem_append_right _ (List.mem_singleton_self _)
    rw [Tree.walk, ← List.singleton_append, ← List.append_assoc]
    refine Forest.listing_append entries ht hes' hmem fun m hm y hy hsuffix => ?_
    rcases List.mem_append.mp hy with hy | hy
    · exact hfresh y hy ((List.suffix_cons m _).trans hsuffix)
    · rw [List.mem_singleton.mp hy] at hsuffix; exact absurd hsuffix.length_le (by simp)

theorem Forest.listing_append :
    ∀ (f : Forest ν α β) {es : List (Loc ν × Item α β)} {l : Loc ν} {a : α},
      f.Named ok → Listing ok root es → (l, .dir a) ∈ es →
      (∀ m ∈ f.names, ∀ y ∈ es, ¬ (m :: l) <:+ y.1) → Listing ok root (es ++ f.walk l)
  | .nil, es, l, a, _, hes, _, _ => by
    rw [Forest.walk, List.append_nil]; exact hes
  | .cons n t rest, es, l, a, ⟨hn, hnew, ht, hrest⟩, hes, hdir, hfresh => by
    have hes' := Tree.listing_append t ht hes hdir hn (hfresh n List.mem_cons_self)
    rw [Forest.walk, ← List.append_assoc]
    refine Forest.listing_append rest hrest hes' (List.mem_append_left _ hdir) ?_
    intro m hm y hy hsuffix
    rcases List.mem_append.mp hy with hy | hy
    · exact hfresh m (List.mem_cons_of_mem n hm) y hy hsuffix
    · -- what is below `n` is not below another name
      obtain rfl := eq_of_suffix hsuffix (Tree.suffix_walk t y hy)
      exact hnew hm

end

theorem Tree.listing (t : Tree ν α β) (ht : t.Named ok) (l : Loc ν) :
    Listing ok l (t.walk l) := by
  cases t with
  | leaf b => exact .root _
  | dir a entries =>
    rw [Tree.walk, ← List.singleton_append]
    refine Forest.listing_append entries ht (.root _) (List.mem_singleton_self _) ?_
    intro m _ y hy hsuffix
    rw [List.mem_singleton.mp hy] at hsuffix
    exact absurd hsuffix.length_le (by simp)

theorem Listing.named (h : Listing ok root es) :
    ∀ y ∈ es, ∃ q, y.1 = q ++ root ∧ ∀ n ∈ q, ok n := by
  induction h with
  | root x =>
    intro y hy
    rw [List.mem_singleton.mp hy]
    exact ⟨[], rfl, fun n hn => absurd hn List.not_mem_nil⟩
  | @snoc es n l a x h hdir hname hnew ih =>
    intro y hy
    rcases List.mem_append.mp hy with hy | hy
    · exact ih y hy
    · obtain ⟨q, hq, hnames⟩ := ih _ hdir
      rw [List.mem_singleton.mp hy]
      refine ⟨n :: q, congrArg (n :: ·) hq, ?_⟩
      intro m hm
      rcases List.mem_cons.mp hm with rfl | hm
      · exact hname
      · exact hnames m hm

theorem Listing.named_nil (h : Listing ok [] es) {y : Loc ν × Item α β} (hy : y ∈ es) :
    ∀ n ∈ y.1, ok n := by
  obtain ⟨q, hq, hnames⟩ := h.named y hy
  rw [hq, List.append_nil]
  exact hnames

end Walk

end Posix
