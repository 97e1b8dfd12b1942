import Capsule.Posix.Tree

/-!
# Capsule.GoPath

Go's `path/filepath` on Unix, on byte strings, as far as the modelled code calls it, and how the
kernel reads a path.

`comps` is a path as the kernel walks it, `clean` the `Path` that `filepath.Clean` makes of it, with
its elements innermost first. `clean_join`: joining a text without `..` adds its names to the path.
-/

namespace GoPath

open Posix

abbrev Text := List UInt8

def slash : UInt8 := 47

def dot : Text := [46]

def dotdot : Text := [46, 46]

/-- What the kernel makes of the text between two slashes. -/
def comp (p : Text) : Comp Text :=
  if p = [] ∨ p = dot then .here else if p = dotdot then .up else .name p

/-- The path as the kernel reads it. -/
def comps (s : Text) : List (Comp Text) := (s.splitOn slash).map comp

def isAbs (s : Text) : Bool := s.head? = some slash

structure Path where
  rooted : Bool
  /-- Its elements, the last one first. -/
  parts : List Text
  deriving DecidableEq

/-- `Clean` reads one more element. -/
def push (rooted : Bool) (parts : List Text) (p : Text) : List Text :=
  if p = [] ∨ p = dot then parts
  else if p = dotdot then
    match parts with
    | [] => if rooted then [] else [p]
    | top :: rest => if top = dotdot then p :: parts else rest
  else p :: parts

def clean (s : Text) : Path := ⟨isAbs s, (s.splitOn slash).foldl (push (isAbs s)) []⟩

namespace Path

def text (p : Path) : Text :=
  if p.parts = [] then if p.rooted then [slash] else dot
  else (if p.rooted then [slash] else []) ++ [slash].intercalate p.parts.reverse

/-- `filepath.Dir` of a cleaned path. -/
def dir (p : Path) : Path := ⟨p.rooted, p.parts.tail⟩

/-- `filepath.Base` of a cleaned path. -/
def base (p : Path) : Text := p.parts.head?.getD (if p.rooted then [slash] else dot)

def comps (p : Path) : List (Comp Text) := p.parts.reverse.map comp

end Path

/-- `filepath.Join` of two elements that are not both empty. -/
def join (a b : Text) : Path :=
  if a = [] then clean b else if b = [] then clean a else clean (a ++ slash :: b)

/-- `filepath.Abs`; empty when the working directory cannot be found. -/
def abs (getwd : Option Text) (s : Text) : Text :=
  if isAbs s then (clean s).text
  else
    match getwd with
    | none => []
    | some wd => (join wd s).text

def IsName (p : Text) : Prop := p ≠ [] ∧ p ≠ dot ∧ p ≠ dotdot

instance (p : Text) : Decidable (IsName p) := inferInstanceAs (Decidable (_ ∧ _ ∧ _))

theorem comp_name {p : Text} (h : IsName p) : comp p = .name p := by
  simp [comp, h.1, h.2.1, h.2.2]

theorem infix_of_mem_splitOn {s p : Text} (h : p ∈ s.splitOn slash) : p <:+: s := by
  have hs : [slash].intercalate (s.splitOn slash) = s := List.intercalate_splitOn slash
  rw [← hs]
  generalize s.splitOn slash = ps at h
  clear hs
  induction ps with
  | nil => cases h
  | cons q ps ih =>
    cases ps with
    | nil => rw [List.mem_singleton] at h; subst h; exact ⟨[], [], by simp⟩
    | cons q' ps =>
      rw [List.intercalate_cons_cons]
      rcases List.mem_cons.mp h with rfl | h
      · exact ⟨[], _, by simp; rfl⟩
      · exact (ih h).trans (List.suffix_append _ _).isInfix

theorem foldl_push (rooted : Bool) (ps parts : List Text) (h : dotdot ∉ ps) :
    ps.foldl (push rooted) parts = (ps.filter fun p => IsName p).reverse ++ parts := by
  induction ps generalizing parts with
  | nil => rfl
  | cons p ps ih =>
    rw [List.mem_cons, not_or] at h
    rw [List.foldl_cons, ih _ h.2]
    by_cases hp : p = [] ∨ p = dot
    · have hn : ¬ IsName p := fun hn => hp.elim hn.1 hn.2.1
      simp only [push, if_pos hp]
      rw [List.filter_cons_of_neg (by simpa using hn)]
    · have hn : IsName p := ⟨fun he => hp (.inl he), fun he => hp (.inr he), Ne.symm h.1⟩
      simp only [push, if_neg hp, if_neg hn.2.2]
      rw [List.filter_cons_of_pos (by simpa using hn)]
      simp

def names (s : Text) : List Text := (s.splitOn slash).filter fun p => IsName p

theorem clean_join {a b : Text} (ha : a ≠ []) (hb : ¬ dotdot <:+: b) :
    join a b = ⟨(clean a).rooted, (names b).reverse ++ (clean a).parts⟩ := by
  have hdots : dotdot ∉ b.splitOn slash := fun h => hb (infix_of_mem_splitOn h)
  unfold join
  rw [if_neg ha]
  split
  · rename_i h; subst h; rfl
  · have habs : isAbs (a ++ slash :: b) = isAbs a := by
      cases a with
      | nil => exact absurd rfl ha
      | cons c a => rfl
    simp only [clean, habs, List.splitOn_append_cons_self, List.foldl_append]
    rw [foldl_push _ _ _ hdots]
    rfl

/-- `filepath.Base` of a path as it is written. -/
def base (s : Text) : Text :=
  if s = [] then dot else ((s.splitOn slash).filter (· ≠ [])).getLast?.getD [slash]

theorem base_append {a name : Text} (hne : name ≠ []) (hslash : slash ∉ name) :
    base (a ++ slash :: name) = name := by
  have hsplit : name.splitOn slash = [name] := List.splitOn_eq_singleton hslash
  have hfilter : [name].filter (· ≠ []) = [name] := List.filter_cons_of_pos (by simpa using hne)
  rw [base, if_neg (by simp), List.splitOn_append_cons_self, hsplit, List.filter_append, hfilter,
    List.getLast?_concat, Option.getD_some]

end GoPath
