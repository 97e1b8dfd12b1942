import Capsule.GoPath
import Capsule.GoString

/-!
# Capsule.GoPath.Abs

The texts of paths, and `filepath.Abs` and `filepath.Rel` of a path below another one.

* `foldl_push_clean`: what `Clean` keeps of the elements of a path.
* `join_text_add`, `abs_add`: joining legal names to a directory adds them, and nothing else.
* `escapes_add_iff`: a test for the directory's text as a beginning takes such a path for one
  outside exactly if the directory is `/`.
-/

namespace GoPath

/-- A name as a directory has it. -/
def LegalName (x : Text) : Prop := IsName x ∧ slash ∉ x

instance (x : Text) : Decidable (LegalName x) := inferInstanceAs (Decidable (_ ∧ _))

/-- The names behind one another, each with a slash in front of it. -/
def slashed (ns : List Text) : Text := ns.flatMap (slash :: ·)

@[simp] theorem slashed_nil : slashed [] = [] := rfl

@[simp] theorem slashed_cons (n : Text) (ns : List Text) :
    slashed (n :: ns) = slash :: (n ++ slashed ns) := rfl

theorem slashed_append (ms ns : List Text) : slashed (ms ++ ns) = slashed ms ++ slashed ns :=
  List.flatMap_append

theorem slashed_eq_intercalate {ns : List Text} (hne : ns ≠ []) :
    slashed ns = slash :: [slash].intercalate ns := by
  induction ns with
  | nil => exact absurd rfl hne
  | cons n ns ih =>
    cases ns with
    | nil => simp
    | cons m ns =>
      rw [slashed_cons, ih (List.cons_ne_nil m ns), List.intercalate_cons_cons]; simp

theorem splitOn_append_names (a : Text) {ns : List Text} (hns : ∀ n ∈ ns, slash ∉ n) :
    (a ++ slashed ns).splitOn slash = a.splitOn slash ++ ns := by
  induction ns generalizing a with
  | nil => simp
  | cons n ns ih =>
    have hn : n.splitOn slash = [n] := List.splitOn_eq_singleton (hns n List.mem_cons_self)
    rw [slashed_cons, List.splitOn_append_cons_self,
      ih n fun m hm => hns m (List.mem_cons_of_mem n hm), hn]
    rfl

theorem splitOn_intercalate_names {ns : List Text} (hne : ns ≠ []) (hns : ∀ n ∈ ns, slash ∉ n) :
    ([slash].intercalate ns).splitOn slash = ns := by
  have h := splitOn_append_names [] hns
  rw [slashed_eq_intercalate hne, List.splitOn_append_cons_self] at h
  exact List.append_cancel_left h

theorem dotdot_infix_append {a b : Text} :
    dotdot <:+: a ++ slash :: b ↔ dotdot <:+: a ∨ dotdot <:+: b := by
  induction a with
  | nil =>
    have hno : ¬ dotdot <+: slash :: b := by
      rintro ⟨c, hc⟩; cases hc
    have hnil : ¬ dotdot <:+: [] := by decide
    rw [List.nil_append, List.infix_cons_iff, or_iff_right hno, or_iff_right hnil]
  | cons c a ih =>
    rw [List.cons_append, List.infix_cons_iff, ih, List.infix_cons_iff, or_assoc]
    have hfirst : dotdot <+: c :: (a ++ slash :: b) ↔ dotdot <+: c :: a := by
      cases a with
      | nil => simp [dotdot, slash]
      | cons d a => simp [dotdot]
    rw [hfirst]

theorem dotdot_infix_slashed {a : Text} {ns : List Text} :
    dotdot <:+: a ++ slashed ns ↔ dotdot <:+: a ∨ ∃ n ∈ ns, dotdot <:+: n := by
  induction ns generalizing a with
  | nil => simp
  | cons n ns ih => rw [slashed_cons, dotdot_infix_append, ih]; simp

section Push

variable {rooted : Bool} {parts : List Text} {p : Text}

theorem push_skip (h : p = [] ∨ p = dot) : push rooted parts p = parts := if_pos h

theorem push_name (h : IsName p) : push rooted parts p = p :: parts := by
  have hskip : ¬ (p = [] ∨ p = dot) := fun he => he.elim h.1 h.2.1
  simp only [push, if_neg hskip, if_neg h.2.2]

theorem push_up_nil : push rooted [] dotdot = if rooted then [] else [dotdot] := by
  simp only [push, if_true]; exact if_neg (by decide)

theorem push_up_up : push rooted (dotdot :: parts) dotdot = dotdot :: dotdot :: parts := by
  simp only [push, if_true]; exact if_neg (by decide)

theorem push_up_cons (h : p ≠ dotdot) : push rooted (p :: parts) dotdot = parts := by
  simp only [push, if_true, if_neg h]; exact if_neg (by decide)

theorem push_cases (p : Text) : (p = [] ∨ p = dot) ∨ IsName p ∨ p = dotdot := by
  by_cases hskip : p = [] ∨ p = dot
  · exact .inl hskip
  · by_cases hup : p = dotdot
    · exact .inr (.inr hup)
    · exact .inr (.inl ⟨fun h => hskip (.inl h), fun h => hskip (.inr h), hup⟩)

theorem mem_foldl_push {ps : List Text} (h : ∀ y ∈ parts, IsName y ∨ y = dotdot) :
    ∀ y ∈ ps.foldl (push rooted) parts, IsName y ∨ y = dotdot := by
  induction ps generalizing parts with
  | nil => exact h
  | cons p ps ih =>
    refine ih ?_
    rcases push_cases p with hskip | hname | rfl
    · rw [push_skip hskip]; exact h
    · rw [push_name hname]; exact List.forall_mem_cons.mpr ⟨.inl hname, h⟩
    · cases parts with
      | nil => rw [push_up_nil]; cases rooted <;> simp
      | cons top rest =>
        obtain ⟨htop, hrest⟩ := List.forall_mem_cons.mp h
        by_cases hup : top = dotdot
        · rw [hup, push_up_up]; simpa using hrest
        · rw [push_up_cons hup]; exact hrest

theorem foldl_push_clean {rooted' : Bool} (ps : List Text)
    (h : rooted' = false ∨ rooted = true ∧ parts = []) :
    (ps.foldl (push rooted') []).reverse.foldl (push rooted) parts =
      ps.foldl (push rooted) parts := by
  induction ps using List.reverseRecOn with
  | nil => rfl
  | append_singleton ps p ih =>
    have hclean : ∀ y ∈ ps.foldl (push rooted') [], IsName y ∨ y = dotdot :=
      mem_foldl_push fun y hy => absurd hy List.not_mem_nil
    rw [List.foldl_append, List.foldl_append, ← ih]
    clear ih
    generalize ps.foldl (push rooted') [] = xs at hclean
    simp only [List.foldl_cons, List.foldl_nil]
    rcases push_cases p with hskip | hname | rfl
    · rw [push_skip hskip, push_skip hskip]
    · rw [push_name hname, List.reverse_cons, List.foldl_append]; rfl
    · cases xs with
      | nil =>
        rw [push_up_nil]
        rcases h with rfl | ⟨rfl, rfl⟩
        · rfl
        · cases rooted' <;> rfl
      | cons top rest =>
        by_cases hup : top = dotdot
        · rw [hup, push_up_up, List.reverse_cons, List.foldl_append]; rfl
        · have htop : IsName top := (hclean top List.mem_cons_self).resolve_right hup
          rw [push_up_cons hup, List.reverse_cons, List.foldl_append, List.foldl_cons,
            List.foldl_nil, push_name htop, push_up_cons hup]

theorem mem_of_mem_foldl_push {ps : List Text} {y : Text} (h : y ∈ ps.foldl (push rooted) parts) :
    y ∈ ps ∨ y ∈ parts := by
  induction ps generalizing parts with
  | nil => exact .inr h
  | cons p ps ih =>
    rcases ih h with h | h
    · exact .inl (List.mem_cons_of_mem p h)
    · rcases push_cases p with hskip | hname | rfl
      · rw [push_skip hskip] at h; exact .inr h
      · rw [push_name hname] at h
        rcases List.mem_cons.mp h with rfl | h
        · exact .inl List.mem_cons_self
        · exact .inr h
      · cases parts with
        | nil =>
          rw [push_up_nil] at h
          cases rooted with
          | true => cases h
          | false => rw [List.mem_singleton.mp h]; exact .inl List.mem_cons_self
        | cons top rest =>
          by_cases hup : top = dotdot
          · rw [hup, push_up_up] at h
            rcases List.mem_cons.mp h with rfl | h
            · exact .inl List.mem_cons_self
            · exact .inr (hup ▸ h)
          · rw [push_up_cons hup] at h; exact .inr (List.mem_cons_of_mem top h)

theorem foldl_push_names {ns : List Text} (h : ∀ n ∈ ns, IsName n) :
    ns.foldl (push rooted) parts = ns.reverse ++ parts := by
  induction ns generalizing parts with
  | nil => rfl
  | cons n ns ih =>
    rw [List.foldl_cons, push_name (h n List.mem_cons_self),
      ih fun m hm => h m (List.mem_cons_of_mem n hm)]
    simp

end Push

section Below

variable {s wd : Text} {q : List Text}

theorem slash_not_mem_clean {y : Text} (h : y ∈ (clean s).parts) : slash ∉ y := by
  rcases mem_of_mem_foldl_push h with h | h
  · exact GoString.not_mem_of_mem_splitOn h
  · cases h

theorem text_rooted {ns : List Text} (hne : ns ≠ []) :
    (Path.mk true ns).text = slashed ns.reverse := by
  rw [Path.text, if_neg hne, if_pos rfl,
    slashed_eq_intercalate (List.reverse_ne_nil_iff.mpr hne)]
  rfl

/-- The names `q` added to a path. -/
def Path.add (p : Path) (q : List Text) : Path := ⟨p.rooted, q ++ p.parts⟩

theorem slash_not_mem_add (hq : ∀ n ∈ q, LegalName n) :
    ∀ n ∈ ((clean s).add q).parts.reverse, slash ∉ n := by
  intro n hn
  rcases List.mem_append.mp (List.mem_reverse.mp hn) with hn | hn
  · exact (hq n hn).2
  · exact slash_not_mem_clean hn

theorem ne_nil_of_mem_clean {y : Text} (h : y ∈ (clean s).parts) : y ≠ [] := by
  rcases mem_foldl_push (fun y hy => absurd hy List.not_mem_nil) y h with h | rfl
  · exact h.1
  · decide

theorem ne_nil_of_mem_add (hq : ∀ n ∈ q, LegalName n) {n : Text}
    (hn : n ∈ ((clean s).add q).parts.reverse) : n ≠ [] := by
  rcases List.mem_append.mp (List.mem_reverse.mp hn) with hn | hn
  · exact (hq n hn).1.1
  · exact ne_nil_of_mem_clean hn

theorem foldl_push_add {rooted : Bool} {parts : List Text} (hq : ∀ n ∈ q, LegalName n)
    (h : isAbs s = false ∨ rooted = true ∧ parts = []) :
    ((clean s).add q).parts.reverse.foldl (push rooted) parts =
      q ++ (s.splitOn slash).foldl (push rooted) parts := by
  have hnames : ∀ n ∈ q.reverse, IsName n := fun n hn => (hq n (List.mem_reverse.mp hn)).1
  have hclean := foldl_push_clean (s.splitOn slash) h
  rw [Path.add, List.reverse_append, List.foldl_append, clean, hclean, foldl_push_names hnames,
    List.reverse_reverse]

theorem clean_text_add (hs : isAbs s = true) (hne : q ≠ []) (hq : ∀ n ∈ q, LegalName n) :
    isAbs ((clean s).add q).text = true ∧ clean ((clean s).add q).text = (clean s).add q := by
  have hparts : ((clean s).add q).parts ≠ [] := by simp [Path.add, hne]
  have htext : ((clean s).add q).text = [] ++ slashed ((clean s).add q).parts.reverse := by
    have := text_rooted hparts
    rw [List.nil_append, ← this]
    simp only [Path.add, clean, hs]
  have hrooted : isAbs ((clean s).add q).text = true := by
    rw [htext, List.nil_append, slashed_eq_intercalate (List.reverse_ne_nil_iff.mpr hparts)]
    rfl
  refine ⟨hrooted, ?_⟩
  have hskip : push true [] ([] : Text) = [] := push_skip (.inl rfl)
  rw [clean, hrooted, htext, splitOn_append_names _ (slash_not_mem_add hq), List.splitOn_nil,
    List.foldl_append, List.foldl_cons, List.foldl_nil, hskip, foldl_push_add hq (.inr ⟨rfl, rfl⟩)]
  simp only [Path.add, clean, hs]

theorem isAbs_append (hwd : isAbs wd = true) (t : Text) : isAbs (wd ++ t) = true := by
  cases wd with
  | nil => cases hwd
  | cons c wd => exact hwd

theorem join_text_add (hs : isAbs s = false) (hne : s ≠ []) (hwd : isAbs wd = true) (hq : q ≠ [])
    (hnames : ∀ n ∈ q, LegalName n) :
    isAbs ((clean s).add q).text = false ∧
      join wd ((clean s).add q).text = (join wd s).add q := by
  have hparts : ((clean s).add q).parts ≠ [] := by simp [Path.add, hq]
  have hrev : ((clean s).add q).parts.reverse ≠ [] := List.reverse_ne_nil_iff.mpr hparts
  have hwd' : wd ≠ [] := by
    rintro rfl; cases hwd
  have htext : slash :: ((clean s).add q).text = slashed ((clean s).add q).parts.reverse := by
    rw [slashed_eq_intercalate hrev, Path.text, if_neg hparts]
    simp only [Path.add, clean, hs]
    rfl
  have hjoin : ∀ t : Text, t ≠ [] → join wd t =
      ⟨true, (t.splitOn slash).foldl (push true) ((wd.splitOn slash).foldl (push true) [])⟩ := by
    intro t ht
    rw [join, if_neg hwd', if_neg ht, clean, isAbs_append hwd, List.splitOn_append_cons_self,
      List.foldl_append]
  obtain ⟨n, ns, hns⟩ := List.exists_cons_of_ne_nil hrev
  have hn : n ≠ [] ∧ slash ∉ n := by
    have hmem : n ∈ ((clean s).add q).parts.reverse := hns ▸ List.mem_cons_self
    exact ⟨ne_nil_of_mem_add hnames hmem, slash_not_mem_add hnames n hmem⟩
  have htext' : ((clean s).add q).text = n ++ slashed ns := by
    rw [hns, slashed_cons] at htext; exact (List.cons.inj htext).2
  refine ⟨?_, ?_⟩
  · obtain ⟨c, n, rfl⟩ := List.exists_cons_of_ne_nil hn.1
    rw [htext']
    exact decide_eq_false fun h => hn.2 (Option.some.inj h ▸ List.mem_cons_self)
  · have hsplit : ((clean s).add q).text.splitOn slash = ((clean s).add q).parts.reverse := by
      rw [htext', splitOn_append_names, List.splitOn_eq_singleton hn.2, hns]
      · rfl
      · intro m hm; exact slash_not_mem_add hnames m (hns ▸ List.mem_cons_of_mem n hm)
    rw [hjoin _ (by simp [htext', hn.1]), hjoin s hne, hsplit, foldl_push_add hnames (.inl hs)]
    rfl

/-- `filepath.Rel` of what is at `q` below the directory. -/
def rel (q : List Text) : Text := if q = [] then dot else [slash].intercalate q.reverse

theorem splitOn_rel (hq : q ≠ []) (hnames : ∀ n ∈ q, LegalName n) :
    (rel q).splitOn slash = q.reverse := by
  rw [rel, if_neg hq]
  exact splitOn_intercalate_names (List.reverse_ne_nil_iff.mpr hq)
    fun n hn => (hnames n (List.mem_reverse.mp hn)).2

theorem rel_eq_dot_iff (hnames : ∀ n ∈ q, LegalName n) : rel q = dot ↔ q = [] := by
  constructor
  · intro h
    by_contra hq
    have hsplit := splitOn_rel hq hnames
    rw [h] at hsplit
    have hmem : dot ∈ q := List.mem_reverse.mp (hsplit ▸ List.mem_singleton_self dot)
    exact (hnames dot hmem).1.2.1 rfl
  · rintro rfl; rfl

theorem join_rel (hs : s ≠ []) (hnames : ∀ n ∈ q, LegalName n) :
    join s (rel q) = (clean s).add q := by
  have habs : ∀ t, isAbs (s ++ slash :: t) = isAbs s := by
    intro t
    cases s with
    | nil => exact absurd rfl hs
    | cons c s => rfl
  by_cases hq : q = []
  · subst hq
    rw [join, if_neg hs, if_neg (by decide), clean, habs, List.splitOn_append_cons_self,
      List.foldl_append]
    rfl
  · have hsplit := splitOn_rel hq hnames
    have hne : rel q ≠ [] := by
      intro h
      rw [h] at hsplit
      have hmem : [] ∈ q := List.mem_reverse.mp (hsplit ▸ List.mem_singleton_self [])
      exact (hnames [] hmem).1.1 rfl
    rw [join, if_neg hs, if_neg hne, clean, habs, List.splitOn_append_cons_self, List.foldl_append,
      hsplit, foldl_push_names (fun n hn => (hnames n (List.mem_reverse.mp hn)).1),
      List.reverse_reverse]
    rfl

theorem abs_add {getwd : Option Text} (hs : s ≠ []) (hwd : ∀ wd, getwd = some wd → isAbs wd = true)
    (hq : q ≠ []) (hnames : ∀ n ∈ q, LegalName n) :
    abs getwd s = [] ∨ ∃ p : Path, p.rooted = true ∧ (∀ y ∈ p.parts, y ≠ []) ∧
      abs getwd s = p.text ∧ abs getwd ((clean s).add q).text = (p.add q).text := by
  unfold abs
  cases habs : isAbs s with
  | true =>
    obtain ⟨h₁, h₂⟩ := clean_text_add habs hq hnames
    refine .inr ⟨clean s, habs, fun y hy => ne_nil_of_mem_clean hy, rfl, ?_⟩
    rw [if_pos h₁, h₂]
  | false =>
    cases getwd with
    | none => exact .inl rfl
    | some wd =>
      obtain ⟨h₁, h₂⟩ := join_text_add habs hs (hwd wd rfl) hq hnames
      have hjoin : join wd s = clean (wd ++ slash :: s) := by
        rw [join, if_neg hs, if_neg]; rintro rfl; cases hwd [] rfl
      refine .inr ⟨join wd s, ?_, ?_, rfl, ?_⟩
      · rw [hjoin]; exact isAbs_append (hwd wd rfl) _
      · rw [hjoin]; exact fun y hy => ne_nil_of_mem_clean hy
      · simp only [h₁, Bool.false_eq_true, if_false, h₂]

theorem escapes_add_iff {getwd : Option Text} (hs : s ≠ [])
    (hwd : ∀ wd, getwd = some wd → isAbs wd = true) (hq : q ≠ [])
    (hnames : ∀ n ∈ q, LegalName n) :
    (abs getwd s ≠ [] ∧ ¬ abs getwd s ++ [slash] <+: abs getwd ((clean s).add q).text ∧
        abs getwd ((clean s).add q).text ≠ abs getwd s) ↔ abs getwd s = [slash] := by
  rcases abs_add hs hwd hq hnames with h | ⟨⟨rooted, parts⟩, rfl, hne, h₁, h₂⟩
  · rw [h]; exact iff_of_false (fun h => h.1 rfl) (by decide)
  · have hrev : q.reverse ≠ [] := List.reverse_ne_nil_iff.mpr hq
    have hfull : ((Path.mk true parts).add q).text =
        slashed parts.reverse ++ slashed q.reverse := by
      rw [Path.add, text_rooted (by simp [hq]), List.reverse_append, slashed_append]
    obtain ⟨n, ns, hns⟩ := List.exists_cons_of_ne_nil hrev
    rw [h₁, h₂, hfull, hns, slashed_cons]
    have hn : n ≠ [] ∧ slash ∉ n := by
      have hmem : n ∈ q := List.mem_reverse.mp (hns ▸ List.mem_cons_self)
      exact ⟨(hnames n hmem).1.1, (hnames n hmem).2⟩
    by_cases hparts : parts = []
    · subst hparts
      refine iff_of_true ⟨by decide, ?_, ?_⟩ rfl
      · obtain ⟨c, n, rfl⟩ := List.exists_cons_of_ne_nil hn.1
        rintro ⟨t, ht⟩
        cases ht
        exact hn.2 List.mem_cons_self
      · intro he; exact hn.1 (List.append_eq_nil_iff.mp (List.cons.inj he).2).1
    · rw [text_rooted hparts]
      refine iff_of_false (fun h => h.2.1 ⟨n ++ slashed ns, by simp⟩) ?_
      obtain ⟨m, ms, hms⟩ := List.exists_cons_of_ne_nil (List.reverse_ne_nil_iff.mpr hparts)
      rw [hms]
      intro he
      have hm : m = [] := (List.append_eq_nil_iff.mp (List.cons.inj he).2).1
      exact hne m (List.mem_reverse.mp (hms ▸ List.mem_cons_self)) hm

end Below

end GoPath
