import Capsule.Cp.Disk
import Capsule.GoPath.Abs

/-!
# Capsule.Cp.RoundTrip

`tarPack` and `tarUnpack` of `cmd/capsulectl/cp.go`, one after the other.

* `tarPack_eq`: the headers are the nodes of the tree in the order of a walk.
* `entryPath_ok_iff`: an entry is refused exactly if two dots in a row stand in its name, also
  inside one, or the destination is the root of the disk.
* `Unpacked`: the invariant of the loop. The disk holds the part of the tree that was unpacked.
* `cp_roundTrip_iff`: the round trip gives the tree back, renamed, exactly if no name has two dots
  in a row and the destination is not `/`.
-/

namespace Capsule.Cp

open Atomic GoPath Posix

def archiveName (rootName : Text) (q : Loc Text) : Text :=
  if rel q ≠ dot then rootName ++ slash :: rel q else rootName

def trimSlash (name : Text) : Text := if name.getLast? = some slash then name.dropLast else name

def tarWriteOne (archiveName : Text) : Item Attr Leaf → Header × Text
  | .dir a => (⟨trimSlash archiveName ++ [slash], .dir, [], a.mode, 0⟩, [])
  | .leaf (.file a content) => (⟨archiveName, .reg, [], a.mode, content.length⟩, content)
  | .leaf (.link _ _ target _) => (⟨archiveName, .symlink, target, 0o777, 0⟩, [])

def tarPack (rootName : Text) (src : Source) : List (Header × Text) :=
  match src with
  | .leaf b => [tarWriteOne rootName (.leaf b)]
  | .dir a entries => ((Tree.dir a entries).walk []).map fun y =>
      tarWriteOne (archiveName rootName y.1) y.2

theorem tarPack_eq (rootName : Text) (src : Source) :
    tarPack rootName src =
      (src.walk []).map fun y => tarWriteOne (archiveName rootName y.1) y.2 := by
  cases src <;> rfl

/-- The loop of `tarUnpack` over the entries: the machine, the bytes written and the error. -/
def unpackAll (cfg : Config) : List (Header × Text) → Disk → Disk × Nat × Option UnpackErr
  | [], s => (s, 0, none)
  | (hdr, content) :: rest, s =>
    match (unpackEntry cfg hdr).complete (diskSem cfg.cwd) (fun _ => { copied := content.length })
        { s with reading := content } with
    | (s', n, none) =>
      let out := unpackAll cfg rest s'
      (out.1, n + out.2.1, out.2.2)
    | (s', n, some e) => (s', n, some e)

/-- What the root of the tree is called in the end. -/
def rootName (cfg : Config) : Text := if cfg.newRoot = [] then cfg.oldRoot else cfg.newRoot

section Names

variable {cfg : Config} {q : Loc Text} {x : Item Attr Leaf}

/-- What stands behind the last slash of the name of a directory. -/
def tail : Item Attr Leaf → List Text
  | .dir _ => [[]]
  | .leaf _ => []

theorem archiveName_eq (root : Text) (hq : ∀ n ∈ q, LegalName n) :
    archiveName root q = root ++ slashed q.reverse := by
  have hiff := rel_eq_dot_iff hq
  unfold archiveName
  split
  · rename_i h
    have hne : q ≠ [] := fun he => h (hiff.mpr he)
    rw [rel, if_neg hne, slashed_eq_intercalate (List.reverse_ne_nil_iff.mpr hne)]
  · rename_i h; rw [hiff.mp (not_not.mp h)]; exact (List.append_nil root).symm

theorem trimSlash_eq {root : Text} (hroot : LegalName root) (hq : ∀ n ∈ q, LegalName n) :
    trimSlash (archiveName root q) = archiveName root q := by
  have hends : ∀ a n : Text, LegalName n → (a ++ n).getLast? ≠ some slash := by
    intro a n hn hlast
    rw [List.getLast?_append_of_ne_nil a hn.1.1] at hlast
    exact hn.2 (List.mem_of_getLast? hlast)
  rw [trimSlash, archiveName_eq root hq, if_neg]
  cases q with
  | nil => simpa using hends [] root hroot
  | cons n q =>
    have hsnoc : root ++ slashed (n :: q).reverse =
        (root ++ slashed q.reverse ++ [slash]) ++ n := by
      rw [List.reverse_cons, slashed_append]
      simp
    rw [hsnoc]
    exact hends _ n (hq n List.mem_cons_self)

theorem name_tarWriteOne {root : Text} (hroot : LegalName root) (hq : ∀ n ∈ q, LegalName n) :
    (tarWriteOne (archiveName root q) x).1.name = root ++ slashed (q.reverse ++ tail x) := by
  rw [slashed_append, ← List.append_assoc, ← archiveName_eq root hq]
  rcases x with (_ | _) | _
  · exact (List.append_nil _).symm
  · exact (List.append_nil _).symm
  · rw [tarWriteOne, trimSlash_eq hroot hq]; rfl

theorem rewriteRoot_slashed (oldRoot newRoot : Text) (ns : List Text) :
    rewriteRoot (oldRoot ++ slashed ns) oldRoot newRoot = newRoot ++ slashed ns := by
  unfold rewriteRoot
  cases ns with
  | nil => simp
  | cons n ns =>
    rw [if_neg (by simp), if_pos, List.drop_left]
    exact ⟨n ++ slashed ns, by simp⟩

theorem dropWhile_slash {root : Text} (hroot : LegalName root) (s : Text) :
    (root ++ s).dropWhile (· = slash) = root ++ s := by
  obtain ⟨c, root, rfl⟩ := List.exists_cons_of_ne_nil hroot.1.1
  have hc : c ≠ slash := fun h => hroot.2 (h ▸ List.mem_cons_self)
  rw [List.cons_append, List.dropWhile_cons_of_neg (by simpa using hc)]

theorem entryName_tarWriteOne (hroot : LegalName cfg.oldRoot) (hq : ∀ n ∈ q, LegalName n) :
    entryName cfg (tarWriteOne (archiveName cfg.oldRoot q) x).1 =
      rootName cfg ++ slashed (q.reverse ++ tail x) := by
  rw [entryName, name_tarWriteOne hroot hq, dropWhile_slash hroot, rewriteRoot_slashed, rootName]
  by_cases hnew : cfg.newRoot = []
  · simp [hnew]
  · simp [hnew]

theorem rootName_legal (hold : LegalName cfg.oldRoot)
    (hnew : cfg.newRoot = [] ∨ LegalName cfg.newRoot) : LegalName (rootName cfg) := by
  unfold rootName
  split
  · exact hold
  · rename_i h; exact hnew.resolve_left h

theorem names_slashed {root : Text} (hroot : LegalName root) (hq : ∀ n ∈ q, LegalName n) :
    (names (root ++ slashed (q.reverse ++ tail x))).reverse = q ++ [root] := by
  have hslash : ∀ n ∈ q.reverse ++ tail x, slash ∉ n := by
    intro n hn
    rcases List.mem_append.mp hn with hn | hn
    · exact (hq n (List.mem_reverse.mp hn)).2
    · cases x with
      | leaf b => cases hn
      | dir a => rw [List.mem_singleton.mp hn]; exact List.not_mem_nil
  have hfilter : ∀ ns : List Text, (∀ n ∈ ns, LegalName n) →
      ns.filter (fun p => decide (IsName p)) = ns := by
    intro ns hns
    exact List.filter_eq_self.mpr fun n hn => decide_eq_true (hns n hn).1
  have htail : (tail x).filter (fun p => decide (IsName p)) = [] := by
    cases x <;> rfl
  have hall : ∀ n ∈ [root] ++ q.reverse, LegalName n := by
    intro n hn
    rcases List.mem_append.mp hn with hn | hn
    · rw [List.mem_singleton.mp hn]; exact hroot
    · exact hq n (List.mem_reverse.mp hn)
  rw [names, splitOn_append_names _ hslash, List.splitOn_eq_singleton hroot.2, ← List.append_assoc,
    List.filter_append, htail, hfilter _ hall]
  simp

/-- Two dots in one of the names. -/
def Dotted (cfg : Config) (q : Loc Text) : Prop :=
  dotdot <:+: rootName cfg ∨ ∃ n ∈ q, dotdot <:+: n

theorem dotdot_iff_dotted :
    dotdot <:+: rootName cfg ++ slashed (q.reverse ++ tail x) ↔ Dotted cfg q := by
  have htail : ¬ ∃ n ∈ tail x, dotdot <:+: n := by
    rintro ⟨n, hn, h⟩
    cases x with
    | leaf b => cases hn
    | dir a => rw [List.mem_singleton.mp hn] at h; revert h; decide
  rw [dotdot_infix_slashed, Dotted]
  refine or_congr_right ⟨?_, ?_⟩
  · rintro ⟨n, hn, h⟩
    rcases List.mem_append.mp hn with hn | hn
    · exact ⟨n, List.mem_reverse.mp hn, h⟩
    · exact absurd ⟨n, hn, h⟩ htail
  · rintro ⟨n, hn, h⟩; exact ⟨n, List.mem_append_left _ (List.mem_reverse.mpr hn), h⟩

theorem entryPath_ok_iff (hold : LegalName cfg.oldRoot)
    (hnew : cfg.newRoot = [] ∨ LegalName cfg.newRoot) (hq : ∀ n ∈ q, LegalName n)
    (hdest : cfg.destDir ≠ []) (hwd : ∀ wd, cfg.getwd = some wd → isAbs wd = true) {full : Path} :
    entryPath cfg (tarWriteOne (archiveName cfg.oldRoot q) x).1 = .ok full ↔
      ¬ Dotted cfg q ∧ abs cfg.getwd cfg.destDir ≠ [slash] ∧
        full = (clean cfg.destDir).add (q ++ [rootName cfg]) := by
  have hroot := rootName_legal hold hnew
  have hlegal : ∀ n ∈ q ++ [rootName cfg], LegalName n := by
    intro n hn
    rcases List.mem_append.mp hn with hn | hn
    · exact hq n hn
    · rw [List.mem_singleton.mp hn]; exact hroot
  have hname := entryName_tarWriteOne (x := x) hold hq
  have hinf : dotdot <:+: entryName cfg (tarWriteOne (archiveName cfg.oldRoot q) x).1 ↔
      Dotted cfg q := by
    rw [hname]
    exact dotdot_iff_dotted
  unfold entryPath
  by_cases hdots : Dotted cfg q
  · rw [if_pos (hinf.mpr hdots)]
    exact iff_of_false (fun h => by cases h) fun h => h.1 hdots
  · have hjoin : join cfg.destDir (entryName cfg (tarWriteOne (archiveName cfg.oldRoot q) x).1) =
        (clean cfg.destDir).add (q ++ [rootName cfg]) := by
      rw [clean_join hdest (fun h => hdots (hinf.mp h)), hname, names_slashed hroot hq]
      rfl
    have hescapes := escapes_add_iff hdest hwd (by simp) hlegal
    rw [if_neg (fun h => hdots (hinf.mp h)), hjoin]
    by_cases hslash : abs cfg.getwd cfg.destDir = [slash]
    · rw [if_pos (hescapes.mpr hslash)]
      exact iff_of_false (fun h => by cases h) fun h => h.2.1 hslash
    · rw [if_neg fun h => hslash (hescapes.mp h)]
      constructor
      · intro h; cases h; exact ⟨hdots, hslash, rfl⟩
      · rintro ⟨-, -, rfl⟩; rfl

end Names

section Entry

variable {cfg : Config} {s : Disk} {p : Path} {l : Loc Text} {n name : Text} {x : Item Attr Leaf}

theorem run_inDir {made : Code (Except OsErr Unit)} {rest : Code (Nat × Option UnpackErr)}
    {cwd : Loc Text} {e : Env} {s s' : Disk}
    (h : made.complete (diskSem cwd) (fun _ => e) s = (s', .ok ())) :
    (inDir made rest).complete (diskSem cwd) (fun _ => e) s =
      rest.complete (diskSem cwd) (fun _ => e) s' := by
  rw [inDir, Prog.complete_bind, h]

theorem run_unpackEntry (hl : Leads cfg.cwd s.fs.tree p l) (hn : IsName n)
    (hnew : s.fs.tree.node (n :: l) = none)
    (hpath : entryPath cfg (tarWriteOne name x).1 = .ok (child p n)) :
    ∃ s' k a c, (unpackEntry cfg (tarWriteOne name x).1).complete (diskSem cfg.cwd)
        (fun _ => { copied := (tarWriteOne name x).2.length })
        { s with reading := (tarWriteOne name x).2 } = (s', k, none) ∧
      Adds s s' (n :: l) (nodeOf x) a c ∧ ∀ b, x = .leaf b → c = b.text := by
  rw [unpackEntry, hpath]
  cases x with
  | dir a =>
    obtain ⟨s', hrun, hadds⟩ := run_mkdirAll_new (s := { s with reading := [] })
      (e := { copied := 0 }) hl hn hnew rfl (a.mode % 0o10000 ||| 0o700)
    exact ⟨s', 0, _, _, run_inDir hrun, hadds.of_reading, fun b hb => by cases hb⟩
  | leaf b =>
    cases b with
    | file a content =>
      have hparent := run_mkdirAll (s := { s with reading := content })
        (e := { copied := content.length }) hl rfl 0o755
      obtain ⟨s', hrun, hadds⟩ := run_writeFile (s := { s with reading := content })
        (e := { copied := content.length }) hl hn hnew rfl (a.mode % 0o10000) (Nat.le_refl _)
      refine ⟨s', _, _, _, (run_inDir hparent).trans hrun, hadds.of_reading, ?_⟩
      intro b hb
      cases hb
      exact List.take_length
    | link uid gid target htarget =>
      have hparent := run_mkdirAll (s := { s with reading := [] }) (e := { copied := 0 }) hl rfl
        0o755
      obtain ⟨s', hrun, hadds⟩ := run_writeLink (s := { s with reading := [] })
        (e := { copied := 0 }) hl hn hnew rfl htarget
      refine ⟨s', _, _, _, (run_inDir hparent).trans hrun, hadds.of_reading, ?_⟩
      intro b hb
      cases hb
      rfl

end Entry

/-! ## The archive -/

section Archive

variable {cfg : Config} {s s' s'' : Disk} {xs : List (Header × Text)} {x : Header × Text}
  {n k : Nat}

theorem unpackAll_snoc {err : Option UnpackErr} (h : unpackAll cfg xs s = (s', n, none))
    (hx : (unpackEntry cfg x.1).complete (diskSem cfg.cwd) (fun _ => { copied := x.2.length })
      { s' with reading := x.2 } = (s'', k, err)) :
    ∃ m, unpackAll cfg (xs ++ [x]) s = (s'', m, err) := by
  induction xs generalizing s n with
  | nil =>
    cases h
    rw [List.nil_append, unpackAll, hx]
    cases err with
    | none => exact ⟨_, rfl⟩
    | some e => exact ⟨_, rfl⟩
  | cons y ys ih =>
    rw [List.cons_append, unpackAll]
    rw [unpackAll] at h
    split at h
    · rename_i s₁ j hy
      have hrest : unpackAll cfg ys s₁ = (s', (unpackAll cfg ys s₁).2.1, none) := by
        rw [← (Prod.mk.inj h).1, ← (Prod.mk.inj (Prod.mk.inj h).2).2]
      obtain ⟨m, hm⟩ := ih hrest
      exact ⟨j + m, by rw [hm]⟩
    · cases h

theorem entryPath_of_unpackAll (h : (unpackAll cfg xs s).2.2 = none) :
    ∀ x ∈ xs, ∃ full, entryPath cfg x.1 = .ok full := by
  induction xs generalizing s with
  | nil => intro x hx; cases hx
  | cons y ys ih =>
    rw [unpackAll] at h
    split at h
    · rename_i s₁ j hy
      refine List.forall_mem_cons.mpr ⟨?_, ih h⟩
      cases hpath : entryPath cfg y.1 with
      | ok full => exact ⟨full, rfl⟩
      | error e => rw [unpackEntry, hpath] at hy; cases hy
    · cases h

end Archive

section Run

variable {cfg : Config} {d : Loc Text} {s₀ s s' : Disk} {es : List (Loc Text × Item Attr Leaf)}

/-- The nodes `es` have been unpacked. -/
structure Unpacked (cfg : Config) (d : Loc Text) (s₀ s : Disk)
    (es : List (Loc Text × Item Attr Leaf)) : Prop where
  holds : Holds (rootName cfg :: d) s₀ s es
  leads : ∀ q a, (q, .dir a) ∈ es → Leads cfg.cwd s.fs.tree
    ((clean cfg.destDir).add (q ++ [rootName cfg])) (q ++ rootName cfg :: d)

theorem Unpacked.snoc (h : Unpacked cfg d s₀ s es) {p : Path} {l q : Loc Text} {n : Text}
    {x : Item Attr Leaf} {a : Attr} {c : Text} (hnew : ∀ y, (q, y) ∉ es)
    (hl : Leads cfg.cwd s.fs.tree p l) (hn : IsName n) (hq : q ++ rootName cfg :: d = n :: l)
    (hpath : (clean cfg.destDir).add (q ++ [rootName cfg]) = child p n)
    (hfree : s.fs.tree.node (n :: l) = none)
    (hadds : Adds s s' (n :: l) (nodeOf x) a c) (htext : ∀ b, x = .leaf b → c = b.text) :
    Unpacked cfg d s₀ s' (es ++ [(q, x)]) := by
  refine ⟨h.holds.snoc hnew (hq ▸ hadds) htext, ?_⟩
  intro q' a' hq'
  rcases List.mem_append.mp hq' with hq' | hq'
  · exact (h.leads q' a' hq').extends (hadds.extends hfree)
  · cases List.mem_singleton.mp hq'
    rw [hpath, hq]
    refine (hl.extends (hadds.extends hfree)).child hn ?_
    rw [hadds.node, if_pos rfl]
    rfl

variable (hold : LegalName cfg.oldRoot) (hnew : cfg.newRoot = [] ∨ LegalName cfg.newRoot)
  (hdest : EmptyDir cfg.cwd s₀.fs.tree cfg.destDir d)
  (hwd : ∀ wd, cfg.getwd = some wd → isAbs wd = true)
  (hslash : abs cfg.getwd cfg.destDir ≠ [slash])

include hold hnew hdest hwd hslash

theorem run_unpackAll (hes : Listing LegalName [] es) (hdots : ∀ y ∈ es, ¬ Dotted cfg y.1) :
    ∃ s n, unpackAll cfg (es.map fun y => tarWriteOne (archiveName cfg.oldRoot y.1) y.2) s₀ =
      (s, n, none) ∧ Unpacked cfg d s₀ s es := by
  have hroot := rootName_legal hold hnew
  have hpath : ∀ (q : Loc Text) (x : Item Attr Leaf), (∀ n ∈ q, LegalName n) → ¬ Dotted cfg q →
      entryPath cfg (tarWriteOne (archiveName cfg.oldRoot q) x).1 =
        .ok ((clean cfg.destDir).add (q ++ [rootName cfg])) := fun q x hq hdot =>
    (entryPath_ok_iff hold hnew hq hdest.nonempty hwd).mpr ⟨hdot, hslash, rfl⟩
  induction hes with
  | root x =>
    have hp := hpath [] x (by simp) (hdots _ (List.mem_singleton_self _))
    obtain ⟨s', k, a, c, hrun, hadds, htext⟩ :=
      run_unpackEntry hdest.leads hroot.1 (hdest.empty _) hp
    obtain ⟨m, hm⟩ := unpackAll_snoc (rfl : unpackAll cfg [] s₀ = (s₀, 0, none)) hrun
    have hstart : Unpacked cfg d s₀ s₀ [] :=
      ⟨⟨fun q x h => (by cases h), fun q b h => (by cases h), fun k _ => ⟨rfl, rfl, rfl⟩⟩,
        fun q a h => by cases h⟩
    exact ⟨s', m, hm, hstart.snoc (q := []) (fun y hy => by cases hy) hdest.leads hroot.1 rfl rfl
      (hdest.empty _) hadds htext⟩
  | @snoc es n l a x hes hdir hname hfresh ih =>
    obtain ⟨s, k, hs, hun⟩ := ih fun y hy => hdots y (List.mem_append_left _ hy)
    have hlegal : ∀ m ∈ n :: l, LegalName m :=
      List.forall_mem_cons.mpr ⟨hname, hes.named_nil hdir⟩
    have hp := hpath (n :: l) x hlegal
      (hdots _ (List.mem_append_right _ (List.mem_singleton_self _)))
    have hl := hun.leads l a hdir
    -- nothing was there, and nothing that was unpacked is there
    have hfree : s.fs.tree.node (n :: (l ++ rootName cfg :: d)) = none := by
      have habsent := hdest.absent (q := (n :: l) ++ [rootName cfg]) (by simp)
      rw [List.append_assoc] at habsent
      exact hun.holds.absent hfresh habsent
    obtain ⟨s', k', a', c, hrun, hadds, htext⟩ := run_unpackEntry hl hname.1 hfree hp
    obtain ⟨m, hm⟩ := unpackAll_snoc hs hrun
    rw [List.map_append]
    exact ⟨s', m, hm, hun.snoc hfresh hl hname.1 rfl rfl hfree hadds htext⟩

end Run

/-- What was packed is unpacked in the same form, under the new name, exactly if no name of the tree
and not the name of its root has two dots in it, and the destination is not the root directory. -/
theorem cp_roundTrip_iff (cfg : Config) (d : Loc Text) (src : Source) (s : Disk)
    (hold : LegalName cfg.oldRoot) (hnew : cfg.newRoot = [] ∨ LegalName cfg.newRoot)
    (hsrc : src.Named LegalName) (hdest : EmptyDir cfg.cwd s.fs.tree cfg.destDir d)
    (hwd : ∀ wd, cfg.getwd = some wd → isAbs wd = true) :
    (∃ s' n, unpackAll cfg (tarPack cfg.oldRoot src) s = (s', n, none) ∧
        Holds (rootName cfg :: d) s s' (src.walk [])) ↔
      abs cfg.getwd cfg.destDir ≠ [slash] ∧ ¬ dotdot <:+: rootName cfg ∧
        ∀ y ∈ src.walk [], ∀ n ∈ y.1, ¬ dotdot <:+: n := by
  have hes := src.listing hsrc []
  rw [tarPack_eq]
  constructor
  · rintro ⟨s', n, hrun, -⟩
    have hpass : ∀ y ∈ src.walk [], ¬ Dotted cfg y.1 ∧ abs cfg.getwd cfg.destDir ≠ [slash] := by
      intro y hy
      obtain ⟨full, hfull⟩ := entryPath_of_unpackAll (by rw [hrun]) _ (List.mem_map_of_mem hy)
      obtain ⟨h₁, h₂, -⟩ :=
        (entryPath_ok_iff hold hnew (hes.named_nil hy) hdest.nonempty hwd).mp hfull
      exact ⟨h₁, h₂⟩
    have hroot : ∃ x, ([], x) ∈ src.walk [] := by
      cases src with
      | leaf b => exact ⟨_, List.mem_singleton_self _⟩
      | dir a entries => exact ⟨_, List.mem_cons_self⟩
    obtain ⟨x, hx⟩ := hroot
    obtain ⟨hdots, hslash⟩ := hpass _ hx
    exact ⟨hslash, fun h => hdots (.inl h), fun y hy n hn h => (hpass y hy).1 (.inr ⟨n, hn, h⟩)⟩
  · rintro ⟨hslash, hroot, hnames⟩
    have hdots : ∀ y ∈ src.walk [], ¬ Dotted cfg y.1 := by
      rintro y hy (h | ⟨n, hn, h⟩)
      · exact hroot h
      · exact hnames y hy n hn h
    obtain ⟨s', n, hrun, hun⟩ := run_unpackAll hold hnew hdest hwd hslash hes hdots
    exact ⟨s', n, hrun, hun.holds⟩

def renamed : Config := ⟨slash :: dst, fileA, fileB, [], some [slash]⟩

/-- A directory with the file of this name in it, which reads `hi`, and a link to it. -/
def oneFile (name : Text) : Source :=
  .dir ⟨0o755, 0, 0⟩ (.cons name (.leaf (.file ⟨0o644, 0, 0⟩ [104, 105]))
    (.cons etc (.leaf (.link 0 0 fileA (by decide))) .nil))

theorem cp_roundTrip_oneFile :
    ∃ s' n, unpackAll renamed (tarPack fileA (oneFile fileB)) emptyDst = (s', n, none) ∧
      Holds [fileB, dst] emptyDst s' ((oneFile fileB).walk []) := by
  have hnamed : (oneFile fileB).Named LegalName :=
    ⟨by decide, by decide, trivial, by decide, by decide, trivial, trivial⟩
  have hwd : ∀ wd, renamed.getwd = some wd → isAbs wd = true := by
    intro wd h; cases h; decide
  exact (cp_roundTrip_iff renamed [dst] (oneFile fileB) emptyDst (by decide) (.inr (by decide))
    hnamed emptyDir_emptyDst hwd).mpr ⟨by decide, by decide, by decide⟩

/-- A file `a..b` is refused. -/
theorem cp_refuses_two_dots :
    LegalName [97, 46, 46, 98] ∧
      (unpackAll renamed (tarPack fileA (oneFile [97, 46, 46, 98])) emptyDst).2.2 =
        some (.dotdot [97, 47, 97, 46, 46, 98]) := by
  decide

end Capsule.Cp
