import Capsule.Atomic.Steps
import Capsule.Cp.Unpack

/-!
# Capsule.Cp.Contained

Whether `tarUnpack` writes outside its destination, for any stream of entries and any answers of the
local machine.

Where a path leads is decided by the symlinks on the disk, also by those of earlier entries.

* `Made`, `Ready`: what is known of a directory while the code makes and enters it.
* `makeDir_safe`, `writeFile_safe`, `writeLink_safe`, `unpackEntry_safe`: each effect lies under the
  destination, if the entry is `Trusted`.
* `unpack_contained`: so does everything that is written, as long as no symlink under the
  destination leads out of it before each entry.
* `cp_escapes`: a link and a file behind it write to `/etc`.
-/

namespace Capsule.Cp

open Atomic GoPath Posix

/-- The destination is the directory `d`, as given and as `Join` cleans it. -/
structure Names (cfg : Config) (t : FileTree Text) (d : Loc Text) : Prop where
  nonempty : cfg.destDir ≠ []
  given : t.walk maxSymlinks (if isAbs cfg.destDir then [] else cfg.cwd) (comps cfg.destDir) =
    some d
  cleaned : resolve cfg.cwd t (clean cfg.destDir) = some d
  dir : t.node d = some .dir

/-- The path `q`, innermost name first, below the destination. -/
def below (cfg : Config) (q : List Text) : Path :=
  ⟨(clean cfg.destDir).rooted, q ++ (clean cfg.destDir).parts⟩

/-- What the operation does to the tree is done under `d`. -/
def Under (cwd d : Loc Text) (o : Op) (s : Local) : Prop :=
  ∀ e, ∀ x ∈ (sem cwd o e s).1.log, x ∈ s.log ∨ d <:+ x.loc

section Ops

variable {cwd d : Loc Text} {s : Local} {p : Path}

theorem under_of_same {o : Op} (h : ∀ e, (sem cwd o e s).1.log = s.log) : Under cwd d o s := by
  intro e x hx; rw [h e] at hx; exact .inl hx

theorem under_of_snoc {log : List Effect} {x y : Effect} (hy : d <:+ y.loc)
    (hx : x ∈ log ++ [y]) : x ∈ log ∨ d <:+ x.loc := by
  rcases List.mem_append.mp hx with hx | hx
  · exact .inl hx
  · rw [List.mem_singleton.mp hx]; exact .inr hy

theorem stat_state (e : Env) : (sem cwd (.stat p) e s).1 = s := by
  simp only [sem]
  split <;> rfl

theorem lstat_state (e : Env) : (sem cwd (.lstat p) e s).1 = s := by
  simp only [sem]
  split <;> rfl

theorem place_some {t : FileTree Text} {r : Loc Text} {n : Text} (h : place cwd t p = some (r, n)) :
    ∃ ps, p.parts = n :: ps ∧ IsName n ∧ resolve cwd t p.dir = some r ∧ t.node r = some .dir := by
  unfold place at h
  split at h
  · cases h
  · rename_i x ps hps
    split at h
    · rename_i hx
      split at h
      · cases h
      · rename_i r' hr
        split at h
        · rename_i hdir; cases h; exact ⟨ps, hps, hx, hr, hdir⟩
        · cases h
    · cases h

theorem place_name {t : FileTree Text} {r : Loc Text} {x : Text} {ps : List Text}
    (hp : p.parts = x :: ps) (hx : IsName x) (hr : resolve cwd t p.dir = some r)
    (hdir : t.node r = some .dir) : place cwd t p = some (r, x) := by
  simp [place, hp, hx, hr, hdir]

theorem lresolve_name {t : FileTree Text} {r : Loc Text} {x : Text} {ps : List Text}
    (hp : p.parts = x :: ps) (hx : IsName x) (hr : resolve cwd t p.dir = some r)
    (hdir : t.node r = some .dir) : lresolve cwd t p = some (x :: r) := by
  simp [lresolve, place_name hp hx hr hdir, hp, hx]

theorem place_extends {t t' : FileTree Text} {y : Loc Text × Text} (h : place cwd t p = some y)
    (ht : t.Extends t') : place cwd t' p = some y := by
  obtain ⟨r, n⟩ := y
  obtain ⟨ps, hp, hx, hr, hdir⟩ := place_some h
  have hw := (FileTree.walks_of_walk hr).extends (by simp [hdir]) ht
  exact place_name hp hx hw.walk (ht r .dir hdir)

theorem addAt_cases (x : Node Text) :
    (∃ err, s.addAt cwd p x = (s, .error err)) ∨
      ∃ r n t, place cwd s.tree p = some (r, n) ∧ s.tree.add n r x = some t ∧
        s.addAt cwd p x = (⟨t, s.log ++ [.created (n :: r)]⟩, .ok ()) := by
  unfold Local.addAt
  cases hp : place cwd s.tree p with
  | none => exact .inl ⟨_, rfl⟩
  | some y =>
    obtain ⟨r, n⟩ := y
    dsimp only [Local.add]
    cases ht : s.tree.add n r x with
    | none => exact .inl ⟨_, rfl⟩
    | some t => exact .inr ⟨r, n, t, rfl, ht, rfl⟩

theorem mkdir_cases (cwd : Loc Text) (s : Local) (p : Path) (perm : Nat) (e : Env) :
    (∃ err, sem cwd (.mkdir p perm) e s = (s, .error err)) ∨
      ∃ r n t, place cwd s.tree p = some (r, n) ∧ s.tree.add n r .dir = some t ∧
        sem cwd (.mkdir p perm) e s = (⟨t, s.log ++ [.created (n :: r)]⟩, .ok ()) := by
  simp only [sem]
  cases e.fault with
  | some m => exact .inl ⟨_, rfl⟩
  | none => exact addAt_cases .dir

theorem symlink_cases (cwd : Loc Text) (s : Local) (p : Path) (oldname : Text)
    (e : Env) :
    (∃ err, sem cwd (.symlink oldname p) e s = (s, .error err)) ∨
      ∃ r n t, place cwd s.tree p = some (r, n) ∧
        s.tree.add n r (.link (isAbs oldname) (comps oldname)) = some t ∧
        sem cwd (.symlink oldname p) e s = (⟨t, s.log ++ [.created (n :: r)]⟩, .ok ()) := by
  simp only [sem]
  cases e.fault with
  | some m => exact .inl ⟨_, rfl⟩
  | none =>
    dsimp only
    split
    · exact .inl ⟨_, rfl⟩
    · exact addAt_cases _

theorem remove_cases (cwd : Loc Text) (s : Local) (p : Path) (e : Env) :
    (∃ err, sem cwd (.remove p) e s = (s, .error err)) ∨
      ∃ r n t, place cwd s.tree p = some (r, n) ∧ s.tree.remove n r = some t ∧
        sem cwd (.remove p) e s = (⟨t, s.log ++ [.removed (n :: r)]⟩, .ok ()) := by
  simp only [sem]
  cases e.fault with
  | some m => exact .inl ⟨_, rfl⟩
  | none =>
    dsimp only [Local.removeAt]
    cases hp : place cwd s.tree p with
    | none => exact .inl ⟨_, rfl⟩
    | some y =>
      obtain ⟨r, n⟩ := y
      dsimp only
      cases ht : s.tree.remove n r with
      | none => exact .inl ⟨_, rfl⟩
      | some t => exact .inr ⟨r, n, t, rfl, ht, rfl⟩

theorem openFile_cases (cwd : Loc Text) (s : Local) (p : Path) (perm : Nat) (e : Env) :
    (∃ err, sem cwd (.openFile p perm) e s = (s, .error err)) ∨
      ∃ l s' x, resolve cwd s.tree p = some l ∧ s.tree.node l ≠ some .dir ∧ x.loc = l ∧
        s'.log = s.log ++ [x] ∧ sem cwd (.openFile p perm) e s = (s', .ok l) := by
  simp only [sem]
  cases e.fault with
  | some m => exact .inl ⟨_, rfl⟩
  | none =>
    dsimp only [Local.openAt]
    cases hr : resolve cwd s.tree p with
    | none => exact .inl ⟨_, rfl⟩
    | some l =>
      dsimp only
      split
      · rename_i hnode
        exact .inr ⟨_, _, .truncated _, rfl, by simp [hnode], rfl, rfl, rfl⟩
      · rename_i n r hnode
        dsimp only [Local.add]
        cases ht : s.tree.add n r .file with
        | none => exact .inl ⟨_, rfl⟩
        | some t => exact .inr ⟨_, _, .created _, rfl, by simp [hnode], rfl, rfl, rfl⟩
      · exact .inl ⟨_, rfl⟩

end Ops

section Below

variable {cfg : Config} {d : Loc Text} {t t' : FileTree Text} {q : List Text} {r : Loc Text}
  {n : Text}

theorem comps_below (hq : ∀ x ∈ q, IsName x) :
    (below cfg q).comps = (clean cfg.destDir).comps ++ q.reverse.map .name := by
  simp only [below, Path.comps, List.reverse_append, List.map_append]
  congr 1
  refine List.map_congr_left ?_
  intro x hx
  exact comp_name (hq x (List.mem_reverse.mp hx))

theorem below_inside (hn : Names cfg t d) (hc : t.Confined maxSymlinks d)
    (hq : ∀ x ∈ q, IsName x) (h : resolve cfg.cwd t (below cfg q) = some r) : d <:+ r := by
  have hw := FileTree.walks_of_walk h
  rw [comps_below hq] at hw
  obtain ⟨m, j, hj, ha, hb⟩ := hw.split
  obtain rfl : m = d := ha.unique (FileTree.walks_of_walk hn.cleaned)
  exact hb.inside hc hj List.suffix_rfl (by simp)

theorem dest_exists (hn : Names cfg t d) {ps : List Text} (hps : ps <:+ (clean cfg.destDir).parts)
    (h : place cfg.cwd t ⟨(clean cfg.destDir).rooted, ps⟩ = some (r, n)) :
    t.node (n :: r) ≠ none := by
  obtain ⟨ps', rfl, hname, hr, -⟩ := place_some h
  obtain ⟨pre, hpre⟩ := hps
  have hw := FileTree.walks_of_walk hn.cleaned
  have hcomps : (clean cfg.destDir).comps =
      ps'.reverse.map comp ++ (.name n :: pre.reverse.map comp) := by
    simp [Path.comps, ← hpre, comp_name hname]
  rw [hcomps] at hw
  obtain ⟨m, j, -, ha, hb⟩ := hw.split
  obtain rfl : m = r := ha.unique (FileTree.walks_of_walk hr)
  generalize pre.reverse.map comp = rest at hb
  cases hb with
  | dir hdir _ => simp [hdir]
  | link hlink _ => simp [hlink]
  | last _ _ => simp [hn.dir]

/-- The path leads to a directory under the destination that has just been made. -/
def Fresh (cfg : Config) (d : Loc Text) (q : List Text) (t : FileTree Text) : Prop :=
  ∃ r, resolve cfg.cwd t (below cfg q) = some r ∧ t.node r = some .dir ∧ d <:+ r ∧
    ∀ n, t.node (n :: r) = none

/-- Nothing has been made, or the last thing made is the directory `q`. -/
def Made (cfg : Config) (d : Loc Text) (t : FileTree Text) (q : List Text)
    (t' : FileTree Text) : Prop :=
  t' = t ∨ Fresh cfg d q t'

variable (hn : Names cfg t d) (hc : t.Confined maxSymlinks d)

include hn hc

theorem Made.place_inside (hm : Made cfg d t q t') (hq : ∀ x ∈ q, IsName x) {x : Text}
    (h : place cfg.cwd t' (below cfg (x :: q)) = some (r, n)) : n = x ∧ d <:+ r := by
  obtain ⟨ps, hps, -, hr, -⟩ := place_some h
  obtain ⟨rfl, -⟩ := List.cons.inj hps
  refine ⟨rfl, ?_⟩
  replace hr : resolve cfg.cwd t' (below cfg q) = some r := hr
  rcases hm with rfl | ⟨r', hr', -, hd, -⟩
  · exact below_inside hn hc hq hr
  · rw [hr] at hr'; cases hr'; exact hd

theorem Made.fresh (hm : Made cfg d t q t') {x : Text} (hq : ∀ y ∈ x :: q, IsName y)
    {t'' : FileTree Text} (h : place cfg.cwd t' (below cfg (x :: q)) = some (r, n))
    (hadd : t'.add n r .dir = some t'') : Fresh cfg d (x :: q) t'' := by
  have hq' : ∀ y ∈ q, IsName y := fun y hy => hq y (List.mem_cons_of_mem x hy)
  obtain ⟨rfl, hd⟩ := hm.place_inside hn hc hq' h
  obtain ⟨ps, -, -, hr, hdir⟩ := place_some h
  replace hr : resolve cfg.cwd t' (below cfg q) = some r := hr
  have hnode : t''.node (n :: r) = some .dir := by
    rw [FileTree.node_add hadd, if_pos rfl]
  refine ⟨n :: r, ?_, hnode, hd.trans (List.suffix_cons _ _), ?_⟩
  · have hw := (FileTree.walks_of_walk hr).extends (by simp [hdir]) (FileTree.extends_add hadd)
    have hdir' : t''.node r = some .dir := FileTree.extends_add hadd r .dir hdir
    have hcomps : (below cfg (n :: q)).comps = (below cfg q).comps ++ [.name n] := by
      rw [comps_below hq, comps_below hq']; simp
    rw [resolve, hcomps]
    exact (hw.snoc hdir' (by simp [hnode])).walk
  · intro m
    rw [FileTree.node_add hadd, if_neg (by simp)]
    exact FileTree.node_child_none (by simp [(FileTree.add_absent hadd).2]) m

end Below

/-! ## MkdirAll -/

section MkdirAll

variable {cwd d : Loc Text} {s : Local}

theorem makeDir_safe {p : Path} {perm : Nat} {parent : Code (Except OsErr Unit)}
    {M P : FileTree Text → Prop} (hs : P s.tree)
    (hparent : parent.Safe (sem cwd) Eq (Under cwd d) (fun r s => r = .ok () → M s.tree) s)
    (hmkdir : ∀ (s : Local) r n t, M s.tree → place cwd s.tree p = some (r, n) →
      s.tree.add n r .dir = some t → d <:+ n :: r ∧ P t)
    (hlstat : ∀ (s : Local), M s.tree →
      isDir ((lresolve cwd s.tree p).bind s.tree.node) = .ok true → P s.tree) :
    (makeDir p perm parent).Safe (sem cwd) Eq (Under cwd d)
      (fun r s => r = .ok () → P s.tree) s := by
  have herr : ∀ (e : OsErr) (s : Local), (Prog.ret (.error e) : Code (Except OsErr Unit)).Safe
      (sem cwd) Eq (Under cwd d) (fun r s => r = .ok () → P s.tree) s := by
    intro e s
    rw [Prog.safe_alone_ret]
    intro h
    cases h
  unfold makeDir
  simp only [stat, Prog.call_bind, Prog.ret_bind]
  rw [Prog.safe_alone_call]
  refine ⟨under_of_same fun e => by rw [stat_state], fun e => ?_⟩
  rw [stat_state]
  cases (sem cwd (.stat p) e s).2 with
  | ok isd =>
    cases isd with
    | true => exact .ret fun _ => hs
    | false => exact herr _ _
  | error err =>
    refine .andThenOk (hparent.mono ?_)
    intro r s hmid
    cases r with
    | error err => exact herr _ _
    | ok _ =>
      replace hmid := hmid rfl
      simp only [mkdir, lstat, Prog.call_bind, Prog.ret_bind]
      rw [Prog.safe_alone_call]
      refine ⟨?_, fun e => ?_⟩
      · intro e x hx
        rcases mkdir_cases cwd s p perm e with ⟨err, h⟩ | ⟨r, n, t, hp, ht, h⟩
        · rw [h] at hx; exact .inl hx
        · rw [h] at hx
          exact under_of_snoc (y := .created (n :: r)) (hmkdir s r n t hmid hp ht).1 hx
      · rcases mkdir_cases cwd s p perm e with ⟨err, h⟩ | ⟨r, n, t, hp, ht, h⟩
        · rw [h]
          dsimp only
          rw [Prog.safe_alone_call]
          refine ⟨under_of_same fun e => by rw [lstat_state], fun e => ?_⟩
          rw [lstat_state]
          cases hl : (sem cwd (.lstat p) e s).2 with
          | error err => exact herr _ _
          | ok isd =>
            cases isd with
            | false => exact herr _ _
            | true =>
              refine .ret fun _ => hlstat s hmid ?_
              simp only [sem] at hl
              split at hl
              · cases hl
              · exact hl
        · rw [h]; exact .ret fun _ => (hmkdir s r n t hmid hp ht).2

variable {cfg : Config} {t : FileTree Text} (hn : Names cfg t d)

include hn

theorem mkdirAll_dest (perm : Nat) (hs : s.tree = t) {ps : List Text}
    (hps : ps <:+ (clean cfg.destDir).parts) :
    (mkdirAll (clean cfg.destDir).rooted perm ps).Safe (sem cfg.cwd) Eq (Under cfg.cwd d)
      (fun r s => r = .ok () → s.tree = t) s := by
  have hnew : ∀ (s : Local) r n t', s.tree = t →
      place cfg.cwd s.tree ⟨(clean cfg.destDir).rooted, ps⟩ = some (r, n) →
      s.tree.add n r .dir = some t' → d <:+ n :: r ∧ t' = t := by
    rintro s r n t' rfl hp hadd
    exact absurd (FileTree.add_absent hadd).2 (dest_exists hn hps hp)
  induction ps with
  | nil =>
    exact makeDir_safe (P := fun t' => t' = t) (M := fun t' => t' = t) hs
      (.ret fun _ => hs) hnew fun _ hm _ => hm
  | cons x ps ih =>
    refine makeDir_safe (P := fun t' => t' = t) (M := fun t' => t' = t) hs ?_ hnew
      fun _ hm _ => hm
    split
    · exact .ret fun _ => hs
    · have hps' := (List.suffix_cons x ps).trans hps
      refine ih hps' ?_
      rintro s r n t' rfl hp hadd
      exact absurd (FileTree.add_absent hadd).2 (dest_exists hn hps' hp)

theorem mkdirAll_below (hc : t.Confined maxSymlinks d) (perm : Nat) (hs : s.tree = t)
    {q : List Text} (hq : ∀ x ∈ q, IsName x) :
    (mkdirAll (below cfg q).rooted perm (below cfg q).parts).Safe (sem cfg.cwd) Eq
      (Under cfg.cwd d) (fun r s => r = .ok () → Made cfg d t q s.tree) s := by
  induction q with
  | nil =>
    refine (mkdirAll_dest hn perm hs List.suffix_rfl).mono ?_
    intro r s h hr
    exact .inl (h hr)
  | cons x q ih =>
    have hq' : ∀ y ∈ q, IsName y := fun y hy => hq y (List.mem_cons_of_mem x hy)
    refine makeDir_safe (M := Made cfg d t q) (P := Made cfg d t (x :: q)) (.inl hs) ?_ ?_ ?_
    · split
      · exact .ret fun _ => .inl hs
      · exact ih hq'
    · intro s r n t' hm hp hadd
      exact ⟨(hm.place_inside hn hc hq' hp).2.trans (List.suffix_cons _ _),
        .inr (hm.fresh hn hc hq hp hadd)⟩
    · -- the directory cannot be there already when its parent has just been made
      intro s hm hl
      rcases hm with hm | ⟨r, hr, hdir, hd, hempty⟩
      · exact .inl hm
      · have hlr : lresolve cfg.cwd s.tree (below cfg (x :: q)) = some (x :: r) :=
          lresolve_name rfl (hq x List.mem_cons_self) hr hdir
        replace hl : isDir ((lresolve cfg.cwd s.tree (below cfg (x :: q))).bind s.tree.node) =
          .ok true := hl
        rw [hlr] at hl
        simp [hempty x, isDir] at hl

end MkdirAll

section Entry

variable {cfg : Config} {d : Loc Text} {s : Local} {t t' : FileTree Text} {hdr : Header}

/-- The names of an entry below the destination, innermost first. -/
def entryNames (cfg : Config) (hdr : Header) : List Text := (names (entryName cfg hdr)).reverse

theorem entryNames_name {x : Text} (hx : x ∈ entryNames cfg hdr) : IsName x := by
  rw [entryNames, List.mem_reverse] at hx; simpa using (List.mem_filter.mp hx).2

theorem entryPath_below {full : Path} (hdest : cfg.destDir ≠ [])
    (h : entryPath cfg hdr = .ok full) : full = below cfg (entryNames cfg hdr) := by
  unfold entryPath at h
  dsimp only at h
  split at h
  · cases h
  · rename_i hdots
    split at h
    · cases h
    · cases h; exact clean_join hdest hdots

/-- The directory for the entry is there: whatever is done at the path is done under `d`. -/
structure Ready (cfg : Config) (d : Loc Text) (q : List Text) (t : FileTree Text) : Prop where
  opens : ∀ l, resolve cfg.cwd t (below cfg q) = some l → d <:+ l
  places : q ≠ [] → ∀ r n, place cfg.cwd t (below cfg q) = some (r, n) → d <:+ r

theorem Ready.mono {q : List Text} (h : Ready cfg d q t) (ht : t'.Extends t) {r : Loc Text}
    {n : Text} (hq : q ≠ []) (hp : place cfg.cwd t' (below cfg q) = some (r, n)) : d <:+ r :=
  h.places hq r n (place_extends hp ht)

theorem Made.ready (hn : Names cfg t d) (hc : t.Confined maxSymlinks d) {x : Text} {q : List Text}
    (hq : ∀ y ∈ x :: q, IsName y) (hm : Made cfg d t q t') : Ready cfg d (x :: q) t' := by
  have hq' : ∀ y ∈ q, IsName y := fun y hy => hq y (List.mem_cons_of_mem x hy)
  refine ⟨?_, fun _ r n hp => (hm.place_inside hn hc hq' hp).2⟩
  intro l hl
  rcases hm with rfl | ⟨r, hr, hdir, hd, hempty⟩
  · exact below_inside hn hc hq hl
  · have hcomps : (below cfg (x :: q)).comps = (below cfg q).comps ++ [.name x] := by
      rw [comps_below hq, comps_below hq']; simp
    have hw := FileTree.walks_of_walk hl
    rw [hcomps] at hw
    rw [hw.unique ((FileTree.walks_of_walk hr).snoc hdir (by simp [hempty]))]
    exact hd.trans (List.suffix_cons _ _)

theorem parent_ready (hn : Names cfg t d) (hc : t.Confined maxSymlinks d) (perm : Nat)
    (hs : s.tree = t) {q : List Text} (hq : ∀ x ∈ q, IsName x) :
    (mkdirAll (below cfg q).rooted perm (below cfg q).dir.parts).Safe (sem cfg.cwd) Eq
      (Under cfg.cwd d) (fun r s => r = .ok () → Ready cfg d q s.tree) s := by
  cases q with
  | nil =>
    refine (mkdirAll_dest hn perm hs (List.tail_suffix _)).mono ?_
    intro r s h hr
    refine ⟨?_, fun hq => absurd rfl hq⟩
    intro l hl
    rw [h hr] at hl
    exact below_inside hn hc hq hl
  | cons x q =>
    refine (mkdirAll_below hn hc perm hs fun y hy => hq y (List.mem_cons_of_mem x hy)).mono ?_
    intro r s h hr
    exact (h hr).ready hn hc hq

theorem inDir_safe {made : Code (Except OsErr Unit)} {rest : Code (Nat × Option UnpackErr)}
    {P : FileTree Text → Prop} {cwd : Loc Text}
    (hm : made.Safe (sem cwd) Eq (Under cwd d) (fun r s => r = .ok () → P s.tree) s)
    (hr : ∀ s : Local, P s.tree → rest.Safe (sem cwd) Eq (Under cwd d) (fun _ _ => True) s) :
    (inDir made rest).Safe (sem cwd) Eq (Under cwd d) (fun _ _ => True) s := by
  refine .andThen (hm.mono ?_)
  intro r s h
  cases r with
  | error e => exact .ret trivial
  | ok _ => exact hr s (h rfl)

theorem writeFile_safe {q : List Text} {perm size : Nat} (hr : Ready cfg d q s.tree) :
    (writeFile (below cfg q) perm size).Safe (sem cfg.cwd) Eq (Under cfg.cwd d)
      (fun _ _ => True) s := by
  unfold writeFile
  simp only [openFile, Prog.call_bind, Prog.ret_bind]
  rw [Prog.safe_alone_call]
  refine ⟨?_, fun e => ?_⟩
  · intro e x hx
    obtain ⟨err, h⟩ | ⟨l, s', y, hl, -, rfl, hlog, h⟩ :=
      openFile_cases cfg.cwd s (below cfg q) perm e
    · rw [h] at hx; exact .inl hx
    · rw [h] at hx
      dsimp only at hx
      rw [hlog] at hx
      exact under_of_snoc (hr.opens _ hl) hx
  · obtain ⟨err, h⟩ | ⟨l, s', y, hl, -, rfl, hlog, h⟩ :=
      openFile_cases cfg.cwd s (below cfg q) perm e
    · rw [h]; exact .ret trivial
    · rw [h]
      simp only [copy, close, Prog.call_bind, Prog.ret_bind]
      rw [Prog.safe_alone_call]
      refine ⟨fun e x hx => under_of_snoc (y := .wrote y.loc) (hr.opens _ hl) hx, fun e => ?_⟩
      rw [Prog.safe_alone_call]
      refine ⟨under_of_same ?_, fun e => ?_⟩
      · intro e
        simp only [sem]
        split <;> rfl
      · split <;> exact .ret trivial

theorem writeLink_safe {q : List Text} {linkname : Text} (hr : Ready cfg d q s.tree)
    (hq : q ≠ []) :
    (writeLink (below cfg q) linkname).Safe (sem cfg.cwd) Eq (Under cfg.cwd d)
      (fun _ _ => True) s := by
  have hin : ∀ {s' : Local} {r : Loc Text} {n : Text}, s'.tree.Extends s.tree →
      place cfg.cwd s'.tree (below cfg q) = some (r, n) → d <:+ n :: r :=
    fun ht hp => (hr.mono ht hq hp).trans (List.suffix_cons _ _)
  have hlink : ∀ {s' : Local}, s'.tree.Extends s.tree →
      Under cfg.cwd d (.symlink linkname (below cfg q)) s' := by
    intro s' ht e x hx
    obtain ⟨err, h⟩ | ⟨r, n, t, hp, -, h⟩ :=
      symlink_cases cfg.cwd s' (below cfg q) linkname e
    · rw [h] at hx; exact .inl hx
    · rw [h] at hx; exact under_of_snoc (y := .created (n :: r)) (hin ht hp) hx
  unfold writeLink
  simp only [remove, symlink, Prog.call_bind, Prog.ret_bind]
  rw [Prog.safe_alone_call]
  refine ⟨?_, fun e => ?_⟩
  · intro e x hx
    obtain ⟨err, h⟩ | ⟨r, n, t, hp, -, h⟩ :=
      remove_cases cfg.cwd s (below cfg q) e
    · rw [h] at hx; exact .inl hx
    · rw [h] at hx
      exact under_of_snoc (y := .removed (n :: r)) (hin (fun _ _ h => h) hp) hx
  · -- what is removed is not missed on the way to the link's directory
    have ht : (sem cfg.cwd (.remove (below cfg q)) e s).1.tree.Extends s.tree := by
      obtain ⟨err, h⟩ | ⟨r, n, t, hp, ht, h⟩ :=
        remove_cases cfg.cwd s (below cfg q) e
      · rw [h]; exact fun _ _ h => h
      · rw [h]; exact FileTree.remove_extends ht
    rw [Prog.safe_alone_call]
    refine ⟨hlink ht, fun e' => ?_⟩
    split <;> exact .ret trivial

/-- The entry can be trusted: the destination is the directory `d`, no link under it leads out of
it, and the entry is not a link in the place of the destination itself. -/
structure Trusted (cfg : Config) (d : Loc Text) (t : FileTree Text) (hdr : Header) : Prop where
  dest : Names cfg t d
  confined : t.Confined maxSymlinks d
  link : hdr.typeflag = .symlink → entryNames cfg hdr ≠ []

/-- The step lemma: all that is done with such an entry is done under `d`. -/
theorem unpackEntry_safe (h : Trusted cfg d s.tree hdr) :
    (unpackEntry cfg hdr).Safe (sem cfg.cwd) Eq (Under cfg.cwd d) (fun _ _ => True) s := by
  obtain ⟨hn, hc, hlink⟩ := h
  have hq : ∀ x ∈ entryNames cfg hdr, IsName x := fun _ hx => entryNames_name hx
  unfold unpackEntry
  dsimp only
  cases hp : entryPath cfg hdr with
  | error e => exact .ret trivial
  | ok full =>
    rw [entryPath_below hn.nonempty hp]
    dsimp only
    cases hf : hdr.typeflag with
    | dir =>
      exact inDir_safe (mkdirAll_below hn hc _ rfl hq) fun s _ => .ret trivial
    | reg => exact inDir_safe (parent_ready hn hc _ rfl hq) fun s hr => writeFile_safe hr
    | symlink =>
      exact inDir_safe (parent_ready hn hc _ rfl hq) fun s hr => writeLink_safe hr (hlink hf)
    | xGlobalHeader | other c => exact .ret trivial

end Entry

/-! ## The archive -/

/-- Everything that was created, truncated or written lies under `d`. -/
def Contained (d : Loc Text) (log : List Effect) : Prop :=
  ∀ x ∈ log, (∀ l, x ≠ .removed l) → d <:+ x.loc

section Archive

variable {cfg : Config} {d : Loc Text}

theorem next_under {u : Unpacking} {x : Header × List Env}
    (h : u.progress = .reading → Trusted cfg d u.fs.tree x.1)
    (hu : ∀ y ∈ u.fs.log, d <:+ y.loc) : ∀ y ∈ (u.next cfg x).fs.log, d <:+ y.loc := by
  unfold Unpacking.next
  split
  · rename_i hr
    have hout := (unpackEntry_safe (h hr)).exec (J := fun s : Local => ∀ y ∈ s.log, d <:+ y.loc)
      (by
        intro o e s ho hs y hy
        rcases ho e y hy with hy | hy
        · exact hs y hy
        · exact hy) hu x.2
    dsimp only
    split <;> exact hout
  · exact hu

theorem stop_log (u : Unpacking) (readErr : Option String) : (u.stop readErr).fs = u.fs := by
  unfold Unpacking.stop
  split <;> rfl

/-- Whatever the archive holds and whatever fails: as long as, before each entry, the destination is
a directory with no link under it that leads out of it, and no link entry stands for the
destination itself, all that `tarUnpack` creates, truncates or writes lies in the destination. -/
theorem unpack_contained (cfg : Config) (t : FileTree Text) (d : Loc Text)
    (stream : List (Header × List Env)) (readErr : Option String)
    (htrust : Along (Unpacking.next cfg)
      (fun u x => u.progress = .reading → Trusted cfg d u.fs.tree x.1) (unpackStart t) stream) :
    Contained d (tarUnpack cfg t stream readErr).fs.log := by
  intro x hx _
  rw [tarUnpack, stop_log] at hx
  exact Along.invariant (I := fun u : Unpacking => ∀ y ∈ u.fs.log, d <:+ y.loc)
    (fun u x hu h => next_under h hu) htrust (fun y hy => by cases hy) x hx

end Archive

def etc : Text := [101, 116, 99]
def dst : Text := [100, 115, 116]
def fileA : Text := [97]
def fileB : Text := [98]

def machine : FileTree Text := (FileTree.bare.grow etc [] .dir).grow dst [] .dir

def intoDst : Config := ⟨slash :: dst, [], [], [], some [slash]⟩

def answered : List Env := List.replicate 8 {}

/-- A directory `b`, a link `a` to it, and a file `a/a`. -/
def honest : List (Header × List Env) :=
  [(⟨fileB, .dir, [], 0o755, 0⟩, answered), (⟨fileA, .symlink, fileB, 0o777, 0⟩, answered),
   (⟨fileA ++ slash :: fileA, .reg, [], 0o644, 5⟩, answered)]

theorem unpack_contained_honest :
    (tarUnpack intoDst machine honest none).progress = .finished ∧
      Contained [dst] (tarUnpack intoDst machine honest none).fs.log :=
  ⟨by decide, unpack_contained intoDst machine [dst] honest none
    ⟨fun _ => ⟨⟨by decide, by decide, by decide, by decide⟩, by decide, by decide⟩,
      fun _ => ⟨⟨by decide, by decide, by decide, by decide⟩, by decide, by decide⟩,
      fun _ => ⟨⟨by decide, by decide, by decide, by decide⟩, by decide, by decide⟩, trivial⟩⟩

/-- A link `a` to `/etc` and a file `a/b`. -/
def hostile : List (Header × List Env) :=
  [(⟨fileA, .symlink, slash :: etc, 0o777, 0⟩, answered),
   (⟨fileA ++ slash :: fileB, .reg, [], 0o644, 5⟩, answered)]

/-- The file is written to `/etc`. -/
theorem cp_escapes :
    ¬ ∀ (cfg : Config) (t : FileTree Text) (d : Loc Text), Names cfg t d →
      t.Confined maxSymlinks d →
      ∀ (stream : List (Header × List Env)) (readErr : Option String),
        Contained d (tarUnpack cfg t stream readErr).fs.log := by
  intro hall
  have h := hall intoDst machine [dst] ⟨by decide, by decide, by decide, by decide⟩ (by decide)
    hostile none (.wrote [fileB, etc]) (by decide) (fun l hl => by cases hl)
  exact absurd h (by decide)

end Capsule.Cp
