import Capsule.Cp.Contained
import Capsule.Posix.Snapshot

/-!
# Capsule.Cp.Disk

The local machine with what is in its files: content, link text, mode bits and owner (`Attr`), over
the file tree of `Cp.Unpack`. `diskSem` is the semantics there, with what each effect leaves in a
file.

* `Leads`, `EmptyDir`, `Adds`: what is known of the tree on the way to a new node.
* `run_mkdirAll`, `run_writeFile`, `run_writeLink`: what the code of `tarUnpack` leaves there.
* `Holds.snoc`: the tree that is written so far, and one node more.
-/

namespace Capsule.Cp

open Atomic GoPath Posix

/-- Permission bits, with `0o4000` setuid, `0o2000` setgid and `0o1000` sticky; the owner. -/
structure Attr where
  mode : Nat
  uid : Nat
  gid : Nat
  deriving DecidableEq

def Attr.isSetgid (a : Attr) : Bool := a.mode / 0o2000 % 2 = 1

/-- What is created in a directory with these attributes. -/
def Attr.child (parent : Attr) (mode : Nat) : Attr :=
  ⟨mode, 0, if parent.isSetgid then parent.gid else 0⟩

structure Disk where
  fs : Local
  attr : Loc Text → Attr
  /-- The content of a file, the text of a link. -/
  data : Loc Text → Text
  /-- What `io.Copy` reads from. -/
  reading : Text

/-- The mode that what the operation creates gets. Of a `FileMode`, `syscallMode` passes on the
permission bits; its flags for setuid, setgid and sticky are none of its lowest twelve bits. -/
def Op.mode (parent : Attr) : Op → Nat
  | .mkdir _ perm => perm % 0o1000 + if parent.isSetgid then 0o2000 else 0
  | .openFile _ perm => perm % 0o1000
  | _ => 0o777

def Op.text : Op → Text
  | .symlink oldname _ => oldname
  | _ => []

/-- The bytes the operation copies. -/
def Op.copied (e : Env) : Op → Nat
  | .copy _ size => min e.copied size
  | _ => 0

def Disk.note (o : Op) (e : Env) (s : Disk) : Effect → Disk
  | .created l =>
    { s with
      attr := Function.update s.attr l ((s.attr l.tail).child (o.mode (s.attr l.tail)))
      data := Function.update s.data l o.text }
  | .truncated l => { s with data := Function.update s.data l [] }
  | .wrote l =>
    { s with
      data := Function.update s.data l (s.data l ++ s.reading.take (o.copied e))
      reading := s.reading.drop (o.copied e) }
  | .removed _ => s

def diskSem (cwd : Loc Text) : Sem Op Res Disk Env := fun o e s =>
  let out := sem cwd o e s.fs
  ({ (out.1.log.drop s.fs.log.length).foldl (Disk.note o e) s with fs := out.1 }, out.2)

section Sem

variable {cwd : Loc Text} {s : Disk} {o : Op} {e : Env}

theorem diskSem_same {r : Res o} (h : sem cwd o e s.fs = (s.fs, r)) :
    diskSem cwd o e s = (s, r) := by
  simp only [diskSem, h, List.drop_length, List.foldl_nil]

theorem diskSem_snoc {r : Res o} {t : FileTree Text} {x : Effect}
    (h : sem cwd o e s.fs = (⟨t, s.fs.log ++ [x]⟩, r)) :
    diskSem cwd o e s = ({ s.note o e x with fs := ⟨t, s.fs.log ++ [x]⟩ }, r) := by
  simp only [diskSem, h, List.drop_left, List.foldl_cons, List.foldl_nil]

end Sem

/-- The path leads to the directory `l`. -/
structure Leads (cwd : Loc Text) (t : FileTree Text) (p : Path) (l : Loc Text) : Prop where
  found : resolve cwd t p = some l
  dir : t.node l = some .dir

/-- The directory of this path, as `Join` cleans it, is empty. -/
structure EmptyDir (cwd : Loc Text) (t : FileTree Text) (dst : Text) (d : Loc Text) : Prop where
  nonempty : dst ≠ []
  leads : Leads cwd t (clean dst) d
  empty : ∀ n, t.node (n :: d) = none

theorem EmptyDir.absent {cwd d : Loc Text} {t : FileTree Text} {dst : Text}
    (h : EmptyDir cwd t dst d) {q : Loc Text} (hq : q ≠ []) : t.node (q ++ d) = none := by
  induction q with
  | nil => exact absurd rfl hq
  | cons n q ih =>
    by_cases hnil : q = []
    · rw [hnil]; exact h.empty n
    · have hbelow : t.node (q ++ d) ≠ some .dir := by
        rw [ih hnil]; simp
      exact FileTree.node_child_none hbelow n

def child (p : Path) (x : Text) : Path := ⟨p.rooted, x :: p.parts⟩

section Leads

variable {cwd l : Loc Text} {t t' : FileTree Text} {p : Path} {x : Text}

theorem Leads.extends (h : Leads cwd t p l) (ht : t.Extends t') : Leads cwd t' p l :=
  ⟨((FileTree.walks_of_walk h.found).extends (by simp [h.dir]) ht).walk, ht l .dir h.dir⟩

theorem Leads.resolve_child (h : Leads cwd t p l) (hx : IsName x)
    (hlink : ∀ rooted target, t.node (x :: l) ≠ some (.link rooted target)) :
    resolve cwd t (child p x) = some (x :: l) := by
  have hcomps : (child p x).comps = p.comps ++ [.name x] := by
    simp [child, Path.comps, comp_name hx]
  have hw := (FileTree.walks_of_walk h.found).snoc h.dir hlink
  rw [resolve, hcomps]
  exact hw.walk

theorem Leads.child (h : Leads cwd t p l) (hx : IsName x) (hdir : t.node (x :: l) = some .dir) :
    Leads cwd t (child p x) (x :: l) :=
  ⟨h.resolve_child hx (by simp [hdir]), hdir⟩

theorem Leads.place_child (h : Leads cwd t p l) (hx : IsName x) :
    place cwd t (Cp.child p x) = some (l, x) := place_name rfl hx h.found h.dir

end Leads

/-- `s'` has, at `l`, one node more than `s`. -/
structure Adds (s s' : Disk) (l : Loc Text) (x : Node Text) (a : Attr) (c : Text) : Prop where
  node : ∀ k, s'.fs.tree.node k = if k = l then some x else s.fs.tree.node k
  attr : s'.attr = Function.update s.attr l a
  data : s'.data = Function.update s.data l c

theorem Adds.extends {s s' : Disk} {l : Loc Text} {x : Node Text} {a : Attr} {c : Text}
    (h : Adds s s' l x a c) (hnew : s.fs.tree.node l = none) : s.fs.tree.Extends s'.fs.tree := by
  intro k y hk
  rw [h.node, if_neg]
  · exact hk
  · rintro rfl; rw [hnew] at hk; cases hk

theorem Adds.of_reading {s s' : Disk} {r : Text} {l : Loc Text} {x : Node Text} {a : Attr}
    {c : Text} (h : Adds { s with reading := r } s' l x a c) : Adds s s' l x a c :=
  ⟨h.node, h.attr, h.data⟩

section Runs

variable {cwd l : Loc Text} {s : Disk} {p : Path} {x : Text} {e : Env}
  (hl : Leads cwd s.fs.tree p l) (hx : IsName x) (hnew : s.fs.tree.node (x :: l) = none)
  (he : e.fault = none)

include hl in
theorem add_new (hnew : s.fs.tree.node (x :: l) = none) (n : Node Text) :
    ∃ t, s.fs.tree.add x l n = some t ∧
      ∀ k, t.node k = if k = x :: l then some n else s.fs.tree.node k := by
  have hadd : ∃ t, s.fs.tree.add x l n = some t := by
    rw [FileTree.add, dif_pos ⟨hl.dir, hnew⟩]; exact ⟨_, rfl⟩
  obtain ⟨t, ht⟩ := hadd
  exact ⟨t, ht, FileTree.node_add ht⟩

include he in
theorem stat_dir (hl : Leads cwd s.fs.tree p l) : diskSem cwd (.stat p) e s = (s, .ok true) := by
  apply diskSem_same
  simp only [sem, he, hl.found, Option.bind_some, hl.dir, isDir]

include hl hx hnew he

theorem stat_new : diskSem cwd (.stat (child p x)) e s = (s, .error .unresolved) := by
  apply diskSem_same
  have hr := hl.resolve_child hx (by simp [hnew])
  simp only [sem, he, hr, Option.bind_some, hnew, isDir]

theorem mkdir_new (perm : Nat) :
    ∃ s', diskSem cwd (.mkdir (child p x) perm) e s = (s', .ok ()) ∧
      Adds s s' (x :: l) .dir
        ((s.attr l).child (perm % 0o1000 + if (s.attr l).isSetgid then 0o2000 else 0)) [] := by
  obtain ⟨t, ht, hnode⟩ := add_new hl hnew .dir
  refine ⟨_, diskSem_snoc (t := t) (x := .created (x :: l)) ?_, hnode, rfl, rfl⟩
  simp only [sem, he, Local.addAt, hl.place_child hx, Local.add, ht]

theorem openFile_new (perm : Nat) :
    ∃ s', diskSem cwd (.openFile (child p x) perm) e s = (s', .ok (x :: l)) ∧
      s'.reading = s.reading ∧
      Adds s s' (x :: l) .file ((s.attr l).child (perm % 0o1000)) [] := by
  obtain ⟨t, ht, hnode⟩ := add_new hl hnew .file
  have hr := hl.resolve_child hx (by simp [hnew])
  refine ⟨_, diskSem_snoc (t := t) (x := .created (x :: l)) ?_, rfl, hnode, rfl, rfl⟩
  simp only [sem, he, Local.openAt, hr, hnew, Local.add, ht]

theorem remove_new : ∃ err, diskSem cwd (.remove (child p x)) e s = (s, .error err) := by
  refine ⟨.notEmpty, diskSem_same ?_⟩
  have hremove : s.fs.tree.remove x l = none := dif_neg fun h => h.1 hnew
  simp only [sem, he, Local.removeAt, hl.place_child hx, hremove]

theorem symlink_new {oldname : Text} (hold : oldname ≠ []) :
    ∃ s', diskSem cwd (.symlink oldname (child p x)) e s = (s', .ok ()) ∧
      Adds s s' (x :: l) (.link (isAbs oldname) (comps oldname)) ((s.attr l).child 0o777)
        oldname := by
  obtain ⟨t, ht, hnode⟩ := add_new hl hnew (.link (isAbs oldname) (comps oldname))
  refine ⟨_, diskSem_snoc (t := t) (x := .created (x :: l)) ?_, hnode, rfl, rfl⟩
  simp only [sem, he, if_neg hold, Local.addAt, hl.place_child hx, Local.add, ht]

end Runs

theorem copy_all (cwd : Loc Text) (s : Disk) {e : Env} (he : e.fault = none) {size : Nat}
    (hsize : size ≤ e.copied) (f : Loc Text) :
    ∃ s', diskSem cwd (.copy f size) e s = (s', size, none) ∧ s'.fs.tree = s.fs.tree ∧
      s'.attr = s.attr ∧ s'.data = Function.update s.data f (s.data f ++ s.reading.take size) := by
  have hcopy : sem cwd (.copy f size) e s.fs =
      (⟨s.fs.tree, s.fs.log ++ [.wrote f]⟩, (size, none)) := by
    simp only [sem, he, Nat.min_eq_right hsize, Option.map_none]
  refine ⟨_, diskSem_snoc hcopy, rfl, rfl, ?_⟩
  simp only [Disk.note, Op.copied, Nat.min_eq_right hsize]

theorem close_ok {cwd : Loc Text} {s : Disk} {e : Env} (he : e.fault = none) :
    diskSem cwd .close e s = (s, .ok ()) := by
  apply diskSem_same
  simp only [sem, he]

section Calls

variable {cwd l : Loc Text} {s : Disk} {p : Path} {x : Text} {e : Env}

theorem run_mkdirAll (hl : Leads cwd s.fs.tree p l) (he : e.fault = none) (perm : Nat) :
    (mkdirAll p.rooted perm p.parts).complete (diskSem cwd) (fun _ => e) s = (s, .ok ()) := by
  have hmake : ∀ parent,
      (makeDir p perm parent).complete (diskSem cwd) (fun _ => e) s = (s, .ok ()) := by
    intro parent
    simp only [makeDir, stat, Prog.call_bind, Prog.ret_bind, Prog.complete, stat_dir he hl,
      Prog.pure_eq_ret]
  obtain ⟨rooted, parts⟩ := p
  cases parts <;> exact hmake _

variable (hl : Leads cwd s.fs.tree p l) (hx : IsName x) (hnew : s.fs.tree.node (x :: l) = none)
  (he : e.fault = none)

include hl hx hnew he

theorem run_mkdirAll_new (perm : Nat) :
    ∃ s', (mkdirAll p.rooted perm (x :: p.parts)).complete (diskSem cwd) (fun _ => e) s =
        (s', .ok ()) ∧
      Adds s s' (x :: l) .dir
        ((s.attr l).child (perm % 0o1000 + if (s.attr l).isSetgid then 0o2000 else 0)) [] := by
  obtain ⟨s', hs', hadds⟩ := mkdir_new hl hx hnew he perm
  refine ⟨s', ?_, hadds⟩
  generalize hparent : (if p.parts = [] ∧ p.rooted = false then .ret (.ok ())
    else mkdirAll p.rooted perm p.parts : Code (Except OsErr Unit)) = parent
  have hrun : parent.complete (diskSem cwd) (fun _ => e) s = (s, .ok ()) := by
    rw [← hparent]
    split
    · rfl
    · exact run_mkdirAll hl he perm
  have hstat := stat_new hl hx hnew he
  rw [mkdirAll, hparent, makeDir]
  simp only [stat, Prog.call_bind, Prog.ret_bind, Prog.complete]
  rw [show (⟨p.rooted, x :: p.parts⟩ : Path) = child p x from rfl, hstat]
  simp only [Prog.thenOk, Prog.complete_bind, hrun]
  simp only [mkdir, Prog.complete, hs', Prog.pure_eq_ret]

theorem open_copy_new (perm : Nat) {size : Nat} (hsize : size ≤ e.copied) :
    ∃ s₁ s₂, diskSem cwd (.openFile (child p x) perm) e s = (s₁, .ok (x :: l)) ∧
      diskSem cwd (.copy (x :: l) size) e s₁ = (s₂, size, none) ∧
      Adds s s₂ (x :: l) .file ((s.attr l).child (perm % 0o1000)) (s.reading.take size) := by
  obtain ⟨s₁, hopen, hreading, hadds⟩ := openFile_new hl hx hnew he perm
  obtain ⟨s₂, hcopy, htree, hattr, hdata⟩ := copy_all cwd s₁ he hsize (x :: l)
  refine ⟨s₁, s₂, hopen, hcopy, ?_, ?_, ?_⟩
  · rw [htree]; exact hadds.node
  · rw [hattr, hadds.attr]
  · rw [hdata, hadds.data, hreading, Function.update_idem, Function.update_self, List.nil_append]

theorem run_writeFile (perm : Nat) {size : Nat} (hsize : size ≤ e.copied) :
    ∃ s', (writeFile (child p x) perm size).complete (diskSem cwd) (fun _ => e) s =
        (s', size, none) ∧
      Adds s s' (x :: l) .file ((s.attr l).child (perm % 0o1000)) (s.reading.take size) := by
  obtain ⟨s₁, s₂, hopen, hcopy, hadds⟩ := open_copy_new hl hx hnew he perm hsize
  refine ⟨s₂, ?_, hadds⟩
  simp only [writeFile, openFile, copy, close, Prog.call_bind, Prog.ret_bind, Prog.complete,
    hopen, hcopy, close_ok he, Prog.pure_eq_ret]

theorem run_writeLink {linkname : Text} (hlink : linkname ≠ []) :
    ∃ s', (writeLink (child p x) linkname).complete (diskSem cwd) (fun _ => e) s = (s', 0, none) ∧
      Adds s s' (x :: l) (.link (isAbs linkname) (comps linkname)) ((s.attr l).child 0o777)
        linkname := by
  obtain ⟨err, hremove⟩ := remove_new hl hx hnew he
  obtain ⟨s', hs', hadds⟩ := symlink_new hl hx hnew he hlink
  refine ⟨s', ?_, hadds⟩
  simp only [writeLink, remove, symlink, Prog.call_bind, Prog.ret_bind, Prog.complete, hremove, hs',
    Prog.pure_eq_ret]

end Calls

/-! ## Trees with content -/

/-- A regular file, or a link with its owner; the mode of a link says nothing. -/
inductive Leaf where
  | file (a : Attr) (content : Text)
  | link (uid gid : Nat) (target : Text) (nonempty : target ≠ [])

/-- Directories, regular files and links, as `filepath.Walk` finds them. -/
abbrev Source := Posix.Tree Text Attr Leaf

def Leaf.text : Leaf → Text
  | .file _ content => content
  | .link _ _ target _ => target

def nodeOf : Item Attr Leaf → Node Text
  | .dir _ => .dir
  | .leaf (.file _ _) => .file
  | .leaf (.link _ _ target _) => .link (isAbs target) (comps target)

/-- The nodes `es` are there below `base`, with their content, and nothing else has changed. -/
structure Holds (base : Loc Text) (s₀ s : Disk) (es : List (Loc Text × Item Attr Leaf)) : Prop where
  node : ∀ q x, (q, x) ∈ es → s.fs.tree.node (q ++ base) = some (nodeOf x)
  text : ∀ q b, (q, .leaf b) ∈ es → s.data (q ++ base) = b.text
  frame : ∀ k, (∀ q x, (q, x) ∈ es → k ≠ q ++ base) →
    s.fs.tree.node k = s₀.fs.tree.node k ∧ s.attr k = s₀.attr k ∧ s.data k = s₀.data k

section Holds

variable {base : Loc Text} {s₀ s s' : Disk} {es : List (Loc Text × Item Attr Leaf)}

theorem Holds.absent (h : Holds base s₀ s es) {q : Loc Text} (hnew : ∀ y, (q, y) ∉ es)
    (habsent : s₀.fs.tree.node (q ++ base) = none) : s.fs.tree.node (q ++ base) = none := by
  rw [(h.frame _ ?_).1]
  · exact habsent
  · intro p y hp he; obtain rfl : q = p := List.append_cancel_right he; exact hnew y hp

theorem Holds.snoc (h : Holds base s₀ s es) {q : Loc Text} {x : Item Attr Leaf} {a : Attr}
    {c : Text} (hnew : ∀ y, (q, y) ∉ es) (hadds : Adds s s' (q ++ base) (nodeOf x) a c)
    (htext : ∀ b, x = .leaf b → c = b.text) : Holds base s₀ s' (es ++ [(q, x)]) := by
  have hne : ∀ p y, (p, y) ∈ es → p ++ base ≠ q ++ base := by
    intro p y hp he; obtain rfl := List.append_cancel_right he; exact hnew y hp
  refine ⟨?_, ?_, ?_⟩
  · intro p y hp
    rw [hadds.node]
    rcases List.mem_append.mp hp with hp | hp
    · rw [if_neg (hne p y hp)]; exact h.node p y hp
    · cases List.mem_singleton.mp hp; exact if_pos rfl
  · intro p b hp
    rw [hadds.data]
    rcases List.mem_append.mp hp with hp | hp
    · rw [Function.update_of_ne (hne p _ hp)]; exact h.text p b hp
    · cases List.mem_singleton.mp hp; rw [Function.update_self]; exact htext b rfl
  · intro k hk
    have hq : k ≠ q ++ base := hk q x (List.mem_append_right _ (List.mem_singleton_self _))
    rw [hadds.node, if_neg hq, hadds.attr, hadds.data, Function.update_of_ne hq,
      Function.update_of_ne hq]
    exact h.frame k fun p y hp => hk p y (List.mem_append_left _ hp)

end Holds

/-- `machine`, with nothing said about contents. -/
def emptyDst : Disk := ⟨⟨machine, []⟩, fun _ => ⟨0o755, 0, 0⟩, fun _ => [], []⟩

theorem emptyDir_emptyDst : EmptyDir [] emptyDst.fs.tree (slash :: dst) [dst] :=
  ⟨by decide, ⟨by decide, by decide⟩, FileTree.Empty.child (by decide)⟩

end Capsule.Cp
