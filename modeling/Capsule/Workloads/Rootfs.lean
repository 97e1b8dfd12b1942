import Capsule.Cp.Disk
import Capsule.GoPath.Abs
import Capsule.GoInt64

/-!
# Capsule.Workloads.Rootfs

The payload disk of a microVM: `copyTree`, which copies the rootfs of the image, and the size that
`makeExt4FromDir` gives the disk, of `runtime/microvm/firecracker/image.go`.

* `Copied`, `run_copyEntry`: the invariant of the walk. The nodes so far are copied, with the
  attributes that a node created by root gets (`attrOf`).
* `copyTree_keeps_iff`: the copy has the same paths and contents always, and the same modes and
  owners exactly if every node has such attributes already.
* `makeExt4FromDir_size_iff`: the files fit in blocks of 4096 bytes exactly if the unused ends of
  their last blocks fit into the headroom and the rounding.
-/

namespace Capsule.Workloads.Rootfs

open Atomic GoPath Posix Cp

/-- A regular file, once its directory is there. -/
def copyFile (target : Path) (perm size : Nat) : Code (Except OsErr Unit) := do
  match ← openFile target perm with
  | .error e => return .error e
  | .ok out =>
    let (_, err) ← copy out size
    let cerr ← close
    match err with
    | some e => return .error e
    | none => return cerr

/-- What `copyTree` does with a node that the walk comes by. -/
def copyEntry (dst : Text) (q : Loc Text) (x : Item Attr Leaf) : Code (Except OsErr Unit) :=
  let target := join dst (rel q)
  match x with
  | .leaf (.link _ _ linkTarget _) => do
    let _ ← remove target
    symlink linkTarget target
  | .dir a => mkdirAll target.rooted (a.mode % 0o1000) target.parts
  | .leaf (.file a content) =>
    (mkdirAll target.rooted 0o755 target.dir.parts).thenOk fun _ =>
      copyFile target (a.mode % 0o1000) content.length

/-- What `io.Copy` finds in the node. -/
def fileText : Item Attr Leaf → Text
  | .leaf (.file _ content) => content
  | _ => []

def copyAll (cwd : Loc Text) (dst : Text) :
    List (Loc Text × Item Attr Leaf) → Disk → Disk × Except OsErr Unit
  | [], s => (s, .ok ())
  | (q, x) :: rest, s =>
    match (copyEntry dst q x).complete (diskSem cwd) (fun _ => { copied := (fileText x).length })
        { s with reading := fileText x } with
    | (s', .ok ()) => copyAll cwd dst rest s'
    | (s', .error e) => (s', .error e)

def copyTree (cwd : Loc Text) (src : Source) (dst : Text) (s : Disk) : Disk × Except OsErr Unit :=
  copyAll cwd dst (src.walk []) s

def attrOf : Item Attr Leaf → Attr
  | .dir a => a
  | .leaf (.file a _) => a
  | .leaf (.link uid gid _ _) => ⟨0o777, uid, gid⟩

/-- The attributes of the copy of a node, in a directory with these. -/
def copied (dst : Attr) : Item Attr Leaf → Attr
  | .dir a => dst.child (a.mode % 0o1000 + if dst.isSetgid then 0o2000 else 0)
  | .leaf (.file a _) => dst.child (a.mode % 0o1000)
  | .leaf (.link _ _ _ _) => dst.child 0o777

theorem child_copied_dir (dst a : Attr) (mode : Nat) :
    (copied dst (.dir a)).child mode = dst.child mode ∧
      (copied dst (.dir a)).isSetgid = dst.isSetgid := by
  have hbit : ∀ b : Bool,
      decide ((a.mode % 0o1000 + if b then 0o2000 else 0) / 0o2000 % 2 = 1) = b := by
    intro b
    cases b with
    | true => rw [if_pos rfl]; exact decide_eq_true (by omega)
    | false => rw [if_neg Bool.false_ne_true]; exact decide_eq_false (by omega)
  have hset : (copied dst (.dir a)).isSetgid = dst.isSetgid := hbit dst.isSetgid
  refine ⟨?_, hset⟩
  rw [Attr.child, Attr.child, hset]
  cases h : dst.isSetgid with
  | true => simp [copied, Attr.child, h]
  | false => simp

section Run

variable {cwd d : Loc Text} {dst : Text} {s₀ s s' : Disk} {es : List (Loc Text × Item Attr Leaf)}

theorem run_copyFile {p : Path} {l : Loc Text} {n : Text} {e : Env} (hl : Leads cwd s.fs.tree p l)
    (hn : IsName n) (hnew : s.fs.tree.node (n :: l) = none) (he : e.fault = none) (perm : Nat)
    {size : Nat} (hsize : size ≤ e.copied) :
    ∃ s', (copyFile (child p n) perm size).complete (diskSem cwd) (fun _ => e) s = (s', .ok ()) ∧
      Adds s s' (n :: l) .file ((s.attr l).child (perm % 0o1000)) (s.reading.take size) := by
  obtain ⟨s₁, s₂, hopen, hcopy, hadds⟩ := open_copy_new hl hn hnew he perm hsize
  refine ⟨s₂, ?_, hadds⟩
  simp only [copyFile, openFile, copy, close, Prog.call_bind, Prog.ret_bind, Prog.complete, hopen,
    hcopy, close_ok he, Prog.pure_eq_ret]

theorem run_copyEntry {p : Path} {l q : Loc Text} {n : Text} {x : Item Attr Leaf}
    (hl : Leads cwd s.fs.tree p l) (hn : IsName n) (hnew : s.fs.tree.node (n :: l) = none)
    (htarget : join dst (rel q) = child p n) :
    ∃ s' c, (copyEntry dst q x).complete (diskSem cwd) (fun _ => { copied := (fileText x).length })
        { s with reading := fileText x } = (s', .ok ()) ∧
      Adds s s' (n :: l) (nodeOf x) (copied (s.attr l) x) c ∧ ∀ b, x = .leaf b → c = b.text := by
  simp only [copyEntry, htarget]
  cases x with
  | dir a =>
    obtain ⟨s', hrun, hadds⟩ := run_mkdirAll_new (s := { s with reading := [] })
      (e := { copied := 0 }) hl hn hnew rfl (a.mode % 0o1000)
    rw [Nat.mod_mod] at hadds
    exact ⟨s', _, hrun, hadds.of_reading, fun b hb => by cases hb⟩
  | leaf b =>
    cases b with
    | file a content =>
      have hparent := run_mkdirAll (s := { s with reading := content })
        (e := { copied := content.length }) hl rfl 0o755
      obtain ⟨s', hrun, hadds⟩ := run_copyFile (s := { s with reading := content })
        (e := { copied := content.length }) hl hn hnew rfl (a.mode % 0o1000) (Nat.le_refl _)
      rw [Nat.mod_mod] at hadds
      refine ⟨s', _, (Prog.complete_thenOk hparent).trans hrun, hadds.of_reading, ?_⟩
      intro b hb
      cases hb
      exact List.take_length
    | link uid gid target htarget =>
      obtain ⟨err, hremove⟩ := remove_new (s := { s with reading := [] }) (e := { copied := 0 })
        hl hn hnew rfl
      obtain ⟨s', hrun, hadds⟩ := symlink_new (s := { s with reading := [] }) (e := { copied := 0 })
        hl hn hnew rfl htarget
      refine ⟨s', _, ?_, hadds.of_reading, ?_⟩
      · simp only [remove, symlink, Prog.call_bind, Prog.ret_bind, Prog.complete, fileText,
          List.length_nil, hremove, hrun]
      · intro b hb; cases hb; rfl

/-- The nodes `es` are copied. -/
structure Copied (cwd : Loc Text) (dst : Text) (d : Loc Text) (s₀ s : Disk)
    (es : List (Loc Text × Item Attr Leaf)) : Prop where
  holds : Holds d s₀ s es
  leads : ∀ q a, (q, .dir a) ∈ es → Leads cwd s.fs.tree ((clean dst).add q) (q ++ d)
  root : s.attr d = s₀.attr d
  attr : ∀ q x, (q, x) ∈ es → q ≠ [] → s.attr (q ++ d) = copied (s₀.attr d) x

theorem Copied.parent (h : Copied cwd dst d s₀ s es) {l : Loc Text} {a : Attr}
    (hdir : (l, .dir a) ∈ es) (x : Item Attr Leaf) :
    copied (s.attr (l ++ d)) x = copied (s₀.attr d) x := by
  by_cases hl : l = []
  · rw [hl, List.nil_append, h.root]
  · rw [h.attr l _ hdir hl]
    have hset := (child_copied_dir (s₀.attr d) a 0).2
    have hchild := fun mode => (child_copied_dir (s₀.attr d) a mode).1
    rcases x with (_ | _) | _
    · exact hchild _
    · exact hchild _
    · rw [copied, hset, hchild]; rfl

theorem copyAll_snoc {q : Loc Text} {x : Item Attr Leaf} {s'' : Disk}
    (h : copyAll cwd dst es s = (s', .ok ()))
    (hx : (copyEntry dst q x).complete (diskSem cwd) (fun _ => { copied := (fileText x).length })
      { s' with reading := fileText x } = (s'', .ok ())) :
    copyAll cwd dst (es ++ [(q, x)]) s = (s'', .ok ()) := by
  induction es generalizing s with
  | nil => cases h; rw [List.nil_append, copyAll, hx]; rfl
  | cons y ys ih =>
    rw [List.cons_append, copyAll]
    rw [copyAll] at h
    split at h
    · exact ih h
    · cases h

theorem Copied.snoc (h : Copied cwd dst d s₀ s es) {l : Loc Text} {n : Text} {a : Attr}
    {x : Item Attr Leaf} {c : Text} (hdir : (l, .dir a) ∈ es) (hn : IsName n)
    (hnew : ∀ y, (n :: l, y) ∉ es) (hfree : s.fs.tree.node (n :: (l ++ d)) = none)
    (hadds : Adds s s' (n :: (l ++ d)) (nodeOf x) (copied (s.attr (l ++ d)) x) c)
    (htext : ∀ b, x = .leaf b → c = b.text) : Copied cwd dst d s₀ s' (es ++ [(n :: l, x)]) := by
  have hext := hadds.extends hfree
  refine ⟨h.holds.snoc hnew hadds htext, ?_, ?_, ?_⟩
  · intro q b hq
    rcases List.mem_append.mp hq with hq | hq
    · exact (h.leads q b hq).extends hext
    · cases List.mem_singleton.mp hq
      refine ((h.leads l a hdir).extends hext).child hn ?_
      rw [hadds.node, if_pos rfl]
      rfl
  · rw [hadds.attr, Function.update_of_ne, h.root]
    intro he
    have hlen := congrArg List.length he
    rw [List.length_cons, List.length_append] at hlen
    omega
  · intro q y hq hne
    rw [hadds.attr]
    rcases List.mem_append.mp hq with hq | hq
    · rw [Function.update_of_ne]
      · exact h.attr q y hq hne
      · intro he; obtain rfl : q = n :: l := List.append_cancel_right he; exact hnew y hq
    · cases List.mem_singleton.mp hq
      rw [List.cons_append, Function.update_self, h.parent hdir]

theorem run_copyAll {a₀ : Attr} (hempty : EmptyDir cwd s₀.fs.tree dst d)
    (hes : Listing LegalName [] es) (hroot : ([], .dir a₀) ∈ es) :
    ∃ s, copyAll cwd dst es s₀ = (s, .ok ()) ∧ Copied cwd dst d s₀ s es := by
  induction hes with
  | root x =>
    cases List.mem_singleton.mp hroot
    -- the destination is there
    have hrun := run_mkdirAll (s := { s₀ with reading := [] }) (e := { copied := 0 }) hempty.leads
      rfl (a₀.mode % 0o1000)
    have hcopy : copyAll cwd dst [([], .dir a₀)] s₀ = ({ s₀ with reading := [] }, .ok ()) := by
      refine copyAll_snoc (rfl : copyAll cwd dst [] s₀ = (s₀, .ok ())) ?_
      rw [copyEntry, join_rel hempty.nonempty (by simp)]
      exact hrun
    refine ⟨_, hcopy, ⟨?_, ?_, fun k _ => ⟨rfl, rfl, rfl⟩⟩, ?_, rfl, ?_⟩
    · intro q x hq; cases List.mem_singleton.mp hq; exact hempty.leads.dir
    · intro q b hq; cases List.mem_singleton.mp hq
    · intro q a hq; cases List.mem_singleton.mp hq; exact hempty.leads
    · intro q x hq hne; cases List.mem_singleton.mp hq; exact absurd rfl hne
  | @snoc es n l a x hes hdir hname hfresh ih =>
    obtain ⟨s, hs, hcopied⟩ := ih (by simpa using hroot)
    have hlegal : ∀ m ∈ n :: l, LegalName m :=
      List.forall_mem_cons.mpr ⟨hname, hes.named_nil hdir⟩
    have hfree : s.fs.tree.node (n :: (l ++ d)) = none :=
      hcopied.holds.absent hfresh (hempty.absent (q := n :: l) (by simp))
    obtain ⟨s', c, hrun, hadds, htext⟩ := run_copyEntry (x := x) (hcopied.leads l a hdir) hname.1
      hfree (join_rel hempty.nonempty hlegal)
    exact ⟨s', copyAll_snoc hs hrun, hcopied.snoc hdir hname.1 hfresh hfree hadds htext⟩

end Run

/-- What a node must be like for its copy to have the same attributes: it belongs to root and, of a
directory without setgid, to the group of root, and it has no bits besides the permission bits. In a
destination with setgid every node has its group, and every directory the bit. -/
def Plain (dst : Attr) (x : Item Attr Leaf) : Prop :=
  (attrOf x).uid = 0 ∧ (attrOf x).gid = (if dst.isSetgid then dst.gid else 0) ∧
    match x with
    | .dir a => a.mode / 0o1000 = if dst.isSetgid then 2 else 0
    | .leaf (.file a _) => a.mode / 0o1000 = 0
    | .leaf (.link _ _ _ _) => True

theorem copied_eq_iff (dst : Attr) (x : Item Attr Leaf) :
    copied dst x = attrOf x ↔ Plain dst x := by
  have hext : ∀ (a : Attr) (mode : Nat), dst.child mode = a ↔
      a.uid = 0 ∧ a.gid = (if dst.isSetgid then dst.gid else 0) ∧ a.mode = mode := by
    rintro ⟨m, u, g⟩ mode
    simp only [Attr.child, Attr.mk.injEq]
    constructor
    · rintro ⟨rfl, rfl, rfl⟩; exact ⟨rfl, rfl, rfl⟩
    · rintro ⟨rfl, rfl, rfl⟩; exact ⟨rfl, rfl, rfl⟩
  rcases x with (⟨a, content⟩ | ⟨uid, gid, target, htarget⟩) | a
  · refine (hext a _).trans (and_congr_right' (and_congr_right' ?_))
    omega
  · refine (hext ⟨0o777, uid, gid⟩ _).trans (and_congr_right' (and_congr_right' ?_))
    exact ⟨fun _ => trivial, fun _ => rfl⟩
  · refine (hext a _).trans (and_congr_right' (and_congr_right' ?_))
    dsimp only
    split <;> omega

/-- The copy has the same paths with the same types, contents and link targets. Modes and owners are
the same exactly if the destination has those of the root of the tree, and every other node is one
whose attributes a node created by root has anyway. -/
theorem copyTree_keeps_iff (cwd d : Loc Text) (dst : Text) (a₀ : Attr)
    (entries : Forest Text Attr Leaf) (s : Disk)
    (hsrc : (Tree.dir a₀ entries).Named LegalName) (hempty : EmptyDir cwd s.fs.tree dst d) :
    (∃ s', copyTree cwd (.dir a₀ entries) dst s = (s', .ok ()) ∧
        Holds d s s' ((Tree.dir a₀ entries).walk []) ∧
        ∀ y ∈ (Tree.dir a₀ entries).walk [], s'.attr (y.1 ++ d) = attrOf y.2) ↔
      s.attr d = a₀ ∧ ∀ y ∈ entries.walk [], Plain (s.attr d) y.2 := by
  have hes := (Tree.dir a₀ entries).listing hsrc []
  have hroot : ([], .dir a₀) ∈ (Tree.dir a₀ entries).walk [] := List.mem_cons_self
  obtain ⟨s', hrun, hcopied⟩ := run_copyAll hempty hes hroot
  have hbelow : ∀ y ∈ entries.walk [], s'.attr (y.1 ++ d) = copied (s.attr d) y.2 := by
    intro y hy
    obtain ⟨n, -, hn⟩ := Forest.suffix_walk entries y hy
    refine hcopied.attr y.1 y.2 (List.mem_cons_of_mem _ hy) ?_
    rintro he
    rw [he] at hn
    exact absurd hn.length_le (by simp)
  constructor
  · rintro ⟨s'', hrun', -, hattr⟩
    obtain rfl : s' = s'' := (Prod.mk.inj (hrun.symm.trans hrun')).1
    refine ⟨hcopied.root.symm.trans (hattr ([], .dir a₀) List.mem_cons_self), ?_⟩
    intro y hy
    rw [← copied_eq_iff, ← hbelow y hy]
    exact hattr y (List.mem_cons_of_mem _ hy)
  · rintro ⟨hroot, hplain⟩
    refine ⟨s', hrun, hcopied.holds, ?_⟩
    intro y hy
    rcases List.mem_cons.mp hy with rfl | hy
    · exact hcopied.root.trans hroot
    · rw [hbelow y hy]; exact (copied_eq_iff _ _).mpr (hplain y hy)

/-- A directory with one file in it. -/
def oneFile (file : Attr) : Forest Text Attr Leaf :=
  .cons fileA (.leaf (.file file [104, 105])) .nil

/-- A file, and a directory with a link to it. -/
def fileAndLink : Forest Text Attr Leaf :=
  .cons fileA (.leaf (.file ⟨0o640, 0, 0⟩ [104, 105]))
    (.cons [115] (.dir ⟨0o711, 0, 0⟩ (.cons [108] (.leaf (.link 0 0 [46, 46, 47, 97] (by decide)))
      .nil)) .nil)

theorem copyTree_keeps_fileAndLink :
    ∃ s', copyTree [] (.dir ⟨0o755, 0, 0⟩ fileAndLink) (slash :: dst) emptyDst = (s', .ok ()) ∧
      Holds [dst] emptyDst s' ((Tree.dir ⟨0o755, 0, 0⟩ fileAndLink).walk []) ∧
      ∀ y ∈ (Tree.dir ⟨0o755, 0, 0⟩ fileAndLink).walk [], s'.attr (y.1 ++ [dst]) = attrOf y.2 := by
  have hnamed : (Tree.dir ⟨0o755, 0, 0⟩ fileAndLink).Named LegalName :=
    ⟨by decide, by decide, trivial, by decide, by decide, ⟨by decide, by decide, trivial, trivial⟩,
      trivial⟩
  refine (copyTree_keeps_iff [] [dst] (slash :: dst) ⟨0o755, 0, 0⟩ fileAndLink emptyDst
    hnamed emptyDir_emptyDst).mpr ⟨rfl, ?_⟩
  intro y hy
  rcases List.mem_cons.mp hy with rfl | hy
  · exact ⟨rfl, rfl, rfl⟩
  · rcases List.mem_cons.mp hy with rfl | hy
    · exact ⟨rfl, rfl, rfl⟩
    · rw [List.mem_singleton.mp hy]; exact ⟨rfl, rfl, trivial⟩

/-- A setuid program of another user arrives without the bit, as a file of root. -/
theorem copyTree_drops_setuid :
    (copyTree [] (.dir ⟨0o755, 0, 0⟩ (oneFile ⟨0o4755, 1000, 1000⟩)) (slash :: dst)
        emptyDst).2.isOk ∧
      (copyTree [] (.dir ⟨0o755, 0, 0⟩ (oneFile ⟨0o4755, 1000, 1000⟩)) (slash :: dst)
        emptyDst).1.attr [fileA, dst] = ⟨0o755, 0, 0⟩ := by
  decide

/-! ## The size of the disk -/

/-- What `Walk` says of a node. -/
structure Info where
  regular : Bool
  size : Int64
  nonneg : 0 ≤ size.toInt

/-- The callback of `dirSizeBytes`; where `Walk` gives an error or no `info` nothing is counted. -/
def addSize (total : Int64) : Option Info → Int64
  | none => total
  | some info => if info.regular then total + info.size else total

/-- The callback returns no error, so neither does `Walk`. -/
def dirSizeBytes (walked : List (Option Info)) : Int64 := walked.foldl addSize 0

/-- `hdr` of `makeExt4FromDir`. -/
def hdr (used : Int64) : Int64 :=
  let hdr : Int64 := 50 * 1024 * 1024
  if used / 5 > hdr then used / 5 else hdr

def mib : Int64 := 1024 * 1024

/-- `total` of `makeExt4FromDir`, up to whole MiB. -/
def imageSize (used : Int64) : Int64 :=
  let total := used + hdr used
  (total + (mib - 1)) / mib * mib

/-- What the calls of `makeExt4FromDir` answer. -/
structure Tools (ε : Type) where
  writeFile : Option ε
  truncate : Int64 → Option ε
  mkfs : String → String × Option ε

inductive Ext4Err (ε : Type) where
  | os (e : ε)
  /-- `mkfs.ext4: %w: %s / %s`. -/
  | mkfs (e : ε) (o o2 : String)

/-- The error, and the size of the image if it has got one. -/
def makeExt4FromDir {ε : Type} (t : Tools ε) (walked : List (Option Info)) :
    Option Int64 × Option (Ext4Err ε) :=
  let total := imageSize (dirSizeBytes walked)
  match t.writeFile with
  | some e => (none, some (.os e))
  | none =>
    match t.truncate total with
    | some e => (none, some (.os e))
    | none =>
      match t.mkfs "/usr/sbin/mkfs.ext4" with
      | (_, none) => (some total, none)
      | (o, some e) =>
        match t.mkfs "/sbin/mkfs.ext4" with
        | (_, none) => (some total, none)
        | (o2, some _) => (some total, some (.mkfs e o o2))

def bytes : Option Info → Nat
  | none => 0
  | some info => if info.regular then info.size.toInt.toNat else 0

def content (walked : List (Option Info)) : Nat := walked.foldr (fun x n => bytes x + n) 0

/-- What the files take in blocks of 4096 bytes. -/
def blocks (walked : List (Option Info)) : Nat :=
  walked.foldr (fun x n => (bytes x + 4095) / 4096 * 4096 + n) 0

/-- The unused ends of the files' last blocks. -/
def slack (walked : List (Option Info)) : Nat :=
  walked.foldr (fun x n => (4096 - bytes x % 4096) % 4096 + n) 0

def headroom (content : Nat) : Nat := max (50 * 1024 * 1024) (content / 5)

/-- What is missing to the next whole MiB. -/
def padding (n : Nat) : Nat := (1048576 - n % 1048576) % 1048576

section Size

variable {walked : List (Option Info)}

theorem blocks_eq (walked : List (Option Info)) :
    blocks walked = content walked + slack walked := by
  induction walked with
  | nil => rfl
  | cons x rest ih =>
    simp only [blocks, content, slack, List.foldr_cons] at ih ⊢
    omega

theorem toInt_addSize (total : Int64) (x : Option Info) (h : total.toInt + bytes x < 2 ^ 62) :
    (addSize total x).toInt = total.toInt + bytes x := by
  cases x with
  | none => exact (Int.add_zero _).symm
  | some info =>
    have hnonneg := info.nonneg
    rw [bytes] at h ⊢
    rw [addSize]
    split
    · rename_i hreg
      rw [if_pos hreg] at h
      rw [GoInt64.toInt_add_of_lt hnonneg (by omega), Int.toNat_of_nonneg hnonneg]
    · exact (Int.add_zero _).symm

theorem toInt_dirSizeBytes (h : content walked < 2 ^ 62) :
    (dirSizeBytes walked).toInt = content walked := by
  have hloop : ∀ (rest : List (Option Info)) (total : Int64), total.toInt + content rest < 2 ^ 62 →
      (rest.foldl addSize total).toInt = total.toInt + content rest := by
    intro rest
    induction rest with
    | nil => intro total _; exact (Int.add_zero _).symm
    | cons x rest ih =>
      intro total htotal
      have hcons : content (x :: rest) = bytes x + content rest := rfl
      have hx := toInt_addSize total x (by omega)
      rw [List.foldl_cons, ih _ (by omega), hx]
      omega
  have hzero : (0 : Int64).toInt = 0 := rfl
  rw [dirSizeBytes, hloop walked 0 (by omega), hzero, Int.zero_add]

theorem toInt_hdr {used : Int64} {n : Nat} (hused : used.toInt = n) :
    (hdr used).toInt = headroom n := by
  have h5 : (5 : Int64).toInt = 5 := rfl
  have hmin : (50 * 1024 * 1024 : Int64).toInt = 52428800 := rfl
  have hfifth : (used / 5).toInt = (n / 5 : Nat) := by
    rw [GoInt64.toInt_div_of_nonneg (by omega) (by omega), h5, hused]
    rfl
  unfold hdr headroom
  dsimp only
  split
  · rename_i h
    rw [gt_iff_lt, Int64.lt_iff_toInt_lt, hmin, hfifth] at h
    rw [hfifth]
    omega
  · rename_i h
    rw [gt_iff_lt, Int64.lt_iff_toInt_lt, hmin, hfifth] at h
    rw [hmin]
    omega

theorem toInt_imageSize {used : Int64} {n : Nat} (hused : used.toInt = n) (hn : n < 2 ^ 62) :
    (imageSize used).toInt = ((n + headroom n + 1048575) / 1048576 * 1048576 : Nat) := by
  have hmask : (mib - 1).toInt = 1048575 := rfl
  have hmib : mib.toInt = 1048576 := rfl
  have hle : headroom n ≤ 2 ^ 60 := by
    unfold headroom; omega
  have htotal := GoInt64.toInt_add_of_lt (a := used) (b := hdr used)
    (by rw [toInt_hdr hused]; omega) (by rw [toInt_hdr hused]; omega)
  rw [toInt_hdr hused, hused] at htotal
  have hup := GoInt64.toInt_add_of_lt (a := used + hdr used) (b := mib - 1) (by omega) (by omega)
  have hdiv := GoInt64.toInt_div_of_nonneg (a := used + hdr used + (mib - 1)) (b := mib) (by omega)
    (by omega)
  rw [hup, htotal, hmask, hmib] at hdiv
  have hround : (((used + hdr used + (mib - 1)) / mib).toInt * mib.toInt) =
      ((n + headroom n + 1048575) / 1048576 * 1048576 : Nat) := by
    rw [hdiv, hmib]
    omega
  rw [imageSize, GoInt64.toInt_mul_of_lt (by omega) (by omega), hround]

theorem image_makeExt4FromDir {ε : Type} {t : Tools ε} {size : Int64}
    (h : (makeExt4FromDir t walked).1 = some size) : imageSize (dirSizeBytes walked) = size := by
  unfold makeExt4FromDir at h
  dsimp only at h
  split at h
  · cases h
  · split at h
    · cases h
    · split at h
      · exact Option.some.inj h
      · split at h <;> exact Option.some.inj h

end Size

/-- The image is of whole MiB, and what the files take in blocks fits into it exactly if the unused
ends of the blocks fit into the headroom and what it is rounded up by. -/
theorem makeExt4FromDir_size_iff {ε : Type} (t : Tools ε) (walked : List (Option Info))
    (size : Int64) (hsum : content walked < 2 ^ 62)
    (h : (makeExt4FromDir t walked).1 = some size) :
    size.toInt % (1024 * 1024) = 0 ∧ ((blocks walked : Int) ≤ size.toInt ↔
      slack walked ≤ headroom (content walked) +
        padding (content walked + headroom (content walked))) := by
  have hsize := toInt_imageSize (toInt_dirSizeBytes hsum) hsum
  rw [image_makeExt4FromDir h] at hsize
  rw [hsize, blocks_eq, padding]
  constructor <;> omega

def allWell : Tools Unit := ⟨none, fun _ => none, fun _ => ("", none)⟩

def oneByteFiles (n : Nat) : List (Option Info) := List.replicate n (some ⟨true, 1, by decide⟩)

theorem makeExt4FromDir_size_threeFiles :
    (makeExt4FromDir allWell (oneByteFiles 3)).1 = some 53477376 ∧
      (blocks (oneByteFiles 3) : Int) ≤ (53477376 : Int64).toInt :=
  ⟨by decide, (makeExt4FromDir_size_iff allWell (oneByteFiles 3) 53477376 (by decide)
    (by decide)).2.mpr (by decide)⟩

theorem content_oneByteFiles (n : Nat) : content (oneByteFiles n) = n := by
  induction n with
  | zero => rfl
  | succ n ih =>
    have hcons : content (oneByteFiles (n + 1)) = 1 + content (oneByteFiles n) := rfl
    omega

theorem blocks_oneByteFiles (n : Nat) : blocks (oneByteFiles n) = 4096 * n := by
  induction n with
  | zero => rfl
  | succ n ih =>
    have hcons : blocks (oneByteFiles (n + 1)) = 4096 + blocks (oneByteFiles n) := rfl
    omega

/-- Twenty thousand files of one byte take more blocks than the image has. -/
theorem oneByteFiles_overflow :
    content (oneByteFiles 20000) < 2 ^ 62 ∧
      (makeExt4FromDir allWell (oneByteFiles 20000)).1 =
        some (imageSize (dirSizeBytes (oneByteFiles 20000))) ∧
      ¬ (blocks (oneByteFiles 20000) : Int) ≤
        (imageSize (dirSizeBytes (oneByteFiles 20000))).toInt := by
  have hcontent := content_oneByteFiles 20000
  have hsum : content (oneByteFiles 20000) < 2 ^ 62 := by omega
  have hsize := toInt_imageSize (toInt_dirSizeBytes hsum) hsum
  refine ⟨hsum, rfl, ?_⟩
  rw [hsize, blocks_oneByteFiles, hcontent]
  decide

end Capsule.Workloads.Rootfs
