import Capsule.Atomic.Rely
import Capsule.GoPath

/-!
# Capsule.Cp.Unpack

`tarUnpack` of `cmd/capsulectl/cp.go`: the archive a workload sends is unpacked into a local
directory, over a file tree with symbolic links (`resolve`). Files and links are written after
`MkdirAll` of their parent (`inDir`), and a link replaces what is there.

`Unpacking.next` is one turn of the loop over the entries; what it did is the log of `Effect`s.
-/

namespace Capsule.Cp

open Atomic GoPath Posix

inductive OsErr where
  | io (m : String)
  /-- No such file, not a directory on the way, or too many links. -/
  | unresolved
  | exist
  | notDir
  | isDir
  | notEmpty
  deriving DecidableEq

inductive Op where
  | stat (p : Path)
  | lstat (p : Path)
  | mkdir (p : Path) (perm : Nat)
  | openFile (p : Path) (perm : Nat)
  | copy (f : Loc Text) (size : Nat)
  | close
  | remove (p : Path)
  | symlink (oldname : Text) (p : Path)

@[reducible] def Res : Op → Type
  -- whether it is a directory
  | .stat _ | .lstat _ => Except OsErr Bool
  | .openFile _ _ => Except OsErr (Loc Text)
  | .copy _ _ => Nat × Option OsErr
  | _ => Except OsErr Unit

inductive Effect where
  | created (l : Loc Text)
  | truncated (l : Loc Text)
  | wrote (l : Loc Text)
  | removed (l : Loc Text)
  deriving DecidableEq

def Effect.loc : Effect → Loc Text
  | .created l | .truncated l | .wrote l | .removed l => l

structure Local where
  tree : FileTree Text
  log : List Effect

structure Env where
  fault : Option String := none
  /-- The bytes `io.Copy` got through. -/
  copied : Nat := 0

/-- The links the kernel follows in one path. -/
def maxSymlinks : Nat := 40

section

variable (cwd : Loc Text)

def resolve (t : FileTree Text) (p : Path) : Option (Loc Text) :=
  t.walk maxSymlinks (if p.rooted then [] else cwd) p.comps

/-- The directory that holds the last element of the path, and the element. -/
def place (t : FileTree Text) (p : Path) : Option (Loc Text × Text) :=
  match p.parts with
  | [] => none
  | x :: _ =>
    if IsName x then
      match resolve cwd t p.dir with
      | none => none
      | some r => if t.node r = some .dir then some (r, x) else none
    else none

/-- `resolve` without following the last element. -/
def lresolve (t : FileTree Text) (p : Path) : Option (Loc Text) :=
  match p.parts with
  | [] => resolve cwd t p
  | x :: _ => if IsName x then (place cwd t p).map fun y => y.2 :: y.1 else resolve cwd t p

def isDir : Option (Node Text) → Except OsErr Bool
  | none => .error .unresolved
  | some .dir => .ok true
  | some _ => .ok false

def Local.add (s : Local) (n : Text) (l : Loc Text) (x : Node Text) : Local × Except OsErr Unit :=
  match s.tree.add n l x with
  | none => (s, .error .exist)
  | some t => (⟨t, s.log ++ [.created (n :: l)]⟩, .ok ())

def Local.addAt (s : Local) (p : Path) (x : Node Text) : Local × Except OsErr Unit :=
  match place cwd s.tree p with
  | none => (s, .error .unresolved)
  | some (l, n) => s.add n l x

def Local.removeAt (s : Local) (p : Path) : Local × Except OsErr Unit :=
  match place cwd s.tree p with
  | none => (s, .error .unresolved)
  | some (l, n) =>
    match s.tree.remove n l with
    | none => (s, .error .notEmpty)
    | some t => (⟨t, s.log ++ [.removed (n :: l)]⟩, .ok ())

def Local.openAt (s : Local) (p : Path) : Local × Except OsErr (Loc Text) :=
  match resolve cwd s.tree p with
  | none => (s, .error .unresolved)
  | some l =>
    match s.tree.node l, l with
    | some .file, l => (⟨s.tree, s.log ++ [.truncated l]⟩, .ok l)
    | none, n :: r =>
      match s.add n r .file with
      | (s', .ok ()) => (s', .ok l)
      | (s', .error e) => (s', .error e)
    | _, _ => (s, .error .isDir)

def sem : Sem Op Res Local Env
  | .stat p, e, s =>
    match e.fault with
    | some m => (s, .error (.io m))
    | none => (s, isDir ((resolve cwd s.tree p).bind s.tree.node))
  | .lstat p, e, s =>
    match e.fault with
    | some m => (s, .error (.io m))
    | none => (s, isDir ((lresolve cwd s.tree p).bind s.tree.node))
  | .mkdir p _, e, s =>
    match e.fault with
    | some m => (s, .error (.io m))
    | none => s.addAt cwd p .dir
  | .openFile p _, e, s =>
    match e.fault with
    | some m => (s, .error (.io m))
    | none => s.openAt cwd p
  | .copy f size, e, s =>
    (⟨s.tree, s.log ++ [.wrote f]⟩, (min e.copied size, e.fault.map .io))
  | .close, e, s =>
    match e.fault with
    | some m => (s, .error (.io m))
    | none => (s, .ok ())
  | .remove p, e, s =>
    match e.fault with
    | some m => (s, .error (.io m))
    | none => s.removeAt cwd p
  | .symlink oldname p, e, s =>
    match e.fault with
    | some m => (s, .error (.io m))
    | none =>
      if oldname = [] then (s, .error .unresolved)
      else s.addAt cwd p (.link (isAbs oldname) (comps oldname))

end

abbrev Code := Prog Op Res

@[simp] def stat (p : Path) : Code (Except OsErr Bool) := .call (.stat p) .ret
@[simp] def lstat (p : Path) : Code (Except OsErr Bool) := .call (.lstat p) .ret
@[simp] def mkdir (p : Path) (perm : Nat) : Code (Except OsErr Unit) := .call (.mkdir p perm) .ret
@[simp] def openFile (p : Path) (perm : Nat) : Code (Except OsErr (Loc Text)) :=
  .call (.openFile p perm) .ret
@[simp] def copy (f : Loc Text) (size : Nat) : Code (Nat × Option OsErr) :=
  .call (.copy f size) .ret
@[simp] def close : Code (Except OsErr Unit) := .call .close .ret
@[simp] def remove (p : Path) : Code (Except OsErr Unit) := .call (.remove p) .ret
@[simp] def symlink (oldname : Text) (p : Path) : Code (Except OsErr Unit) :=
  .call (.symlink oldname p) .ret

/-- `MkdirAll`, where `parent` is the call for the parent directory. -/
def makeDir (p : Path) (perm : Nat) (parent : Code (Except OsErr Unit)) :
    Code (Except OsErr Unit) := do
  match ← stat p with
  | .ok true => return .ok ()
  | .ok false => return .error .notDir
  | .error _ =>
    parent.thenOk fun _ => do
      match ← mkdir p perm with
      | .ok () => return .ok ()
      | .error e =>
        match ← lstat p with
        | .ok true => return .ok ()
        | _ => return .error e

/-- `os.MkdirAll` of a cleaned path. A relative path of one element has no parent to make. -/
def mkdirAll (rooted : Bool) (perm : Nat) : List Text → Code (Except OsErr Unit)
  | [] => makeDir ⟨rooted, []⟩ perm (.ret (.ok ()))
  | x :: ps =>
    makeDir ⟨rooted, x :: ps⟩ perm
      (if ps = [] ∧ rooted = false then .ret (.ok ()) else mkdirAll rooted perm ps)

inductive Typeflag where
  | dir
  | reg
  | symlink
  | xGlobalHeader
  /-- Devices, fifos, hard links. -/
  | other (c : UInt8)
  deriving DecidableEq

structure Header where
  name : Text
  typeflag : Typeflag
  linkname : Text
  mode : Nat
  size : Nat

inductive UnpackErr where
  /-- `tar entry %q contains '..'` -/
  | dotdot (name : Text)
  /-- `tar entry %q escapes destination` -/
  | escapes (name : Text)
  | os (e : OsErr)
  /-- An error of the tar reader. -/
  | stream (m : String)
  deriving DecidableEq

/-- The arguments of `tarUnpack`, and the working directory it runs in. -/
structure Config where
  destDir : Text
  oldRoot : Text
  newRoot : Text
  cwd : Loc Text
  getwd : Option Text

/-- Replace the first segment of a name. -/
def rewriteRoot (name oldRoot newRoot : Text) : Text :=
  if name = oldRoot then newRoot
  else if oldRoot ++ [slash] <+: name then newRoot ++ name.drop oldRoot.length
  else name

section

variable (cfg : Config) (hdr : Header)

def entryName : Text :=
  let name := hdr.name.dropWhile (· = slash)
  if cfg.newRoot ≠ [] then rewriteRoot name cfg.oldRoot cfg.newRoot else name

/-- The local path of an entry, once it has passed both checks. -/
def entryPath : Except UnpackErr Path :=
  let name := entryName cfg hdr
  if dotdot <:+: name then .error (.dotdot hdr.name)
  else
    let full := join cfg.destDir name
    let absDest := abs cfg.getwd cfg.destDir
    let absFull := abs cfg.getwd full.text
    if absDest ≠ [] ∧ ¬ absDest ++ [slash] <+: absFull ∧ absFull ≠ absDest then
      .error (.escapes hdr.name)
    else .ok full

end

/-- Go on when the directory could be made. -/
def inDir (made : Code (Except OsErr Unit)) (rest : Code (Nat × Option UnpackErr)) :
    Code (Nat × Option UnpackErr) := do
  match ← made with
  | .error e => return (0, some (.os e))
  | .ok () => rest

/-- A regular file, once its directory is there. -/
def writeFile (full : Path) (perm size : Nat) : Code (Nat × Option UnpackErr) := do
  match ← openFile full perm with
  | .error e => return (0, some (.os e))
  | .ok f =>
    let (n, err) ← copy f size
    let cerr ← close
    match err, cerr with
    | some e, _ => return (n, some (.os e))
    | none, .error e => return (n, some (.os e))
    | none, .ok () => return (n, none)

/-- A link, once its directory is there; what `Remove` answers is dropped. -/
def writeLink (full : Path) (linkname : Text) : Code (Nat × Option UnpackErr) := do
  let _ ← remove full
  match ← symlink linkname full with
  | .error e => return (0, some (.os e))
  | .ok () => return (0, none)

/-- What `tarUnpack` does with an entry: the bytes written, and the error. -/
def unpackEntry (cfg : Config) (hdr : Header) : Code (Nat × Option UnpackErr) :=
  let perm := hdr.mode % 0o10000
  match entryPath cfg hdr with
  | .error e => .ret (0, some e)
  | .ok full =>
    match hdr.typeflag with
    | .dir => inDir (mkdirAll full.rooted (perm ||| 0o700) full.parts) (.ret (0, none))
    | .reg =>
      inDir (mkdirAll full.rooted 0o755 full.dir.parts) (writeFile full perm hdr.size)
    | .symlink =>
      inDir (mkdirAll full.rooted 0o755 full.dir.parts) (writeLink full hdr.linkname)
    | .xGlobalHeader | .other _ => .ret (0, none)

inductive Progress where
  | reading
  | finished
  | failed (e : UnpackErr)
  | killed
  deriving DecidableEq

structure Unpacking where
  fs : Local
  written : Nat
  progress : Progress

/-- One turn of the loop: the next entry, with the answers its calls get. -/
def Unpacking.next (cfg : Config) (u : Unpacking) (x : Header × List Env) : Unpacking :=
  match u.progress with
  | .reading =>
    let out := (unpackEntry cfg x.1).exec (sem cfg.cwd) x.2 u.fs
    match out.val with
    | none => ⟨out.st, u.written, .killed⟩
    | some (n, none) => ⟨out.st, u.written + n, .reading⟩
    | some (n, some e) => ⟨out.st, u.written + n, .failed e⟩
  | _ => u

/-- How the tar reader ends: at the end of the archive, or with an error. -/
def Unpacking.stop (u : Unpacking) (readErr : Option String) : Unpacking :=
  match u.progress, readErr with
  | .reading, none => { u with progress := .finished }
  | .reading, some m => { u with progress := .failed (.stream m) }
  | _, _ => u

def unpackStart (t : FileTree Text) : Unpacking := ⟨⟨t, []⟩, 0, .reading⟩

def tarUnpack (cfg : Config) (t : FileTree Text) (stream : List (Header × List Env))
    (readErr : Option String) : Unpacking :=
  (stream.foldl (Unpacking.next cfg) (unpackStart t)).stop readErr

end Capsule.Cp
