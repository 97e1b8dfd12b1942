import Capsule.Atomic.Pipe
import Capsule.Update.Bundle

/-!
# Capsule.Update.Stream

`ReceiveBundle` with its producer: a goroutine takes the chunks of the call, hashes and counts them
and writes them to an `io.Pipe`, from whose other end the archive is read.

* `receive`: the code over the pipe of `Atomic.Pipe`, for any `Tar` reader.
* `receive_simulates`: it does what `receiveBundle` does on the entries that the bytes hold
  (`entries`).
* `Tar.Accepts`, `Tar.Leaves`: which bytes are taken, and what they leave.
* `bundle_outcome`: so the outcome depends on the bytes only, however they are divided into messages
  and however the two ends take turns.
-/

namespace Capsule.Update.Stream

open Atomic Pipe

inductive Next (State : Type) where
  | eof
  | failed (e : Err)
  | entry (name : String) (size : Int) (st : State)

/-- A `tar.Reader`: its code, and what it finds. -/
structure Tar where
  State : Type
  init : State
  next : State → Reading UInt8 (Next State)
  /-- Read the entry through. -/
  body : State → Reading UInt8 (Reader × State)
  nextOf : State → Bytes → Next State × Bytes
  bodyOf : State → Bytes → (Reader × State) × Bytes
  next_reads : ∀ st rest, Reads (next st) rest (nextOf st rest)
  body_reads : ∀ st rest, Reads (body st) rest (bodyOf st rest)
  next_takes : ∀ st rest name size st' rest', nextOf st rest = (.entry name size st', rest') →
    rest'.length < rest.length

namespace Tar

variable (t : Tar)

/-- The entries of an archive, at most so many, and what `tr.Next` returns after them. -/
def entriesFrom : Nat → t.State → Bytes → List TarEntry × Option Err
  | 0, _, _ => ([], none)
  | fuel + 1, st, rest =>
    match t.nextOf st rest with
    | (.eof, _) => ([], none)
    | (.failed e, _) => ([], some e)
    | (.entry name size st, rest) =>
      let b := t.bodyOf st rest
      let r := entriesFrom fuel b.1.2 b.2
      (⟨name, size, b.1.1⟩ :: r.1, r.2)

def entries (s : Bytes) : List TarEntry × Option Err := t.entriesFrom (s.length + 1) t.init s

end Tar

/-- What the producer keeps: what went into the hash, and the count. -/
structure Received where
  bytes : Bytes
  bytesIn : UInt64

def Received.add (g : Received) (chunk : Bytes) : Received :=
  ⟨g.bytes ++ chunk, g.bytesIn + UInt64.ofNat chunk.length⟩

/-- A message of the stream of `UpdateOS`. -/
inductive Message where
  | metadata
  | chunk (b : Bytes)

def Message.bytes : Message → Bytes
  | .metadata => []
  | .chunk b => b

abbrev Code := Pipe.Code UInt8 Err Received Res

/-- What a wanted entry is read for; the version after it and the reader. -/
def takeEntry (t : Tar) (slot : Slot) (dev name : String) (size : Int) (st : t.State)
    (version : Bytes) : Member → Code (Except Err (Bytes × t.State))
  | .rootfs =>
    (onState ((blockDeviceSize slot).mapErr (Err.ctx ("size of " ++ dev)))).thenOk
      fun slotBytes => do
        if slotBytes < size then
          return .error (.wrap "" (.sentinel .bundleTooLarge)
            (": rootfs.sqsh " ++ toString size ++ " bytes > slot " ++ dev ++ " capacity " ++
              toString slotBytes ++
              " bytes; bump SLOT_SIZE_MIB and reinstall to apply this update"))
        else
          let (body, st) ← onPipe (t.body st)
          (onState ((writeBlockDevice slot body).mapErr
            (Err.ctx ("stream rootfs to " ++ dev)))).thenOk fun _ => return .ok (version, st)
  | m => do
    let (body, st) ← onPipe (t.body st)
    (onState (takeMember slot dev ⟨name, size, body⟩ version m)).thenOk fun version =>
      return .ok (version, st)

/-- The loop over the archive, for at most so many entries. -/
def tarStream (t : Tar) (slot : Slot) (dev : String) :
    Nat → t.State → List Member → Bytes → Code (Except Err (List Member × Bytes))
  | 0, _, want, version => .ret (.ok (want, version))
  | fuel + 1, st, want, version => do
    match ← onPipe (t.next st) with
    | .eof => return .ok (want, version)
    | .failed e => .call .close fun _ => .ret (.error (e.ctx "read tar"))
    | .entry name size st =>
      match want.find? (·.name = name) with
      | none => do
        let (body, st) ← onPipe (t.body st)
        match body.err with
        | some e => return .error e
        | none => tarStream t slot dev fuel st want version
      | some m =>
        (takeEntry t slot dev name size st version m).thenOk fun x =>
          tarStream t slot dev fuel x.2 (want.filter (· ≠ m)) x.1

/-- What is announced, and what the producer has received. -/
def received (sha256 : Bytes → String) (expectSize : UInt64) (expectSHA256Hex : String)
    (perr : Option Err) (g : Received) : Push where
  expectSize := expectSize.toNat
  expectSHA256Hex := expectSHA256Hex
  entries := []
  tarErr := none
  bytesIn := g.bytesIn.toNat
  got := sha256 g.bytes
  streamErr := perr

/-- The push of the bytes `s`. -/
def Tar.push (t : Tar) (sha256 : Bytes → String) (expectSize : UInt64) (expectSHA256Hex : String)
    (s : Bytes) : Push :=
  { received sha256 expectSize expectSHA256Hex none ⟨s, UInt64.ofNat s.length⟩ with
    entries := (t.entries s).1, tarErr := (t.entries s).2 }

/-- What `ReceiveBundle` does before it reads. -/
def prepare (slot : Slot) : Update.Code (Except Err String) :=
  (removeStaging.mapErr (Err.ctx "clean staging")).thenOk fun _ =>
    (mkdirStaging.mapErr (Err.ctx "mkdir staging")).thenOk fun _ =>
      (findPartition (slotPartitionNumber slot)).mapErr (Err.ctx "find slot partition")

/-- What it does once the bundle is checked. -/
def finish (svc : Service) (slot : Slot) (version : Bytes) :
    Except Err Unit → Update.Code (Except Err (Slot × Bytes))
  | .error e => .ret (.error e)
  | .ok () => (armBoot svc slot).thenOk fun _ => persistPending slot version

/-- `ReceiveBundle`, its two loops for at most so many rounds. -/
def receive (svc : Service) (t : Tar) (fuel : Nat) (expectSize : UInt64)
    (expectSHA256Hex : String) : Code (Except Err (Slot × Bytes)) :=
  match svc.activeSlot with
  | none => .ret (.error (.text "update service: ActiveSlot not set"))
  | some active =>
    let nextSlot := otherSlot active
    (onState (prepare nextSlot)).thenOk fun dev =>
      (tarStream t nextSlot dev fuel t.init [.version, .vmlinuz, .initramfs, .rootfs] []).thenOk
        fun (missing, version) => do
          onPipe (drain 8192 fuel)
          .call .wait fun (perr, g) => onState (finish svc nextSlot version
            (checkBundle (received svc.sha256 expectSize expectSHA256Hex perr g) missing))

section Simulation

variable {α σ ε : Type} {sem : Sem Op Res σ ε} {I : Op → σ → Prop} {g : Received}
  {Q : Except Err α → σ → Prop} {t : Tar} {slot : Slot} {dev : String} {rest : Bytes} {h : σ}

theorem takeEntry_simulates {name : String} {size : Int} {st : t.State} {version : Bytes}
    {m : Member} {f : Bytes → Update.Code (Except Err α)}
    {f' : Bytes × t.State → Code (Except Err α)}
    (hsafe : ((takeMember slot dev ⟨name, size, (t.bodyOf st rest).1.1⟩ version m).thenOk f).Safe
      sem Eq I Q h)
    (hf : ∀ version h', (f version).Safe sem Eq I Q h' →
      Over sem g Q (f' (version, (t.bodyOf st rest).1.2)) (t.bodyOf st rest).2 h') :
    Over sem g Q ((takeEntry t slot dev name size st version m).thenOk f') rest h := by
  cases m with
  | rootfs =>
    rw [takeMember, streamRootfs, Prog.thenOk_assoc, Prog.thenOk_assoc] at hsafe
    rw [takeEntry, Prog.thenOk_assoc]
    refine Over.simulate_thenOk hsafe fun slotBytes h' hsafe' => ?_
    split at hsafe'
    · rename_i hlarge; rw [if_pos hlarge]; exact Over.of_ret hsafe'
    · rename_i hfits
      rw [if_neg hfits]
      refine Over.reads_thenOk (t.body_reads st rest) ?_
      rw [Prog.thenOk_assoc]
      exact Over.simulate_thenOk hsafe' fun _ h'' hsafe'' => hf version h'' hsafe''
  | version | vmlinuz | initramfs =>
    refine Over.reads_thenOk (t.body_reads st rest) ?_
    rw [Prog.thenOk_assoc]
    exact Over.simulate_thenOk hsafe hf

theorem tarStream_simulates {fuel : Nat} {st : t.State} {want : List Member} {version : Bytes}
    {f : List Member × Bytes → Update.Code (Except Err α)}
    {f' : List Member × Bytes → Code (Except Err α)} (hfuel : rest.length < fuel)
    (hsafe : ((tarLoop slot dev (t.entriesFrom fuel st rest).2 (t.entriesFrom fuel st rest).1 want
      version).thenOk f).Safe sem Eq I Q h)
    (hf : ∀ x h' rest', rest' <:+ rest → (f x).Safe sem Eq I Q h' → Over sem g Q (f' x) rest' h') :
    Over sem g Q ((tarStream t slot dev fuel st want version).thenOk f') rest h := by
  induction fuel generalizing st rest want version h with
  | zero => exact absurd hfuel (Nat.not_lt_zero _)
  | succ fuel ih =>
    have hnext := t.next_reads st rest
    refine Over.reads_thenOk hnext ?_
    rw [Tar.entriesFrom] at hsafe
    match hr : t.nextOf st rest with
    | (.eof, rest') => rw [hr] at hsafe hnext; exact hf _ _ rest' hnext.suffix hsafe
    | (.failed e, rest') => rw [hr] at hsafe; exact ⟨_, rfl, Prog.safe_alone_ret.mp hsafe⟩
    | (.entry name size st', rest') =>
      rw [hr] at hsafe hnext
      have hbody := t.body_reads st' rest'
      have hsuffix := hbody.suffix.trans hnext.suffix
      have hlt : (t.bodyOf st' rest').2.length < fuel := by
        have htakes := t.next_takes _ _ _ _ _ _ hr
        have hle := hbody.suffix.length_le
        omega
      simp only [tarLoop] at hsafe
      dsimp only
      cases hfind : want.find? (·.name = name) with
      | none =>
        rw [hfind] at hsafe
        refine Over.reads_thenOk hbody ?_
        cases herr : (t.bodyOf st' rest').1.1.err with
        | some e => rw [herr] at hsafe; exact Over.of_ret hsafe
        | none =>
          rw [herr] at hsafe
          exact ih hlt hsafe fun x h' r hr hx => hf x h' r (hr.trans hsuffix) hx
      | some m =>
        rw [hfind, Prog.thenOk_assoc] at hsafe
        rw [Prog.thenOk_assoc]
        refine takeEntry_simulates hsafe fun version h' hsafe' => ?_
        exact ih hlt hsafe' fun x h'' r hr hx => hf x h'' r (hr.trans hsuffix) hx

theorem entriesFrom_fuel {fuel fuel' : Nat} {st : t.State} (hfuel : rest.length < fuel)
    (hfuel' : rest.length < fuel') :
    t.entriesFrom fuel st rest = t.entriesFrom fuel' st rest := by
  induction fuel generalizing fuel' st rest with
  | zero => exact absurd hfuel (Nat.not_lt_zero _)
  | succ fuel ih =>
    cases fuel' with
    | zero => exact absurd hfuel' (Nat.not_lt_zero _)
    | succ fuel' =>
      rw [Tar.entriesFrom, Tar.entriesFrom]
      match hr : t.nextOf st rest with
      | (.eof, rest') => rfl
      | (.failed e, rest') => rfl
      | (.entry name size st', rest') =>
        have htakes := t.next_takes _ _ _ _ _ _ hr
        have hle := (t.body_reads st' rest').suffix.length_le
        have hlt : (t.bodyOf st' rest').2.length < fuel := by omega
        have hlt' : (t.bodyOf st' rest').2.length < fuel' := by omega
        dsimp only
        rw [ih hlt hlt']

theorem receive_simulates {svc : Service} {fuel : Nat} {expectSize : UInt64}
    {expectSHA256Hex : String} {s : Bytes} {P : Except Err (Slot × Bytes) → σ → Prop}
    (hfuel : s.length < fuel)
    (hsafe : (receiveBundle svc (t.push svc.sha256 expectSize expectSHA256Hex s)).Safe
      sem Eq I P h) :
    Over sem ⟨s, UInt64.ofNat s.length⟩ P (receive svc t fuel expectSize expectSHA256Hex) s h := by
  unfold receiveBundle at hsafe
  unfold receive
  cases hactive : svc.activeSlot with
  | none => rw [hactive] at hsafe; exact Over.of_ret hsafe
  | some active =>
    rw [hactive] at hsafe
    have hprepare : ∀ f : String → Update.Code (Except Err (Slot × Bytes)),
        ((prepare (otherSlot active)).thenOk f) =
          (removeStaging.mapErr (Err.ctx "clean staging")).thenOk fun _ =>
            (mkdirStaging.mapErr (Err.ctx "mkdir staging")).thenOk fun _ =>
              ((findPartition (slotPartitionNumber (otherSlot active))).mapErr
                (Err.ctx "find slot partition")).thenOk f := by
      intro f
      simp only [prepare, Prog.thenOk_assoc]
    dsimp only at hsafe ⊢
    rw [← hprepare] at hsafe
    refine Over.simulate_thenOk hsafe fun dev h' hsafe' => ?_
    have hentries : t.entriesFrom (s.length + 1) t.init s = t.entriesFrom fuel t.init s :=
      entriesFrom_fuel (Nat.lt_succ_self s.length) hfuel
    rw [Tar.push, Tar.entries, hentries] at hsafe'
    refine tarStream_simulates hfuel hsafe' fun x h'' rest hrest hsafe'' => ?_
    refine Over.reads (drain_reads (by decide) (Nat.lt_of_le_of_lt hrest.length_le hfuel)) ?_
    refine ⟨rfl, ?_⟩
    have hfinish : (finish svc (otherSlot active) x.2 (checkBundle (received svc.sha256 expectSize
        expectSHA256Hex none ⟨s, UInt64.ofNat s.length⟩) x.1)).Safe sem Eq I P h'' := hsafe''
    exact Over.of_safe hfinish

end Simulation

/-! ## The outcome of a push -/

/-- What the bytes have to be for a slot of that size. -/
structure Tar.Accepts (t : Tar) (sha256 : Bytes → String) (slotBytes : Int) (expectSize : UInt64)
    (expectSHA256Hex : String) (s : Bytes) : Prop where
  parses : (t.entries s).2 = none ∧ ∀ e ∈ (t.entries s).1, e.body.err = none
  members : ∀ m : Member, ∃ e ∈ (t.entries s).1, e.name = m.name
  fits : ∀ e ∈ firstEntry (t.entries s).1 .rootfs, e.size ≤ slotBytes
  size : expectSize = 0 ∨ expectSize.toNat = s.length
  digest : equalFold (sha256 s) expectSHA256Hex = true

/-- What a push that succeeds leaves. -/
structure Tar.Leaves (t : Tar) (s : Bytes) (slot : Slot) (version : Bytes) (h h' : Host) :
    Prop where
  rootfs : ∃ e ∈ firstEntry (t.entries s).1 .rootfs,
    h'.rootfs slot = overwrite (h.rootfs slot) e.body.data
  boot : ∀ f : BootFile, ∃ e ∈ firstEntry (t.entries s).1 f.member,
    h'.boot f slot = some e.body.data
  named : ∃ e ∈ firstEntry (t.entries s).1 .version, version = GoString.trimSpace e.body.data
  row : ∃ st ∈ h'.row, st.lastVersion = version

/-- The outcome that the bytes alone decide. -/
def Tar.Outcome (t : Tar) (sha256 : Bytes → String) (slot : Slot) (expectSize : UInt64)
    (expectSHA256Hex : String) (s : Bytes) (h : Host) (res : Except Err (Slot × Bytes))
    (h' : Host) : Prop :=
  ((∃ x, res = .ok x) ↔ t.Accepts sha256 (h.slotBytes slot) expectSize expectSHA256Hex s) ∧
    ∀ x, res = .ok x → x.1 = slot ∧ t.Leaves s slot x.2 h h'

/-- A push at its beginning: nothing received, and the producer about to ask for a message. -/
def begin (svc : Service) (t : Tar) (fuel : Nat) (expectSize : UInt64) (expectSHA256Hex : String)
    (messages : List Message) (last : Bytes) (h : Host) :
    Pipe.State UInt8 Err Received Res Host (Except Err (Slot × Bytes)) :=
  ⟨.asks ⟨messages.map Message.bytes, last⟩, ⟨[], 0⟩, false,
    receive svc t fuel expectSize expectSHA256Hex, h⟩

section Outcome

variable {t : Tar} {sha256 : Bytes → String} {expectSize : UInt64} {expectSHA256Hex : String}
  {s : Bytes}

theorem add_add (g : Received) (a b : Bytes) : (g.add a).add b = g.add (a ++ b) := by
  simp [Received.add, UInt64.ofNat_add, UInt64.add_assoc]

theorem add_nil (g : Received) : g.add [] = g := by
  simp [Received.add]

theorem accepted_push {slotBytes : Int} (hlen : s.length < 2 ^ 64) :
    Accepted slotBytes (t.push sha256 expectSize expectSHA256Hex s) ↔
      t.Accepts sha256 slotBytes expectSize expectSHA256Hex s := by
  have hcount : (UInt64.ofNat s.length).toNat = s.length := UInt64.toNat_ofNat_of_lt' hlen
  have hsize : (expectSize.toNat = 0 ∨ (UInt64.ofNat s.length).toNat = expectSize.toNat) ↔
      (expectSize = 0 ∨ expectSize.toNat = s.length) := by
    rw [hcount, eq_comm (a := s.length)]
    have hzero : expectSize.toNat = (0 : UInt64).toNat ↔ expectSize = 0 := UInt64.toNat_inj
    exact or_congr_left hzero
  constructor
  · intro h; exact ⟨h.parses, h.members, h.fits, hsize.mp h.size, h.digest⟩
  · intro h; exact ⟨h.parses, h.members, h.fits, rfl, hsize.mpr h.size, h.digest⟩

theorem leaves_of_installed {slot : Slot} {version : Bytes} {h h' : Host}
    (hw : Written (t.push sha256 expectSize expectSHA256Hex s) slot h h')
    (hi : Installed (t.push sha256 expectSize expectSHA256Hex s) slot version h') :
    t.Leaves s slot version h h' := by
  have hentry : ∀ {m d}, d ∈ (t.push sha256 expectSize expectSHA256Hex s).member m →
      ∃ e ∈ firstEntry (t.entries s).1 m, e.body.data = d := Option.mem_map.mp
  refine ⟨?_, fun f => ?_, ?_, hi.row⟩
  · obtain ⟨d, hd, hroot⟩ := hw; obtain ⟨e, he, rfl⟩ := hentry hd; exact ⟨e, he, hroot⟩
  · obtain ⟨d, hd, hboot⟩ := hi.boot f
    obtain ⟨e, he, rfl⟩ := hentry hd
    exact ⟨e, he, hboot⟩
  · obtain ⟨d, hd, hversion⟩ := hi.named
    obtain ⟨e, he, rfl⟩ := hentry hd
    exact ⟨e, he, hversion⟩

theorem receiveBundle_outcome {svc : Service} {active : Slot} {h : Host}
    (hactive : svc.activeSlot = some active) (hrow : h.row ≠ none) (hlen : s.length < 2 ^ 64)
    (hclash : NoClash svc (t.push svc.sha256 expectSize expectSHA256Hex s) (otherSlot active) h) :
    (receiveBundle svc (t.push svc.sha256 expectSize expectSHA256Hex s)).Leads soundSem
      (t.Outcome svc.sha256 (otherSlot active) expectSize expectSHA256Hex s h) h := by
  have hgives := Prog.Safe.given (G := Sound) (gives_receiveBundle hactive hclash)
  by_cases ha : Accepted (h.slotBytes (otherSlot active))
      (t.push svc.sha256 expectSize expectSHA256Hex s)
  · refine Prog.Safe.mono ((succeeds_receiveBundle hactive hrow ha).and_gives hgives) ?_
    rintro _ h' ⟨x, rfl, -, -, hslot, hw, hi⟩
    refine ⟨iff_of_true ⟨x, rfl⟩ ((accepted_push hlen).mp ha), ?_⟩
    rintro _ ⟨⟩
    exact ⟨hslot, leaves_of_installed hw (hslot ▸ hi)⟩
  · refine Prog.Safe.mono hgives fun res h' hres => ⟨iff_of_false ?_ ?_, fun x hx => ?_⟩
    · rintro ⟨x, hx⟩; exact ha (hres x hx).1
    · exact mt (accepted_push hlen).mpr ha
    · exact absurd (hres x hx).1 ha

end Outcome

/-- However the bytes are divided into messages, and however the two ends of the pipe take turns,
the push ends with the outcome of the bytes. SHA-256 is defined for fewer than `2 ^ 64` bits, so
that the count does not wrap. -/
theorem bundle_outcome (svc : Service) (t : Tar) (active : Slot) (h : Host) (s : Bytes)
    (messages : List Message) (last : Bytes) (expectSize : UInt64) (expectSHA256Hex : String)
    (fuel : Nat) (refused : Err) (hactive : svc.activeSlot = some active) (hrow : h.row ≠ none)
    (hlen : s.length < 2 ^ 64) (hs : (messages.map Message.bytes).flatten ++ last = s)
    (hclash : NoClash svc (t.push svc.sha256 expectSize expectSHA256Hex s) (otherSlot active) h)
    (hfuel : s.length < fuel) :
    Ends Received.add refused soundSem
      (t.Outcome svc.sha256 (otherSlot active) expectSize expectSHA256Hex s h)
      (begin svc t fuel expectSize expectSHA256Hex messages last h) := by
  have hcomes : Comes Received.add ⟨s, UInt64.ofNat s.length⟩
      (.asks ⟨messages.map Message.bytes, last⟩ : Pipe.Writer UInt8 Err) ⟨[], 0⟩ := by
    refine ⟨?_, trivial⟩
    rw [Writer.ahead, Source.all, hs]
    simp [Received.add]
  have : Nonempty { e // Sound e } := ⟨Env.ok, rfl⟩
  refine Over.ends add_add add_nil _ hcomes ?_
  rw [Writer.rest, Source.all, hs]
  exact receive_simulates hfuel (receiveBundle_outcome hactive hrow hlen hclash)

/-- Read so many bytes, or to the end. -/
def readBytes : Nat → Reading UInt8 Bytes
  | 0 => .ret []
  | n + 1 => .call 1 fun r =>
    match r with
    | none => .ret []
    | some b => do
      let rest ← readBytes n
      return b ++ rest

theorem readBytes_reads (n : Nat) (rest : Bytes) :
    Reads (readBytes n) rest (rest.take n, rest.drop n) := by
  induction n generalizing rest with
  | zero => exact rfl
  | succ n ih =>
    refine ⟨Nat.one_pos, fun h => ?_, fun b rest' hb hlen h => ?_⟩
    · rw [h]; exact rfl
    · obtain ⟨a, rfl⟩ : ∃ a, b = [a] := by
        rw [← List.length_eq_one_iff]
        exact Nat.le_antisymm hlen (List.length_pos_iff.mpr hb)
      rw [h]
      exact Reads.bind (ih rest') rfl

def errShort : Err := .text "unexpected EOF"

/-- Two bytes: what the entry is, and its length. 255 ends the archive. -/
def tagHeader : Bytes → Next Nat
  | [] => .eof
  | [_] => .failed errShort
  | tag :: size :: _ =>
    let name := match tag with
      | 0 => "VERSION"
      | 1 => "vmlinuz"
      | 2 => "initramfs"
      | 3 => "rootfs.sqsh"
      | _ => "other"
    if tag = 255 then .eof else .entry name size.toNat size.toNat

def tagBody (n : Nat) (data : Bytes) : Reader :=
  ⟨data, if data.length = n then none else some errShort⟩

def tagged : Tar where
  State := Nat
  init := 0
  next _ := do
    let b ← readBytes 2
    return tagHeader b
  body n := do
    let b ← readBytes n
    return (tagBody n b, 0)
  nextOf _ rest := (tagHeader (rest.take 2), rest.drop 2)
  bodyOf n rest := ((tagBody n (rest.take n), 0), rest.drop n)
  next_reads _ rest := Reads.bind (readBytes_reads 2 rest) rfl
  body_reads n rest := Reads.bind (readBytes_reads n rest) rfl
  next_takes _ rest name size st rest' h := by
    match rest with
    | [] => cases h
    | [_] => cases h
    | a :: b :: rest => cases (Prod.mk.inj h).2; exact Nat.lt_add_of_pos_right Nat.two_pos

/-- Slot A runs; the digest is the length of what it is of. -/
def countingService : Service := ⟨some .a, fun d => "c" ++ toString d.length⟩

/-- Slots of four bytes, and the row a first boot stores. -/
def fourByteSlots : Host where
  rootfs := fun _ => [0, 0, 0, 0]
  boot := fun _ _ => none
  staging := fun _ => none
  slotBytes := fun _ => 4
  devPath := fun _ => ""
  grubDefault := .a
  osState := none
  memState := some (seed .a)
  onPerm := false
  timer := none
  down := false

/-- An unknown entry, a second kernel and a trailer among the members. -/
def taggedBytes : Bytes :=
  [3, 2, 7, 8, 1, 1, 5, 9, 1, 0, 2, 1, 6, 1, 1, 99, 0, 2, 49, 10, 255, 255, 42]

theorem accepts_tagged : tagged.Accepts countingService.sha256 4 23 "C23" taggedBytes where
  parses := by decide +kernel
  members m := by cases m <;> decide +kernel
  fits := by decide +kernel
  size := by decide
  digest := by decide +kernel

/-- The bytes in pieces, with a second metadata message, an empty chunk and one that comes with the
end. -/
theorem bundle_outcome_tagged :
    tagged.Accepts countingService.sha256 (fourByteSlots.slotBytes .b) 23 "C23" taggedBytes ∧
      Ends Received.add errShort soundSem
        (tagged.Outcome countingService.sha256 .b 23 "C23" taggedBytes fourByteSlots)
        (begin countingService tagged 24 23 "C23"
          [.chunk [3, 2, 7], .metadata, .chunk [8, 1, 1, 5, 9, 1, 0, 2, 1, 6, 1], .chunk [],
            .chunk [1, 99, 0, 2, 49, 10, 255]] [255, 42] fourByteSlots) :=
  ⟨accepts_tagged, bundle_outcome countingService tagged .a fourByteSlots taggedBytes
    [.chunk [3, 2, 7], .metadata, .chunk [8, 1, 1, 5, 9, 1, 0, 2, 1, 6, 1], .chunk [],
      .chunk [1, 99, 0, 2, 49, 10, 255]] [255, 42] 23 "C23" 24 errShort rfl (by decide) (by decide)
    rfl (fun _ _ h => by cases h) (by decide)⟩

end Capsule.Update.Stream
