import Capsule.Install.Installer

/-!
# Capsule.Install.CopyPartition

`CopyPartition` of `core/install/disklayout.go` on two disks of bytes. A read may be short at the
end of the source, and any operation may fail.

* `Copied`: the loop invariant. `done` bytes are copied, nothing else of the destination is changed,
  and what was told last is `tick`.
* `gives_copyLoop`: the loop keeps it, by induction on the chunks left.
* `copyPartition_copies_range`: a call that returns nil has copied exactly the range, as far as the
  source goes.
* `copyPartition_eq_expand`: the installer's `copyPartition` is this code on coarser operations.
-/

namespace Capsule.Install.Sectors

open Atomic Buffer

inductive Op where
  | openSrc (dev : String)
  | openDst (dev : String)
  | seekSrc (off : Nat)
  | seekDst (off : Nat)
  | readFull (want : Nat)
  | write (n : Nat)
  | sync
  | onProgress (done total : Nat)

@[reducible] def Res : Op → Type
  | .readFull _ => Read
  | .onProgress _ _ => Unit
  | _ => Except Err Unit

structure Disks where
  src : Bytes
  dst : Bytes
  srcPos : Nat := 0
  dstPos : Nat := 0
  buf : Bytes := []
  /-- What `onProgress` was called with, in order. -/
  told : List (Nat × Nat) := []

/-- An operation that fails has read or written this many bytes. -/
structure Env where
  fault : Option (Nat × String) := none

def Env.answer (e : Env) : Except Err Unit :=
  match e.fault with
  | none => .ok ()
  | some (_, m) => .error (.text m)

/-- The bytes come from where the source is read next. -/
def Disks.read (s : Disks) (n : Nat) : Disks :=
  { s with buf := slice s.src s.srcPos n, srcPos := s.srcPos + (slice s.src s.srcPos n).length }

def Disks.write (s : Disks) (data : Bytes) : Disks :=
  { s with dst := put s.dst s.dstPos data, dstPos := s.dstPos + data.length }

def sem : Sem Op Res Disks Env
  | .openSrc _, e, s => ({ s with srcPos := 0 }, e.answer)
  | .openDst _, e, s => ({ s with dstPos := 0 }, e.answer)
  | .seekSrc off, e, s => ({ s with srcPos := off }, e.answer)
  | .seekDst off, e, s => ({ s with dstPos := off }, e.answer)
  | .readFull want, e, s =>
    match e.fault with
    | some (n, m) => (s.read (min n want), .failed (s.read (min n want)).buf.length (.text m))
    | none =>
      (s.read want,
        if (s.read want).buf.length = want then .full else .eof (s.read want).buf.length)
  | .write n, e, s =>
    let data := s.buf.take n
    let room := s.dst.length - s.dstPos
    match e.fault with
    | some (k, m) => (s.write ((data.take k).take room), .error (.text m))
    | none =>
      if data.length ≤ room then (s.write data, .ok ())
      else (s.write (data.take room), .error (.text "no space left on device"))
  | .sync, e, s => (s, e.answer)
  | .onProgress done total, _, s => ({ s with told := s.told ++ [(done, total)] }, ())

abbrev Code := Prog Op Res

@[simp] def perform (o : Op) : Code (Res o) := .call o .ret

def tell (onProgress : Bool) (total copied tick : Nat) : Code Nat :=
  if onProgress = true ∧ 16 * 1024 * 1024 ≤ copied - tick then do
    perform (.onProgress copied total)
    return copied
  else return tick

/-- `n` bytes were read. -/
def copied (onProgress : Bool) (total done tick n : Nat) : Code (Except Err Nat) :=
  if 0 < n then
    ((perform (.write n)).mapErr (Err.ctx "write dst")).thenOk fun _ => do
      return .ok (← tell onProgress total (done + n) tick)
  else return .ok tick

/-- The loop, for at most so many chunks. -/
def copyLoop (onProgress : Bool) (total : Nat) : Nat → Nat → Nat → Code (Except Err Nat)
  | 0, done, _ => return .ok done
  | chunks + 1, done, tick =>
    if done < total then do
      let want := min chunkBytes (total - done)
      match ← perform (.readFull want) with
      | .full =>
        (copied onProgress total done tick want).thenOk
          (copyLoop onProgress total chunks (done + want))
      | .eof n => (copied onProgress total done tick n).thenOk fun _ => return .ok (done + n)
      | .failed n e =>
        (copied onProgress total done tick n).thenOk fun _ => return .error (e.ctx "read src")
    else return .ok done

/-- The body of `CopyPartition`, on positions in bytes. -/
def copyBytes (srcDev : String) (srcOff : Nat) (dstDev : String) (dstOff total : Nat)
    (onProgress : Bool) : Code (Except Err Unit) :=
  ((perform (.openSrc srcDev)).mapErr (Err.ctx ("open src " ++ srcDev))).thenOk fun _ =>
    ((perform (.openDst dstDev)).mapErr (Err.ctx ("open dst " ++ dstDev))).thenOk fun _ =>
      ((perform (.seekSrc srcOff)).mapErr (Err.ctx "seek src")).thenOk fun _ =>
        ((perform (.seekDst dstOff)).mapErr (Err.ctx "seek dst")).thenOk fun _ =>
          (copyLoop onProgress total (total / chunkBytes + 1) 0 0).thenOk fun done =>
            ((perform .sync).mapErr (Err.ctx "sync dst")).thenOk fun _ => do
              if onProgress then perform (.onProgress done total)
              return .ok ()

/-- `CopyPartition`; the flag says whether there is an `onProgress`. -/
def copyPartition (srcDev : String) (srcStart : UInt32) (dstDev : String) (dstStart count : UInt32)
    (onProgress : Bool) : Code (Except Err Unit) :=
  copyBytes srcDev (srcStart.toNat * sectorSize) dstDev (dstStart.toNat * sectorSize)
    (count.toNat * sectorSize) onProgress

section Loop

variable {src dst : Bytes} {a b total done tick n : Nat} {s : Disks} {onProgress : Bool}

/-- `done` bytes are copied from `a` on to `b` on, and `tick` of them were told last. -/
structure Copied (src dst : Bytes) (a b total : Nat) (onProgress : Bool) (done tick : Nat)
    (s : Disks) : Prop where
  src_eq : s.src = src
  srcPos : s.srcPos = a + done
  dstPos : s.dstPos = b + done
  dst_eq : s.dst = put dst b (slice src a done)
  available : done ≤ src.length - a
  room : 0 < done → b + done ≤ dst.length
  le_total : done ≤ total
  tick_le : tick ≤ done
  sorted : (s.told.map Prod.fst).Pairwise (· ≤ ·)
  told : ∀ x ∈ s.told, x.1 ≤ tick ∧ x.2 = total
  quiet : onProgress = false → s.told = []

theorem Copied.buf_read (h : Copied src dst a b total onProgress done tick s) :
    (s.read n).buf = slice src (a + done) n := by
  simp only [Disks.read, h.src_eq, h.srcPos]

theorem Copied.length_read (h : Copied src dst a b total onProgress done tick s) :
    (s.read n).buf.length = min n (src.length - (a + done)) := by
  rw [h.buf_read, length_slice]

theorem Copied.length_slice (h : Copied src dst a b total onProgress done tick s) :
    (slice src a done).length = done := by
  have := h.available
  rw [Buffer.length_slice]
  omega

theorem Copied.length_dst (h : Copied src dst a b total onProgress done tick s) :
    s.dst.length = dst.length := by
  rw [h.dst_eq]
  rcases Nat.eq_zero_or_pos done with hdone | hdone
  · rw [hdone, slice, List.take_zero, put_nil]
  · exact length_put (h.length_slice.symm ▸ h.room hdone)

theorem Copied.write (h : Copied src dst a b total onProgress done tick s) {k : Nat}
    (hk : (s.read n).buf.length = k) (htotal : done + k ≤ total) (hpos : 0 < k)
    (hfit : k ≤ s.dst.length - s.dstPos) :
    Copied src dst a b total onProgress (done + k) tick ((s.read n).write (s.read n).buf) := by
  have hlen := h.length_slice
  have hread := h.length_read (n := n)
  rw [h.length_dst, h.dstPos] at hfit
  refine ⟨h.src_eq, ?_, ?_, ?_, ?_, fun _ => by omega, htotal, ?_, h.sorted, h.told, h.quiet⟩
  · change s.srcPos + (s.read n).buf.length = _; rw [h.srcPos, hk, Nat.add_assoc]
  · change s.dstPos + (s.read n).buf.length = _; rw [h.dstPos, hk, Nat.add_assoc]
  · change put s.dst s.dstPos (s.read n).buf = _
    have hbuf : (s.read n).buf = slice src (a + done) k := by
      rw [← hk, h.buf_read, slice_length]
    have hjoin : put (put dst b (slice src a done)) (b + (slice src a done).length)
        (slice src (a + done) k) = put dst b (slice src a done ++ slice src (a + done) k) :=
      put_put_append (by omega)
    rw [hlen, slice_append] at hjoin
    rw [h.dst_eq, h.dstPos, hbuf, hjoin]
  · have := h.available
    omega
  · have := h.tick_le
    omega

theorem Copied.tell (h : Copied src dst a b total onProgress done tick s)
    (hon : onProgress = true) :
    Copied src dst a b total onProgress done done
      { s with told := s.told ++ [(done, total)] } := by
  refine ⟨h.src_eq, h.srcPos, h.dstPos, h.dst_eq, h.available, h.room, h.le_total, Nat.le_refl _,
    ?_, ?_, fun hoff => by rw [hon] at hoff; cases hoff⟩
  · rw [List.map_append, List.pairwise_append]
    refine ⟨h.sorted, List.pairwise_singleton _ _, ?_⟩
    intro x hx y hy
    obtain ⟨z, hz, rfl⟩ := List.mem_map.mp hx
    cases List.mem_singleton.mp hy
    exact (h.told z hz).1.trans h.tick_le
  · intro x hx
    rcases List.mem_append.mp hx with hx | hx
    · exact ⟨(h.told x hx).1.trans h.tick_le, (h.told x hx).2⟩
    · cases List.mem_singleton.mp hx; exact ⟨Nat.le_refl _, rfl⟩

theorem gives_copied (h : Copied src dst a b total onProgress done tick s) {k : Nat}
    (hk : (s.read n).buf.length = k) (htotal : done + k ≤ total) :
    (copied onProgress total done tick k).Gives sem
      (fun tick s => Copied src dst a b total onProgress (done + k) tick s) (s.read n) := by
  unfold copied
  refine Prog.gives_ite ?_ ?_
  · intro hpos
    refine .thenOk (Q := fun _ s =>
      Copied src dst a b total onProgress (done + k) tick s) (.mapErr ?_) ?_
    · refine Prog.gives_call.mpr fun e => ?_
      have htake : (s.read n).buf.take k = (s.read n).buf := hk ▸ List.take_length
      simp only [sem, htake]
      split
      · exact Prog.gives_error
      · split
        · rename_i hfit; exact Prog.gives_ok.mpr (h.write hk htotal hpos (hk ▸ hfit))
        · exact Prog.gives_error
    · intro _ s' h'
      unfold tell
      split
      · rename_i hon; exact Prog.gives_call.mpr fun e => Prog.gives_ok.mpr (h'.tell hon.1)
      · exact Prog.gives_ok.mpr h'
  · intro hzero
    obtain rfl : k = 0 := by omega
    refine Prog.gives_ok.mpr ⟨h.src_eq, ?_, h.dstPos, h.dst_eq, h.available, h.room, h.le_total,
      h.tick_le, h.sorted, h.told, h.quiet⟩
    change s.srcPos + (s.read n).buf.length = _
    rw [hk, h.srcPos]
    rfl

theorem gives_copyLoop {chunks : Nat} (h : Copied src dst a b total onProgress done tick s)
    (hchunks : total - done ≤ chunks * chunkBytes) :
    (copyLoop onProgress total chunks done tick).Gives sem
      (fun done s => done = min total (src.length - a) ∧
        ∃ tick, Copied src dst a b total onProgress done tick s) s := by
  induction chunks generalizing done tick s with
  | zero =>
    have havail := h.available
    have hle := h.le_total
    exact Prog.gives_ok.mpr ⟨by omega, tick, h⟩
  | succ chunks ih =>
    have havail := h.available
    have hle := h.le_total
    rw [copyLoop]
    refine Prog.gives_ite ?_ ?_
    · intro hlt
      have hwant : 0 < min chunkBytes (total - done) := by
        unfold chunkBytes; omega
      generalize hw : min chunkBytes (total - done) = want at hwant
      have hlen := h.length_read (n := want)
      have hstep : done + (s.read want).buf.length ≤ total := by omega
      have hpass := gives_copied h rfl hstep
      refine Prog.gives_call.mpr fun e => ?_
      rcases e with ⟨_ | ⟨m, text⟩⟩
      · by_cases hfull : (s.read want).buf.length = want
        · simp only [Prog.pure_eq_ret, sem, if_pos hfull]
          rw [hfull] at hpass
          refine hpass.thenOk fun tick' s' h' => ih h' ?_
          rw [Nat.succ_mul] at hchunks
          omega
        · simp only [Prog.pure_eq_ret, sem, if_neg hfull]
          refine hpass.thenOk fun tick' s' h' => Prog.gives_ok.mpr ⟨?_, tick', h'⟩
          omega
      · exact (Prog.gives_true _ _).thenOk fun _ _ _ => Prog.gives_error
    · intro hend; exact Prog.gives_ok.mpr ⟨by omega, tick, h⟩

end Loop

/-! ## The whole copy -/

theorem gives_answer {s : Disks} {Q : Unit → Disks → Prop} (e : Env) (h : Q () s) :
    (.ret e.answer : Code (Except Err Unit)).Gives sem Q s := by
  unfold Env.answer
  split
  · exact Prog.gives_ok.mpr h
  · exact Prog.gives_error

section Whole

variable {src dst : Bytes} {a b total m tick : Nat} {s : Disks} {onProgress : Bool}

theorem gives_copyBytes (srcDev dstDev : String) (src dst : Bytes) (a b total : Nat)
    (onProgress : Bool) :
    (copyBytes srcDev a dstDev b total onProgress).Gives sem
      (fun _ s => ∃ m tick, m = min total (src.length - a) ∧
        Copied src dst a b total onProgress m tick s ∧
        (onProgress = true → s.told.getLast? = some (m, total))) { src, dst } := by
  unfold copyBytes
  refine .thenOk (Q := fun _ s => s = { src, dst })
    (.mapErr (Prog.gives_call.mpr fun e => gives_answer e rfl)) ?_
  rintro _ _ rfl
  refine .thenOk (Q := fun _ s => s = { src, dst })
    (.mapErr (Prog.gives_call.mpr fun e => gives_answer e rfl)) ?_
  rintro _ _ rfl
  refine .thenOk (Q := fun _ s => s = { src, dst, srcPos := a })
    (.mapErr (Prog.gives_call.mpr fun e => gives_answer e rfl)) ?_
  rintro _ _ rfl
  refine .thenOk (Q := fun _ s => s = { src, dst, srcPos := a, dstPos := b })
    (.mapErr (Prog.gives_call.mpr fun e => gives_answer e rfl)) ?_
  rintro _ _ rfl
  have hstart : Copied src dst a b total onProgress 0 0 { src, dst, srcPos := a, dstPos := b } := by
    refine ⟨rfl, rfl, rfl, ?_, Nat.zero_le _, fun h => absurd h (Nat.lt_irrefl 0), Nat.zero_le _,
      Nat.le_refl _, List.Pairwise.nil, fun x hx => absurd hx List.not_mem_nil, fun _ => rfl⟩
    rw [slice, List.take_zero, put_nil]
  have hchunks : total - 0 ≤ (total / chunkBytes + 1) * chunkBytes := by
    have hlt := Nat.lt_div_mul_add (a := total) (b := chunkBytes) (by decide)
    rw [Nat.add_mul, Nat.one_mul]
    omega
  refine (gives_copyLoop hstart hchunks).thenOk ?_
  rintro m s ⟨hm, tick, h⟩
  refine .thenOk (Q := fun _ s' => s' = s)
    (.mapErr (Prog.gives_call.mpr fun e => gives_answer e rfl)) ?_
  rintro _ _ rfl
  cases onProgress with
  | false => exact Prog.gives_ok.mpr ⟨m, tick, hm, h, fun hon => by cases hon⟩
  | true =>
    refine Prog.gives_call.mpr fun e => Prog.gives_ok.mpr ⟨m, m, hm, h.tell rfl, fun _ => ?_⟩
    exact List.getLast?_concat

theorem Copied.slice_dst (h : Copied src dst a b total onProgress m tick s) :
    slice s.dst b m = slice src a m := by
  have hlen := h.length_slice
  rcases Nat.eq_zero_or_pos m with hzero | hpos
  · rw [hzero, slice, slice, List.take_zero, List.take_zero]
  · have hroom := h.room hpos
    have hin : slice (put dst b (slice src a m)) (b + 0) m = slice (slice src a m) 0 m :=
      slice_put_inside (by omega) (by omega)
    rw [Nat.add_zero] at hin
    rw [h.dst_eq, hin, slice, List.drop_zero]
    exact List.take_of_length_le (by omega)

theorem Copied.dst_outside (h : Copied src dst a b total onProgress m tick s) {i : Nat}
    (hi : i < b ∨ b + m ≤ i) : s.dst[i]? = dst[i]? := by
  have hlen := h.length_slice
  rw [h.dst_eq]
  rcases Nat.eq_zero_or_pos m with hzero | hpos
  · rw [hzero, slice, List.take_zero, put_nil]
  · have hroom := h.room hpos
    rcases hi with hi | hi
    · exact getElem?_put_before hi (by omega)
    · exact getElem?_put_after (by omega) (by omega)

end Whole

/-- `CopyPartition` returned without an error: the range is copied, nothing else is touched, and
what was told goes up to the bytes copied. -/
theorem copyPartition_copies_range (srcDev dstDev : String) (srcStart dstStart count : UInt32)
    (onProgress : Bool) (src dst : Bytes) (es : Nat → Env) (s : Disks)
    (h : (copyPartition srcDev srcStart dstDev dstStart count onProgress).complete sem es
      { src, dst } = (s, .ok ())) :
    ∃ m total, total = count.toNat * sectorSize ∧
      m = min total (src.length - srcStart.toNat * sectorSize) ∧
      s.src = src ∧ s.dst.length = dst.length ∧
      slice s.dst (dstStart.toNat * sectorSize) m = slice src (srcStart.toNat * sectorSize) m ∧
      (∀ i, i < dstStart.toNat * sectorSize ∨ dstStart.toNat * sectorSize + m ≤ i →
        s.dst[i]? = dst[i]?) ∧
      (onProgress = false → s.told = []) ∧
      (onProgress = true →
        (s.told.map Prod.fst).Pairwise (· ≤ ·) ∧ (∀ x ∈ s.told, x.1 ≤ total ∧ x.2 = total) ∧
          s.told.getLast? = some (m, total)) := by
  have hgives := (gives_copyBytes srcDev dstDev src dst (srcStart.toNat * sectorSize)
    (dstStart.toNat * sectorSize) (count.toNat * sectorSize) onProgress).complete es
  rw [copyPartition] at h
  rw [h] at hgives
  obtain ⟨m, tick, hm, hcopied, hlast⟩ := hgives () rfl
  refine ⟨m, _, rfl, hm, hcopied.src_eq, hcopied.length_dst, hcopied.slice_dst,
    fun i hi => hcopied.dst_outside hi, hcopied.quiet, fun hon => ⟨hcopied.sorted, ?_, hlast hon⟩⟩
  intro x hx
  have hx := hcopied.told x hx
  exact ⟨(hx.1.trans hcopied.tick_le).trans hcopied.le_total, hx.2⟩

/-- The source ends three bytes into the sector that is asked for. -/
theorem copyPartition_copies_range_short :
    ∃ s, (copyPartition "/dev/sda1" 0 "/dev/sdb1" 0 1 true).complete sem (fun _ => {})
        { src := [1, 2, 3], dst := [0, 0, 0, 9] } = (s, .ok ()) ∧
      s.told.getLast? = some (3, 512) ∧ s.dst = [1, 2, 3, 9] := by
  have hrun : (copyPartition "/dev/sda1" 0 "/dev/sdb1" 0 1 true).complete sem (fun _ => {})
      { src := [1, 2, 3], dst := [0, 0, 0, 9] } =
      (⟨[1, 2, 3], [1, 2, 3, 9], 3, 3, [1, 2, 3], [(3, 512)]⟩, .ok ()) := by
    rfl
  obtain ⟨m, total, htotal, hm, -, -, -, -, -, hon⟩ :=
    copyPartition_copies_range "/dev/sda1" "/dev/sdb1" 0 0 1 true [1, 2, 3] [0, 0, 0, 9] _ _ hrun
  refine ⟨_, hrun, ?_, rfl⟩
  have htotal : total = 512 := by rw [htotal]; decide
  have hm : m = 3 := by rw [hm, htotal]; decide
  have hlast := (hon rfl).2.2
  rw [hm, htotal] at hlast
  exact hlast

/-- What the installer does for each operation. -/
def inInstall (onProgress : Nat → Nat → Install.Code Unit) :
    (o : Op) → Install.Code (Res o)
  | .openSrc dev => Install.perform (.copySetup (.openSrc dev))
  | .openDst dev => Install.perform (.copySetup (.openDst dev))
  | .seekSrc _ => Install.perform (.copySetup .seekSrc)
  | .seekDst _ => Install.perform (.copySetup .seekDst)
  | .readFull want => Install.perform (.readChunk want)
  | .write n => Install.perform (.writeChunk n)
  | .sync => Install.perform .syncCopy
  | .onProgress done total => onProgress done total

section Expand

variable (onProgress : Nat → Nat → Install.Code Unit)

theorem expand_tell (total copied tick : Nat) :
    (tell true total copied tick).expand (inInstall onProgress) =
      Install.tell onProgress total copied tick := by
  unfold tell Install.tell
  simp only [true_and]
  split <;> rfl

theorem expand_copied (total done tick n : Nat) :
    (copied true total done tick n).expand (inInstall onProgress) =
      Install.copied onProgress total done tick n := by
  unfold copied Install.copied
  split
  · rw [Prog.expand_thenOk]
    refine congrArg (Prog.thenOk _) (funext fun _ => ?_)
    rw [Prog.expand_bind, expand_tell]
    rfl
  · rfl

theorem expand_copyLoop (total chunks done tick : Nat) :
    (copyLoop true total chunks done tick).expand (inInstall onProgress) =
      Install.copyLoop onProgress total chunks done tick := by
  induction chunks generalizing done tick with
  | zero => rfl
  | succ chunks ih =>
    unfold copyLoop Install.copyLoop
    split
    · rw [Prog.expand_bind]
      refine congrArg (Install.perform (.readChunk _) >>= ·) (funext fun r => ?_)
      cases r with
      | full =>
        dsimp only
        rw [Prog.expand_thenOk, expand_copied]
        exact congrArg (Prog.thenOk _) (funext fun tick => ih _ _)
      | eof n | failed n e => dsimp only; rw [Prog.expand_thenOk, expand_copied]; rfl
    · rfl

theorem copyPartition_eq_expand (srcDev dstDev : String) (count : UInt32) :
    Install.copyPartition srcDev dstDev count onProgress =
      (copyPartition srcDev 0 dstDev 0 count true).expand (inInstall onProgress) := by
  unfold Install.copyPartition copyPartition copyBytes
  simp only [Prog.expand_thenOk, expand_copyLoop]
  rfl

end Expand

end Capsule.Install.Sectors
