import Capsule.Atomic.Monitor
import Capsule.Update.Service

/-!
# Capsule.Update.Discipline

What each piece of update code may do to the machine, and what therefore holds after it has
run, whole or cut by a power loss.

* `Rights`: the slot a piece of code may write, and where it may flip the GRUB default to.
  `receiveBundle_obeys`, `confirm_obeys`, `onStartup_obeys` and `deadlineExpired_obeys` hold each
  piece to its own.
* `Track`: the host reached, against the one it started on. `Track.step` keeps it, and `Track.exec`
  is the rule for a run.
-/

namespace Capsule.Update

open Atomic

/-- What a slot boots: the rootfs partition and its two files on the boot partition. -/
structure Image where
  rootfs : Bytes
  vmlinuz : Option Bytes
  initramfs : Option Bytes
  deriving DecidableEq

def Host.image (h : Host) (slot : Slot) : Image :=
  ⟨h.rootfs slot, h.boot .vmlinuz slot, h.boot .initramfs slot⟩

/-- The operation changes what `slot` boots. -/
def Op.Writes (slot : Slot) : Op → Prop
  | .writeBlockDevice t _ => t = slot
  | .writeBoot _ t _ => t = slot
  | _ => False

structure Phase where
  /-- The answer to `stateGet`: no row, or this row. -/
  read : Option (Option OSState) := none
  /-- The last answer to `now`. -/
  clock : Option Int := none
  /-- `statePut` has been issued. -/
  put : Bool := false
  /-- A store call was answered with an error. -/
  failed : Bool := false
  /-- The GRUB default that was set. -/
  flipped : Option Slot := none
  rebooted : Bool := false

@[simp] def Phase.next (g : Phase) : (o : Op) → Res o → Phase
  | .stateGet, .ok st => { g with read := some (some st) }
  | .stateGet, .error e =>
    { g with read := if e.is .notFound then some none else g.read, failed := true }
  | .statePut _, .ok _ => { g with put := true }
  | .statePut _, .error _ => { g with put := true, failed := true }
  | .now, t => { g with clock := some t }
  | .rewriteGrubDefault slot, .ok _ => { g with flipped := some slot }
  | .reboot, _ => { g with rebooted := true }
  | _, _ => g

/-- What code returning an `α` may do. -/
structure Rights (α : Type) where
  write : Slot → Prop
  /-- The phases in which it may use the store and the clock. -/
  store : Phase → Prop
  grub : Phase → Slot → Prop
  put : Phase → OSState → Prop
  /-- What holds when it returns. -/
  done : Phase → α → Prop

@[simp] def Rights.ok {α : Type} (R : Rights α) (g : Phase) : Op → Prop
  | .sqliteOpen => False
  | .writeBlockDevice t _ => R.write t
  | .writeBoot _ t _ => R.write t
  | .rewriteGrubDefault t => R.grub g t
  | .stateGet => g.put = false ∧ R.store g
  | .statePut st => g.put = false ∧ R.store g ∧ R.put g st
  | .now => R.store g
  | _ => True

def monitor {α : Type} (R : Rights α) : Monitor Op Res α Phase := ⟨R.ok, Phase.next, R.done⟩

section Monitor

variable {α : Type} {R : Rights α}

@[simp] theorem monitor_ok : (monitor R).ok = R.ok := rfl

@[simp] theorem monitor_next : (monitor R).next = Phase.next := rfl

@[simp] theorem monitor_fin : (monitor R).fin = R.done := rfl

end Monitor

/-- What the code has read is the row that was there when it started. -/
def Seen (h₀ : Host) (g : Phase) : Prop := ∀ r, g.read = some r → h₀.osState = r

/-- The host `h` reached in phase `g` by code with rights `R` that started on `h₀`. -/
structure Track {α : Type} (R : Rights α) (h₀ : Host) (g : Phase) (h : Host) : Prop where
  onPerm : h.onPerm = true
  image : ∀ t, ¬ R.write t → h.image t = h₀.image t
  read : Seen h₀ g
  noPut : g.put = false → h.osState = h₀.osState
  put : g.put = true → (g.failed = true ∧ h.osState = h₀.osState) ∨
    ∃ g₁ st, R.put g₁ st ∧ Seen h₀ g₁ ∧ h.osState = some st
  grub : h.grubDefault = g.flipped.getD h₀.grubDefault
  flip : ∀ t, g.flipped = some t → ∃ g₁, R.grub g₁ t ∧ Seen h₀ g₁
  down : h.down = g.rebooted

theorem image_setRootfs {h : Host} {s t : Slot} {d : Bytes} (hne : t ≠ s) :
    (h.setRootfs s d).image t = h.image t := by
  simp [Host.image, Host.setRootfs, Function.update_of_ne hne]

theorem image_setBoot {h : Host} {f : BootFile} {s t : Slot} {d : Bytes} (hne : t ≠ s) :
    (h.setBoot f s d).image t = h.image t := by
  cases f <;> simp [Host.image, Host.setBoot, Function.update_of_ne hne]

theorem sem_stateGet {h : Host} (hp : h.onPerm = true) (e : Env) :
    sem .stateGet e h = (h, match e.fault with
      | some m => .error (.text m)
      | none => match h.osState with
        | some st => .ok st
        | none => .error (.sentinel .notFound)) := by
  simp only [sem, Host.row, hp]
  cases e.fault <;> cases h.osState <;> rfl

theorem sem_statePut {h : Host} (hp : h.onPerm = true) (st : OSState) (e : Env) :
    sem (.statePut st) e h = match e.fault with
      | some m => (h, .error (.text m))
      | none => ({ h with osState := some st }, .ok ()) := by
  simp only [sem, Host.setRow, hp]
  cases e.fault <;> rfl

section Step

variable {α : Type} {R : Rights α} {h₀ h h' : Host} {g : Phase}

theorem Track.start (hp : h.onPerm = true) (hd : h.down = false) : Track R h {} h where
  onPerm := hp
  image _ _ := rfl
  read _ hr := by cases hr
  noPut _ := rfl
  put hr := by cases hr
  grub := rfl
  flip _ hr := by cases hr
  down := hd

theorem Track.frame (ht : Track R h₀ g h) (h1 : h'.onPerm = h.onPerm)
    (h2 : ∀ t, ¬ R.write t → h'.image t = h.image t) (h3 : h'.osState = h.osState)
    (h4 : h'.grubDefault = h.grubDefault) (h5 : h'.down = h.down) : Track R h₀ g h' where
  onPerm := h1 ▸ ht.onPerm
  image t hw := (h2 t hw).trans (ht.image t hw)
  read := ht.read
  noPut hp := h3 ▸ ht.noPut hp
  put hp := h3 ▸ ht.put hp
  grub := h4 ▸ ht.grub
  flip := ht.flip
  down := h5 ▸ ht.down

theorem Track.step_writeBlockDevice (ht : Track R h₀ g h) {slot : Slot} (r : Reader) (e : Env)
    (hw : R.write slot) : Track R h₀ g (sem (.writeBlockDevice slot r) e h).1 := by
  have himg : ∀ d t, ¬ R.write t → (h.setRootfs slot d).image t = h.image t :=
    fun d t hn => image_setRootfs fun he => hn (he ▸ hw)
  simp only [sem]
  split
  · exact ht.frame rfl (himg _) rfl rfl rfl
  · exact ht.frame rfl (himg _) rfl rfl rfl
  · exact ht

theorem Track.step_writeBoot (ht : Track R h₀ g h) (f : BootFile) {slot : Slot} (d : Bytes)
    (e : Env) (hw : R.write slot) : Track R h₀ g (sem (.writeBoot f slot d) e h).1 := by
  have himg : ∀ d t, ¬ R.write t → (h.setBoot f slot d).image t = h.image t :=
    fun d t hn => image_setBoot fun he => hn (he ▸ hw)
  simp only [sem]
  split
  · exact ht.frame rfl (himg _) rfl rfl rfl
  · exact ht.frame rfl (himg _) rfl rfl rfl
  · exact ht

theorem Track.step_stateGet (ht : Track R h₀ g h) (e : Env) (hput : g.put = false) :
    Track R h₀ (g.next .stateGet (sem .stateGet e h).2) (sem .stateGet e h).1 := by
  have hrow := ht.noPut hput
  rw [sem_stateGet ht.onPerm, hrow]
  cases e.fault with
  | some m => exact { ht with put := fun hp => absurd (hput.symm.trans hp) Bool.false_ne_true }
  | none =>
    cases hst : h₀.osState with
    | some st => exact { ht with read := fun r hr => by cases hr; exact hst }
    | none =>
      exact { ht with
        read := fun r hr => by cases hr; exact hst
        put := fun hp => absurd (hput.symm.trans hp) Bool.false_ne_true }

theorem Track.step_statePut (ht : Track R h₀ g h) {st : OSState} (e : Env)
    (hput : g.put = false) (hst : R.put g st) :
    Track R h₀ (g.next (.statePut st) (sem (.statePut st) e h).2) (sem (.statePut st) e h).1 := by
  rw [sem_statePut ht.onPerm]
  cases e.fault with
  | some m =>
    exact { ht with
      noPut := fun hp => by cases hp
      put := fun _ => .inl ⟨rfl, ht.noPut hput⟩ }
  | none =>
    exact { ht with
      noPut := fun hp => by cases hp
      put := fun _ => .inr ⟨g, st, hst, ht.read, rfl⟩ }

theorem Track.step_rewriteGrubDefault (ht : Track R h₀ g h) {slot : Slot} (e : Env)
    (hg : R.grub g slot) :
    Track R h₀ (g.next (.rewriteGrubDefault slot) (sem (.rewriteGrubDefault slot) e h).2)
      (sem (.rewriteGrubDefault slot) e h).1 := by
  simp only [sem]
  split
  · exact { ht with
      grub := rfl
      flip := fun t hf => by cases hf; exact ⟨g, hg, ht.read⟩ }
  · exact ht

theorem Track.step (ht : Track R h₀ g h) (o : Op) (e : Env) (hok : (monitor R).ok g o) :
    Track R h₀ (g.next o (sem o e h).2) (sem o e h).1 := by
  cases o with
  | sqliteOpen => exact absurd hok id
  | removeStaging =>
    simp only [sem]
    split
    · exact ht.frame rfl (fun _ _ => rfl) rfl rfl rfl
    · exact ht
  | mkdirStaging => exact ht
  | findPartition n => exact ht
  | blockDeviceSize slot => exact ht
  | writeStaging f r =>
    simp only [sem]
    split
    · exact ht.frame rfl (fun _ _ => rfl) rfl rfl rfl
    · exact ht.frame rfl (fun _ _ => rfl) rfl rfl rfl
    · exact ht
  | writeBlockDevice slot r => exact ht.step_writeBlockDevice r e hok
  | mountBoot => exact ht
  | umountBoot => exact ht
  | readStaging f => exact ht
  | readBoot f slot => exact ht
  | writeBoot f slot d => exact ht.step_writeBoot f d e hok
  | rewriteGrubDefault slot => exact ht.step_rewriteGrubDefault e hok
  | stateGet => exact ht.step_stateGet e hok.1
  | statePut st => exact ht.step_statePut e hok.1 hok.2.2
  | now => exact { ht with }
  | afterFunc d => exact ht.frame rfl (fun _ _ => rfl) rfl rfl rfl
  | stopTimer => exact ht.frame rfl (fun _ _ => rfl) rfl rfl rfl
  | reboot => exact { ht with down := rfl }

theorem Track.row_cases (ht : Track R h₀ g h) :
    h.osState = h₀.osState ∨ ∃ g₁ st, R.put g₁ st ∧ Seen h₀ g₁ ∧ h.osState = some st := by
  cases hp : g.put with
  | false => exact .inl (ht.noPut hp)
  | true => exact (ht.put hp).imp And.right id

theorem Track.grub_cases (ht : Track R h₀ g h) :
    (g.flipped = none ∧ h.grubDefault = h₀.grubDefault) ∨
      ∃ g₁, g.flipped ≠ none ∧ R.grub g₁ h.grubDefault ∧ Seen h₀ g₁ := by
  cases hf : g.flipped with
  | none => exact .inl ⟨rfl, by rw [ht.grub, hf]; rfl⟩
  | some t =>
    obtain ⟨g₁, hg, hseen⟩ := ht.flip t hf
    have ht' : h.grubDefault = t := by rw [ht.grub, hf]; rfl
    exact .inr ⟨g₁, Option.some_ne_none t, ht' ▸ hg, hseen⟩

theorem Track.exec {p : Code α} (hob : p.Obeys (monitor R) {}) (hp : h.onPerm = true)
    (hd : h.down = false) (es : List Env) :
    ∃ g, Track R h g (p.exec sem es h).st ∧
      ∀ a, (p.exec sem es h).val = some a → R.done g a :=
  hob.exec (fun _ _ o e ht hok => ht.step o e hok) (.start hp hd) es

end Step

/-! ## The rights of each piece of code -/

/-- A push writes only the slot it is not running from, and uses the store only after it has
flipped the GRUB default. -/
def pushRights (active : Slot) : Rights (Except Err (Slot × Bytes)) where
  write t := t = otherSlot active
  store g := g.flipped ≠ none
  grub _ t := t = otherSlot active
  put g st := ∃ prev t v, g.read = some (some prev) ∧ g.clock = some t ∧
    st = { prev with pendingSlot := some (otherSlot active),
                     pendingDeadlineUnix := t + defaultDeadline, lastVersion := v }
  done g _ := g.flipped ≠ none → g.put = true ∨ g.failed = true

def confirmRights (active : Slot) : Rights (Except Err (Slot × Bytes)) where
  write _ := False
  store _ := True
  grub _ _ := False
  put g st := ∃ prev, g.read = some (some prev) ∧ prev.pendingSlot = some active ∧
    st = { prev with pendingSlot := none, pendingDeadlineUnix := 0,
                     lastGoodSlot := prev.activeSlot }
  done _ _ := True

/-- `OnStartup` and the deadline callback flip the GRUB default only to `LastGoodSlot` of a
pending row, and reboot after it. -/
def startupRights (active : Slot) : Rights (Except Err Unit) where
  write _ := False
  store _ := True
  grub g t := ∃ prev, g.read = some (some prev) ∧ prev.pendingSlot = some active ∧
    t = prev.lastGoodSlot
  put g st := (g.read = some none ∧ st = seed active) ∨
    ∃ prev, g.read = some (some prev) ∧
      (((prev.pendingSlot = none ∨ prev.pendingSlot = some active) ∧
          st = { prev with activeSlot := active }) ∨
        prev.pendingSlot ≠ some active ∧
          st = { prev with activeSlot := active, pendingSlot := none, pendingDeadlineUnix := 0 })
  done g _ := g.flipped ≠ none → g.rebooted = true

def expireRights : Rights Unit where
  write _ := False
  store _ := True
  grub g t := ∃ prev, g.read = some (some prev) ∧ prev.pendingSlot ≠ none ∧
    t = prev.lastGoodSlot
  put _ _ := False
  done g _ := g.flipped ≠ none → g.rebooted = true

section Obeys

variable {α : Type} {R : Rights α} {g : Phase} {slot : Slot}

theorem streamRootfs_obeys (hw : R.write slot) (dev : String) (hdr : TarEntry) :
    (streamRootfs slot dev hdr).Obeys ((monitor R).post fun g' _ => g' = g) g := by
  simp [streamRootfs, Prog.forall_except, Except.mapError]
  intro slotBytes
  split <;> simp [Except.mapError, hw]

theorem takeMember_obeys (hw : R.write slot) (dev : String) (hdr : TarEntry) (version : Bytes)
    (m : Member) :
    (takeMember slot dev hdr version m).Obeys ((monitor R).post fun g' _ => g' = g) g := by
  cases m with
  | version => simp [takeMember]
  | vmlinuz => simp [takeMember, Prog.forall_except]
  | initramfs => simp [takeMember, Prog.forall_except]
  | rootfs =>
    rw [takeMember, Prog.obeys_thenOk]
    refine (streamRootfs_obeys hw dev hdr).mono ?_
    rintro g' (e | u) rfl <;> rfl

theorem tarLoop_obeys (hw : R.write slot) (dev : String) (tarErr : Option Err) :
    ∀ (entries : List TarEntry) (want : List Member) (version : Bytes),
      (tarLoop slot dev tarErr entries want version).Obeys
        ((monitor R).post fun g' _ => g' = g) g := by
  intro entries
  induction entries with
  | nil => intro want version; rfl
  | cons hdr rest ih =>
    intro want version
    rw [tarLoop]
    split
    · split
      · rfl
      · exact ih want version
    · rw [Prog.obeys_thenOk]
      refine (takeMember_obeys hw dev hdr version _).mono ?_
      rintro g' (e | v) rfl
      · rfl
      · exact ih _ v

theorem copyIfChanged_obeys (s : Service) (hw : R.write slot) (f : BootFile) :
    (copyIfChanged s f slot).Obeys ((monitor R).post fun g' _ => g' = g) g := by
  simp [copyIfChanged, Prog.forall_except, Except.mapError, hw]
  intro src dst
  split <;> simp [Prog.forall_except, hw]

theorem armBoot_obeys (s : Service) (hw : R.write slot) (hg : R.grub g slot) :
    (armBoot s slot).Obeys ((monitor R).post fun g' r =>
      match r with
      | .ok _ => g' = { g with flipped := some slot }
      | .error _ => g'.flipped = g.flipped) g := by
  simp [armBoot, withBootMount, Prog.forall_except, Except.mapError]
  refine (copyIfChanged_obeys s hw .vmlinuz).mono ?_
  rintro g' (e | u) rfl
  · simp
  · refine (copyIfChanged_obeys s hw .initramfs).mono ?_
    rintro g' (e | u) rfl
    · simp
    · simp [hg]

theorem persistPending_obeys {active : Slot} {v : Bytes} (ht : g.flipped ≠ none)
    (hp : g.put = false) :
    (persistPending (otherSlot active) v).Obeys (monitor (pushRights active)) g := by
  refine ⟨⟨hp, ht⟩, ?_⟩
  intro r
  cases r with
  | error e => exact fun _ => .inr rfl
  | ok st =>
    refine ⟨ht, fun t => ⟨⟨hp, ht, st, t, v, rfl, rfl, rfl⟩, ?_⟩⟩
    intro r
    cases r <;> exact fun _ => .inl rfl

theorem receiveBundle_obeys (active : Slot) (sha256 : Bytes → String) (r : Push) :
    (receiveBundle ⟨some active, sha256⟩ r).Obeys (monitor (pushRights active)) {} := by
  have hdone : ∀ g : Phase, g.flipped = none → ∀ a, (pushRights active).done g a :=
    fun g hg _ h => absurd hg h
  simp [receiveBundle, Prog.forall_except, Except.mapError, hdone]
  intro dev
  refine (tarLoop_obeys rfl dev r.tarErr r.entries _ []).mono ?_
  rintro g' (e | ⟨missing, v⟩) rfl
  · exact hdone _ rfl (.error e)
  · dsimp only
    split
    · rename_i e _; exact hdone _ rfl (.error e)
    · rw [Prog.obeys_thenOk]
      refine (armBoot_obeys ⟨some active, sha256⟩ rfl rfl).mono ?_
      rintro g' (e | u) h
      · exact hdone _ h (.error e)
      · cases h; exact persistPending_obeys (Option.some_ne_none _) rfl

theorem confirm_obeys (active : Slot) (sha256 : Bytes → String) :
    (confirm ⟨some active, sha256⟩).Obeys (monitor (confirmRights active)) {} := by
  simp [confirm, Prog.forall_except, Except.mapError, confirmRights]
  intro st
  split
  · simp
  · rename_i p hp
    by_cases h : active = p
    · simp [h, Prog.forall_except, Except.mapError, hp]
    · simp [h]

theorem rollbackToLastGood_obeys {γ : Type} {M : Monitor Op Res (Except Err Unit) γ} {g : γ}
    (hfind : M.ok g (.findPartition 1) ∧ ∀ r, M.next g (.findPartition 1) r = g)
    (hmount : M.ok g .mountBoot ∧ ∀ r, M.next g .mountBoot r = g)
    (hgrub : M.ok g (.rewriteGrubDefault slot)) (herr : ∀ e, M.fin g (.error e))
    (hdone : ∀ r, M.ok (M.next g (.rewriteGrubDefault slot) r) .umountBoot ∧
      ∀ u, M.fin (M.next (M.next g (.rewriteGrubDefault slot) r) .umountBoot u) r) :
    (rollbackToLastGood slot).Obeys M g := by
  refine ⟨hfind.1, ?_⟩
  intro r
  rw [hfind.2]
  cases r with
  | error e => exact herr _
  | ok dev =>
    refine ⟨hmount.1, ?_⟩
    intro r
    rw [hmount.2]
    cases r with
    | error e => exact herr _
    | ok _ => exact ⟨hgrub, hdone⟩

theorem onStartup_obeys (active : Slot) (sha256 : Bytes → String) :
    (onStartup ⟨some active, sha256⟩).Obeys (monitor (startupRights active)) {} := by
  simp [onStartup, Prog.forall_except, startupRights]
  refine ⟨?_, ?_⟩
  · intro st
    split
    · rename_i hp; simp [Prog.forall_except, hp]
    · rename_i p hp
      by_cases h : p = active
      · simp [Prog.forall_except, h, hp]
        intro t
        split
        · simp only [Prog.obeys_bind]
          refine rollbackToLastGood_obeys ⟨trivial, fun _ => rfl⟩ ⟨trivial, fun _ => rfl⟩
            ⟨st, rfl, by rw [hp, h], rfl⟩ (fun _ => by simp) ?_
          intro r
          cases r <;> exact ⟨trivial, fun _ => by simp⟩
        · simp
      · simp [Prog.forall_except, h, hp]
  · intro e
    split <;> simp [Prog.forall_except]

theorem deadlineExpired_obeys : deadlineExpired.Obeys (monitor expireRights) {} := by
  simp [deadlineExpired, Prog.forall_except, expireRights]
  intro st
  split
  · simp
  · rename_i p hp
    simp only [Prog.obeys_bind]
    refine rollbackToLastGood_obeys ⟨trivial, fun _ => rfl⟩ ⟨trivial, fun _ => rfl⟩
      ⟨st, rfl, by simp [hp], rfl⟩ (fun _ => by simp) ?_
    intro r
    cases r <;> exact ⟨trivial, fun _ => by simp⟩

end Obeys

end Capsule.Update
