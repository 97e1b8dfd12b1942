import Capsule.Atomic.Rely
import Capsule.Update.Service

/-!
# Capsule.Update.Bundle

One `ReceiveBundle` call: which bundles it takes, and what it makes of them.

* `Progress`: the invariant of the loop over the archive. What is still wanted is found among the
  entries left, and what is not has been taken.
* `gives_tarLoop`, `gives_armBoot`, `gives_persistPending`: what each part leaves when it succeeds,
  and `gives_receiveBundle` for the whole: the bundle is `Installed`.
* `succeeds_receiveBundle`: with no fault, an `Accepted` bundle is taken.
-/

namespace Capsule.Update

open Atomic

def BootFile.member : BootFile → Member
  | .vmlinuz => .vmlinuz
  | .initramfs => .initramfs

/-- The first entry of a member's name; later ones are dropped. -/
def firstEntry (entries : List TarEntry) (m : Member) : Option TarEntry :=
  entries.find? (·.name = m.name)

def firstNamed (entries : List TarEntry) (m : Member) : Option Bytes :=
  (entries.find? (·.name = m.name)).map (·.body.data)

/-- The content of a bundle's member. -/
def Push.member (r : Push) (m : Member) : Option Bytes := firstNamed r.entries m

/-- The host holds the bundle in `slot`, under the version of the bundle's VERSION. -/
structure Installed (r : Push) (slot : Slot) (version : Bytes) (h : Host) : Prop where
  rootfs : ∃ d ∈ r.member .rootfs, d <+: h.rootfs slot
  boot : ∀ f, ∃ d ∈ r.member (BootFile.member f), h.boot f slot = some d
  named : ∃ d ∈ r.member .version, version = GoString.trimSpace d
  row : ∃ st ∈ h.row, st.lastVersion = version

/-- The file on the boot partition is not taken for the bundle's when it is another. -/
def NoClash (s : Service) (r : Push) (slot : Slot) (h : Host) : Prop :=
  ∀ f, ∀ old ∈ h.boot f slot, ∀ d ∈ r.member (BootFile.member f),
    s.sha256 old = s.sha256 d → old = d

/-- What a push has to be for a slot of that size. -/
structure Accepted (slotBytes : Int) (r : Push) : Prop where
  parses : r.tarErr = none ∧ ∀ e ∈ r.entries, e.body.err = none
  members : ∀ m : Member, ∃ e ∈ r.entries, e.name = m.name
  fits : ∀ e ∈ firstEntry r.entries .rootfs, e.size ≤ slotBytes
  streamed : r.streamErr = none
  size : r.expectSize = 0 ∨ r.bytesIn = r.expectSize
  digest : equalFold r.got r.expectSHA256Hex = true

theorem firstEntry_isSome {entries : List TarEntry} {m : Member} :
    (∃ e, firstEntry entries m = some e) ↔ ∃ e ∈ entries, e.name = m.name := by
  constructor
  · rintro ⟨e, he⟩
    exact ⟨e, List.mem_of_find?_eq_some he, by simpa using List.find?_some he⟩
  · rintro ⟨e, he, hname⟩
    rw [← Option.isSome_iff_exists, firstEntry, List.find?_isSome]
    exact ⟨e, he, by simpa using hname⟩

theorem mem_member {r : Push} {m : Member} {e : TarEntry} (he : e ∈ firstEntry r.entries m) :
    e.body.data ∈ r.member m :=
  Option.mem_map_of_mem (·.body.data) he

theorem Member.name_inj {m m' : Member} (h : m.name = m'.name) : m = m' := by
  revert h; cases m <;> cases m' <;> decide

/-- The member is where the tar loop puts it. -/
def Taken (slot : Slot) (h : Host) (version : Bytes) : Member → Bytes → Prop
  | .version, d => version = GoString.trimSpace d
  | .vmlinuz, d => h.staging .vmlinuz = some d
  | .initramfs, d => h.staging .initramfs = some d
  | .rootfs, d => d <+: h.rootfs slot

theorem taken_staged {slot : Slot} {h : Host} {version d : Bytes} {f : BootFile}
    (ht : Taken slot h version f.member d) : h.staging f = some d := by
  cases f <;> exact ht

/-- The host once a member's content is where the tar loop puts it. -/
def Host.put (h : Host) (slot : Slot) (d : Bytes) : Member → Host
  | .version => h
  | .vmlinuz => h.setStaging .vmlinuz d
  | .initramfs => h.setStaging .initramfs d
  | .rootfs => h.setRootfs slot (overwrite (h.rootfs slot) d)

/-- The version after an entry taken for the member. -/
def versionAfter (version d : Bytes) : Member → Bytes
  | .version => GoString.trimSpace d
  | _ => version

/-- The entry can be taken for the member. -/
structure Fits (slotBytes : Int) (hdr : TarEntry) (m : Member) : Prop where
  read : hdr.body.err = none
  size : m = .rootfs → hdr.size ≤ slotBytes

section Put

variable {slot : Slot} {h : Host} {version d : Bytes}

theorem staging_setStaging {f : BootFile} {d : Bytes} : (h.setStaging f d).staging f = some d :=
  Function.update_self ..

theorem rootfs_setRootfs {d : Bytes} : (h.setRootfs slot d).rootfs slot = d :=
  Function.update_self ..

@[simp] theorem put_boot (m : Member) : (h.put slot d m).boot = h.boot := by cases m <;> rfl

@[simp] theorem put_slotBytes (m : Member) : (h.put slot d m).slotBytes = h.slotBytes := by
  cases m <;> rfl

@[simp] theorem put_row (m : Member) : (h.put slot d m).row = h.row := by cases m <;> rfl

theorem put_rootfs_of_ne {m : Member} (hm : m ≠ .rootfs) :
    (h.put slot d m).rootfs = h.rootfs := by
  cases m with
  | rootfs => exact absurd rfl hm
  | _ => rfl

theorem taken_put (m : Member) :
    Taken slot (h.put slot d m) (versionAfter version d m) m d := by
  cases m with
  | version => exact rfl
  | vmlinuz | initramfs => exact staging_setStaging
  | rootfs => rw [Taken, Host.put, rootfs_setRootfs]; exact List.prefix_append ..

theorem taken_put_of_ne {m m' : Member} {d' : Bytes} (hm : m' ≠ m)
    (ht : Taken slot h version m' d') :
    Taken slot (h.put slot d m) (versionAfter version d m) m' d' := by
  cases m <;> cases m' <;> first | exact absurd rfl hm | exact ht

end Put

theorem gives_same {α : Type} {p : Code (Except Err α)} {h : Host}
    (hp : p.Only fun o => ∀ e h, (sem o e h).1 = h) : p.Gives sem (fun _ h' => h' = h) h :=
  Prog.Safe.mono (hp.safe (F := fun h' => h' = h) (fun _ _ hr hs => hr ▸ hs)
    (fun _ _ _ _ => trivial) (fun _ e h' ho hs => (ho e h').trans hs) rfl) fun _ _ hs _ _ => hs

section Loop

variable {slot : Slot} {dev : String} {h h₀ : Host} {version : Bytes}

theorem gives_writeStaging (f : BootFile) (r : Reader) :
    (writeStaging f r).Gives sem (fun _ h' => r.err = none ∧ h' = h.setStaging f r.data) h := by
  rw [writeStaging, Prog.gives_call]
  intro e
  simp only [sem]
  split
  · rw [Reader.result]
    cases r.err with
    | none => exact Prog.gives_ok.mpr ⟨rfl, rfl⟩
    | some x => exact Prog.gives_error
  · exact Prog.gives_error
  · exact Prog.gives_error

theorem gives_streamRootfs (hdr : TarEntry) :
    (streamRootfs slot dev hdr).Gives sem (fun _ h' => hdr.body.err = none ∧
      hdr.size ≤ h.slotBytes slot ∧
      h' = h.setRootfs slot (overwrite (h.rootfs slot) hdr.body.data)) h := by
  have hsize : (blockDeviceSize slot).Gives sem (fun n h' => n = h.slotBytes slot ∧ h' = h) h := by
    rw [blockDeviceSize, Prog.gives_call]
    intro e
    simp only [sem, Env.answer]
    cases e.fault with
    | none => exact Prog.gives_ok.mpr ⟨rfl, rfl⟩
    | some m => exact Prog.gives_error
  refine hsize.mapErr.thenOk ?_
  rintro _ h ⟨rfl, rfl⟩
  split
  · exact Prog.gives_error
  · rename_i hfits
    refine .mapErr ?_
    rw [writeBlockDevice, Prog.gives_call]
    intro e
    simp only [sem]
    split
    · rw [Reader.result]
      cases hdr.body.err with
      | none => exact Prog.gives_ok.mpr ⟨rfl, Int.not_lt.mp hfits, rfl⟩
      | some x => exact Prog.gives_error
    · exact Prog.gives_error
    · exact Prog.gives_error

theorem gives_takeMember (hdr : TarEntry) (m : Member) :
    (takeMember slot dev hdr version m).Gives sem (fun version' h' =>
      Fits (h.slotBytes slot) hdr m ∧ version' = versionAfter version hdr.body.data m ∧
      h' = h.put slot hdr.body.data m) h := by
  cases m with
  | version =>
    rw [takeMember]
    cases herr : hdr.body.err with
    | some x => exact Prog.gives_error
    | none => exact Prog.gives_ok.mpr ⟨⟨herr, fun h => by cases h⟩, rfl, rfl⟩
  | vmlinuz | initramfs =>
    refine (gives_writeStaging _ hdr.body).thenOk ?_
    rintro _ _ ⟨herr, rfl⟩
    exact Prog.gives_ok.mpr ⟨⟨herr, fun h => by cases h⟩, rfl, rfl⟩
  | rootfs =>
    refine (gives_streamRootfs hdr).thenOk ?_
    rintro _ _ ⟨herr, hsize, rfl⟩
    exact Prog.gives_ok.mpr ⟨⟨herr, fun _ => hsize⟩, rfl, rfl⟩

theorem firstEntry_cons_ne {hdr : TarEntry} {rest : List TarEntry} {m : Member}
    (hne : hdr.name ≠ m.name) : firstEntry (hdr :: rest) m = firstEntry rest m :=
  List.find?_cons_of_neg (by simpa using hne)

theorem firstEntry_cons_eq {hdr : TarEntry} {rest : List TarEntry} {m : Member}
    (hname : hdr.name = m.name) : firstEntry (hdr :: rest) m = some hdr :=
  List.find?_cons_of_pos (by simpa using hname)

/-- How far the loop over the archive `all` has come, from the host `h₀`: what is still wanted is
found among the entries left, what is not has been taken. -/
structure Progress (slot : Slot) (h₀ : Host) (all entries : List TarEntry) (want : List Member)
    (version : Bytes) (h : Host) : Prop where
  boot : h.boot = h₀.boot
  slotBytes : h.slotBytes = h₀.slotBytes
  read : ∀ e ∈ all, e ∈ entries ∨ e.body.err = none
  wanted : ∀ m ∈ want, firstEntry all m = firstEntry entries m
  taken : ∀ m, m ∉ want → ∃ e ∈ firstEntry all m, Taken slot h version m e.body.data
  untouched : .rootfs ∈ want → h.rootfs slot = h₀.rootfs slot
  written : .rootfs ∉ want → ∃ e ∈ firstEntry all .rootfs, e.size ≤ h₀.slotBytes slot ∧
    h.rootfs slot = overwrite (h₀.rootfs slot) e.body.data

section Step

variable {all rest : List TarEntry} {hdr : TarEntry} {want : List Member} {m : Member}

theorem Progress.start (slot : Slot) (h : Host) (all : List TarEntry) :
    Progress slot h all all [.version, .vmlinuz, .initramfs, .rootfs] [] h where
  boot := rfl
  slotBytes := rfl
  read _ he := .inl he
  wanted _ _ := rfl
  taken m hm := absurd (by cases m <;> decide) hm
  untouched _ := rfl
  written hm := absurd (by decide) hm

theorem read_cons (hread : ∀ e ∈ all, e ∈ hdr :: rest ∨ e.body.err = none)
    (herr : hdr.body.err = none) : ∀ e ∈ all, e ∈ rest ∨ e.body.err = none := by
  intro e he
  rcases hread e he with hmem | hnone
  · rcases List.mem_cons.mp hmem with rfl | hmem
    · exact .inr herr
    · exact .inl hmem
  · exact .inr hnone

theorem ne_of_find_none (hfind : want.find? (·.name = hdr.name) = none) (hm : m ∈ want) :
    hdr.name ≠ m.name :=
  fun heq => List.find?_eq_none.mp hfind m hm (by simpa using heq.symm)

theorem name_of_find (hfind : want.find? (·.name = hdr.name) = some m) : hdr.name = m.name := by
  have hname : m.name = hdr.name := by simpa using List.find?_some hfind
  exact hname.symm

theorem Progress.skip (hp : Progress slot h₀ all (hdr :: rest) want version h)
    (hfind : want.find? (·.name = hdr.name) = none) (herr : hdr.body.err = none) :
    Progress slot h₀ all rest want version h where
  boot := hp.boot
  slotBytes := hp.slotBytes
  read := read_cons hp.read herr
  wanted m hm := by rw [hp.wanted m hm, firstEntry_cons_ne (ne_of_find_none hfind hm)]
  taken := hp.taken
  untouched := hp.untouched
  written := hp.written

theorem Progress.take (hp : Progress slot h₀ all (hdr :: rest) want version h)
    (hfind : want.find? (·.name = hdr.name) = some m) (hfits : Fits (h.slotBytes slot) hdr m) :
    Progress slot h₀ all rest (want.filter (· ≠ m)) (versionAfter version hdr.body.data m)
      (h.put slot hdr.body.data m) := by
  have hm : m ∈ want := List.mem_of_find?_eq_some hfind
  have hname : hdr.name = m.name := name_of_find hfind
  have hfirst : firstEntry all m = some hdr := by rw [hp.wanted m hm, firstEntry_cons_eq hname]
  have hkept : ∀ m', m' ∈ want.filter (· ≠ m) ↔ m' ∈ want ∧ m' ≠ m := by
    intro m'; simp
  refine ⟨by simpa using hp.boot, by simpa using hp.slotBytes, read_cons hp.read hfits.read,
    fun m' hm' => ?_, fun m' hm' => ?_, fun hroot => ?_, fun hroot => ?_⟩
  · obtain ⟨hmem, hne⟩ := (hkept m').mp hm'
    have hother : hdr.name ≠ m'.name := fun heq => hne (Member.name_inj (heq.symm.trans hname))
    rw [hp.wanted m' hmem, firstEntry_cons_ne hother]
  · by_cases heq : m' = m
    · subst heq; exact ⟨hdr, hfirst, taken_put m'⟩
    · have hold : m' ∉ want := fun hmem => hm' ((hkept m').mpr ⟨hmem, heq⟩)
      obtain ⟨e, he, ht⟩ := hp.taken m' hold
      exact ⟨e, he, taken_put_of_ne heq ht⟩
  · obtain ⟨hmem, hne⟩ := (hkept .rootfs).mp hroot
    rw [put_rootfs_of_ne hne.symm, hp.untouched hmem]
  · by_cases heq : Member.rootfs = m
    · subst heq
      refine ⟨hdr, hfirst, hp.slotBytes ▸ hfits.size rfl, ?_⟩
      rw [Host.put, rootfs_setRootfs, hp.untouched hm]
    · have hold : .rootfs ∉ want := fun hmem => hroot ((hkept .rootfs).mpr ⟨hmem, heq⟩)
      rw [put_rootfs_of_ne (Ne.symm heq)]
      exact hp.written hold

end Step

/-- By induction on the entries left. -/
theorem gives_tarLoop {all entries : List TarEntry} {tarErr : Option Err} {want : List Member}
    (hp : Progress slot h₀ all entries want version h) :
    (tarLoop slot dev tarErr entries want version).Gives sem
      (fun x h' => tarErr = none ∧ Progress slot h₀ all [] x.1 x.2 h') h := by
  induction entries generalizing want version h with
  | nil =>
    unfold tarLoop
    cases tarErr with
    | some x => exact Prog.gives_error
    | none => exact Prog.gives_ok.mpr ⟨rfl, hp⟩
  | cons hdr rest ih =>
    unfold tarLoop
    cases hfind : want.find? (·.name = hdr.name) with
    | none =>
      dsimp only
      cases herr : hdr.body.err with
      | some x => exact Prog.gives_error
      | none => exact ih (hp.skip hfind herr)
    | some m =>
      refine (gives_takeMember hdr m).thenOk ?_
      rintro _ _ ⟨hfits, rfl, rfl⟩
      exact ih (hp.take hfind hfits)

end Loop

/-! ## The copies and the row -/

/-- A file of the boot partition has been replaced, and nothing else has changed. -/
def Copied (f : BootFile) (slot : Slot) (d : Bytes) (h h' : Host) : Prop :=
  ∃ b, h' = { h with boot := b } ∧ b f slot = some d ∧ ∀ f', f' ≠ f → b f' = h.boot f'

section Arm

variable {s : Service} {f : BootFile} {slot : Slot} {h : Host}

theorem gives_findPartition (n : Nat) : (findPartition n).Gives sem (fun _ h' => h' = h) h :=
  gives_same ⟨fun _ _ => rfl, fun _ => trivial⟩

theorem gives_readStaging {d : Bytes} (hd : h.staging f = some d) :
    (readStaging f).Gives sem (fun x h' => h' = h ∧ x = d) h := by
  rw [readStaging, Prog.gives_call]
  intro e
  simp only [sem, hd, readFile, Env.answer]
  cases e.fault with
  | none => exact Prog.gives_ok.mpr ⟨rfl, rfl⟩
  | some m => exact Prog.gives_error

theorem gives_writeBoot {d : Bytes} :
    (writeBoot f slot d).Gives sem (fun _ => Copied f slot d h) h := by
  rw [writeBoot, Prog.gives_call]
  intro e
  simp only [sem]
  split
  · refine Prog.gives_ok.mpr ⟨_, rfl, ?_, fun f' hf => Function.update_of_ne hf ..⟩
    rw [Function.update_self, Function.update_self]
  · exact Prog.gives_error
  · exact Prog.gives_error

theorem gives_copyIfChanged {d : Bytes} (hd : h.staging f = some d)
    (hclash : ∀ old ∈ h.boot f slot, s.sha256 old = s.sha256 d → old = d) :
    (copyIfChanged s f slot).Gives sem (fun _ => Copied f slot d h) h := by
  have hcopy : ((readStaging f).thenOk fun src => writeBoot f slot src).Gives sem
      (fun _ => Copied f slot d h) h := by
    refine (gives_readStaging hd).thenOk ?_
    rintro d h ⟨rfl, rfl⟩
    exact gives_writeBoot
  refine (gives_readStaging hd).mapErr.thenOk ?_
  rintro d h ⟨rfl, rfl⟩
  rw [readBoot, Prog.call_bind, Prog.gives_call]
  intro e
  simp only [sem, Prog.ret_bind]
  cases hold : h.boot f slot with
  | none => exact hcopy
  | some old =>
    simp only [readFile, Env.answer]
    cases e.fault with
    | some m => exact hcopy
    | none =>
      dsimp only
      split
      · rename_i heq
        obtain rfl := hclash old hold heq
        exact Prog.gives_ok.mpr ⟨_, rfl, hold, fun _ _ => rfl⟩
      · exact hcopy

theorem gives_withBootMount {α : Type} {fn : Code (Except Err α)} {Q : α → Host → Prop}
    (hfn : fn.Gives sem Q h) : (withBootMount fn).Gives sem Q h := by
  have hmount : mountBoot.Gives sem (fun _ h' => h' = h) h :=
    gives_same ⟨fun _ _ => rfl, fun _ => trivial⟩
  refine hmount.thenOk ?_
  rintro _ h rfl
  refine Prog.Gives.bind hfn fun r h' hr => ?_
  rw [umountBoot, Prog.call_bind, Prog.gives_call]
  intro e
  cases r with
  | ok a => exact Prog.gives_ok.mpr (hr a rfl)
  | error x => exact Prog.gives_error

/-- What `armBoot` leaves: both files, and all that the copies do not touch. -/
def Armed (slot : Slot) (h h' : Host) : Prop :=
  (∀ f, h'.boot f slot = h.staging f) ∧ h'.rootfs = h.rootfs

theorem gives_armBoot {k i : Bytes} (hk : h.staging .vmlinuz = some k)
    (hi : h.staging .initramfs = some i)
    (hclash : ∀ f, ∀ old ∈ h.boot f slot, ∀ d ∈ h.staging f,
      s.sha256 old = s.sha256 d → old = d) :
    (armBoot s slot).Gives sem (fun _ => Armed slot h) h := by
  refine (gives_findPartition 1).mapErr.thenOk ?_
  rintro _ h rfl
  refine gives_withBootMount ?_
  refine (gives_copyIfChanged hk fun old ho => hclash .vmlinuz old ho k hk).thenOk ?_
  rintro _ _ ⟨b, rfl, hbk, hbo⟩
  have hsame : b .initramfs = h.boot .initramfs := hbo _ (by decide)
  refine .thenOk (gives_copyIfChanged hi fun old ho => ?_) ?_
  · dsimp only at ho; rw [hsame] at ho; exact hclash .initramfs old ho i hi
  rintro _ _ ⟨b', rfl, hbi, hbo'⟩
  rw [rewriteGrubDefault, Prog.gives_call]
  intro e
  simp only [sem]
  split
  · refine Prog.gives_ok.mpr ⟨fun f => ?_, rfl⟩
    cases f with
    | vmlinuz =>
      have hkept : b' .vmlinuz = b .vmlinuz := hbo' _ (by decide)
      dsimp only
      rw [hkept, hbk, hk]
    | initramfs => exact hbi.trans hi.symm
  · exact Prog.gives_error

theorem stateGet_same (e : Env) (h : Host) : (sem .stateGet e h).1 = h := by
  simp only [sem]
  split <;> rfl

theorem row_setRow (h : Host) (st : OSState) : (h.setRow st).row = some st := by
  rw [Host.setRow]
  split <;> rename_i hp <;> simp [Host.row, hp]

theorem gives_persistPending {version : Bytes} :
    (persistPending slot version).Gives sem (fun x h' => x = (slot, version) ∧
      h'.rootfs = h.rootfs ∧ h'.boot = h.boot ∧
      ∃ st ∈ h'.row, st.pendingSlot = some slot ∧ st.lastVersion = version) h := by
  have hget : stateGet.Gives sem (fun _ h' => h' = h) h :=
    gives_same ⟨stateGet_same, fun _ => trivial⟩
  refine hget.mapErr.thenOk ?_
  rintro st h rfl
  rw [now, Prog.call_bind, Prog.gives_call]
  intro e
  have hput : ∀ row : OSState, (statePut row).Gives sem (fun _ h' => h' = h.setRow row) h := by
    intro row
    rw [statePut, Prog.gives_call]
    intro e
    simp only [sem]
    split
    · exact Prog.gives_error
    · exact Prog.gives_ok.mpr rfl
  refine (hput _).mapErr.thenOk ?_
  rintro _ _ rfl
  refine Prog.gives_ok.mpr ⟨rfl, ?_, ?_, _, row_setRow .., rfl, rfl⟩
  · rw [Host.setRow]
    split <;> rfl
  · rw [Host.setRow]
    split <;> rfl

end Arm

theorem checkBundle_ok_iff {r : Push} {missing : List Member} :
    checkBundle r missing = .ok () ↔ r.streamErr = none ∧ missing = [] ∧
      (r.expectSize = 0 ∨ r.bytesIn = r.expectSize) ∧
      equalFold r.got r.expectSHA256Hex = true := by
  rw [checkBundle]
  cases r.streamErr with
  | some e => simp
  | none =>
    dsimp only
    split
    · rename_i hm; simp [hm]
    · rename_i hm
      split
      · rename_i hsize; simp [hsize]
      · rename_i hsize
        have hsize' : r.expectSize = 0 ∨ r.bytesIn = r.expectSize := by
          rwa [not_and_or, not_not, not_not] at hsize
        simp only [not_not] at hm
        cases hd : equalFold r.got r.expectSHA256Hex <;> simp [hm, hsize']

theorem gives_install {s : Service} {r : Push} {slot : Slot} {version : Bytes} {h : Host}
    (htaken : ∀ m, ∃ d ∈ r.member m, Taken slot h version m d) (hclash : NoClash s r slot h) :
    ((armBoot s slot).thenOk fun _ => persistPending slot version).Gives sem
      (fun x h' => x.1 = slot ∧ h'.rootfs = h.rootfs ∧ Installed r x.1 x.2 h') h := by
  have hstaged : ∀ f : BootFile, ∃ d ∈ r.member f.member, h.staging f = some d := by
    intro f; obtain ⟨d, hd, ht⟩ := htaken f.member; exact ⟨d, hd, taken_staged ht⟩
  have hfiles : ∀ f, ∀ old ∈ h.boot f slot, ∀ d ∈ h.staging f,
      s.sha256 old = s.sha256 d → old = d := by
    intro f old hold d hd
    obtain ⟨d', hd', hs⟩ := hstaged f
    obtain rfl : d' = d := Option.some_inj.mp (hs.symm.trans hd)
    exact hclash f old hold d' hd'
  obtain ⟨k, -, hk⟩ := hstaged .vmlinuz
  obtain ⟨i, -, hi⟩ := hstaged .initramfs
  refine (gives_armBoot hk hi hfiles).thenOk fun _ h₁ harmed => ?_
  refine gives_persistPending.mono ?_
  rintro _ h₂ ⟨rfl, hroot, hboot, st, hst, -, hversion⟩
  obtain ⟨d, hd, ht⟩ := htaken .rootfs
  have hkept : h₂.rootfs = h.rootfs := hroot.trans harmed.2
  refine ⟨rfl, hkept, ⟨d, hd, ?_⟩, fun f => ?_, htaken .version, st, hst, hversion⟩
  · rw [hkept]; exact ht
  · obtain ⟨d, hd, hs⟩ := hstaged f
    refine ⟨d, hd, ?_⟩
    rw [hboot, harmed.1, hs]

theorem gives_removeStaging {h : Host} :
    removeStaging.Gives sem (fun _ h' => h' = { h with staging := fun _ => none }) h := by
  rw [removeStaging, Prog.gives_call]
  intro e
  simp only [sem]
  split
  · exact Prog.gives_ok.mpr rfl
  · exact Prog.gives_error

/-- The slot has been written, from its start. -/
def Written (r : Push) (slot : Slot) (h h' : Host) : Prop :=
  ∃ d ∈ r.member .rootfs, h'.rootfs slot = overwrite (h.rootfs slot) d

theorem gives_of_tarLoop {s : Service} {r : Push} {active : Slot} {h : Host}
    {Q : Slot × Bytes → Host → Prop} (hactive : s.activeSlot = some active)
    (hrest : ∀ version h₂, r.tarErr = none → checkBundle r [] = .ok () →
      Progress (otherSlot active) { h with staging := fun _ => none } r.entries [] [] version h₂ →
      ((armBoot s (otherSlot active)).thenOk fun _ =>
        persistPending (otherSlot active) version).Gives sem Q h₂) :
    (receiveBundle s r).Gives sem Q h := by
  rw [receiveBundle, hactive]
  dsimp only
  refine gives_removeStaging.mapErr.thenOk ?_
  rintro _ h₁ rfl
  have hmkdir : ∀ h₁, mkdirStaging.Gives sem (fun _ h' => h' = h₁) h₁ := fun _ =>
    gives_same ⟨fun _ _ => rfl, fun _ => trivial⟩
  refine (hmkdir _).mapErr.thenOk ?_
  rintro _ _ rfl
  refine (gives_findPartition _).mapErr.thenOk ?_
  rintro dev _ rfl
  refine (gives_tarLoop (Progress.start (otherSlot active) _ r.entries)).thenOk ?_
  rintro ⟨missing, version⟩ h₂ ⟨htar, hp⟩
  dsimp only at hp ⊢
  cases hcheck : checkBundle r missing with
  | error x => exact Prog.gives_error
  | ok u =>
    obtain ⟨-, rfl, -⟩ := checkBundle_ok_iff.mp hcheck
    exact hrest version h₂ htar hcheck hp

theorem Progress.member {r : Push} {slot : Slot} {h₀ h : Host} {version : Bytes}
    (hp : Progress slot h₀ r.entries [] [] version h) (m : Member) :
    ∃ d ∈ r.member m, Taken slot h version m d := by
  obtain ⟨e, he, ht⟩ := hp.taken m List.not_mem_nil
  exact ⟨_, mem_member he, ht⟩

theorem gives_receiveBundle {s : Service} {r : Push} {active : Slot} {h : Host}
    (hactive : s.activeSlot = some active) (hclash : NoClash s r (otherSlot active) h) :
    (receiveBundle s r).Gives sem (fun x h' => Accepted (h.slotBytes (otherSlot active)) r ∧
      x.1 = otherSlot active ∧ Written r (otherSlot active) h h' ∧ Installed r x.1 x.2 h') h := by
  refine gives_of_tarLoop hactive fun version h₂ htar hcheck hp => ?_
  obtain ⟨hstream, -, hsize, hdigest⟩ := checkBundle_ok_iff.mp hcheck
  obtain ⟨e, he, hfits, hroot⟩ := hp.written List.not_mem_nil
  have hfirst : NoClash s r (otherSlot active) h₂ := by
    rw [NoClash, hp.boot]; exact hclash
  refine (gives_install hp.member hfirst).mono ?_
  rintro x h₃ ⟨hslot, hkept, hinst⟩
  refine ⟨⟨⟨htar, fun e he => ?_⟩, fun m => ?_, ?_, hstream, hsize, hdigest⟩, hslot, ?_, hinst⟩
  · exact (hp.read e he).resolve_left List.not_mem_nil
  · obtain ⟨e, he, -⟩ := hp.taken m List.not_mem_nil; exact firstEntry_isSome.mp ⟨e, he⟩
  · intro e' he'; obtain rfl : e = e' := Option.mem_unique he he'; exact hfits
  · exact ⟨_, mem_member he, hkept ▸ hroot⟩

/-- The version of a bundle, as a capsule reads it. -/
def Push.version (r : Push) : Option Bytes := (r.member .version).map GoString.trimSpace

theorem gives_pendingRow {s : Service} {r : Push} {active : Slot} {h : Host}
    (hactive : s.activeSlot = some active) :
    (receiveBundle s r).Gives sem (fun _ h' => ∃ st ∈ h'.row,
      st.pendingSlot = some (otherSlot active) ∧ r.version = some st.lastVersion) h := by
  refine gives_of_tarLoop hactive fun version h₂ _ _ hp => ?_
  refine (Prog.gives_true _ h₂).thenOk fun _ h₃ _ => ?_
  refine gives_persistPending.mono ?_
  rintro _ h₄ ⟨-, -, -, st, hst, hpending, hversion⟩
  obtain ⟨d, hd, htaken⟩ := hp.member .version
  refine ⟨st, hst, hpending, ?_⟩
  rw [Push.version, Option.mem_def.mp hd, hversion]
  exact congrArg some htaken.symm

/-! ## Nothing fails -/

/-- The operation does what it can. -/
def Sound (e : Env) : Prop := e.fault = none

abbrev soundSem : Sem Op Res Host { e // Sound e } := sem.given Sound

section Complete

variable {s : Service} {slot : Slot} {dev : String} {h : Host} {version : Bytes} {f : BootFile}

theorem sound_fault {e : Env} (he : Sound e) : e.fault = none := he

theorem answer_sound {α : Type} {e : Env} (he : Sound e) (a : α) : e.answer a = .ok a := by
  rw [Env.answer, he]

theorem result_read {r : Reader} (hr : r.err = none) : r.result = .ok () := by
  rw [Reader.result, hr]

theorem succeeds_sound {α : Type} {o : Op} {k : Res o → Code (Except Err α)} {Q : α → Host → Prop}
    {x : Host × Res o} (ho : ∀ e, Sound e → sem o e h = x)
    (hk : (k x.2).Succeeds soundSem Q x.1) : (Prog.call o k).Succeeds soundSem Q h :=
  Prog.Safe.given_call ho trivial hk

theorem succeeds_findPartition (n : Nat) :
    (findPartition n).Succeeds soundSem (fun _ h' => h' = h) h :=
  succeeds_sound (x := (h, .ok (h.devPath n))) (fun _ he => by rw [sem, answer_sound he])
    (Prog.succeeds_ok.mpr rfl)

theorem succeeds_writeStaging {r : Reader} (hr : r.err = none) :
    (writeStaging f r).Succeeds soundSem (fun _ h' => h' = h.setStaging f r.data) h :=
  succeeds_sound (x := (h.setStaging f r.data, .ok ()))
    (fun _ he => by simp only [sem, sound_fault he, result_read hr]) (Prog.succeeds_ok.mpr rfl)

theorem succeeds_streamRootfs {hdr : TarEntry} (hr : hdr.body.err = none)
    (hsize : hdr.size ≤ h.slotBytes slot) :
    (streamRootfs slot dev hdr).Succeeds soundSem
      (fun _ h' => h' = h.setRootfs slot (overwrite (h.rootfs slot) hdr.body.data)) h := by
  have hbytes : (blockDeviceSize slot).Succeeds soundSem
      (fun n h' => n = h.slotBytes slot ∧ h' = h) h :=
    succeeds_sound (x := (h, .ok (h.slotBytes slot))) (fun _ he => by rw [sem, answer_sound he])
      (Prog.succeeds_ok.mpr ⟨rfl, rfl⟩)
  refine hbytes.mapErr.thenOk ?_
  rintro _ h ⟨rfl, rfl⟩
  rw [if_neg (Int.not_lt.mpr hsize)]
  refine .mapErr ?_
  exact succeeds_sound (x := (h.setRootfs slot (overwrite (h.rootfs slot) hdr.body.data), .ok ()))
    (fun _ he => by simp only [sem, sound_fault he, result_read hr]) (Prog.succeeds_ok.mpr rfl)

theorem succeeds_takeMember {hdr : TarEntry} {m : Member} (hfits : Fits (h.slotBytes slot) hdr m) :
    (takeMember slot dev hdr version m).Succeeds soundSem
      (fun _ h' => h' = h.put slot hdr.body.data m) h := by
  cases m with
  | version => rw [takeMember, hfits.read]; exact Prog.succeeds_ok.mpr rfl
  | vmlinuz | initramfs =>
    refine (succeeds_writeStaging hfits.read).thenOk ?_
    rintro _ _ rfl
    exact Prog.succeeds_ok.mpr rfl
  | rootfs =>
    refine (succeeds_streamRootfs hfits.read (hfits.size rfl)).thenOk ?_
    rintro _ _ rfl
    exact Prog.succeeds_ok.mpr rfl

theorem succeeds_tarLoop {entries : List TarEntry} {want : List Member}
    (hread : ∀ e ∈ entries, e.body.err = none)
    (hfits : .rootfs ∈ want → ∀ e ∈ firstEntry entries .rootfs, e.size ≤ h.slotBytes slot) :
    (tarLoop slot dev none entries want version).Succeeds soundSem
      (fun _ h' => h'.row = h.row) h := by
  induction entries generalizing want version h with
  | nil => exact Prog.succeeds_ok.mpr rfl
  | cons hdr rest ih =>
    have hhdr := hread hdr List.mem_cons_self
    have hrest : ∀ e ∈ rest, e.body.err = none := fun e he => hread e (List.mem_cons_of_mem hdr he)
    unfold tarLoop
    cases hfind : want.find? (·.name = hdr.name) with
    | none =>
      dsimp only
      rw [hhdr]
      refine ih hrest fun hroot e he => hfits hroot e ?_
      rwa [firstEntry_cons_ne (ne_of_find_none hfind hroot)]
    | some m =>
      have hm : m ∈ want := List.mem_of_find?_eq_some hfind
      have hname : hdr.name = m.name := name_of_find hfind
      refine (succeeds_takeMember ⟨hhdr, ?_⟩).thenOk ?_
      · rintro rfl; exact hfits hm hdr (firstEntry_cons_eq hname)
      · rintro version' _ rfl
        refine (ih hrest fun hroot e he => ?_).mono fun _ h' hrow => hrow.trans (put_row m)
        obtain ⟨hmem, hne⟩ := List.mem_filter.mp hroot
        rw [put_slotBytes]
        refine hfits hmem e ?_
        rwa [firstEntry_cons_ne fun heq => of_decide_eq_true hne
          (Member.name_inj (heq.symm.trans hname))]

theorem succeeds_readStaging {d : Bytes} (hd : h.staging f = some d) :
    (readStaging f).Succeeds soundSem (fun _ h' => h' = h) h :=
  succeeds_sound (x := (h, .ok d)) (fun _ he => by rw [sem, hd, readFile, answer_sound he])
    (Prog.succeeds_ok.mpr rfl)

/-- What the copies leave as it is. -/
def Kept (h h' : Host) : Prop := h'.staging = h.staging ∧ h'.row = h.row

theorem succeeds_copyIfChanged {d : Bytes} (hd : h.staging f = some d) :
    (copyIfChanged s f slot).Succeeds soundSem (fun _ => Kept h) h := by
  have hcopy : ((readStaging f).thenOk fun src => writeBoot f slot src).Succeeds soundSem
      (fun _ => Kept h) h := by
    refine (succeeds_readStaging hd).thenOk ?_
    rintro src h rfl
    exact succeeds_sound (x := (h.setBoot f slot src, .ok ()))
      (fun _ he => by simp only [sem, sound_fault he]) (Prog.succeeds_ok.mpr ⟨rfl, rfl⟩)
  refine (succeeds_readStaging hd).mapErr.thenOk ?_
  rintro src h rfl
  rw [readBoot, Prog.call_bind, Prog.succeeds_call]
  intro e
  simp only [Sem.given, sem, Prog.ret_bind]
  split
  · split
    · exact Prog.succeeds_ok.mpr ⟨rfl, rfl⟩
    · exact hcopy
  · exact hcopy

theorem succeeds_armBoot (hstaged : ∀ f, ∃ d, h.staging f = some d) :
    (armBoot s slot).Succeeds soundSem (fun _ h' => h'.row = h.row) h := by
  refine (succeeds_findPartition 1).mapErr.thenOk ?_
  rintro _ h rfl
  have hmount : mountBoot.Succeeds soundSem (fun _ h' => h' = h) h :=
    succeeds_sound (x := (h, .ok ())) (fun _ he => by rw [sem, answer_sound he])
      (Prog.succeeds_ok.mpr rfl)
  refine hmount.thenOk ?_
  rintro _ h rfl
  obtain ⟨k, hk⟩ := hstaged .vmlinuz
  obtain ⟨i, hi⟩ := hstaged .initramfs
  have hflip : ((copyIfChanged s .vmlinuz slot).thenOk fun _ =>
      (copyIfChanged s .initramfs slot).thenOk fun _ => rewriteGrubDefault slot).Succeeds soundSem
      (fun _ h' => h'.row = h.row) h := by
    refine (succeeds_copyIfChanged hk).thenOk fun _ h₁ hkept => ?_
    refine (succeeds_copyIfChanged (hkept.1 ▸ hi)).thenOk fun _ h₂ hkept' => ?_
    exact succeeds_sound (x := ({ h₂ with grubDefault := slot }, .ok ()))
      (fun _ he => by simp only [sem, sound_fault he])
      (Prog.succeeds_ok.mpr (hkept'.2.trans hkept.2))
  refine Prog.Succeeds.bind hflip ?_
  rintro _ h' ⟨_, rfl, hrow⟩
  exact Prog.succeeds_call.mpr fun _ => Prog.succeeds_ok.mpr hrow

theorem succeeds_persistPending (hrow : h.row ≠ none) :
    (persistPending slot version).Succeeds soundSem (fun _ _ => True) h := by
  obtain ⟨st, hst⟩ := Option.ne_none_iff_exists'.mp hrow
  have hget : stateGet.Succeeds soundSem (fun _ _ => True) h :=
    succeeds_sound (x := (h, .ok st))
      (fun _ he => by cases hperm : h.onPerm <;> simp only [sem, hperm, sound_fault he, hst])
      (Prog.succeeds_ok.mpr trivial)
  refine hget.mapErr.thenOk fun st h₁ _ => ?_
  refine Prog.succeeds_call.mpr fun t => ?_
  have hput : ∀ row h₂, (statePut row).Succeeds soundSem (fun _ _ => True) h₂ := by
    intro row h₂
    exact succeeds_sound (x := (h₂.setRow row, .ok ()))
      (fun _ he => by cases hperm : h₂.onPerm <;> simp only [sem, hperm, sound_fault he])
      (Prog.succeeds_ok.mpr trivial)
  exact (hput _ _).mapErr.thenOk fun _ _ _ => Prog.succeeds_ok.mpr trivial

theorem succeeds_receiveBundle {r : Push} {active : Slot} (hactive : s.activeSlot = some active)
    (hrow : h.row ≠ none) (ha : Accepted (h.slotBytes (otherSlot active)) r) :
    (receiveBundle s r).Succeeds soundSem (fun _ _ => True) h := by
  rw [receiveBundle, hactive]
  have hclean : removeStaging.Succeeds soundSem
      (fun _ h' => h' = { h with staging := fun _ => none }) h :=
    succeeds_sound (x := ({ h with staging := fun _ => none }, .ok ()))
      (fun _ he => by simp only [sem, sound_fault he]) (Prog.succeeds_ok.mpr rfl)
  have hmkdir : ∀ h, mkdirStaging.Succeeds soundSem (fun _ h' => h' = h) h := by
    intro h
    exact succeeds_sound (x := (h, .ok ())) (fun _ he => by rw [sem, answer_sound he])
      (Prog.succeeds_ok.mpr rfl)
  refine hclean.mapErr.thenOk ?_
  rintro _ h₁ hcleaned
  refine (hmkdir h₁).mapErr.thenOk ?_
  rintro _ h₁ rfl
  refine (succeeds_findPartition _).mapErr.thenOk ?_
  rintro dev h₁ rfl
  have hslotBytes : h₁.slotBytes = h.slotBytes := by rw [hcleaned]
  have hrow₁ : h₁.row = h.row := by rw [hcleaned]; rfl
  rw [ha.parses.1]
  have hfits : ∀ e ∈ firstEntry r.entries .rootfs, e.size ≤ h₁.slotBytes (otherSlot active) :=
    hslotBytes ▸ ha.fits
  have hprogress := Progress.start (otherSlot active) h₁ r.entries
  refine ((succeeds_tarLoop ha.parses.2 fun _ => hfits).and_gives
    (Prog.Safe.given (gives_tarLoop hprogress))).thenOk ?_
  rintro ⟨missing, version⟩ h₂ ⟨hrow₂, -, hp⟩
  dsimp only at hrow₂ hp ⊢
  have hmissing : missing = [] := by
    refine List.eq_nil_iff_forall_not_mem.mpr fun m hm => ?_
    obtain ⟨e, he⟩ := firstEntry_isSome.mpr (ha.members m)
    cases he.symm.trans (hp.wanted m hm)
  subst hmissing
  rw [checkBundle_ok_iff.mpr ⟨ha.streamed, rfl, ha.size, ha.digest⟩]
  have hstaged : ∀ f, ∃ d, h₂.staging f = some d := by
    intro f
    obtain ⟨e, -, ht⟩ := hp.taken f.member List.not_mem_nil
    exact ⟨_, taken_staged ht⟩
  refine (succeeds_armBoot hstaged).thenOk fun _ h₃ hrow₃ => ?_
  refine succeeds_persistPending ?_
  rwa [hrow₃, hrow₂, hrow₁]

end Complete

end Capsule.Update
