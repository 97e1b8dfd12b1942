import Capsule.GoString
import Mathlib.Data.List.Sort

/-!
# Capsule.Mdns

The TXT records of `core/mdns`: what a capsule announces of itself (`Announcement.text`) and what
`discover` makes of it (`fromServiceEntry`).

* `add_record`: a record is split at its first `=`, so a value may contain more of them.
* `foldl_optional`: a record that is left out leaves its field as it is.
* `discover_announced`: an entry has the fields that were announced, with the targets sorted.
-/

namespace Capsule.Mdns

abbrev Text := List UInt8

inductive Key where
  | capsuleID | shortID | hostname | adopted | version | mode
  | targetDisk | targetSizeBytes | targets
  deriving DecidableEq

def Key.name : Key → Text
  | .capsuleID => GoString.utf8 "capsule_id"
  | .shortID => GoString.utf8 "short_id"
  | .hostname => GoString.utf8 "hostname"
  | .adopted => GoString.utf8 "adopted"
  | .version => GoString.utf8 "version"
  | .mode => GoString.utf8 "mode"
  | .targetDisk => GoString.utf8 "target_disk"
  | .targetSizeBytes => GoString.utf8 "target_size_bytes"
  | .targets => GoString.utf8 "targets"

def Key.all : List Key :=
  [.capsuleID, .shortID, .hostname, .adopted, .version, .mode, .targetDisk, .targetSizeBytes,
    .targets]

structure Announcement where
  capsuleID : Text
  shortID : Text
  hostname : Text
  adopted : Bool
  version : Text
  mode : Text
  targetDisk : Text
  targetSizeBytes : UInt64
  targets : List Text

def runtime : Text := GoString.utf8 "runtime"

def installer : Text := GoString.utf8 "installer"

def boolStr (b : Bool) : Text := GoString.utf8 (if b then "true" else "false")

def record (k : Key) (v : Text) : Text := k.name ++ 61 :: v

def sortStrings (ts : List Text) : List Text := ts.insertionSort (· ≤ ·)

namespace Announcement

/-- The mode announced. -/
def modeText (a : Announcement) : Text := if a.mode = [] then runtime else a.mode

def text (a : Announcement) : List Text :=
  [record .capsuleID a.capsuleID, record .shortID a.shortID, record .adopted (boolStr a.adopted),
    record .version a.version, record .mode a.modeText] ++
  (if a.hostname ≠ [] then [record .hostname a.hostname] else []) ++
  if a.modeText = installer then
    (if a.targetDisk ≠ [] then [record .targetDisk a.targetDisk] else []) ++
    (if 0 < a.targetSizeBytes then
      [record .targetSizeBytes (GoString.digits a.targetSizeBytes.toNat)] else []) ++
    (if 0 < a.targets.length then
      [record .targets ([44].intercalate (sortStrings a.targets))] else [])
  else []

end Announcement

abbrev IP := List UInt8

/-- `To4`: an address of four bytes, or of sixteen that stands for one. -/
def to4 (ip : IP) : Option IP :=
  if ip.length = 4 then some ip
  else if ip.length = 16 ∧ ip.take 12 = List.replicate 10 0 ++ [255, 255] then some (ip.drop 12)
  else none

/-- `IsLinkLocalUnicast` of an address that is not of four bytes. -/
def isLinkLocal6 (ip : IP) : Bool :=
  ip.length = 16 ∧ ip.head? = some 254 ∧ (ip[1]?.getD 0) &&& 192 = 128

def pickIPv4 (addrs : List IP) : Option IP := addrs.findSome? to4

def pickIPv6 (addrs : List IP) : Option IP :=
  (addrs.find? fun a => to4 a = none ∧ ¬ isLinkLocal6 a).or addrs.head?

structure ServiceEntry where
  inst : Text
  addrIPv4 : List IP
  addrIPv6 : List IP
  port : Int
  text : List Text

structure Entry where
  inst : Text := []
  addr : Text := []
  capsuleID : Text := []
  shortID : Text := []
  hostname : Text := []
  adopted : Bool := false
  version : Text := []
  mode : Text := []
  targetDisk : Text := []
  targetSizeBytes : UInt64 := 0
  targets : List Text := []

def joinHostPort (host port : Text) : Text :=
  if 58 ∈ host then 91 :: host ++ [93, 58] ++ port else host ++ 58 :: port

/-- The switch over the key. -/
def Entry.set (e : Entry) (v : Text) : Key → Entry
  | .capsuleID => { e with capsuleID := v }
  | .shortID => { e with shortID := v }
  | .hostname => { e with hostname := v }
  | .adopted => { e with adopted := v = GoString.utf8 "true" }
  | .version => { e with version := v }
  | .mode => { e with mode := v }
  | .targetDisk => { e with targetDisk := v }
  | .targetSizeBytes =>
    match GoString.parseUint v with
    | .ok n => { e with targetSizeBytes := .ofNat n }
    | .error _ => e
  | .targets => if v ≠ [] then { e with targets := v.splitOn 44 } else e

def Entry.add (e : Entry) (kv : Text) : Entry :=
  match GoString.cut 61 kv with
  | none => e
  | some (k, v) => (Key.all.find? (·.name = k)).elim e (e.set v)

/-- Where the capsule is reached; `ipString` is `IP.String`. -/
def ServiceEntry.addr (ipString : IP → Text) (s : ServiceEntry) : Text :=
  ((pickIPv4 s.addrIPv4).or (pickIPv6 s.addrIPv6)).elim [] fun ip =>
    joinHostPort (ipString ip) (GoString.itoa s.port)

def fromServiceEntry (ipString : IP → Text) (s : ServiceEntry) : Entry :=
  s.text.foldl Entry.add { inst := s.inst, addr := s.addr ipString }

theorem add_record (e : Entry) (k : Key) (v : Text) : e.add (record k v) = e.set v k := by
  have hk : 61 ∉ k.name ∧ Key.all.find? (·.name = k.name) = some k := by cases k <;> decide
  rw [Entry.add, record, GoString.cut_append hk.1]
  simp only [hk.2, Option.elim_some]

theorem foldl_optional (c : Prop) [Decidable c] (e : Entry) (k : Key) (v : Text) :
    (if c then [record k v] else []).foldl Entry.add e = if c then e.set v k else e := by
  split
  · exact add_record e k v
  · rfl

/-! What is left out is what the decoder starts with. -/

section Optional

variable {e : Entry}

theorem set_hostname (h : e.hostname = []) (v : Text) :
    (if v ≠ [] then e.set v .hostname else e) = { e with hostname := v } := by
  split
  · rfl
  · rename_i hv; rw [not_not.1 hv, ← h]

theorem set_targetDisk (h : e.targetDisk = []) (v : Text) :
    (if v ≠ [] then e.set v .targetDisk else e) = { e with targetDisk := v } := by
  split
  · rfl
  · rename_i hv; rw [not_not.1 hv, ← h]

theorem set_targetSizeBytes (h : e.targetSizeBytes = 0) (n : UInt64) :
    (if 0 < n then e.set (GoString.digits n.toNat) .targetSizeBytes else e) =
      { e with targetSizeBytes := n } := by
  split
  · simp only [Entry.set, GoString.parseUint_digits n.toNat_lt, UInt64.ofNat_toNat]
  · rename_i hn
    have hzero : n = 0 := by simpa using hn
    rw [hzero, ← h]

theorem set_targets (h : e.targets = []) {ts : List Text} (hts : ∀ t ∈ ts, t ≠ [] ∧ 44 ∉ t) :
    (if 0 < ts.length then e.set ([44].intercalate (sortStrings ts)) .targets else e) =
      { e with targets := sortStrings ts } := by
  have hmem : ∀ t ∈ sortStrings ts, t ≠ [] ∧ 44 ∉ t :=
    fun t ht => hts t ((List.mem_insertionSort _).1 ht)
  split
  · rename_i hpos
    have hne : sortStrings ts ≠ [] := by
      rw [← List.length_pos_iff, sortStrings, List.length_insertionSort]; exact hpos
    have hsplit := List.splitOn_intercalate 44 (fun t ht => (hmem t ht).2) hne
    have hv : [44].intercalate (sortStrings ts) ≠ [] := by
      intro hv
      rw [hv, List.splitOn_nil] at hsplit
      exact (hmem [] (by simp [← hsplit])).1 rfl
    rw [Entry.set, if_pos hv, hsplit]
  · rename_i hn
    obtain rfl : ts = [] := by simpa using hn
    rw [show sortStrings [] = [] from rfl, ← h]

end Optional

theorem fromServiceEntry_text (ipString : IP → Text) {s : ServiceEntry} {a : Announcement}
    (hs : s.text = a.text) (ha : ∀ t ∈ a.targets, t ≠ [] ∧ 44 ∉ t) :
    fromServiceEntry ipString s =
      { inst := s.inst, addr := s.addr ipString, capsuleID := a.capsuleID, shortID := a.shortID,
        hostname := a.hostname, adopted := a.adopted, version := a.version, mode := a.modeText,
        targetDisk := if a.modeText = installer then a.targetDisk else [],
        targetSizeBytes := if a.modeText = installer then a.targetSizeBytes else 0,
        targets := if a.modeText = installer then sortStrings a.targets else [] } := by
  have hbool : decide (boolStr a.adopted = GoString.utf8 "true") = a.adopted := by
    cases a.adopted <;> decide
  rw [fromServiceEntry, hs, Announcement.text, List.foldl_append, List.foldl_append, foldl_optional]
  simp only [List.foldl_cons, List.foldl_nil, add_record]
  rw [set_hostname rfl]
  split
  · rw [List.foldl_append, List.foldl_append, foldl_optional, foldl_optional, foldl_optional,
      set_targetDisk rfl, set_targetSizeBytes rfl, set_targets rfl ha]
    simp only [Entry.set, hbool]
  · simp only [Entry.set, hbool, List.foldl_nil]

theorem discover_announced (ipString : IP → Text) (s : ServiceEntry) (a : Announcement)
    (hs : s.text = a.text) (ha : ∀ t ∈ a.targets, t ≠ [] ∧ 44 ∉ t) :
    (fromServiceEntry ipString s).capsuleID = a.capsuleID ∧
      (fromServiceEntry ipString s).shortID = a.shortID ∧
      (fromServiceEntry ipString s).hostname = a.hostname ∧
      (fromServiceEntry ipString s).adopted = a.adopted ∧
      (fromServiceEntry ipString s).version = a.version ∧
      (fromServiceEntry ipString s).mode = (if a.mode = [] then runtime else a.mode) ∧
      (a.mode = installer →
        (fromServiceEntry ipString s).targetDisk = a.targetDisk ∧
          (fromServiceEntry ipString s).targetSizeBytes = a.targetSizeBytes ∧
          (fromServiceEntry ipString s).targets.Perm a.targets ∧
          (fromServiceEntry ipString s).targets.Pairwise (· ≤ ·)) ∧
      (a.mode ≠ installer →
        (fromServiceEntry ipString s).targetDisk = [] ∧
          (fromServiceEntry ipString s).targetSizeBytes = 0 ∧
          (fromServiceEntry ipString s).targets = []) := by
  have h := fromServiceEntry_text ipString hs ha
  have hmode : a.modeText = installer ↔ a.mode = installer := by
    unfold Announcement.modeText
    split
    · rename_i hempty; rw [hempty]; decide
    · rfl
  simp only [h, hmode]
  refine ⟨trivial, trivial, trivial, trivial, trivial, rfl, ?_, ?_⟩
  · intro hi
    simp only [hi, if_true]
    exact ⟨trivial, trivial, List.perm_insertionSort _ _, List.pairwise_insertionSort _ _⟩
  · intro hi; simp [hi]

/-- An installer whose version looks like another record. -/
def installerAnnouncement : Announcement :=
  ⟨[49], [99], [], false, GoString.utf8 "mode=runtime", installer, GoString.utf8 "/dev/sdb", 5,
    [GoString.utf8 "/dev/sdb", GoString.utf8 "/dev/sda"]⟩

theorem discover_announced_installer :
    (fromServiceEntry (fun _ => []) ⟨[], [], [], 0, installerAnnouncement.text⟩).version =
        GoString.utf8 "mode=runtime" ∧
      (fromServiceEntry (fun _ => []) ⟨[], [], [], 0, installerAnnouncement.text⟩).targetDisk =
        GoString.utf8 "/dev/sdb" := by
  have h := discover_announced (fun _ => []) ⟨[], [], [], 0, installerAnnouncement.text⟩
    installerAnnouncement rfl (by decide)
  exact ⟨h.2.2.2.2.1, (h.2.2.2.2.2.2.1 rfl).1⟩

end Capsule.Mdns
