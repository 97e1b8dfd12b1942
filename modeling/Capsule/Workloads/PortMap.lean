import Capsule.GoString

/-!
# Capsule.Workloads.PortMap

Port mappings as CNI is given them, and as the container driver keeps them in a label:
`gocniPortMappings`, `encodePortMappings` and `decodePortMappings` of `runtime/container`.

* `decodeEntry_encodeEntry`: an entry is read back if its protocol is `Plain`.
* `decode_label_eq_iff`: the label is read back exactly if no protocol has a comma in it, and the
  last does not end in white space.
* `portMapLabel_lossless_iff`: the same of the ports of a spec.
-/

namespace Capsule.Workloads.Containerd

open GoString

structure PortMapping where
  containerPort : UInt32
  hostPort : UInt32
  protocol : List UInt8
  deriving DecidableEq

/-- `gocni.PortMapping`, the fields that are set. -/
structure CNIMapping where
  hostPort : Int32
  containerPort : Int32
  protocol : List UInt8
  deriving DecidableEq

def tcp : List UInt8 := [116, 99, 112]

def gocniPortMapping (toLower : List UInt8 → List UInt8) (p : PortMapping) : CNIMapping where
  hostPort := p.hostPort.toInt32
  containerPort := p.containerPort.toInt32
  protocol := if toLower p.protocol = [] then tcp else toLower p.protocol

def gocniPortMappings (toLower : List UInt8 → List UInt8) (ports : List PortMapping) :
    List CNIMapping :=
  ports.map (gocniPortMapping toLower)

def encodeEntry (m : CNIMapping) : List UInt8 :=
  itoa m.hostPort.toInt ++ 58 :: (itoa m.containerPort.toInt ++ 47 :: m.protocol)

def encodePortMappings (toLower : List UInt8 → List UInt8) (ports : List PortMapping) :
    List UInt8 :=
  [44].intercalate ((gocniPortMappings toLower ports).map encodeEntry)

def decodeEntry (e : List UInt8) : Option CNIMapping := do
  let (hostCtr, proto) ← cut 47 e
  let (hp, cp) ← cut 58 hostCtr
  let h ← atoi hp
  let c ← atoi cp
  return ⟨.ofInt h, .ofInt c, proto⟩

/-- `decodePortMappings`; an entry that cannot be read is skipped. -/
def decodePortMappings (s : List UInt8) : List CNIMapping :=
  if trimSpace s = [] then [] else ((trimSpace s).splitOn 44).filterMap decodeEntry

/-- A protocol without white space and commas. -/
def Plain (proto : List UInt8) : Prop := ∀ b ∈ proto, Visible b ∧ b ≠ 44

instance (proto : List UInt8) : Decidable (Plain proto) :=
  List.decidableBAll (fun b => Visible b ∧ b ≠ 44) proto

theorem inInt_toInt (p : Int32) : inInt p.toInt = some p.toInt := by
  have hlo := p.le_toInt
  have hhi := p.toInt_lt
  rw [inInt, if_pos]
  omega

theorem plain_of_digit {b : UInt8} (h : b = 45 ∨ isDigit b) :
    (Visible b ∧ b ≠ 44) ∧ b ≠ 47 ∧ b ≠ 58 := by
  rcases h with rfl | h
  · decide
  · simp only [isDigit, decide_eq_true_eq] at h
    simp only [Visible]
    refine ⟨⟨⟨?_, ?_⟩, ?_⟩, ?_, ?_⟩ <;> grind

theorem decodeEntry_encodeEntry (m : CNIMapping) : decodeEntry (encodeEntry m) = some m := by
  have hslash : (47 : UInt8) ∉ itoa m.hostPort.toInt ++ 58 :: itoa m.containerPort.toInt := by
    intro h
    rcases List.mem_append.mp h with h | h
    · exact (plain_of_digit (mem_itoa h)).2.1 rfl
    · rcases List.mem_cons.mp h with h | h
      · exact absurd h (by decide)
      · exact (plain_of_digit (mem_itoa h)).2.1 rfl
  have hcolon : (58 : UInt8) ∉ itoa m.hostPort.toInt :=
    fun h => (plain_of_digit (mem_itoa h)).2.2 rfl
  have hsplit : encodeEntry m =
      (itoa m.hostPort.toInt ++ 58 :: itoa m.containerPort.toInt) ++ 47 :: m.protocol := by
    simp [encodeEntry]
  rw [decodeEntry, hsplit, cut_append hslash]
  simp [cut_append hcolon, atoi_itoa (inInt_toInt _)]

theorem comma_mem_encodeEntry {m : CNIMapping} : 44 ∈ encodeEntry m ↔ 44 ∈ m.protocol := by
  have hitoa : ∀ p : Int, (44 : UInt8) ∉ itoa p := fun p h => (plain_of_digit (mem_itoa h)).1.2 rfl
  simp [encodeEntry, hitoa]

theorem intercalate_concat (sep : UInt8) (es : List (List UInt8)) (e : List UInt8) :
    [sep].intercalate (es ++ [e]) = (es.map (· ++ [sep])).flatten ++ e := by
  induction es with
  | nil => simp
  | cons e' es ih =>
    obtain ⟨e'', es', hes⟩ := List.exists_cons_of_ne_nil (List.append_ne_nil_of_right_ne_nil es
      (List.cons_ne_nil e []))
    rw [List.cons_append, hes, List.intercalate_cons_cons, ← hes, ih]
    simp

/-- The label: the entries with commas between them. -/
def label (ms : List CNIMapping) : List UInt8 := [44].intercalate (ms.map encodeEntry)

theorem itoa_head_visible (p : Int) (t : List UInt8) :
    ∃ b a, itoa p ++ 58 :: t = b :: a ∧ Visible b := by
  cases h : itoa p with
  | nil => exact ⟨58, t, rfl, by decide⟩
  | cons b a =>
    have hb : b ∈ itoa p := h ▸ List.mem_cons_self
    exact ⟨b, a ++ 58 :: t, rfl, (plain_of_digit (mem_itoa hb)).1.1⟩

theorem label_concat (ms : List CNIMapping) (m : CNIMapping) :
    ∃ b a, Visible b ∧ ∀ proto,
      label (ms ++ [{ m with protocol := proto }]) = b :: a ++ 47 :: proto := by
  have hlabel : ∀ proto, label (ms ++ [{ m with protocol := proto }]) =
      (ms.map (encodeEntry · ++ [44])).flatten ++ itoa m.hostPort.toInt ++
        58 :: itoa m.containerPort.toInt ++ 47 :: proto := by
    intro proto
    rw [label, List.map_append, List.map_singleton, intercalate_concat]
    simp [encodeEntry, Function.comp_def]
  cases ms with
  | nil =>
    obtain ⟨b, a, hba, hb⟩ := itoa_head_visible m.hostPort.toInt (itoa m.containerPort.toInt)
    exact ⟨b, a, hb, fun proto => by rw [hlabel]; simp [← hba]⟩
  | cons x ms =>
    obtain ⟨b, a, hba, hb⟩ := itoa_head_visible x.hostPort.toInt
      (itoa x.containerPort.toInt ++ 47 :: x.protocol)
    refine ⟨b, a ++ (44 :: (ms.map (encodeEntry · ++ [44])).flatten ++ itoa m.hostPort.toInt ++
      58 :: itoa m.containerPort.toInt), hb, ?_⟩
    intro proto
    rw [hlabel, ← List.cons_append, ← hba]
    simp [encodeEntry]

theorem filterMap_split_label {ms : List CNIMapping} (hne : ms ≠ [])
    (h : ∀ m ∈ ms, 44 ∉ m.protocol) : ((label ms).splitOn 44).filterMap decodeEntry = ms := by
  have hcomma : ∀ e ∈ ms.map encodeEntry, 44 ∉ e := by
    intro e he
    obtain ⟨m, hm, rfl⟩ := List.mem_map.mp he
    rw [comma_mem_encodeEntry]
    exact h m hm
  have hback : decodeEntry ∘ encodeEntry = some := funext decodeEntry_encodeEntry
  rw [label, List.splitOn_intercalate _ hcomma (by simpa using hne), List.filterMap_map, hback,
    List.filterMap_some]

theorem decode_label {ms : List CNIMapping} {m : CNIMapping}
    (h : ∀ x ∈ ms ++ [m], 44 ∉ x.protocol) :
    ∃ proto, (proto = m.protocol ↔ ¬ EndsInSpace m.protocol) ∧
      decodePortMappings (label (ms ++ [m])) = ms ++ [{ m with protocol := proto }] := by
  obtain ⟨b, a, hb, hlabel⟩ := label_concat ms m
  obtain ⟨proto, hpre, hsame, htrim⟩ := trimSpace_append_cons a m.protocol hb
    (by decide : ∀ p ∈ spaces, 47 ∉ p)
  have hkept : trimSpace (label (ms ++ [m])) = label (ms ++ [{ m with protocol := proto }]) :=
    (congrArg trimSpace (hlabel m.protocol)).trans (htrim.trans (hlabel proto).symm)
  have hcomma : ∀ x ∈ ms ++ [{ m with protocol := proto }], 44 ∉ x.protocol := by
    intro x hx
    rcases List.mem_append.mp hx with hx | hx
    · exact h x (List.mem_append_left _ hx)
    · rw [List.mem_singleton.mp hx]; exact fun h44 => h m (by simp) (hpre.subset h44)
  refine ⟨proto, hsame, ?_⟩
  rw [decodePortMappings, hkept, if_neg (by rw [hlabel]; simp),
    filterMap_split_label (by simp) hcomma]

theorem mem_of_decodeEntry {e : List UInt8} {m : CNIMapping} (h : decodeEntry e = some m) :
    ∀ b ∈ m.protocol, b ∈ e := by
  simp only [decodeEntry, Option.bind_eq_bind, Option.bind_eq_some_iff, Prod.exists] at h
  obtain ⟨hostCtr, proto, hcut, hp, cp, -, x, -, y, -, hm⟩ := h
  obtain rfl := Option.some.inj hm
  intro b hb
  rw [cut] at hcut
  split at hcut
  · cases hcut; exact (List.dropWhile_suffix _).subset (List.mem_of_mem_tail hb)
  · cases hcut

theorem comma_not_mem_of_decode {s : List UInt8} {m : CNIMapping} (h : m ∈ decodePortMappings s) :
    44 ∉ m.protocol := by
  rw [decodePortMappings] at h
  split at h
  · cases h
  · obtain ⟨e, he, hdecode⟩ := List.mem_filterMap.mp h
    exact fun h44 => not_mem_of_mem_splitOn he (mem_of_decodeEntry hdecode 44 h44)

theorem decode_label_eq_iff (ms : List CNIMapping) :
    decodePortMappings (label ms) = ms ↔
      (∀ m ∈ ms, 44 ∉ m.protocol) ∧ ∀ m ∈ ms.getLast?, ¬ EndsInSpace m.protocol := by
  rcases List.eq_nil_or_concat ms with rfl | ⟨ms, m, rfl⟩
  · simp [label, decodePortMappings, trimSpace, dropSpaces]
  · rw [List.concat_eq_append]
    constructor
    · intro hback
      have hcomma : ∀ x ∈ ms ++ [m], 44 ∉ x.protocol :=
        fun x hx => comma_not_mem_of_decode (hback.symm ▸ hx)
      obtain ⟨proto, hsame, hdecode⟩ := decode_label hcomma
      refine ⟨hcomma, ?_⟩
      rintro x hx
      obtain rfl : m = x := by simpa using hx
      have hlast := List.append_cancel_left (hdecode.symm.trans hback)
      exact hsame.mp (congrArg CNIMapping.protocol (List.singleton_inj.mp hlast))
    · rintro ⟨hcomma, hend⟩
      obtain ⟨proto, hsame, hdecode⟩ := decode_label hcomma
      rw [hdecode, hsame.mpr (hend m (by simp))]

theorem decode_encode {toLower : List UInt8 → List UInt8} {ports : List PortMapping}
    (h : ∀ m ∈ gocniPortMappings toLower ports, Plain m.protocol) :
    decodePortMappings (encodePortMappings toLower ports) = gocniPortMappings toLower ports := by
  refine (decode_label_eq_iff _).mpr ⟨fun m hm h44 => (h m hm 44 h44).2 rfl, ?_⟩
  rintro m hm ⟨p, hp, hend⟩
  obtain ⟨b, t, rfl, hb⟩ := hidden_spaces.exists_mem hp
  exact hb (h m (List.mem_of_getLast? hm) b (hend.subset List.mem_cons_self)).1

/-- CNI DEL is given what CNI ADD was exactly if no protocol, in lower case, has a comma in it and
that of the last port does not end in white space. -/
theorem portMapLabel_lossless_iff (toLower : List UInt8 → List UInt8) (ports : List PortMapping) :
    decodePortMappings (encodePortMappings toLower ports) = gocniPortMappings toLower ports ↔
      (∀ p ∈ ports, 44 ∉ toLower p.protocol) ∧
        ∀ p ∈ ports.getLast?, ¬ EndsInSpace (toLower p.protocol) := by
  have hproto : ∀ p, (44 ∉ (gocniPortMapping toLower p).protocol ↔ 44 ∉ toLower p.protocol) ∧
      (EndsInSpace (gocniPortMapping toLower p).protocol ↔ EndsInSpace (toLower p.protocol)) := by
    intro p
    by_cases hnil : toLower p.protocol = []
    · simp only [gocniPortMapping, hnil, if_true]; decide
    · simp [gocniPortMapping, hnil]
  refine (decode_label_eq_iff _).trans (and_congr ?_ ?_)
  · simp [gocniPortMappings, hproto]
  · simp [gocniPortMappings, hproto]

/-- Two protocols in one mapping, which the driver hands to CNI as it is. -/
theorem portMapLabel_comma :
    ¬ ∀ (toLower : List UInt8 → List UInt8) (ports : List PortMapping),
      decodePortMappings (encodePortMappings toLower ports) = gocniPortMappings toLower ports := by
  intro hall
  have h := hall (List.map lower) [⟨80, 8080, [84, 67, 80, 44, 85, 68, 80]⟩]
  revert h
  decide

/-- Entries a label cannot have come to hold are skipped. -/
example : decodePortMappings (("bad,2222:22/tcp,bad:port/tcp,,7:7/sctp").toUTF8.data.toList) =
    [⟨2222, 22, tcp⟩, ⟨7, 7, [115, 99, 116, 112]⟩] := by
  decide

end Capsule.Workloads.Containerd
