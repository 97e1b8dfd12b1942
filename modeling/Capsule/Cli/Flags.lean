import Capsule.GoFlag
import Capsule.Store.Types

/-!
# Capsule.Cli.Flags

The arguments of `workload logs` and of `volume create` of `cmd/capsulectl/main.go`. The first sorts
flags and names (`partitionFlags`), which takes the value of a flag for a name when it stands apart;
the second joins the two before (`joinValueFlags`).

* `flags_anywhere_iff`: every arrangement is read as with the flags first, for `volume create`
  always, for `workload logs` exactly if no value stands apart from its flag unless it begins with
  a dash.
-/

namespace Capsule.Cli

open GoFlag

def isFlag : Text → Bool
  | 45 :: _ :: _ => true
  | _ => false

def partitionFlags (args : List Text) : List Text × List Text :=
  (args.filter isFlag, args.filter (!isFlag ·))

def frontLoadFlags (args : List Text) : List Text :=
  args.filter isFlag ++ args.filter (!isFlag ·)

/-- The name of a flag without `=`. -/
def flagName : Text → Option Text
  | 45 :: 45 :: name => if equals ∈ name then none else some name
  | 45 :: c :: name => if equals ∈ c :: name then none else some (c :: name)
  | _ => none

def joinValueFlags (valueFlags : Text → Bool) : List Text → List Text
  | [] => []
  | a :: rest =>
    match flagName a with
    | none => a :: joinValueFlags valueFlags rest
    | some name =>
      if valueFlags name then
        match rest with
        | value :: rest => (a ++ equals :: value) :: joinValueFlags valueFlags rest
        | [] => [a]
      else a :: joinValueFlags valueFlags rest

inductive CliErr where
  | exit (e : ParseErr)
  | fail (e : Err)
  deriving DecidableEq

structure LogsFlags where
  follow : Bool := false
  tail : Int := 0
  serial : Bool := false
  deriving DecidableEq

def follow : Formal LogsFlags :=
  ⟨GoString.utf8 "f", true, fun v => (parseBool v).map fun b s => { s with follow := b }⟩

def tail : Formal LogsFlags :=
  ⟨GoString.utf8 "n", false, fun v => (parseInt v).map fun n s => { s with tail := n }⟩

def serial : Formal LogsFlags :=
  ⟨GoString.utf8 "serial", true, fun v => (parseBool v).map fun b s => { s with serial := b }⟩

theorem of_map_ok {α β ε : Type} {r : Except ε α} {g : α → β} {x : β} (h : r.map g = .ok x) :
    ∃ a, r = .ok a ∧ x = g a := by
  cases r with
  | error e => cases h
  | ok a => cases h; exact ⟨a, rfl, rfl⟩

def logsFlags : FlagSet LogsFlags where
  formals := [follow, tail, serial]
  legal := by decide +kernel
  independent := by
    intro f hf g hg hne v w x y hx hy s
    simp only [List.mem_cons, List.not_mem_nil, or_false] at hf hg
    rcases hf with rfl | rfl | rfl <;> rcases hg with rfl | rfl | rfl
    all_goals
      obtain ⟨a, -, rfl⟩ := of_map_ok hx
      obtain ⟨b, -, rfl⟩ := of_map_ok hy
      first
        | rfl
        | exact absurd rfl hne

def workloadLogsArgs (subArgs : List Text) : Except CliErr (Text × LogsFlags) :=
  let (flagTokens, positionals) := partitionFlags subArgs
  match parse logsFlags flagTokens {} with
  | .error e => .error (.exit e)
  | .ok (flags, _) =>
    match positionals with
    | [] => .error (.fail (.text "workload logs requires a name"))
    | name :: _ => .ok (name, flags)

structure VolumeFlags where
  size : Text := []
  deriving DecidableEq

def size : Formal VolumeFlags :=
  ⟨GoString.utf8 "size", false, fun v => .ok fun s => { s with size := v }⟩

def volumeFlags : FlagSet VolumeFlags where
  formals := [size]
  legal := by decide +kernel
  independent := by
    intro f hf g hg hne
    rw [List.mem_singleton.mp hf, List.mem_singleton.mp hg] at hne
    exact absurd rfl hne

def volumeCreateArgs (subArgs : List Text) : Except CliErr (Text × VolumeFlags) :=
  let normalized := frontLoadFlags (joinValueFlags (· = GoString.utf8 "size") subArgs)
  match parse volumeFlags normalized {} with
  | .error e => .error (.exit e)
  | .ok (_, []) => .error (.fail (.text "volume create requires a name"))
  | .ok (flags, name :: _) => .ok (name, flags)

section Sorting

variable {u : Use} {before after : List Use} {name : Text}

theorem isFlag_head_append (h : Legal u.name) (s : Text) : isFlag (u.head ++ s) = true := by
  obtain ⟨double, name, spelling⟩ := u
  obtain ⟨c, name, rfl⟩ := List.exists_cons_of_ne_nil h.1
  cases double <;> rfl

theorem isFlag_head (h : Legal u.name) : isFlag u.head = true := by
  have := isFlag_head_append h []
  rwa [List.append_nil] at this

theorem isFlag_positional (h : name.head? ≠ some dash) : isFlag name = false := by
  unfold isFlag
  split
  · exact absurd rfl h
  · rfl

theorem partitionFlags_around {before after : List Text} (hbefore : ∀ t ∈ before, isFlag t = true)
    (hafter : ∀ t ∈ after, isFlag t = true) (hname : name.head? ≠ some dash) :
    partitionFlags (before ++ name :: after) = (before ++ after, [name]) := by
  have hpos := isFlag_positional hname
  have hflags : (before ++ name :: after).filter isFlag = before ++ after := by
    rw [List.filter_append, List.filter_cons_of_neg (by simp [hpos]),
      List.filter_eq_self.mpr hbefore, List.filter_eq_self.mpr hafter]
  have hrest : (before ++ name :: after).filter (!isFlag ·) = [name] := by
    rw [List.filter_append, List.filter_cons_of_pos (by simp [hpos]),
      List.filter_eq_nil_iff.mpr (by simpa using hbefore),
      List.filter_eq_nil_iff.mpr (by simpa using hafter)]
    rfl
  rw [partitionFlags, hflags, hrest]

theorem partitionFlags_arrange (h : ∀ u ∈ before ++ after, ∀ t ∈ u.tokens, isFlag t = true)
    (hname : name.head? ≠ some dash) :
    partitionFlags (arrange before after name) =
      ((before ++ after).flatMap Use.tokens, [name]) := by
  have hall : ∀ t ∈ (before ++ after).flatMap Use.tokens, isFlag t = true := by
    intro t ht; obtain ⟨u, hu, ht⟩ := List.mem_flatMap.mp ht; exact h u hu t ht
  rw [List.flatMap_append] at hall ⊢
  exact partitionFlags_around (fun t ht => hall t (List.mem_append_left _ ht))
    (fun t ht => hall t (List.mem_append_right _ ht)) hname

end Sorting

/-- A value that stands apart from its flag begins with a dash. -/
def Attached (u : Use) : Prop := ∀ value, u.spelling = .separate value → value.head? = some dash

section Logs

variable {u : Use} {us before after : List Use} {name : Text}

theorem separate_logs (h : (update logsFlags u).isSome) {value : Text}
    (hs : u.spelling = .separate value) :
    lookup logsFlags u.name = some tail ∧ ∃ n, parseInt value = .ok n := by
  obtain ⟨x, hx⟩ := Option.isSome_iff_exists.mp h
  obtain ⟨f, v, hf, hset, ⟨hs', -, -⟩ | hs' | ⟨hs', hb⟩⟩ := update_cases hx
  · rw [hs] at hs'; cases hs'
  · rw [hs] at hs'; cases hs'
  · rw [hs] at hs'
    cases hs'
    obtain ⟨hmem, -⟩ := lookup_mem hf
    have htail : f = tail := by
      have hmem : f = follow ∨ f = tail ∨ f = serial := by simpa [logsFlags] using hmem
      rcases hmem with rfl | rfl | rfl
      · cases hb
      · rfl
      · cases hb
    obtain ⟨n, hn, -⟩ := of_map_ok (htail ▸ hset)
    exact ⟨htail ▸ hf, n, hn⟩

theorem isFlag_value {value : Text} {n : Int} (hdash : value.head? = some dash)
    (hn : parseInt value = .ok n) : isFlag value = true := by
  cases value with
  | nil => cases hdash
  | cons b rest =>
    obtain rfl := Option.some.inj hdash
    cases rest with
    | nil => cases hn
    | cons c rest => rfl

theorem isFlag_tokens (h : (update logsFlags u).isSome) (ha : Attached u) :
    ∀ t ∈ u.tokens, isFlag t = true := by
  obtain ⟨x, hx⟩ := Option.isSome_iff_exists.mp h
  have hlegal := legal_of_update hx
  intro t ht
  unfold Use.tokens at ht
  split at ht
  · rw [List.mem_singleton.mp ht]; exact isFlag_head hlegal
  · rw [List.mem_singleton.mp ht]; exact isFlag_head_append hlegal _
  · rename_i value hs
    obtain ⟨-, n, hn⟩ := separate_logs h hs
    rcases List.mem_pair.mp ht with rfl | rfl
    · exact isFlag_head hlegal
    · exact isFlag_value (ha _ hs) hn

theorem logs_ok (h : ∀ u ∈ before ++ after, (update logsFlags u).isSome)
    (ha : ∀ u ∈ before ++ after, Attached u) (hname : name.head? ≠ some dash) :
    workloadLogsArgs (arrange before after name) =
      .ok (name, (before ++ after).foldl (apply logsFlags) {}) := by
  have hpart := partitionFlags_arrange (fun u hu => isFlag_tokens (h u hu) (ha u hu)) hname
  have hparse : parse logsFlags ((before ++ after).flatMap Use.tokens ++ []) {} =
      parse logsFlags [] ((before ++ after).foldl (apply logsFlags) {}) := parse_uses h
  rw [List.append_nil] at hparse
  rw [workloadLogsArgs, hpart]
  dsimp only
  rw [hparse, parse]

theorem not_number_head_append (h : (update logsFlags u).isSome) (s : Text) (n : Int) :
    parseInt (u.head ++ s) ≠ .ok n := by
  obtain ⟨x, hx⟩ := Option.isSome_iff_exists.mp h
  obtain ⟨f, v, hf, -, -⟩ := update_cases hx
  obtain ⟨hmem, hname⟩ := lookup_mem hf
  have hstart : ∃ c rest, u.head = dash :: c :: rest ∧ GoString.isDigit c = false := by
    obtain ⟨double, name, spelling⟩ := u
    obtain rfl : f.name = name := hname
    cases double with
    | true => exact ⟨dash, f.name, rfl, rfl⟩
    | false =>
      have hmem : f = follow ∨ f = tail ∨ f = serial := by simpa [logsFlags] using hmem
      rcases hmem with rfl | rfl | rfl
      · exact ⟨102, [], rfl, rfl⟩
      · exact ⟨110, [], rfl, rfl⟩
      · exact ⟨115, [101, 114, 105, 97, 108], rfl, rfl⟩
  obtain ⟨c, rest, hhead, hdigit⟩ := hstart
  rw [hhead]
  intro hn
  have := isDigit_of_parseInt hn
  rw [hdigit] at this
  cases this

theorem next_not_number (h : ∀ u ∈ us, (update logsFlags u).isSome) (t : Text) (ts : List Text)
    (ht : us.flatMap (fun u => u.tokens.filter isFlag) = t :: ts) (n : Int) :
    parseInt t ≠ .ok n := by
  cases us with
  | nil => cases ht
  | cons u us =>
    have hu := h u List.mem_cons_self
    obtain ⟨x, hx⟩ := Option.isSome_iff_exists.mp hu
    have hlegal := legal_of_update hx
    have hfirst : ∃ s rest, u.tokens.filter isFlag = (u.head ++ s) :: rest := by
      unfold Use.tokens
      split
      · exact ⟨[], [], by rw [List.append_nil, List.filter_cons_of_pos (isFlag_head hlegal)]; rfl⟩
      · exact ⟨_, [], List.filter_cons_of_pos (isFlag_head_append hlegal _)⟩
      · rename_i value hs
        refine ⟨[], [value].filter isFlag, ?_⟩
        rw [List.append_nil, List.filter_cons_of_pos (isFlag_head hlegal)]
    obtain ⟨s, rest, hfirst⟩ := hfirst
    rw [List.flatMap_cons, hfirst, List.cons_append] at ht
    rw [← (List.cons.inj ht).1]
    exact not_number_head_append hu s n

theorem parse_detached (h : ∀ u ∈ us, (update logsFlags u).isSome) (hd : ∃ u ∈ us, ¬ Attached u)
    (s : LogsFlags) :
    ∃ e, parse logsFlags (us.flatMap fun u => u.tokens.filter isFlag) s = .error e := by
  induction us generalizing s with
  | nil => obtain ⟨u, hu, -⟩ := hd; cases hu
  | cons u us ih =>
    have hu := h u List.mem_cons_self
    have hus : ∀ v ∈ us, (update logsFlags v).isSome := fun v hv => h v (List.mem_cons_of_mem u hv)
    obtain ⟨x, hx⟩ := Option.isSome_iff_exists.mp hu
    rw [List.flatMap_cons]
    by_cases ha : Attached u
    · have hrest : ∃ v ∈ us, ¬ Attached v := by
        obtain ⟨v, hv, hnot⟩ := hd
        rcases List.mem_cons.mp hv with rfl | hv
        · exact absurd ha hnot
        · exact ⟨v, hv, hnot⟩
      rw [List.filter_eq_self.mpr (isFlag_tokens hu ha), parse_use hx]
      exact ih hus hrest (x s)
    · unfold Attached at ha
      push Not at ha
      obtain ⟨value, hs, hvalue⟩ := ha
      obtain ⟨hlookup, -⟩ := separate_logs hu hs
      have hlegal := legal_of_update hx
      have htokens : u.tokens.filter isFlag = [u.head] := by
        rw [Use.tokens, hs]; simp [isFlag_head hlegal, isFlag_positional hvalue]
      have hnext := next_not_number hus
      rw [htokens, List.singleton_append, parse, token_head hlegal]
      generalize us.flatMap (fun u => u.tokens.filter isFlag) = ts at hnext
      simp only [hlookup, tail, Bool.false_eq_true, if_false]
      cases ts with
      | nil => exact ⟨_, rfl⟩
      | cons t ts =>
        cases hn : parseInt t with
        | ok n => exact absurd hn (hnext t ts rfl n)
        | error e =>
          refine ⟨.invalidValue t u.name e, ?_⟩
          simp only [hn, Except.map]

theorem logs_exit (h : ∀ u ∈ before ++ after, (update logsFlags u).isSome)
    (hd : ∃ u ∈ before ++ after, ¬ Attached u) (hname : name.head? ≠ some dash) :
    ∃ e, workloadLogsArgs (arrange before after name) = .error (.exit e) := by
  obtain ⟨e, he⟩ := parse_detached h hd {}
  have hflags : (arrange before after name).filter isFlag =
      (before ++ after).flatMap fun u => u.tokens.filter isFlag := by
    rw [arrange, List.filter_append, List.filter_cons_of_neg (by simp [isFlag_positional hname]),
      List.filter_flatMap, List.filter_flatMap, List.flatMap_append]
  refine ⟨e, ?_⟩
  rw [workloadLogsArgs, partitionFlags, hflags]
  dsimp only
  rw [he]

end Logs

/-! ## volume create -/

/-- The flag with its value in one argument. -/
def joinUse (u : Use) : Use :=
  match u.spelling with
  | .separate value => { u with spelling := .joined value }
  | _ => u

section Volume

variable {u : Use} {us before after : List Use} {name : Text} {rest : List Text}

theorem flagName_head (h : Legal u.name) : flagName u.head = some u.name := by
  obtain ⟨double, name, spelling⟩ := u
  obtain ⟨c, name, rfl⟩ := List.exists_cons_of_ne_nil h.1
  have hc : c ≠ dash := fun he => h.2.1 (congrArg some he)
  cases double with
  | true => exact if_neg h.2.2
  | false =>
    change flagName (dash :: c :: name) = some (c :: name)
    unfold flagName
    split
    · rename_i heq; exact absurd (List.cons.inj (List.cons.inj heq).2).1 hc
    · rename_i heq; cases heq; exact if_neg h.2.2
    · rename_i heq; exact absurd rfl (heq _ _)

theorem flagName_joined (h : Legal u.name) (value : Text) :
    flagName (u.head ++ equals :: value) = none := by
  obtain ⟨double, name, spelling⟩ := u
  obtain ⟨c, name, rfl⟩ := List.exists_cons_of_ne_nil h.1
  have hc : c ≠ dash := fun he => h.2.1 (congrArg some he)
  cases double with
  | true => exact if_pos (by simp)
  | false =>
    change flagName (dash :: c :: (name ++ equals :: value)) = none
    unfold flagName
    split
    · rename_i heq; exact absurd (List.cons.inj (List.cons.inj heq).2).1 hc
    · rename_i heq; cases heq; exact if_pos (by simp)
    · rfl

theorem flagName_positional (h : name.head? ≠ some dash) : flagName name = none := by
  unfold flagName
  split
  · exact absurd rfl h
  · exact absurd rfl h
  · rfl

theorem joinValueFlags_skip {valueFlags : Text → Bool} {a : Text} (h : flagName a = none) :
    joinValueFlags valueFlags (a :: rest) = a :: joinValueFlags valueFlags rest := by
  rw [joinValueFlags.eq_def]
  simp only [h]

theorem joinValueFlags_join {valueFlags : Text → Bool} {a value : Text} (h : flagName a = some name)
    (hname : valueFlags name = true) :
    joinValueFlags valueFlags (a :: value :: rest) =
      (a ++ equals :: value) :: joinValueFlags valueFlags rest := by
  rw [joinValueFlags.eq_def]
  simp only [h, hname, if_true]

theorem update_joinUse {σ : Type} {fs : FlagSet σ} {x : σ → σ} (h : update fs u = some x) :
    update fs (joinUse u) = some x := by
  obtain ⟨f, value, hf, hset, hs | hs | ⟨hs, -⟩⟩ := update_cases h
  · rw [joinUse, hs.1]; exact h
  · rw [joinUse, hs]; exact h
  · simp only [joinUse, hs, update, hf, hset, Except.toOption]

theorem isFlag_joinUse (h : Legal u.name) : ∀ t ∈ (joinUse u).tokens, isFlag t = true := by
  intro t ht
  obtain ⟨double, name, spelling⟩ := u
  cases spelling with
  | bare => rw [List.mem_singleton.mp ht]; exact isFlag_head h
  | joined value => rw [List.mem_singleton.mp ht]; exact isFlag_head_append h _
  | separate value =>
    rw [List.mem_singleton.mp ht]
    exact isFlag_head_append (u := ⟨double, name, .joined value⟩) h _

theorem joinValueFlags_use (h : (update volumeFlags u).isSome) :
    joinValueFlags (· = GoString.utf8 "size") (u.tokens ++ rest) =
      (joinUse u).tokens ++ joinValueFlags (· = GoString.utf8 "size") rest := by
  obtain ⟨x, hx⟩ := Option.isSome_iff_exists.mp h
  have hlegal := legal_of_update hx
  obtain ⟨f, value, hf, hset, hs⟩ := update_cases hx
  obtain ⟨hmem, hname⟩ := lookup_mem hf
  obtain rfl : f = size := List.mem_singleton.mp hmem
  rcases hs with ⟨-, hb, -⟩ | hs | ⟨hs, -⟩
  · cases hb
  · have hjoin : joinUse u = u := by
      rw [joinUse, hs]
    rw [hjoin, Use.tokens, hs, List.singleton_append, List.singleton_append,
      joinValueFlags_skip (flagName_joined hlegal value)]
  · have hjoin : (joinUse u).tokens = [u.head ++ equals :: value] := by
      rw [joinUse, hs]; rfl
    rw [hjoin, Use.tokens, hs]
    exact joinValueFlags_join (flagName_head hlegal) (decide_eq_true hname.symm)

theorem joinValueFlags_uses (h : ∀ u ∈ us, (update volumeFlags u).isSome) :
    joinValueFlags (· = GoString.utf8 "size") (us.flatMap Use.tokens ++ rest) =
      (us.map joinUse).flatMap Use.tokens ++ joinValueFlags (· = GoString.utf8 "size") rest := by
  induction us with
  | nil => rfl
  | cons u us ih =>
    rw [List.flatMap_cons, List.append_assoc, joinValueFlags_use (h u List.mem_cons_self),
      ih fun v hv => h v (List.mem_cons_of_mem u hv), List.map_cons, List.flatMap_cons,
      List.append_assoc]

theorem joinValueFlags_arrange (h : ∀ u ∈ before ++ after, (update volumeFlags u).isSome)
    (hname : name.head? ≠ some dash) :
    joinValueFlags (· = GoString.utf8 "size") (arrange before after name) =
      arrange (before.map joinUse) (after.map joinUse) name := by
  have hafter : joinValueFlags (· = GoString.utf8 "size") (after.flatMap Use.tokens ++ []) =
      (after.map joinUse).flatMap Use.tokens ++ joinValueFlags (· = GoString.utf8 "size") [] :=
    joinValueFlags_uses fun u hu => h u (List.mem_append_right _ hu)
  rw [List.append_nil] at hafter
  rw [arrange, joinValueFlags_uses fun u hu => h u (List.mem_append_left _ hu),
    joinValueFlags_skip (flagName_positional hname), hafter, arrange]
  simp [joinValueFlags]

theorem volume_ok (h : ∀ u ∈ before ++ after, (update volumeFlags u).isSome)
    (hname : name.head? ≠ some dash) :
    volumeCreateArgs (arrange before after name) =
      .ok (name, (before ++ after).foldl (apply volumeFlags) {}) := by
  have hupdate : ∀ u ∈ before ++ after, update volumeFlags (joinUse u) = update volumeFlags u := by
    intro u hu
    obtain ⟨x, hx⟩ := Option.isSome_iff_exists.mp (h u hu)
    rw [hx, update_joinUse hx]
  have hflag : ∀ v ∈ before.map joinUse ++ after.map joinUse, ∀ t ∈ v.tokens, isFlag t = true := by
    intro v hv
    rw [← List.map_append] at hv
    obtain ⟨u, hu, rfl⟩ := List.mem_map.mp hv
    obtain ⟨x, hx⟩ := Option.isSome_iff_exists.mp (h u hu)
    exact isFlag_joinUse (legal_of_update hx)
  have hsorted : frontLoadFlags (arrange (before.map joinUse) (after.map joinUse) name) =
      ((before ++ after).map joinUse).flatMap Use.tokens ++ [name] := by
    rw [List.map_append]
    exact congrArg (fun p : List Text × List Text => p.1 ++ p.2)
      (partitionFlags_arrange hflag hname)
  have hvalid : ∀ v ∈ (before ++ after).map joinUse, (update volumeFlags v).isSome := by
    intro v hv
    obtain ⟨u, hu, rfl⟩ := List.mem_map.mp hv
    rw [hupdate u hu]
    exact h u hu
  have hfold : ((before ++ after).map joinUse).foldl (apply volumeFlags) {} =
      (before ++ after).foldl (apply volumeFlags) {} := by
    rw [List.foldl_map]
    refine List.foldl_ext _ _ _ fun s u hu => ?_
    rw [apply, apply, hupdate u hu]
  rw [volumeCreateArgs, joinValueFlags_arrange h hname, hsorted, parse_uses hvalid,
    parse_positional hname, hfold]

end Volume

/-- The command reads what `flag.Parse` reads in the arrangement with all flags first, in this
arrangement and in that one. -/
def Agrees {σ : Type} (fs : FlagSet σ) (init : σ) (args : List Text → Except CliErr (Text × σ))
    (uses before after : List Use) (name : Text) : Prop :=
  ∃ flags, parse fs (arrange uses [] name) init = .ok (flags, [name]) ∧
    args (arrange before after name) = .ok (name, flags) ∧
    args (arrange uses [] name) = .ok (name, flags)

/-- The flags of `volume create` may stand anywhere. Those of `workload logs` may if a value that
stands apart from its flag begins with a dash; otherwise no arrangement is read. -/
theorem flags_anywhere_iff (uses before after : List Use) (name : Text)
    (hname : name.head? ≠ some dash) :
    (Arranged logsFlags uses before after →
      (Agrees logsFlags {} workloadLogsArgs uses before after name ↔
        ∀ u ∈ uses, ∀ value, u.spelling = .separate value → value.head? = some dash)) ∧
    (Arranged volumeFlags uses before after →
      Agrees volumeFlags {} volumeCreateArgs uses before after name) := by
  constructor
  · intro harr
    constructor
    · rintro ⟨flags, -, -, hfirst⟩ u hu
      by_contra hnot
      obtain ⟨e, he⟩ := logs_exit harr.first.valid_parts
        ⟨u, List.mem_append_left _ hu, hnot⟩ hname
      rw [he] at hfirst
      cases hfirst
    · intro hattached
      have hall : ∀ u ∈ before ++ after, Attached u := fun u hu =>
        hattached u (harr.perm.mem_iff.mp hu)
      refine ⟨_, harr.parse_first hname {}, ?_, ?_⟩
      · rw [logs_ok harr.valid_parts hall hname, harr.foldl_eq]
      · rw [logs_ok harr.first.valid_parts (fun u hu => hattached u (harr.first.perm.mem_iff.mp hu))
          hname, harr.first.foldl_eq]
  · intro harr
    refine ⟨_, harr.parse_first hname {}, ?_, ?_⟩
    · rw [volume_ok harr.valid_parts hname, harr.foldl_eq]
    · rw [volume_ok harr.first.valid_parts hname, harr.first.foldl_eq]

/-- `-f web -n=5` and `web --size 10GiB`. -/
theorem flags_anywhere_web :
    Agrees logsFlags {} workloadLogsArgs
        [⟨false, [110], .joined [53]⟩, ⟨false, [102], .bare⟩]
        [⟨false, [102], .bare⟩] [⟨false, [110], .joined [53]⟩] [119, 101, 98] ∧
      Agrees volumeFlags {} volumeCreateArgs
        [⟨true, GoString.utf8 "size", .separate (GoString.utf8 "10GiB")⟩] []
        [⟨true, GoString.utf8 "size", .separate (GoString.utf8 "10GiB")⟩] [119, 101, 98] := by
  refine ⟨((flags_anywhere_iff _ _ _ _ (by decide)).1 ⟨?_, ?_, ?_⟩).mpr ?_,
    (flags_anywhere_iff _ _ _ _ (by decide)).2 ⟨?_, ?_, ?_⟩⟩
  · decide
  · decide
  · decide +kernel
  · simp
  · decide +kernel
  · decide +kernel
  · decide +kernel

/-- `workload logs -n 5 web` ends the program, as does `workload logs web -n 5`. -/
theorem logs_loses_separate_tail :
    parse logsFlags (["-n", "5", "web"].map GoString.utf8) {} =
        .ok ({ tail := 5 }, [GoString.utf8 "web"]) ∧
      workloadLogsArgs (["-n", "5", "web"].map GoString.utf8) =
        .error (.exit (.needsArgument (GoString.utf8 "n"))) ∧
      workloadLogsArgs (["web", "-n", "5"].map GoString.utf8) =
        .error (.exit (.needsArgument (GoString.utf8 "n"))) := by
  decide +kernel

end Capsule.Cli
