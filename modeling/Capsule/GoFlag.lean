import Mathlib.Data.List.Nodup
import Capsule.GoString

/-!
# Capsule.GoFlag

Go's `flag` package: `FlagSet.Parse` on a list of arguments, with `ParseBool` and `ParseInt` of
`strconv` for the values.

* `Use`, `Arranged`: flags as they may be written, in two parts with an argument between them.
* `parse_uses`, `parse_positional`: `Parse` sets the flags of the first part and stops there.
* `Arranged.parse_first`: all arrangements with the flags first are read alike.
-/

namespace GoFlag

abbrev Text := List UInt8

def dash : UInt8 := 45

def equals : UInt8 := 61

/-- `errParse` and `errRange`. -/
inductive ValueErr where
  | parse
  | range
  deriving DecidableEq

def parseBool (s : Text) : Except ValueErr Bool :=
  if ["1", "t", "T", "TRUE", "true", "True"].any (s = GoString.utf8 ·) then .ok true
  else if ["0", "f", "F", "FALSE", "false", "False"].any (s = GoString.utf8 ·) then .ok false
  else .error .parse

def underscore : UInt8 := 95

def digitValue (c : UInt8) : Option Nat :=
  if GoString.isDigit c then some (c.toNat - 48)
  else if 97 ≤ GoString.lower c ∧ GoString.lower c ≤ 122 then some ((GoString.lower c).toNat - 87)
  else none

/-- The digits of `ParseUint` in base 0, which may have underscores between them: the number, and
whether there were any. -/
def digitLoop (base : Nat) : Text → Nat → Bool → Except ValueErr (Nat × Bool)
  | [], n, underscores => .ok (n, underscores)
  | c :: cs, n, underscores =>
    if c = underscore then digitLoop base cs n true
    else
      match digitValue c with
      | none => .error .parse
      | some d =>
        if base ≤ d then .error .parse
        else if 2 ^ 64 ≤ n * base + d then .error .range
        else digitLoop base cs (n * base + d) underscores

/-- The last thing `underscoreOK` has seen. -/
inductive Saw where
  | start
  | digit
  | underscore
  | other
  deriving DecidableEq

def underscoresFrom (hex : Bool) : Saw → Text → Bool
  | saw, [] => saw ≠ .underscore
  | saw, c :: cs =>
    if GoString.isDigit c ∨ hex ∧ 97 ≤ GoString.lower c ∧ GoString.lower c ≤ 102 then
      underscoresFrom hex .digit cs
    else if c = underscore then
      if saw ≠ .digit then false else underscoresFrom hex .underscore cs
    else if saw = .underscore then false
    else underscoresFrom hex .other cs

/-- The base that the beginning of a number stands for, and what is left. Shorter than three bytes
it is no more than the zero. -/
def basePrefixed : Text → Nat × Text
  | 48 :: c :: d :: rest =>
    if GoString.lower c = 98 then (2, d :: rest)
    else if GoString.lower c = 111 then (8, d :: rest)
    else if GoString.lower c = 120 then (16, d :: rest)
    else (8, c :: d :: rest)
  | 48 :: rest => (8, rest)
  | s => (10, s)

/-- `underscoreOK`; the sign has been cut off before. -/
def underscoreOK : Text → Bool
  | 48 :: c :: rest =>
    if GoString.lower c = 98 ∨ GoString.lower c = 111 ∨ GoString.lower c = 120 then
      underscoresFrom (GoString.lower c = 120) .digit rest
    else underscoresFrom false .start (48 :: c :: rest)
  | s => underscoresFrom false .start s

/-- `strconv.ParseUint(s, 0, 64)`. -/
def parseUint (s : Text) : Except ValueErr Nat :=
  if s = [] then .error .parse
  else
    match digitLoop (basePrefixed s).1 (basePrefixed s).2 0 false with
    | .error e => .error e
    | .ok (n, underscores) => if underscores ∧ ¬ underscoreOK s then .error .parse else .ok n

/-- `strconv.ParseInt(s, 0, 64)`. -/
def parseInt : Text → Except ValueErr Int
  | 45 :: s =>
    match parseUint s with
    | .error e => .error e
    | .ok n => if 2 ^ 63 < n then .error .range else .ok (-n)
  | 43 :: s => bounded (parseUint s)
  | s => bounded (parseUint s)
where
  bounded : Except ValueErr Nat → Except ValueErr Int
    | .error e => .error e
    | .ok n => if 2 ^ 63 ≤ n then .error .range else .ok n

theorem digitLoop_underscores {base n m : Nat} {s : Text} {underscores : Bool}
    (h : digitLoop base s n true = .ok (m, underscores)) : underscores = true := by
  induction s generalizing n with
  | nil => cases h; rfl
  | cons c cs ih =>
    rw [digitLoop] at h
    split at h
    · exact ih h
    · split at h
      · cases h
      · split at h
        · cases h
        · split at h
          · cases h
          · exact ih h

theorem isDigit_of_parseUint {c : UInt8} {s : Text} {n : Nat} (h : parseUint (c :: s) = .ok n) :
    GoString.isDigit c := by
  by_contra hc
  have hzero : c ≠ 48 := by
    rintro rfl; exact hc rfl
  have hbase : basePrefixed (c :: s) = (10, c :: s) := by
    unfold basePrefixed
    split
    · rename_i heq; exact absurd (List.cons.inj heq).1 hzero
    · rename_i heq; exact absurd (List.cons.inj heq).1 hzero
    · rfl
  rw [parseUint, if_neg (List.cons_ne_nil c s), hbase] at h
  by_cases hunder : c = underscore
  · -- an underscore has to follow a digit
    have hbad : underscoreOK (c :: s) = false := by
      rw [hunder]; rfl
    rw [digitLoop, if_pos hunder] at h
    split at h
    · cases h
    · rename_i m underscores hloop
      rw [digitLoop_underscores hloop, hbad, if_pos (by simp)] at h
      cases h
  · have hletter : ∀ d, digitValue c = some d → 10 ≤ d := by
      intro d hd
      rw [digitValue, if_neg hc] at hd
      split at hd
      · rename_i hlower
        have := UInt8.le_iff_toNat_le.mp hlower.1
        cases hd
        exact Nat.le_sub_of_add_le this
      · cases hd
    rw [digitLoop, if_neg hunder] at h
    cases hd : digitValue c with
    | none => rw [hd] at h; cases h
    | some d =>
      rw [hd] at h
      dsimp only at h
      rw [if_pos (hletter d hd)] at h
      cases h

theorem isDigit_of_parseInt {c : UInt8} {s : Text} {n : Int}
    (h : parseInt (dash :: c :: s) = .ok n) : GoString.isDigit c := by
  rw [dash, parseInt] at h
  split at h
  · cases h
  · rename_i hn; exact isDigit_of_parseUint hn

/-- What a flag may be called. -/
def Legal (name : Text) : Prop := name ≠ [] ∧ name.head? ≠ some dash ∧ equals ∉ name

instance (name : Text) : Decidable (Legal name) := inferInstanceAs (Decidable (_ ∧ _ ∧ _))

structure Formal (σ : Type) where
  name : Text
  isBool : Bool
  set : Text → Except ValueErr (σ → σ)

structure FlagSet (σ : Type) where
  formals : List (Formal σ)
  legal : ∀ f ∈ formals, Legal f.name
  /-- No two flags set the same variable. -/
  independent : ∀ f ∈ formals, ∀ g ∈ formals, f.name ≠ g.name → ∀ v w x y, f.set v = .ok x →
    g.set w = .ok y → ∀ s, x (y s) = y (x s)

inductive ParseErr where
  | badSyntax (s : Text)
  | help
  | notDefined (name : Text)
  | invalidBool (value name : Text) (e : ValueErr)
  | needsArgument (name : Text)
  | invalidValue (value name : Text) (e : ValueErr)
  deriving DecidableEq

/-- What `parseOne` takes an argument for. -/
inductive Token where
  | positional
  | terminator
  | bad
  | flag (name : Text) (value : Option Text)
  deriving DecidableEq

/-- What follows the dashes, up to an `=` that is not its first byte, and what follows that. -/
def cutValue : Text → Text × Option Text
  | [] => ([], none)
  | c :: cs =>
    if equals ∈ cs then
      (c :: cs.takeWhile (· ≠ equals), some ((cs.dropWhile (· ≠ equals)).tail))
    else (c :: cs, none)

def named (name : Text) : Token :=
  if name = [] ∨ name.head? = some dash ∨ name.head? = some equals then .bad
  else .flag (cutValue name).1 (cutValue name).2

def token : Text → Token
  | [45, 45] => .terminator
  | 45 :: 45 :: name => named name
  | 45 :: c :: name => named (c :: name)
  | _ => .positional

section Parse

variable {σ : Type} (fs : FlagSet σ)

def lookup (name : Text) : Option (Formal σ) := fs.formals.find? (·.name = name)

/-- The variables and the arguments that are left. -/
def parse : List Text → σ → Except ParseErr (σ × List Text)
  | [], s => .ok (s, [])
  | arg :: args, s =>
    match token arg with
    | .positional => .ok (s, arg :: args)
    | .terminator => .ok (s, args)
    | .bad => .error (.badSyntax arg)
    | .flag name value =>
      match lookup fs name with
      | none =>
        .error (if name = GoString.utf8 "help" ∨ name = GoString.utf8 "h" then .help
          else .notDefined name)
      | some f =>
        if f.isBool then
          let value := value.getD (GoString.utf8 "true")
          match f.set value with
          | .error e => .error (.invalidBool value name e)
          | .ok x => parse args (x s)
        else
          match value, args with
          | some value, args =>
            match f.set value with
            | .error e => .error (.invalidValue value name e)
            | .ok x => parse args (x s)
          | none, [] => .error (.needsArgument name)
          | none, value :: args =>
            match f.set value with
            | .error e => .error (.invalidValue value name e)
            | .ok x => parse args (x s)

end Parse

/-! ## Ways to write a flag -/

inductive Spelling where
  | bare
  | joined (value : Text)
  | separate (value : Text)
  deriving DecidableEq

/-- A flag as it stands among the arguments, after one dash or two. -/
structure Use where
  double : Bool
  name : Text
  spelling : Spelling
  deriving DecidableEq

def Use.head (u : Use) : Text := (if u.double then [dash, dash] else [dash]) ++ u.name

def Use.tokens (u : Use) : List Text :=
  match u.spelling with
  | .bare => [u.head]
  | .joined value => [u.head ++ equals :: value]
  | .separate value => [u.head, value]

section Token

variable {u : Use}

theorem token_head_append (h : Legal u.name) (s : Text) :
    token (u.head ++ s) = named (u.name ++ s) := by
  obtain ⟨double, name, spelling⟩ := u
  obtain ⟨c, name, rfl⟩ := List.exists_cons_of_ne_nil h.1
  have hc : c ≠ dash := fun he => h.2.1 (congrArg some he)
  cases double with
  | true => rfl
  | false =>
    change token (dash :: c :: (name ++ s)) = named (c :: (name ++ s))
    unfold token
    split
    · rename_i heq; exact absurd (List.cons.inj (List.cons.inj heq).2).1 hc
    · rename_i heq; exact absurd (List.cons.inj (List.cons.inj heq).2).1 hc
    · rename_i heq; cases heq; rfl
    · rename_i heq; exact absurd rfl (heq _ _)

theorem named_append (h : Legal u.name) (s : Text) :
    named (u.name ++ s) = .flag (cutValue (u.name ++ s)).1 (cutValue (u.name ++ s)).2 := by
  obtain ⟨c, name, hname⟩ := List.exists_cons_of_ne_nil h.1
  obtain ⟨-, hdash, hequals⟩ := h
  rw [hname] at hdash hequals ⊢
  refine if_neg ?_
  rintro (h | h | h)
  · cases h
  · exact hdash h
  · exact hequals (Option.some.inj h ▸ List.mem_cons_self)

theorem token_head (h : Legal u.name) : token u.head = .flag u.name none := by
  have hcut : cutValue u.name = (u.name, none) := by
    obtain ⟨c, name, hname⟩ := List.exists_cons_of_ne_nil h.1
    have hequals := h.2.2
    rw [hname] at hequals ⊢
    exact if_neg fun hmem => hequals (List.mem_cons_of_mem c hmem)
  have ht := token_head_append h []
  rw [named_append h, List.append_nil, List.append_nil, hcut] at ht
  exact ht

theorem token_joined (h : Legal u.name) (value : Text) :
    token (u.head ++ equals :: value) = .flag u.name (some value) := by
  have hcut : cutValue (u.name ++ equals :: value) = (u.name, some value) := by
    obtain ⟨c, name, hname⟩ := List.exists_cons_of_ne_nil h.1
    have hequals : ∀ b ∈ name, decide (b ≠ equals) = true := by
      intro b hb
      refine decide_eq_true fun he => h.2.2 ?_
      rw [hname, ← he]
      exact List.mem_cons_of_mem c hb
    rw [hname, List.cons_append, cutValue, if_pos (by simp), List.takeWhile_append_of_pos hequals,
      List.dropWhile_append_of_pos hequals]
    simp
  rw [token_head_append h, named_append h, hcut]

end Token

section Uses

variable {σ : Type} {fs : FlagSet σ} {u : Use} {us vs : List Use} {rest : List Text} {s : σ}
  {x : σ → σ}

/-- What the flag does, if it may be written so. A boolean flag takes no argument after it. -/
def update (fs : FlagSet σ) (u : Use) : Option (σ → σ) :=
  match lookup fs u.name with
  | none => none
  | some f =>
    match u.spelling, f.isBool with
    | .bare, true => (f.set (GoString.utf8 "true")).toOption
    | .joined value, _ => (f.set value).toOption
    | .separate value, false => (f.set value).toOption
    | _, _ => none

def apply (fs : FlagSet σ) (s : σ) (u : Use) : σ :=
  match update fs u with
  | some x => x s
  | none => s

theorem lookup_mem {name : Text} {f : Formal σ} (h : lookup fs name = some f) :
    f ∈ fs.formals ∧ f.name = name := by
  unfold lookup at h
  have hname := List.find?_some h
  exact ⟨List.mem_of_find?_eq_some h, of_decide_eq_true hname⟩

theorem ok_of_toOption {ε α : Type} {r : Except ε α} {a : α} (h : r.toOption = some a) :
    r = .ok a := by
  cases r with
  | error e => cases h
  | ok b => exact congrArg Except.ok (Option.some.inj h)

theorem update_cases (h : update fs u = some x) :
    ∃ f value, lookup fs u.name = some f ∧ f.set value = .ok x ∧
      (u.spelling = .bare ∧ f.isBool = true ∧ value = GoString.utf8 "true" ∨
        u.spelling = .joined value ∨ u.spelling = .separate value ∧ f.isBool = false) := by
  unfold update at h
  split at h
  · cases h
  · rename_i f hf
    split at h
    · rename_i hs hb; exact ⟨f, _, hf, ok_of_toOption h, .inl ⟨hs, hb, rfl⟩⟩
    · rename_i value hs; exact ⟨f, value, hf, ok_of_toOption h, .inr (.inl hs)⟩
    · rename_i value hs hb; exact ⟨f, value, hf, ok_of_toOption h, .inr (.inr ⟨hs, hb⟩)⟩
    · cases h

theorem legal_of_update (h : update fs u = some x) : Legal u.name := by
  obtain ⟨f, value, hf, -, -⟩ := update_cases h
  obtain ⟨hmem, hname⟩ := lookup_mem hf
  exact hname ▸ fs.legal f hmem

theorem parse_use (h : update fs u = some x) :
    parse fs (u.tokens ++ rest) s = parse fs rest (x s) := by
  have hlegal := legal_of_update h
  obtain ⟨f, value, hf, hset, ⟨hs, hb, hv⟩ | hs | ⟨hs, hb⟩⟩ := update_cases h
  · rw [Use.tokens, hs, List.singleton_append, parse, token_head hlegal]
    simp only [hf, hb, Option.getD_none, ← hv, hset, if_true]
  · rw [Use.tokens, hs, List.singleton_append, parse, token_joined hlegal]
    cases hb : f.isBool with
    | true => simp only [hf, hb, Option.getD_some, hset, if_true]
    | false => simp only [hf, hb, hset, Bool.false_eq_true, if_false]
  · rw [Use.tokens, hs, List.cons_append, List.singleton_append, parse, token_head hlegal]
    simp only [hf, hb, hset, Bool.false_eq_true, if_false]

theorem parse_uses (h : ∀ u ∈ us, (update fs u).isSome) :
    parse fs (us.flatMap Use.tokens ++ rest) s = parse fs rest (us.foldl (apply fs) s) := by
  induction us generalizing s with
  | nil => rfl
  | cons u us ih =>
    obtain ⟨x, hx⟩ := Option.isSome_iff_exists.mp (h u List.mem_cons_self)
    have happly : apply fs s u = x s := by
      rw [apply, hx]
    rw [List.flatMap_cons, List.append_assoc, parse_use hx,
      ih fun v hv => h v (List.mem_cons_of_mem u hv), List.foldl_cons, happly]

theorem parse_positional {name : Text} (h : name.head? ≠ some dash) :
    parse fs (name :: rest) s = .ok (s, name :: rest) := by
  have htoken : token name = .positional := by
    unfold token
    split
    · exact absurd rfl h
    · exact absurd rfl h
    · exact absurd rfl h
    · rfl
  rw [parse, htoken]

theorem apply_comm {v : Use} (hne : u.name ≠ v.name) (s : σ) :
    apply fs (apply fs s u) v = apply fs (apply fs s v) u := by
  unfold apply
  cases hu : update fs u with
  | none => rfl
  | some x =>
    cases hv : update fs v with
    | none => rfl
    | some y =>
      obtain ⟨f, a, hf, hfx, -⟩ := update_cases hu
      obtain ⟨g, b, hg, hgy, -⟩ := update_cases hv
      obtain ⟨hfm, hfn⟩ := lookup_mem hf
      obtain ⟨hgm, hgn⟩ := lookup_mem hg
      exact (fs.independent f hfm g hgm (by rw [hfn, hgn]; exact hne) a b x y hfx hgy s).symm

theorem foldl_apply_perm (h : us.Perm vs) (hnodup : (us.map Use.name).Nodup) (s : σ) :
    us.foldl (apply fs) s = vs.foldl (apply fs) s := by
  refine h.foldl_eq' ?_ s
  intro u hu v hv s
  by_cases huv : u = v
  · rw [huv]
  · exact apply_comm (fun he => huv (List.inj_on_of_nodup_map hnodup hu hv he)) s

/-- The flags `uses`, none of them twice and each as it may be written, in two parts. -/
structure Arranged (fs : FlagSet σ) (uses before after : List Use) : Prop where
  perm : (before ++ after).Perm uses
  nodup : (uses.map Use.name).Nodup
  valid : ∀ u ∈ uses, (update fs u).isSome

/-- The arguments: one that is no flag between the two parts. -/
def arrange (before after : List Use) (name : Text) : List Text :=
  before.flatMap Use.tokens ++ name :: after.flatMap Use.tokens

variable {uses before after : List Use}

theorem Arranged.first (h : Arranged fs uses before after) : Arranged fs uses uses [] :=
  ⟨by rw [List.append_nil], h.nodup, h.valid⟩

theorem Arranged.valid_parts (h : Arranged fs uses before after) :
    ∀ u ∈ before ++ after, (update fs u).isSome := fun u hu => h.valid u (h.perm.mem_iff.mp hu)

theorem Arranged.foldl_eq (h : Arranged fs uses before after) (s : σ) :
    (before ++ after).foldl (apply fs) s = uses.foldl (apply fs) s :=
  (foldl_apply_perm h.perm.symm h.nodup s).symm

theorem Arranged.parse_first (h : Arranged fs uses before after) {name : Text}
    (hname : name.head? ≠ some dash) (s : σ) :
    parse fs (arrange uses [] name) s = .ok (uses.foldl (apply fs) s, [name]) := by
  rw [arrange, parse_uses h.valid, parse_positional hname]
  rfl

end Uses

end GoFlag
